import Mathlib.Algebra.Ring.Parity
import ModuleAtlas.Graph.Dot

/-!
# Reading drawings back

A reader of texts in the DOT language: statements that name a node, draw an edge or set a value,
with names as words or in quotes.  A quoted name ends at the first double quote that is not escaped.
A pair of backslashes stands for itself, and a backslash with a quote after it for the quote.
Drawing puts a backslash before each quote of a name and leaves the backslashes of the name as they
are.  So a name is read back exactly when its backslashes come in pairs wherever a quote or the end
of the name follows them.
-/

namespace ModuleAtlas
namespace Dot

/-! ## The reader -/

/-- A statement of a drawing. -/
inductive Statement where
  | node (name : String)
  | edge (source target : String)
  | setting (name value : String)
deriving Repr, DecidableEq

/-- The characters of a quoted text up to the quote that ends it, and what comes after that. -/
def readQuoted : List Char → Option (List Char × List Char)
  | [] => none
  | '"' :: rest => some ([], rest)
  | '\\' :: '"' :: rest => (readQuoted rest).map fun found => ('"' :: found.1, found.2)
  | '\\' :: '\\' :: rest => (readQuoted rest).map fun found => ('\\' :: '\\' :: found.1, found.2)
  | c :: rest => (readQuoted rest).map fun found => (c :: found.1, found.2)

/-- Whether a character may stand in a name without quotes. -/
def isWordChar (c : Char) : Bool := c.isAlphanum || c == '_'

/-- A name in quotes or as a word, and what comes after it. -/
def readName : List Char → Option (String × List Char)
  | '"' :: rest => (readQuoted rest).map fun found => (String.ofList found.1, found.2)
  | text =>
    if (text.takeWhile isWordChar).isEmpty then none
    else some (String.ofList (text.takeWhile isWordChar), text.dropWhile isWordChar)

/-- What comes after white space. -/
def skip (text : List Char) : List Char := text.dropWhile Char.isWhitespace

/-- What comes after a semicolon. -/
def readEnd (text : List Char) : Option (List Char) :=
  match skip text with
  | ';' :: rest => some rest
  | _ => none

/-- A statement of which the first name has been read, and what comes after it. -/
def readAfterName (name : String) (text : List Char) : Option (Statement × List Char) :=
  match skip text with
  | '-' :: '>' :: rest => do
    let (target, rest) ← readName (skip rest)
    return (.edge name target, ← readEnd rest)
  | '=' :: rest => do
    let (value, rest) ← readName (skip rest)
    return (.setting name value, ← readEnd rest)
  | _ => return (.node name, ← readEnd text)

/-- A statement, and what comes after it. -/
def readStatement (text : List Char) : Option (Statement × List Char) := do
  let (name, rest) ← readName (skip text)
  readAfterName name rest

/-- At most so many statements, up to the brace that ends the text. -/
def readStatements : Nat → List Char → Option (List Statement)
  | 0, _ => none
  | fuel + 1, text =>
    match skip text with
    | '\x7d' :: rest => if (skip rest).isEmpty then some [] else none
    | _ => do
      let (statement, rest) ← readStatement text
      return statement :: (← readStatements fuel rest)

/-- The statements of a directed graph. -/
def read (text : String) : Option (List Statement) := do
  let (kind, rest) ← readName (skip text.toList)
  if kind != "digraph" then none
  else
    let (_, rest) ← readName (skip rest)
    match skip rest with
    | '\x7b' :: rest => readStatements (rest.length + 1) rest
    | _ => none

/-! ## Names in quotes -/

/-- The number of backslashes at the end of a text. -/
def slashesAtEnd (text : List Char) : Nat := (text.reverse.takeWhile (· == '\\')).length

/-- Wherever a double quote or the end of a name follows backslashes, they come in pairs. -/
def IsQuotable (name : String) : Prop :=
  ∀ before after, name.toList = before ++ after → (after = [] ∨ after.head? = some '"') →
    Even (slashesAtEnd before)

/-- Whether backslashes come in pairs before each quote of a text and at its end, given whether an
odd number of them stands before the text. -/
def pairsUp : Bool → List Char → Bool
  | odd, [] => !odd
  | odd, '\\' :: rest => pairsUp (!odd) rest
  | odd, '"' :: rest => !odd && pairsUp false rest
  | _, _ :: rest => pairsUp false rest

@[simp]
theorem slashesAtEnd_nil : slashesAtEnd [] = 0 := rfl

@[simp]
theorem slashesAtEnd_slash (text : List Char) :
    slashesAtEnd (text ++ ['\\']) = slashesAtEnd text + 1 := by
  simp [slashesAtEnd]

variable {c : Char} {statement : Statement}

theorem slashesAtEnd_other (text : List Char) (other : c ≠ '\\') :
    slashesAtEnd (text ++ [c]) = 0 := by
  simp [slashesAtEnd, other]

/-- The state of the count is the parity of the backslashes that have just been passed. -/
theorem pairsUp_iff (passed text : List Char) :
    pairsUp (decide (Odd (slashesAtEnd passed))) text = true ↔
      ∀ before after, text = before ++ after → (after = [] ∨ after.head? = some '"') →
        Even (slashesAtEnd (passed ++ before)) := by
  induction text generalizing passed with
  | nil =>
    rw [pairsUp, Bool.not_eq_true', decide_eq_false_iff_not, Nat.not_odd_iff_even]
    constructor
    · intro even before after split _
      obtain ⟨rfl, rfl⟩ := List.append_eq_nil_iff.mp split.symm
      rwa [List.append_nil]
    · intro paired
      have even := paired [] [] rfl (.inl rfl)
      rwa [List.append_nil] at even
  | cons c rest ih =>
    have onward := ih (passed ++ [c])
    have splits : (∀ before after, c :: rest = before ++ after →
        (after = [] ∨ after.head? = some '"') → Even (slashesAtEnd (passed ++ before))) ↔
        (c = '"' → Even (slashesAtEnd passed)) ∧
        ∀ before after, rest = before ++ after → (after = [] ∨ after.head? = some '"') →
          Even (slashesAtEnd (passed ++ [c] ++ before)) := by
      constructor
      · intro paired
        refine ⟨fun quote => ?_, fun before after split ends => ?_⟩
        · have even := paired [] (c :: rest) rfl (.inr (by rw [quote]; rfl))
          rwa [List.append_nil] at even
        · have even := paired (c :: before) after (by rw [split]; rfl) ends
          rwa [List.append_assoc]
      · rintro ⟨here, later⟩ before after split ends
        rcases before with _ | ⟨first, before⟩
        · subst split
          rw [List.append_nil]
          exact here (Option.some.inj (ends.resolve_left (List.cons_ne_nil _ _)))
        · obtain ⟨rfl, rfl⟩ := List.cons.inj split
          have even := later before after rfl ends
          rwa [List.append_assoc] at even
    rw [splits, ← onward]
    by_cases slash : c = '\\'
    · subst slash
      rw [pairsUp, slashesAtEnd_slash]
      simp [Nat.odd_add_one, ← Nat.not_odd_iff_even]
    rw [slashesAtEnd_other passed slash]
    by_cases quote : c = '"'
    · subst quote
      simp [pairsUp]
    · rw [pairsUp]
      · simp [quote]
      · exact slash
      · exact quote

theorem isQuotable_iff (name : String) : IsQuotable name ↔ pairsUp false name.toList = true := by
  have paired := pairsUp_iff [] name.toList
  simp only [slashesAtEnd_nil, List.nil_append] at paired
  exact paired.symm

/-! ## Quoting and reading -/

/-- The characters of a name as they stand in quotes. -/
def escaped (name : List Char) : List Char :=
  name.flatMap fun c => if c = '"' then ['\\', '"'] else [c]

@[simp]
theorem escaped_quote (rest : List Char) :
    escaped ('"' :: rest) = '\\' :: '"' :: escaped rest := rfl

theorem escaped_cons (other : c ≠ '"') (rest : List Char) :
    escaped (c :: rest) = c :: escaped rest := by
  simp [escaped, other]

/-- The backslash that is still open when an odd number of them has been passed. -/
def pending (odd : Bool) : List Char := if odd then ['\\'] else []

theorem readQuoted_other (noSlash : c ≠ '\\') (noQuote : c ≠ '"') (rest : List Char) :
    readQuoted (c :: rest) = (readQuoted rest).map fun found => (c :: found.1, found.2) := by
  rw [readQuoted]
  · exact noQuote
  · rintro _ rfl
    exact absurd rfl noSlash
  · rintro _ rfl
    exact absurd rfl noSlash

theorem readQuoted_pending_other (odd : Bool) (noSlash : c ≠ '\\') (noQuote : c ≠ '"')
    (rest : List Char) :
    readQuoted (pending odd ++ c :: rest) =
      (readQuoted rest).map fun found => (pending odd ++ c :: found.1, found.2) := by
  cases odd with
  | false => exact readQuoted_other noSlash noQuote rest
  | true =>
    show readQuoted ('\\' :: c :: rest) = _
    rw [readQuoted, readQuoted_other noSlash noQuote, Option.map_map]
    · rfl
    · decide
    · rintro _ _ same
      exact noQuote (List.cons.inj same).1
    · rintro _ _ same
      exact noSlash (List.cons.inj same).1

/-- An escaped name whose backslashes come in pairs is read back as it was. -/
theorem readQuoted_escaped {odd : Bool} {name : List Char} (paired : pairsUp odd name = true)
    (tail : List Char) :
    readQuoted (pending odd ++ escaped name ++ '"' :: tail) = some (pending odd ++ name, tail) := by
  induction name generalizing odd with
  | nil =>
    cases odd with
    | false => rfl
    | true => cases paired
  | cons c rest ih =>
    by_cases slash : c = '\\'
    · subst slash
      rw [pairsUp] at paired
      have found := ih paired
      cases odd with
      | false => exact found
      | true =>
        show readQuoted ('\\' :: '\\' :: (escaped rest ++ '"' :: tail)) = _
        rw [readQuoted, show readQuoted (escaped rest ++ '"' :: tail) = _ from found]
        rfl
    by_cases quote : c = '"'
    · subst quote
      rw [pairsUp, Bool.and_eq_true, Bool.not_eq_true'] at paired
      obtain ⟨rfl, paired⟩ := paired
      show readQuoted ('\\' :: '"' :: (escaped rest ++ '"' :: tail)) = _
      rw [readQuoted, show readQuoted (escaped rest ++ '"' :: tail) = _ from
        ih paired]
      rfl
    · rw [pairsUp] at paired
      · rw [escaped_cons quote, List.append_assoc, List.cons_append,
          readQuoted_pending_other odd slash quote,
          show readQuoted (escaped rest ++ '"' :: tail) = _ from ih paired]
        rfl
      · exact slash
      · exact quote

/-- Where the name is read back, its backslashes come in pairs. -/
theorem pairsUp_of_readQuoted {odd : Bool} {name tail left : List Char}
    (found : readQuoted (pending odd ++ escaped name ++ '"' :: tail) =
      some (pending odd ++ name, left)) :
    pairsUp odd name = true := by
  induction name generalizing odd with
  | nil =>
    cases odd with
    | false => rfl
    | true =>
      obtain ⟨_, _, same⟩ := Option.map_eq_some_iff.mp found
      cases same
  | cons c rest ih =>
    by_cases slash : c = '\\'
    · subst slash
      rw [pairsUp]
      cases odd with
      | false => exact ih found
      | true =>
        obtain ⟨⟨text, left⟩, read, same⟩ := Option.map_eq_some_iff.mp found
        cases same
        exact @ih false read
    by_cases quote : c = '"'
    · subst quote
      rw [pairsUp]
      cases odd with
      | false =>
        obtain ⟨⟨text, left⟩, read, same⟩ := Option.map_eq_some_iff.mp found
        cases same
        exact @ih false read
      | true => cases found
    · rw [escaped_cons quote, List.append_assoc, List.cons_append,
        readQuoted_pending_other odd slash quote] at found
      obtain ⟨⟨text, left⟩, read, same⟩ := Option.map_eq_some_iff.mp found
      simp only [Prod.mk.injEq, List.append_cancel_left_eq, List.cons.injEq, true_and] at same
      obtain ⟨rfl, rfl⟩ := same
      rw [pairsUp]
      · exact @ih false read
      · exact slash
      · exact quote

/-! ## Lines -/

/-- A name in quotes, as a drawing writes it. -/
def quoted (name : String) : List Char := '"' :: escaped name.toList ++ ['"']

/-- A quoted name is read back when its backslashes pair up. -/
theorem readName_quoted {name : String} (quotable : IsQuotable name) (tail : List Char) :
    readName (quoted name ++ tail) = some (name, tail) := by
  have found := @readQuoted_escaped false _ ((isQuotable_iff name).mp quotable) tail
  unfold quoted
  rw [List.append_assoc, List.cons_append, readName, List.singleton_append,
    show readQuoted (escaped name.toList ++ '"' :: tail) = _ from found]
  simp [pending]

/-- A quoted name is read as another one unless its backslashes pair up. -/
theorem isQuotable_of_readName {name : String} {tail left : List Char}
    (found : readName (quoted name ++ tail) = some (name, left)) :
    IsQuotable name := by
  unfold quoted at found
  rw [List.append_assoc, List.cons_append, readName, List.singleton_append] at found
  obtain ⟨⟨text, left⟩, read, same⟩ := Option.map_eq_some_iff.mp found
  simp only [Prod.mk.injEq] at same
  obtain ⟨rfl, rfl⟩ := same
  rw [String.toList_ofList] at read
  rw [isQuotable_iff, String.toList_ofList]
  exact @pairsUp_of_readQuoted false _ _ _ read

namespace Statement

/-- The name that a statement begins with. -/
def first : Statement → String
  | .node name => name
  | .edge source _ => source
  | .setting name _ => name

/-- The names in quotes that a statement holds. -/
def names : Statement → List String
  | .node name => [name]
  | .edge source target => [source, target]
  | .setting _ _ => []

/-- A statement as a drawing writes it in a line of its own. -/
def line : Statement → List Char
  | .node name => quoted name ++ [';']
  | .edge source target => quoted source ++ [' ', '-', '>', ' '] ++ quoted target ++ [';']
  | .setting name value => name.toList ++ '=' :: value.toList ++ [';']

end Statement

theorem first_of_readAfterName {name : String} {text rest : List Char}
    (found : readAfterName name text = some (statement, rest)) : statement.first = name := by
  unfold readAfterName at found
  split at found
  · simp only [Option.bind_eq_bind, Option.bind_eq_some_iff, Option.pure_def,
      Option.some.injEq, Prod.mk.injEq] at found
    obtain ⟨_, _, _, _, rfl, _⟩ := found
    rfl
  · simp only [Option.bind_eq_bind, Option.bind_eq_some_iff, Option.pure_def,
      Option.some.injEq, Prod.mk.injEq] at found
    obtain ⟨_, _, _, _, rfl, _⟩ := found
    rfl
  · simp only [Option.bind_eq_bind, Option.bind_eq_some_iff, Option.pure_def,
      Option.some.injEq, Prod.mk.injEq] at found
    obtain ⟨_, _, rfl, _⟩ := found
    rfl

/-- The text of some lines up to the end of a drawing. -/
def body (statements : List Statement) : List Char :=
  (statements.flatMap fun statement => '\n' :: ' ' :: ' ' :: statement.line) ++
    ['\n', '\x7d', '\n']

/-- A statement names a node or draws an edge. -/
def IsDrawn : Statement → Prop
  | .node _ | .edge _ _ => True
  | .setting _ _ => False

theorem skip_line (name : String) (tail : List Char) :
    skip ('\n' :: ' ' :: ' ' :: quoted name ++ tail) = quoted name ++ tail :=
  rfl

/-- A statement is read back from its line, whatever follows. -/
theorem readStatement_line (drawn : IsDrawn statement)
    (quotable : ∀ name ∈ statement.names, IsQuotable name) (tail : List Char) :
    readStatement ('\n' :: ' ' :: ' ' :: statement.line ++ tail) = some (statement, tail) := by
  unfold readStatement
  cases statement with
  | node name =>
    rw [Statement.line, ← List.cons_append, ← List.cons_append, ← List.cons_append,
      List.append_assoc, skip_line, readName_quoted (quotable name (List.mem_singleton_self _))]
    rfl
  | edge source target =>
    have later := readName_quoted (quotable target (by simp [Statement.names])) (';' :: tail)
    have found := readName_quoted (quotable source (by simp [Statement.names]))
      (' ' :: '-' :: '>' :: ' ' :: (quoted target ++ ';' :: tail))
    have shape : '\n' :: ' ' :: ' ' :: (Statement.edge source target).line ++ tail =
        '\n' :: ' ' :: ' ' :: quoted source ++
          (' ' :: '-' :: '>' :: ' ' :: (quoted target ++ ';' :: tail)) := by
      simp [Statement.line]
    rw [shape, skip_line, found]
    show (do
      let found ← readName (quoted target ++ ';' :: tail)
      let rest ← readEnd found.2
      return (Statement.edge source found.1, rest)) = _
    rw [later]
    rfl
  | setting name value => cases drawn

/-- A line that is read back as the statement has names that can be quoted. -/
theorem quotable_of_readStatement {tail left : List Char}
    (found : readStatement ('\n' :: ' ' :: ' ' :: statement.line ++ tail) =
      some (statement, left)) : ∀ name ∈ statement.names, IsQuotable name := by
  unfold readStatement at found
  obtain ⟨⟨first, rest⟩, read, after⟩ := Option.bind_eq_some_iff.mp found
  have same := first_of_readAfterName after
  cases statement with
  | node name =>
    cases same
    intro other member
    cases List.mem_singleton.mp member
    rw [Statement.line, ← List.cons_append, ← List.cons_append, ← List.cons_append,
      List.append_assoc, skip_line] at read
    exact isQuotable_of_readName read
  | edge source target =>
    cases same
    have shape : '\n' :: ' ' :: ' ' :: (Statement.edge source target).line ++ tail =
        '\n' :: ' ' :: ' ' :: quoted source ++
          (' ' :: '-' :: '>' :: ' ' :: (quoted target ++ ';' :: tail)) := by
      simp [Statement.line]
    rw [shape, skip_line] at read
    have quotable := isQuotable_of_readName read
    rw [readName_quoted quotable] at read
    cases read
    obtain ⟨⟨other, rest⟩, readTarget, after⟩ := Option.bind_eq_some_iff.mp
      (show (do
        let found ← readName (quoted target ++ ';' :: tail)
        let rest ← readEnd found.2
        return (Statement.edge source found.1, rest)) = _ from after)
    obtain ⟨_, _, same⟩ := Option.bind_eq_some_iff.mp after
    cases same
    intro name member
    simp only [Statement.names, List.mem_cons, List.not_mem_nil, or_false] at member
    rcases member with rfl | rfl
    · exact quotable
    · exact isQuotable_of_readName readTarget
  | setting name value => exact fun _ member => absurd member List.not_mem_nil

theorem body_cons (statement : Statement) (rest : List Statement) :
    body (statement :: rest) = '\n' :: ' ' :: ' ' :: statement.line ++ body rest := by
  simp [body]

theorem readStatements_cons (drawn : IsDrawn statement) (rest : List Statement) (fuel : Nat) :
    readStatements (fuel + 1) (body (statement :: rest)) = (do
      let (statement, text) ← readStatement ('\n' :: ' ' :: ' ' :: statement.line ++ body rest)
      return statement :: (← readStatements fuel text)) := by
  rw [body_cons]
  cases statement with
  | node name => rfl
  | edge source target => rfl
  | setting name value => cases drawn

/-- Lines whose names are quotable are read back. -/
theorem readStatements_body {statements : List Statement}
    (drawn : ∀ statement ∈ statements, IsDrawn statement)
    (quotable : ∀ statement ∈ statements, ∀ name ∈ statement.names, IsQuotable name)
    {fuel : Nat} (enough : statements.length < fuel) :
    readStatements fuel (body statements) = some statements := by
  induction statements generalizing fuel with
  | nil =>
    obtain ⟨fuel, rfl⟩ := Nat.exists_eq_succ_of_ne_zero (Nat.ne_zero_of_lt enough)
    rfl
  | cons statement rest ih =>
    obtain ⟨fuel, rfl⟩ := Nat.exists_eq_succ_of_ne_zero (Nat.ne_zero_of_lt enough)
    have here := drawn statement List.mem_cons_self
    rw [readStatements_cons here, readStatement_line here (quotable statement List.mem_cons_self)]
    show (do return statement :: (← readStatements fuel (body rest))) = _
    rw [ih (fun other member => drawn other (List.mem_cons_of_mem _ member))
      (fun other member => quotable other (List.mem_cons_of_mem _ member))
      (Nat.lt_of_succ_lt_succ enough)]
    rfl

/-- Only lines whose names are quotable are read back. -/
theorem quotable_of_readStatements {statements : List Statement}
    (drawn : ∀ statement ∈ statements, IsDrawn statement)
    {fuel : Nat} (found : readStatements fuel (body statements) = some statements) :
    ∀ statement ∈ statements, ∀ name ∈ statement.names, IsQuotable name := by
  induction statements generalizing fuel with
  | nil => exact fun _ member => absurd member List.not_mem_nil
  | cons statement rest ih =>
    cases fuel with
    | zero => cases found
    | succ fuel =>
      have here := drawn statement List.mem_cons_self
      rw [readStatements_cons here] at found
      obtain ⟨⟨first, text⟩, read, found⟩ := Option.bind_eq_some_iff.mp found
      obtain ⟨more, readRest, same⟩ := Option.bind_eq_some_iff.mp found
      cases same
      have quotable := quotable_of_readStatement read
      rw [readStatement_line here quotable] at read
      cases read
      intro other member
      rcases List.mem_cons.mp member with rfl | later
      · exact quotable
      · exact ih
          (fun other member => drawn other (List.mem_cons_of_mem _ member)) readRest other later

/-! ## Whole drawings -/

/-- What a drawing begins with. -/
def header : List Char := "digraph Dependencies \x7b\n  rankdir=LR;".toList

/-- The setting that a drawing begins with. -/
def direction : Statement := .setting "rankdir" "LR"

theorem length_le_length_body (statements : List Statement) :
    statements.length ≤ (body statements).length := by
  induction statements with
  | nil => exact Nat.zero_le _
  | cons statement rest ih =>
    rw [body_cons, List.length_append]
    simp only [List.length_cons]
    omega

/-- After its first lines a drawing is read line by line. -/
theorem read_eq (statements : List Statement) :
    read (String.ofList (header ++ body statements)) = (do
      let more ← readStatements ("\n  rankdir=LR;".toList ++ body statements).length
        (body statements)
      return direction :: more) := by
  unfold read
  rw [String.toList_ofList]
  rfl

/-- A drawing is read as what it was drawn from exactly when all names in it are quotable. -/
theorem read_eq_some_iff {statements : List Statement}
    (drawn : ∀ statement ∈ statements, IsDrawn statement) :
    read (String.ofList (header ++ body statements)) = some (direction :: statements) ↔
      ∀ statement ∈ statements, ∀ name ∈ statement.names, IsQuotable name := by
  rw [read_eq]
  constructor
  · intro found
    obtain ⟨more, read, same⟩ := Option.bind_eq_some_iff.mp found
    cases same
    exact quotable_of_readStatements drawn read
  · intro quotable
    rw [readStatements_body drawn quotable]
    · rfl
    · have long := length_le_length_body statements
      have short : "\n  rankdir=LR;".toList.length = 14 := rfl
      rw [List.length_append, short]
      omega

end Dot
end ModuleAtlas
