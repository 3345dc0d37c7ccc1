import Mathlib.Tactic.SplitIfs
import ModuleAtlas.Proofs.Text.Pieces
import ModuleAtlas.Text.Integer

/-!
# String literals

The value of a string literal is a list of 16-bit units, read from left to right.  Two things are
done to literals elsewhere: other quotes are put around them, and their runs of white space are
collapsed.  Either keeps the value exactly when it changes nothing that counts: no quote of the new
kind stands inside unescaped, and no white space but single spaces.
-/

namespace ModuleAtlas
namespace Text

/-- The 16-bit units of a code point. -/
def codeUnits (code : Nat) : List Nat :=
  if code < 0x10000 then [code]
  else [0xD800 + (code - 0x10000) / 0x400, 0xDC00 + (code - 0x10000) % 0x400]

/-- Where in a string literal a reader is. -/
inductive Stage where
  | plain
  /-- Behind a backslash. -/
  | escape
  /-- Behind an escaped carriage return, whose line feed belongs to it. -/
  | carriage
  /-- Behind an escaped zero, which no digit may follow. -/
  | zero
  /-- Before so many hexadecimal digits of a number. -/
  | hex (left value : Nat)
  /-- Before four hexadecimal digits or some in braces. -/
  | wide
  /-- Inside braces. -/
  | braced (value : Option Nat)
deriving Repr, DecidableEq

namespace Stage

/-- Whether a literal may end here. -/
def isOpen : Stage → Bool
  | .plain | .carriage | .zero => true
  | _ => false

/-- A character that is not part of an escape. -/
def plainStep (c : Char) : Option (Stage × List Nat) :=
  if c = '\\' then some (.escape, [])
  else if c = '\n' ∨ c = '\r' then none
  else some (.plain, codeUnits c.toNat)

/-- The character behind a backslash.  An escaped line end stands for nothing. -/
def escapeStep (c : Char) : Option (Stage × List Nat) :=
  match c with
  | 'b' => some (.plain, [8])
  | 't' => some (.plain, [9])
  | 'n' => some (.plain, [10])
  | 'v' => some (.plain, [11])
  | 'f' => some (.plain, [12])
  | 'r' => some (.plain, [13])
  | '0' => some (.zero, [0])
  | 'x' => some (.hex 2 0, [])
  | 'u' => some (.wide, [])
  | '\r' => some (.carriage, [])
  | '\n' | '\u2028' | '\u2029' => some (.plain, [])
  | c => if c.isDigit then none else some (.plain, codeUnits c.toNat)

/-- Where a reader is behind a character, and the units that it has got from it. -/
def step : Stage → Char → Option (Stage × List Nat)
  | .plain, c => plainStep c
  | .escape, c => escapeStep c
  | .carriage, c => if c = '\n' then some (.plain, []) else plainStep c
  | .zero, c => if c.isDigit then none else plainStep c
  | .hex left value, c =>
    (hexDigit? c).map fun digit =>
      if left ≤ 1 then (.plain, [16 * value + digit])
      else (.hex (left - 1) (16 * value + digit), [])
  | .wide, c =>
    if c = '{' then some (.braced none, [])
    else (hexDigit? c).map fun digit => (.hex 3 digit, [])
  | .braced value, c =>
    if c = '}' then value.map fun code => (.plain, codeUnits code)
    else
      (hexDigit? c).bind fun digit =>
        let code := 16 * value.getD 0 + digit
        if code ≤ 0x10FFFF then some (.braced (some code), []) else none

end Stage

/-- The units of a literal up to its quote, which must be the last character. -/
def unitsFrom (quote : Char) : Stage → List Char → Option (List Nat)
  | _, [] => none
  | stage, c :: rest =>
    if c = quote ∧ stage.isOpen then if rest = [] then some [] else none
    else (stage.step c).bind fun next => (unitsFrom quote next.1 rest).map (next.2 ++ ·)

/-- The value of a string literal, if the text is one. -/
def literalValue? : List Char → Option (List Nat)
  | [] => none
  | quote :: rest => if quote = '"' ∨ quote = '\'' then unitsFrom quote .plain rest else none

/-- Whether a text between quotes holds a character that no backslash stands in front of. -/
def holdsBare (searched : Char) : Bool → List Char → Bool
  | _, [] => false
  | true, _ :: rest => holdsBare searched false rest
  | false, c :: rest =>
    if c = '\\' then holdsBare searched true rest
    else c == searched || holdsBare searched false rest

/-- The characters that end a line of source text. -/
def isTerminator (c : Char) : Bool := c == '\n' || c == '\r' || c == '\u2028' || c == '\u2029'

/-- Runs of white space as one space, also at the ends. -/
def squeeze : List Char → List Char
  | [] => []
  | c :: rest =>
    if isBlank c then if rest.head?.any isBlank then squeeze rest else ' ' :: squeeze rest
    else c :: squeeze rest

section

variable {quote other c : Char} {stage next : Stage} {body text rest : List Char}
  {units first : List Nat}

/-! ## Single steps -/

/-- Neither a quote nor a backslash is part of an escape unless a backslash stands in front of it.
-/
theorem Stage.step_eq_none (special : c = '\\' ∨ c = '"' ∨ c = '\'') (closed : stage.isOpen = false)
    (inside : stage ≠ .escape) :
    stage.step c = none := by
  cases stage with
  | plain | carriage | zero => cases closed
  | escape => exact absurd rfl inside
  | hex left value | wide | braced value => rcases special with rfl | rfl | rfl <;> rfl

theorem Stage.plainStep_escape_iff (stepped : plainStep c = some (next, first)) :
    next = .escape ↔ c = '\\' := by
  unfold plainStep at stepped
  split_ifs at stepped with backslash
  · cases stepped
    exact ⟨fun _ => backslash, fun _ => rfl⟩
  · cases stepped
    exact ⟨nofun, fun same => absurd same backslash⟩

theorem Stage.escapeStep_ne_escape (stepped : escapeStep c = some (next, first)) :
    next ≠ .escape := by
  unfold escapeStep at stepped
  split at stepped
  all_goals first | (cases stepped; exact nofun) | skip
  split at stepped <;> cases stepped
  exact nofun

/-- Only a backslash outside of escapes leads behind a backslash. -/
theorem Stage.next_eq_escape_iff (stepped : stage.step c = some (next, first)) :
    next = .escape ↔ c = '\\' ∧ stage.isOpen = true := by
  have closed : stage.isOpen = false → next ≠ .escape →
      (next = .escape ↔ c = '\\' ∧ stage.isOpen = true) :=
    fun inside other => ⟨fun same => absurd same other, fun ⟨_, outside⟩ => by
      rw [inside] at outside
      cases outside⟩
  cases stage with
  | plain => simpa [isOpen] using plainStep_escape_iff stepped
  | carriage =>
    rw [step] at stepped
    split at stepped
    · rename_i feed
      cases stepped
      simp [feed]
    · simpa [isOpen] using plainStep_escape_iff stepped
  | zero =>
    rw [step] at stepped
    split at stepped
    · cases stepped
    · simpa [isOpen] using plainStep_escape_iff stepped
  | escape => exact closed rfl (escapeStep_ne_escape stepped)
  | hex left value =>
    refine closed rfl ?_
    obtain ⟨digit, -, ends⟩ := Option.map_eq_some_iff.mp stepped
    split at ends <;> cases ends <;> exact nofun
  | wide =>
    refine closed rfl ?_
    rw [step] at stepped
    split at stepped
    · cases stepped
      exact nofun
    · obtain ⟨digit, -, ends⟩ := Option.map_eq_some_iff.mp stepped
      cases ends
      exact nofun
  | braced value =>
    refine closed rfl ?_
    rw [step] at stepped
    split at stepped
    · obtain ⟨code, -, ends⟩ := Option.map_eq_some_iff.mp stepped
      cases ends
      exact nofun
    · obtain ⟨digit, -, ends⟩ := Option.bind_eq_some_iff.mp stepped
      dsimp only at ends
      split at ends <;> cases ends
      exact nofun

theorem codeUnits_of_isBlank (blank : isBlank c = true) : codeUnits c.toNat = [c.toNat] := by
  have small : c.toNat < 0x10000 := by
    unfold isBlank at blank
    simp only [Bool.or_eq_true, Bool.and_eq_true, decide_eq_true_eq, beq_iff_eq] at blank
    omega
  rw [codeUnits, if_pos small]

theorem not_digit_of_isBlank (blank : isBlank c = true) :
    c.isDigit = false ∧ hexDigit? c = none := by
  unfold isBlank at blank
  simp only [Bool.or_eq_true, Bool.and_eq_true, decide_eq_true_eq, beq_iff_eq] at blank
  have code : ∀ d : Char, d.toNat = d.val.toNat := fun _ => rfl
  constructor
  · simp only [Char.isDigit, ge_iff_le, Bool.and_eq_false_iff, decide_eq_false_iff_not,
      UInt32.le_iff_toNat_le, ← code]
    simp
    omega
  · simp only [hexDigit?, Char.le_def, UInt32.le_iff_toNat_le, ← code]
    rw [if_neg, if_neg, if_neg]
    all_goals simp; omega

/-- White space within a line stands for itself, but not inside of an escape. -/
theorem Stage.step_blank (blank : isBlank c = true) (inLine : isTerminator c = false) :
    stage.step c =
      if stage.isOpen || stage == .escape then some (.plain, [c.toNat]) else none := by
  have differs : ∀ d, isBlank d = false → c ≠ d := by
    rintro d visible rfl
    rw [blank] at visible
    cases visible
  have breaks : ∀ d, isTerminator d = true → c ≠ d := by
    rintro d terminates rfl
    rw [inLine] at terminates
    cases terminates
  have noDigit := not_digit_of_isBlank blank
  have plainly : plainStep c = some (.plain, [c.toNat]) := by
    rw [plainStep, if_neg (differs '\\' (by decide)), if_neg, codeUnits_of_isBlank blank]
    simp [breaks '\n' (by decide), breaks '\r' (by decide)]
  cases stage with
  | plain => exact plainly
  | carriage => rw [step, if_neg (breaks '\n' (by decide))]; exact plainly
  | zero => rw [step, noDigit.1]; exact plainly
  | escape =>
    change escapeStep c = _
    unfold escapeStep
    split
    all_goals first
      | exact absurd rfl (differs _ (by decide))
      | exact absurd rfl (breaks _ (by decide))
      | skip
    rw [noDigit.1, codeUnits_of_isBlank blank]
    rfl
  | hex left value => rw [step, noDigit.2]; rfl
  | wide => rw [step, if_neg (differs _ (by decide)), noDigit.2]; rfl
  | braced value => rw [step, if_neg (differs _ (by decide)), noDigit.2]; rfl

/-! ## Reading on -/

theorem unitsFrom_cons (quote : Char) (stage : Stage) (c : Char) (rest : List Char) :
    unitsFrom quote stage (c :: rest) =
      if c = quote ∧ stage.isOpen then if rest = [] then some [] else none
      else (stage.step c).bind fun next => (unitsFrom quote next.1 rest).map (next.2 ++ ·) := by
  rw [unitsFrom]

/-- What a character that does not end the literal gives comes before the rest. -/
theorem unitsFrom_eq_some_iff (goesOn : ¬ (c = quote ∧ stage.isOpen = true)) :
    unitsFrom quote stage (c :: rest) = some units ↔
      ∃ next first others, stage.step c = some (next, first) ∧
        unitsFrom quote next rest = some others ∧ first ++ others = units := by
  rw [unitsFrom_cons, if_neg goesOn, Option.bind_eq_some_iff]
  constructor
  · rintro ⟨⟨next, first⟩, stepped, read⟩
    obtain ⟨others, read, same⟩ := Option.map_eq_some_iff.mp read
    exact ⟨next, first, others, stepped, read, same⟩
  · rintro ⟨next, first, others, stepped, read, same⟩
    exact ⟨(next, first), stepped, Option.map_eq_some_iff.mpr ⟨others, read, same⟩⟩

/-- A literal ends with its quote. -/
theorem exists_body (read : unitsFrom quote stage text = some units) :
    ∃ body, text = body ++ [quote] := by
  induction text generalizing stage units with
  | nil => cases read
  | cons c rest ih =>
    by_cases ends : c = quote ∧ stage.isOpen = true
    · rw [unitsFrom_cons, if_pos ends] at read
      split at read
      · rename_i none
        exact ⟨[], by rw [none, ends.1]; rfl⟩
      · cases read
    · obtain ⟨next, first, others, -, read, -⟩ := (unitsFrom_eq_some_iff ends).mp read
      obtain ⟨body, rfl⟩ := ih read
      exact ⟨c :: body, rfl⟩

/-! ## Other quotes -/

/-- A character that is read is bare where a literal in its quotes would end. -/
theorem holdsBare_cons
    (isQuote : quote = '"' ∨ quote = '\'') (stepped : stage.step c = some (next, first)) :
    holdsBare quote (stage == .escape) (c :: rest) =
      (decide (c = quote ∧ stage.isOpen = true) || holdsBare quote (next == .escape) rest) := by
  have notBackslash : quote ≠ '\\' := by rcases isQuote with rfl | rfl <;> decide
  have onward := stage.next_eq_escape_iff stepped
  by_cases escaped : stage = .escape
  · subst escaped
    have behind : next ≠ .escape := fun same => nomatch (onward.mp same).2
    simp [holdsBare, Stage.isOpen, beq_eq_false_iff_ne.mpr behind]
  · rw [beq_eq_false_iff_ne.mpr escaped, holdsBare]
    split
    · rename_i backslash
      subst backslash
      cases opened : stage.isOpen with
      | true => simp [onward.mpr ⟨rfl, opened⟩, Ne.symm notBackslash]
      | false =>
        rw [Stage.step_eq_none (.inl rfl) opened escaped] at stepped
        cases stepped
    · rename_i backslash
      have behind : next ≠ .escape := fun same => backslash (onward.mp same).1
      rw [beq_eq_false_iff_ne.mpr behind]
      congr 1
      cases opened : stage.isOpen with
      | true => simp [Bool.beq_eq_decide_eq]
      | false =>
        by_cases same : c = quote
        · rw [same, Stage.step_eq_none (.inr isQuote) opened escaped] at stepped
          cases stepped
        · simp [same]

/-- A literal holds its quote only behind backslashes. -/
theorem not_holdsBare (isQuote : quote = '"' ∨ quote = '\'')
    (read : unitsFrom quote stage (body ++ [quote]) = some units) :
    holdsBare quote (stage == .escape) body = false := by
  induction body generalizing stage units with
  | nil => cases stage == .escape <;> rfl
  | cons c body ih =>
    by_cases ends : c = quote ∧ stage.isOpen = true
    · rw [List.cons_append, unitsFrom_cons, if_pos ends, if_neg (by simp)] at read
      cases read
    · obtain ⟨next, first, others, stepped, read, -⟩ := (unitsFrom_eq_some_iff ends).mp read
      rw [holdsBare_cons isQuote stepped, decide_eq_false ends, Bool.false_or]
      exact ih read

/-- In other quotes a literal has the same value unless it holds one of these quotes bare. -/
theorem unitsFrom_requoted (otherQuote : other = '"' ∨ other = '\'')
    (read : unitsFrom quote stage (body ++ [quote]) = some units)
    (free : holdsBare other (stage == .escape) body = false) :
    unitsFrom other stage (body ++ [other]) = some units := by
  induction body generalizing stage units with
  | nil =>
    rw [List.nil_append, unitsFrom_cons] at read ⊢
    cases opened : stage.isOpen with
    | true => simpa [opened] using read
    | false =>
      rw [opened, if_neg (by simp)] at read
      obtain ⟨next, -, read⟩ := Option.bind_eq_some_iff.mp read
      cases read
  | cons c body ih =>
    by_cases ends : c = quote ∧ stage.isOpen = true
    · rw [List.cons_append, unitsFrom_cons, if_pos ends, if_neg (by simp)] at read
      cases read
    · obtain ⟨next, first, others, stepped, read, same⟩ := (unitsFrom_eq_some_iff ends).mp read
      rw [holdsBare_cons otherQuote stepped, Bool.or_eq_false_iff] at free
      refine (unitsFrom_eq_some_iff (of_decide_eq_false free.1)).mpr ?_
      exact ⟨next, first, others, stepped, ih read free.2, same⟩

/-! ## White space -/

theorem squeeze_append_solid (solid : isBlank c = false) :
    squeeze (body ++ [c]) = squeeze body ++ [c] := by
  induction body with
  | nil => simp [squeeze, solid]
  | cons d body ih =>
    rw [List.cons_append, squeeze, squeeze, ih]
    have head : (body ++ [c]).head?.any isBlank = body.head?.any isBlank := by
      cases body <;> simp [solid]
    rw [head]
    split
    · split <;> rfl
    · rfl

theorem squeeze_of_blank (blank : text.head?.any isBlank = true) :
    ∃ rest, squeeze text = ' ' :: rest := by
  induction text with
  | nil => cases blank
  | cons c text ih =>
    rw [squeeze, if_pos (by simpa using blank)]
    split
    · rename_i further
      exact ih further
    · exact ⟨_, rfl⟩

/-- A space stands for itself wherever other white space does. -/
theorem unitsFrom_space (isQuote : quote = '"' ∨ quote = '\'') (blank : isBlank c = true)
    (inLine : isTerminator c = false) (stepped : stage.step c = some (next, first)) :
    next = .plain ∧ first = [c.toNat] ∧
      unitsFrom quote stage (' ' :: rest) = (unitsFrom quote .plain rest).map (32 :: ·) := by
  have notQuote : ' ' ≠ quote := by rcases isQuote with rfl | rfl <;> decide
  rw [Stage.step_blank blank inLine] at stepped
  split at stepped
  · rename_i reads
    cases stepped
    refine ⟨rfl, rfl, ?_⟩
    rw [unitsFrom_cons, if_neg (fun same => notQuote same.1),
      Stage.step_blank (by decide) (by decide), if_pos reads, Option.bind_some]
    rfl
  · cases stepped

/-- Within a line, collapsing white space never makes a value longer, and keeps it only where there
is nothing to collapse. -/
theorem exists_unitsFrom_squeeze
    (isQuote : quote = '"' ∨ quote = '\'') (inLine : ∀ c ∈ text, isTerminator c = false)
    (read : unitsFrom quote stage text = some units) :
    ∃ fewer, unitsFrom quote stage (squeeze text) = some fewer ∧
      fewer.length ≤ units.length ∧ (fewer = units → squeeze text = text) := by
  induction text generalizing stage units with
  | nil => cases read
  | cons c rest ih =>
    obtain ⟨here, others⟩ := List.forall_mem_cons.mp inLine
    have notBlank : isBlank quote = false := by rcases isQuote with rfl | rfl <;> rfl
    by_cases ends : c = quote ∧ stage.isOpen = true
    · rw [unitsFrom_cons, if_pos ends] at read
      split at read
      · rename_i none
        subst none
        refine ⟨units, ?_, Nat.le_refl _, fun _ => ?_⟩
        · simp [squeeze, ends, notBlank, unitsFrom_cons, read]
        · simp [squeeze, ends, notBlank]
      · cases read
    obtain ⟨next, first, more, stepped, behind, rfl⟩ := (unitsFrom_eq_some_iff ends).mp read
    obtain ⟨fewer, readFewer, shorter, kept⟩ := ih others behind
    cases blank : isBlank c with
    | false =>
      refine ⟨first ++ fewer, ?_, by simpa using shorter, fun same => ?_⟩
      · rw [squeeze, if_neg (by simp [blank])]
        exact (unitsFrom_eq_some_iff ends).mpr ⟨next, first, fewer, stepped, readFewer, rfl⟩
      · rw [squeeze, if_neg (by simp [blank]), kept (List.append_cancel_left same)]
    | true =>
      have space : ∀ others, next = .plain ∧ first = [c.toNat] ∧
          unitsFrom quote stage (' ' :: others) =
            (unitsFrom quote .plain others).map (32 :: ·) :=
        fun _ => unitsFrom_space isQuote blank here stepped
      obtain ⟨rfl, rfl, -⟩ := space []
      rw [squeeze, if_pos blank]
      cases further : rest.head?.any isBlank with
      | true =>
        obtain ⟨others, same⟩ := squeeze_of_blank further
        have plain : unitsFrom quote .plain (' ' :: others) =
            (unitsFrom quote .plain others).map (32 :: ·) := by
          rw [unitsFrom_cons, if_neg (fun same => by
            rw [← same.1] at notBlank
            cases notBlank)]
          rfl
        rw [if_pos rfl, same, (space others).2.2, ← plain, ← same]
        refine ⟨fewer, readFewer, by simp; omega, fun longer => ?_⟩
        rw [longer] at shorter
        exact absurd shorter (by simp)
      | false =>
        rw [if_neg (by simp), (space _).2.2, readFewer]
        refine ⟨32 :: fewer, rfl, by simpa using shorter, fun same => ?_⟩
        obtain ⟨isSpace, same⟩ := List.cons.inj same
        rw [kept same, show c = ' ' from Char.toNat_inj.mp isSpace.symm]

theorem collapseChars_append_ne_nil (solid : isBlank c = false) (body : List Char) :
    collapseChars (body ++ [c]) ≠ [] := by
  induction body with
  | nil => simp [collapseChars, solid]
  | cons d body ih =>
    rw [List.cons_append]
    obtain ⟨e, rest, same⟩ := List.exists_cons_of_ne_nil (l := body ++ [c]) (by simp)
    rw [same] at ih ⊢
    unfold collapseChars
    split_ifs <;> simp [ih]
    split <;> simp

/-- Between characters that are not white space, collapsing makes each run one space. -/
theorem squeeze_eq_collapseChars (solid : isBlank c = false) (body : List Char) :
    squeeze (body ++ [c]) =
      (if (body ++ [c]).head?.any isBlank then [' '] else []) ++ collapseChars (body ++ [c]) := by
  induction body with
  | nil => simp [squeeze, collapseChars, solid]
  | cons d body ih =>
    have goesOn := collapseChars_append_ne_nil solid body
    obtain ⟨e, rest, same⟩ := List.exists_cons_of_ne_nil (l := body ++ [c]) (by simp)
    rw [List.cons_append]
    rw [same] at ih goesOn ⊢
    rw [squeeze, ih]
    obtain ⟨f, more, known⟩ := List.exists_cons_of_ne_nil goesOn
    rw [collapseChars.eq_def (d :: e :: rest)]
    cases first : isBlank d <;> cases second : isBlank e <;> simp [first, second, known]

/-! ## Whole literals -/

/-- A text is a literal with a value exactly when it stands in quotes that it holds only behind
backslashes, and its characters are read one after the other. -/
theorem literalValue?_eq_some_iff {text : List Char} :
    literalValue? text = some units ↔
      ∃ quote body, text = quote :: (body ++ [quote]) ∧ (quote = '"' ∨ quote = '\'') ∧
        unitsFrom quote .plain (body ++ [quote]) = some units := by
  constructor
  · intro known
    cases text with
    | nil => cases known
    | cons quote rest =>
      rw [literalValue?] at known
      split at known
      · rename_i isQuote
        obtain ⟨body, rfl⟩ := exists_body known
        exact ⟨quote, body, rfl, isQuote, known⟩
      · cases known
  · rintro ⟨quote, body, rfl, isQuote, read⟩
    rw [literalValue?, if_pos isQuote, read]

theorem solid_of_quote (isQuote : quote = '"' ∨ quote = '\'') : isBlank quote = false := by
  rcases isQuote with rfl | rfl <;> rfl

/-- Collapsing white space in a text between quotes leaves the quotes. -/
theorem collapseChars_quoted (isQuote : quote = '"' ∨ quote = '\'') (body : List Char) :
    collapseChars (quote :: (body ++ [quote])) = quote :: (squeeze body ++ [quote]) := by
  have solid := solid_of_quote isQuote
  have whole := squeeze_eq_collapseChars solid (quote :: body)
  rw [List.cons_append, squeeze, if_neg (by simp [solid]), squeeze_append_solid solid] at whole
  rw [whole]
  simp [solid]

/-- The text with double quotes in the place of its first and last character. -/
def inDoubleQuotes (text : List Char) : List Char := '"' :: (text.tail.dropLast ++ ['"'])

/-- In double quotes and with collapsed white space a literal has the same value if it holds no bare
double quote and there is nothing to collapse. -/
theorem literalValue?_requoted
    (known : literalValue? text = some units) (settled : collapseChars text = text)
    (free : holdsBare '"' false text.tail.dropLast = false) :
    literalValue? (collapseChars (inDoubleQuotes text)) = some units := by
  obtain ⟨quote, body, rfl, isQuote, read⟩ := literalValue?_eq_some_iff.mp known
  have double : '"' = '"' ∨ '"' = '\'' := .inl rfl
  rw [collapseChars_quoted isQuote] at settled
  rw [List.tail_cons, List.dropLast_concat] at free
  rw [inDoubleQuotes, List.tail_cons, List.dropLast_concat, collapseChars_quoted double,
    List.append_cancel_right (List.cons.inj settled).2, literalValue?, if_pos double]
  exact unitsFrom_requoted double read free

/-- A literal on one line keeps its value when white space is collapsed only if nothing changes. -/
theorem settled_of_collapsed
    (known : literalValue? text = some units) (inLine : ∀ c ∈ text, isTerminator c = false)
    (kept : literalValue? (collapseChars text) = some units) :
    collapseChars text = text := by
  obtain ⟨quote, body, rfl, isQuote, read⟩ := literalValue?_eq_some_iff.mp known
  obtain ⟨fewer, readFewer, -, whole⟩ := exists_unitsFrom_squeeze isQuote
    (fun c member => inLine c (List.mem_cons_of_mem _ member)) read
  rw [collapseChars_quoted isQuote, literalValue?, if_pos isQuote,
    ← squeeze_append_solid (solid_of_quote isQuote), readFewer] at kept
  rw [collapseChars_quoted isQuote, ← squeeze_append_solid (solid_of_quote isQuote),
    whole (Option.some.inj kept)]

/-- On one line these are the only literals that keep their value so. -/
theorem settled_of_requoted
    (known : literalValue? text = some units) (inLine : ∀ c ∈ text, isTerminator c = false)
    (kept : literalValue? (collapseChars (inDoubleQuotes text)) = some units) :
    collapseChars text = text ∧ holdsBare '"' false text.tail.dropLast = false := by
  obtain ⟨quote, body, rfl, isQuote, read⟩ := literalValue?_eq_some_iff.mp known
  have double : '"' = '"' ∨ '"' = '\'' := .inl rfl
  have solid := solid_of_quote isQuote
  rw [inDoubleQuotes, List.tail_cons, List.dropLast_concat, collapseChars_quoted double,
    literalValue?, if_pos double] at kept
  rw [List.tail_cons, List.dropLast_concat, collapseChars_quoted isQuote]
  obtain ⟨fewer, readFewer, -, whole⟩ := exists_unitsFrom_squeeze isQuote
    (fun c member => inLine c (List.mem_cons_of_mem _ member)) read
  rw [squeeze_append_solid solid] at readFewer whole
  have free := not_holdsBare double kept
  have requoted := unitsFrom_requoted double readFewer free
  have same := List.append_cancel_right (whole (Option.some.inj (requoted.symm.trans kept)))
  rw [same] at free ⊢
  exact ⟨rfl, free⟩

end

end Text
end ModuleAtlas
