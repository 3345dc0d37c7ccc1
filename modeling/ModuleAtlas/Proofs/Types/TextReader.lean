import ModuleAtlas.Proofs.Types.Outline

/-!
# Reading the text of a type

In the language, brackets bind more tightly than `&`, that more tightly than `|`, and the result of
a function extends as far as it can.  A reader goes by these rules.  It gives back every grouped
outline from the outline's tokens.
-/

namespace ModuleAtlas
namespace Outline

/-! ## Readers -/

/-- Reads something from the first of some tokens, and leaves the others. -/
abbrev Reader (α : Type) : Type := List Token → Option (α × List Token)

/-- The tokens after a mark, if they start with it. -/
def after? (mark : Mark) : List Token → Option (List Token)
  | .mark next :: rest => if next = mark then some rest else none
  | _ => none

namespace Reader

variable {α : Type}

/-- Reads more items, each after a mark. -/
def more (mark : Mark) (item : Reader α) : Nat → Reader (List α)
  | 0, _ => none
  | fuel + 1, tokens =>
    match after? mark tokens with
    | none => some ([], tokens)
    | some rest => do
      let (value, rest) ← item rest
      let (values, rest) ← more mark item fuel rest
      return (value :: values, rest)

/-- Reads items with a mark between each two. -/
def separated (mark : Mark) (item : Reader α) (fuel : Nat) : Reader (α × List α) := fun tokens => do
  let (first, rest) ← item tokens
  let (others, rest) ← more mark item fuel rest
  return ((first, others), rest)

/-- Reads items with a comma between each two, up to a closing mark. -/
def enclosed (closing : Mark) (item : Reader α) (fuel : Nat) : Reader (List α) := fun tokens =>
  match after? closing tokens with
  | some rest => some ([], rest)
  | none => do
    let ((first, others), rest) ← separated .comma item fuel tokens
    return (first :: others, ← after? closing rest)

/-- Takes pairs of brackets after a type. -/
def brackets (type : Outline) : Reader Outline
  | .mark .openBracket :: .mark .closeBracket :: rest => brackets (.array type) rest
  | .mark .openBracket :: _ => none
  | tokens => some (type, tokens)

/-- Reads a parameter with its type. -/
def parameter (type : Reader Outline) : Reader (String × Outline)
  | .word label :: .mark .colon :: rest => do
    let (read, rest) ← type rest
    return ((String.ofList label, read), rest)
  | _ => none

/-- Whether tokens after an opening parenthesis are those of a function. -/
def startsParameters : List Token → Bool
  | .mark .closeParen :: _ => true
  | .word _ :: .mark .colon :: _ => true
  | _ => false

/-- Reads a function after its opening parenthesis. -/
def function (type : Reader Outline) (fuel : Nat) : Reader Outline := fun tokens => do
  let (parameters, rest) ← enclosed .closeParen (parameter type) fuel tokens
  let (returns, rest) ← type (← after? .greater (← after? .equals rest))
  return (.function parameters returns, rest)

/-- Reads a type in parentheses after the opening one. -/
def inParens (type : Reader Outline) : Reader Outline := fun tokens => do
  let (read, rest) ← type tokens
  brackets read (← after? .closeParen rest)

/-- Reads what stands between the marks of a union or an intersection. -/
def operand (type : Reader Outline) (fuel : Nat) : Reader Outline
  | .word chars :: rest => brackets (.name (String.ofList chars)) rest
  | .mark .openBracket :: rest => do
    let (elements, rest) ← enclosed .closeBracket type fuel rest
    brackets (.tuple elements) rest
  | .mark .openParen :: rest =>
    if startsParameters rest then function type fuel rest else inParens type rest
  | _ => none

/-- The only member, or several ones combined. -/
def combined (combine : Outline → List Outline → Outline) : Outline × List Outline → Outline
  | (first, []) => first
  | (first, others) => combine first others

/-- Reads a member of a union. -/
def intersection (type : Reader Outline) (fuel : Nat) : Reader Outline := fun tokens => do
  let (members, rest) ← separated .ampersand (operand type fuel) fuel tokens
  return (combined .intersection members, rest)

/-- Reads a type with a reader for the types in it. -/
def union (type : Reader Outline) (fuel : Nat) : Reader Outline := fun tokens => do
  let (members, rest) ← separated .bar (intersection type fuel) fuel tokens
  return (combined .union members, rest)

/-- Reads a type. -/
def type : Nat → Reader Outline
  | 0 => fun _ => none
  | fuel + 1 => union (type fuel) fuel

end Reader

/-- The type that some tokens are read as. -/
def ofTokens? (tokens : List Token) : Option Outline := do
  let (outline, rest) ← Reader.type (tokens.length + 1) tokens
  if rest.isEmpty then some outline else none

/-- The type that a text is read as. -/
def ofText? (text : String) : Option Outline := ofTokens? (Token.ofText text)

/-! ## Marks and lengths -/

@[simp] theorem after?_mark (mark : Mark) (rest : List Token) :
    after? mark (.mark mark :: rest) = some rest := by
  rw [after?, if_pos rfl]

theorem after?_other {mark next : Mark} (other : next ≠ mark) (rest : List Token) :
    after? mark (.mark next :: rest) = none := by
  rw [after?, if_neg other]

/-- None of some marks stands first. -/
def Clear (marks : List Mark) (tokens : List Token) : Prop :=
  ∀ mark ∈ marks, after? mark tokens = none

theorem Clear.mono {marks fewer : List Mark} {tokens : List Token}
    (clear : Clear marks tokens) (subset : fewer ⊆ marks) :
    Clear fewer tokens :=
  fun mark member => clear mark (subset member)

theorem clear_mark {marks : List Mark} {next : Mark} (other : next ∉ marks) (rest : List Token) :
    Clear marks (.mark next :: rest) :=
  fun mark member => after?_other (fun same : next = mark => other (same ▸ member)) rest

theorem each_cons (mark : Mark) (part : List Token) (rest : List (List Token)) :
    each mark (part :: rest) = .mark mark :: (part ++ each mark rest) :=
  rfl

theorem length_lt_each {mark : Mark} {parts : List (List Token)} {part : List Token}
    (member : part ∈ parts) :
    part.length < (each mark parts).length := by
  induction parts with
  | nil => cases member
  | cons first rest ih =>
    rw [each_cons, List.length_cons, List.length_append]
    rcases List.mem_cons.mp member with rfl | later
    · omega
    · have := ih later
      omega

theorem count_le_each (mark : Mark) (parts : List (List Token)) :
    parts.length ≤ (each mark parts).length := by
  induction parts with
  | nil => exact Nat.zero_le _
  | cons part rest ih =>
    rw [each_cons, List.length_cons, List.length_cons, List.length_append]
    omega

theorem length_le_joined {mark : Mark} {parts : List (List Token)} {part : List Token}
    (member : part ∈ parts) :
    part.length ≤ (joined mark parts).length := by
  cases parts with
  | nil => cases member
  | cons first others =>
    rw [joined, List.length_append]
    rcases List.mem_cons.mp member with rfl | later
    · exact Nat.le_add_right _ _
    · have : part.length < (each mark others).length := length_lt_each later
      omega

theorem count_le_joined (mark : Mark) (parts : List (List Token)) :
    parts.length ≤ (joined mark parts).length + 1 := by
  cases parts with
  | nil => exact Nat.zero_le _
  | cons first others =>
    rw [joined, List.length_append, List.length_cons]
    have := count_le_each mark others
    omega

/-! ## Reading back lists -/

namespace Reader

variable {α β : Type} {item : Reader β} {shown : α → List Token} {meant : α → β}
  {mark closing : Mark} {rest : List Token}

/-- A reader takes each of some items for what it means, from its tokens and where the others
follow. -/
def ReadsAs (item : Reader β) (shown : α → List Token) (meant : α → β) (mark : Mark) :
    List α → List Token → Prop
  | [], _ => True
  | value :: others, rest =>
    item (shown value ++ (each mark (others.map shown) ++ rest)) =
        some (meant value, each mark (others.map shown) ++ rest) ∧
      ReadsAs item shown meant mark others rest

theorem readsAs_of_forall {values : List α}
    (reads : ∀ value ∈ values, ∀ others : List α,
      item (shown value ++ (each mark (others.map shown) ++ rest)) =
        some (meant value, each mark (others.map shown) ++ rest)) :
    ReadsAs item shown meant mark values rest := by
  induction values with
  | nil => trivial
  | cons value others ih =>
    rw [List.forall_mem_cons] at reads
    exact ⟨reads.1 others, ih reads.2⟩

/-- Members behind a mark are read back one by one. -/
theorem more_each {others : List α} {fuel : Nat}
    (reads : ReadsAs item shown meant mark others rest) (stops : after? mark rest = none)
    (enough : others.length < fuel) :
    more mark item fuel (each mark (others.map shown) ++ rest) =
      some (others.map meant, rest) := by
  induction others generalizing fuel with
  | nil =>
    obtain _ | fuel := fuel
    · cases enough
    · show more mark item (fuel + 1) rest = some ([], rest)
      rw [more, stops]
  | cons value others ih =>
    obtain _ | fuel := fuel
    · cases enough
    · obtain ⟨readsValue, readsOthers⟩ := reads
      have readOthers := ih readsOthers (Nat.lt_of_succ_lt_succ enough)
      show more mark item (fuel + 1)
        (.mark mark :: (shown value ++ each mark (others.map shown)) ++ rest) = _
      rw [List.cons_append, List.append_assoc, more, after?_mark]
      dsimp only
      rw [readsValue, Option.bind_eq_bind, Option.bind_some]
      dsimp only
      rw [readOthers]
      rfl

theorem separated_joined {first : α} {others : List α} {fuel : Nat}
    (reads : ReadsAs item shown meant mark (first :: others) rest) (stops : after? mark rest = none)
    (enough : others.length < fuel) :
    separated mark item fuel (joined mark ((first :: others).map shown) ++ rest) =
      some ((meant first, others.map meant), rest) := by
  obtain ⟨readsFirst, readsOthers⟩ := reads
  unfold separated
  rw [List.map_cons, joined, List.append_assoc, readsFirst, Option.bind_eq_bind, Option.bind_some]
  dsimp only
  rw [more_each readsOthers stops enough]
  rfl

/-- Members between brackets are read back one by one. -/
theorem enclosed_joined {values : List α} {fuel : Nat}
    (reads : ReadsAs item shown meant .comma values (.mark closing :: rest))
    (apart : closing ≠ .comma)
    (starts : ∀ value ∈ values, ∀ later, after? closing (shown value ++ later) = none)
    (enough : values.length ≤ fuel) :
    enclosed closing item fuel (joined .comma (values.map shown) ++ .mark closing :: rest) =
      some (values.map meant, rest) := by
  unfold enclosed
  cases values with
  | nil =>
    rw [List.map_nil, joined, List.nil_append, after?_mark, List.map_nil]
  | cons first others =>
    have opens : after? closing
        (joined .comma ((first :: others).map shown) ++ .mark closing :: rest) = none := by
      rw [List.map_cons, joined, List.append_assoc]
      exact starts first (List.mem_cons_self) _
    rw [opens]
    dsimp only
    rw [separated_joined reads (after?_other apart rest) enough, Option.bind_eq_bind,
      Option.bind_some]
    dsimp only
    rw [after?_mark]
    rfl

/-! ## First tokens -/

/-- After an opening parenthesis, no type is taken for parameters unless a colon follows. -/
theorem startsParameters_tokens : (outline : Outline) → (rest : List Token) →
    after? .colon rest = none → startsParameters (outline.tokens ++ rest) = false
  | .name word, rest, noColon => by
    rw [tokens, List.singleton_append]
    unfold startsParameters
    split
    · rename_i equal
      cases equal
    · rename_i equal
      cases equal
      cases noColon
    · rfl
  | .array element, rest, _ => by
    rw [tokens]
    split
    · rfl
    · rw [List.append_assoc]
      exact startsParameters_tokens element _ rfl
  | .tuple elements, rest, _ => by
    rw [tokens]
    rfl
  | .union first others, rest, noColon => by
    rw [tokens, List.append_assoc]
    refine startsParameters_tokens first _ ?_
    cases others with
    | nil => exact noColon
    | cons next others => rfl
  | .intersection first others, rest, noColon => by
    rw [tokens, List.append_assoc]
    refine startsParameters_tokens first _ ?_
    cases others with
    | nil => exact noColon
    | cons next others => rfl
  | .function parameters returns, rest, _ => by
    rw [tokens]
    rfl

/-- A type starts with a word, a parenthesis or a bracket. -/
theorem after?_tokens (round : mark ≠ .openParen) (square : mark ≠ .openBracket) :
    (outline : Outline) → (rest : List Token) → after? mark (outline.tokens ++ rest) = none
  | .name word, rest => by
    rw [tokens]
    rfl
  | .array element, rest => by
    rw [tokens]
    split
    · exact after?_other round.symm _
    · rw [List.append_assoc]
      exact after?_tokens round square element _
  | .tuple elements, rest => by
    rw [tokens]
    exact after?_other square.symm _
  | .union first others, rest => by
    rw [tokens, List.append_assoc]
    exact after?_tokens round square first _
  | .intersection first others, rest => by
    rw [tokens, List.append_assoc]
    exact after?_tokens round square first _
  | .function parameters returns, rest => by
    rw [tokens]
    exact after?_other round.symm _

theorem tokens_pos (outline : Outline) : 0 < outline.tokens.length := by
  refine List.length_pos_iff.mpr fun empty => ?_
  have noParen : after? .closeParen (outline.tokens ++ [.mark .closeParen]) = none :=
    after?_tokens (by decide) (by decide) outline _
  rw [empty, List.nil_append, after?_mark] at noParen
  cases noParen

/-! ## Reading back types -/

/-- A reader gives back grouped outlines from their tokens, as long as there are few of these. -/
def Restores (type : Reader Outline) (bound : Nat) : Prop :=
  ∀ outline rest, outline.isGrouped = true → outline.tokens.length < bound →
    Clear [.bar, .ampersand, .openBracket] rest →
    type (outline.tokens ++ rest) = some (outline, rest)

section Restore

variable {type : Reader Outline} {fuel : Nat}

theorem clear_each {parts : List (List Token)}
    (other : closing ∉ [Mark.bar, .ampersand, .openBracket]) (rest : List Token) :
    Clear [.bar, .ampersand, .openBracket] (each .comma parts ++ .mark closing :: rest) := by
  cases parts with
  | nil => exact clear_mark other rest
  | cons part parts => exact clear_mark (by decide) _

/-- The elements of a tuple are read back. -/
theorem enclosed_listTokens {elements : List Outline} (restores : Restores type fuel)
    (grouped : areGrouped elements = true) (few : (listTokens elements).length < fuel)
    (rest : List Token) :
    enclosed .closeBracket type fuel (listTokens elements ++ .mark .closeBracket :: rest) =
      some (elements, rest) := by
  rw [listTokens_eq] at few ⊢
  have count := count_le_joined .comma (elements.map tokens)
  rw [List.length_map] at count
  rw [enclosed_joined (readsAs_of_forall ?_) (by decide)
    (fun value _ later => after?_tokens (by decide) (by decide) value later) (by omega),
    List.map_id]
  intro element member others
  have short : element.tokens.length ≤ (joined .comma (elements.map tokens)).length :=
    length_le_joined (List.mem_map_of_mem member)
  exact restores element _ (areGrouped_iff.mp grouped element member) (by omega)
    (clear_each (by decide) rest)

/-- The parameters of a function are read back. -/
theorem enclosed_parameterTokens {parameters : List (String × Outline)}
    (restores : Restores type fuel) (grouped : areGroupedParameters parameters = true)
    (few : (parameterTokens parameters).length < fuel) (rest : List Token) :
    enclosed .closeParen (parameter type) fuel
        (parameterTokens parameters ++ .mark .closeParen :: rest) =
      some (parameters, rest) := by
  rw [parameterTokens_eq] at few ⊢
  have count := count_le_joined .comma (parameters.map ofParameter)
  rw [List.length_map] at count
  rw [enclosed_joined (readsAs_of_forall ?_) (by decide) (fun _ _ _ => rfl) (by omega),
    List.map_id]
  intro labelled member others
  have short : (ofParameter labelled).length ≤
      (joined .comma (parameters.map ofParameter)).length :=
    length_le_joined (List.mem_map_of_mem member)
  have size : (ofParameter labelled).length = labelled.2.tokens.length + 2 := rfl
  have readsType := restores labelled.2
    (each .comma (others.map ofParameter) ++ .mark .closeParen :: rest)
    (areGroupedParameters_iff.mp grouped labelled member)
    (by omega)
    (clear_each (by decide) rest)
  show parameter type (.word labelled.1.toList :: .mark .colon :: (labelled.2.tokens ++ _)) = _
  rw [parameter, readsType]
  show some ((String.ofList labelled.1.toList, labelled.2), _) = _
  rw [String.ofList_toList]
  rfl

theorem operand_of_parameters (starts : startsParameters rest = true) :
    operand type fuel (.mark .openParen :: rest) = function type fuel rest := by
  rw [operand, if_pos starts]

theorem operand_of_type (starts : startsParameters rest = false) :
    operand type fuel (.mark .openParen :: rest) = inParens type rest := by
  rw [operand, starts, if_neg Bool.false_ne_true]

/-- A type in parentheses is read back, and then the brackets after it are taken. -/
theorem operand_inParens {outline : Outline} (restores : Restores type fuel)
    (grouped : outline.isGrouped = true) (few : outline.tokens.length < fuel) (rest : List Token) :
    operand type fuel (.mark .openParen :: (outline.tokens ++ .mark .closeParen :: rest)) =
      brackets outline rest := by
  have reads := restores outline (.mark .closeParen :: rest) grouped few (clear_mark (by decide) _)
  rw [operand_of_type (startsParameters_tokens outline _ rfl)]
  unfold inParens
  rw [reads]
  simp only [Option.bind_eq_bind, Option.bind_some, after?_mark]

/-- A function is read back, where nothing follows that could be a part of its result. -/
theorem operand_function {parameters : List (String × Outline)} {returns : Outline}
    (restores : Restores type fuel)
    (grouped : (Outline.function parameters returns).isGrouped = true)
    (few : (Outline.function parameters returns).tokens.length ≤ fuel)
    (clear : Clear [.bar, .ampersand, .openBracket] rest) :
    operand type fuel ((Outline.function parameters returns).tokens ++ rest) =
      some (.function parameters returns, rest) := by
  rw [isGrouped, Bool.and_eq_true] at grouped
  rw [tokens] at few ⊢
  simp only [List.length_cons, List.length_append] at few
  have starts : startsParameters (parameterTokens parameters ++
      .mark .closeParen :: .mark .equals :: .mark .greater :: (returns.tokens ++ rest)) = true := by
    cases parameters with
    | nil => rfl
    | cons first others => rfl
  have readsParameters := enclosed_parameterTokens restores grouped.1 (by omega)
    (.mark .equals :: .mark .greater :: (returns.tokens ++ rest))
  have readsResult := restores returns rest grouped.2 (by omega) clear
  rw [List.cons_append, List.append_assoc]
  refine (operand_of_parameters starts).trans ?_
  unfold function
  rw [readsParameters]
  simp only [Option.bind_eq_bind, Option.bind_some, after?_mark, readsResult]
  rfl

/-- What stands between the marks of a union or an intersection and does not end in the result of a
function is read back, and then the brackets after it are taken. -/
theorem operand_tokens (restores : Restores type fuel) : (outline : Outline) →
    outline.isGrouped = true → outline.fitsIntersection = true → outline.opens = false →
    outline.tokens.length ≤ fuel → (rest : List Token) →
    operand type fuel (outline.tokens ++ rest) = brackets outline rest
  | .name word, _, _, _, _, rest => by
    rw [tokens, List.singleton_append, operand, String.ofList_toList]
  | .array element, grouped, _, _, few, rest => by
    rw [isGrouped] at grouped
    rw [tokens] at few ⊢
    cases parens : element.needsParentheses with
    | true =>
      rw [parens, if_pos rfl] at few
      simp only [List.length_cons, List.length_append] at few
      rw [if_pos rfl, List.cons_append, List.cons_append, List.append_assoc, List.append_assoc]
      exact operand_inParens restores grouped (by omega) _
    | false =>
      rw [parens, if_neg Bool.false_ne_true] at few
      rw [if_neg Bool.false_ne_true, List.append_assoc]
      rw [List.length_append] at few
      have closed : element.fitsIntersection = true ∧ element.opens = false := by
        cases element with
        | name | array | tuple => exact ⟨rfl, rfl⟩
        | union | intersection | function => cases parens
      rw [operand_tokens restores element grouped closed.1 closed.2 (by omega)]
      rfl
  | .tuple elements, grouped, _, _, few, rest => by
    rw [isGrouped] at grouped
    rw [tokens] at few ⊢
    simp only [List.length_cons, List.length_append] at few
    have reads := enclosed_listTokens restores grouped (by omega) rest
    rw [List.cons_append, List.append_assoc, operand, List.singleton_append, reads]
    rfl
  | .union _ _, _, fits, _, _, _ => nomatch fits
  | .intersection _ _, _, fits, _, _, _ => nomatch fits
  | .function _ _, _, _, closed, _, _ => nomatch closed

theorem brackets_of_clear {outline : Outline}
    (clear : after? .openBracket rest = none) :
    brackets outline rest = some (outline, rest) := by
  unfold brackets
  split
  · cases clear
  · cases clear
  · rfl

/-- A reader gives back grouped outlines that fit, unless a mark of some follows, or one that could
make more a part of a function's result. -/
def RestoresMembers (item : Reader Outline) (fits : Outline → Bool) (blocked : List Mark)
    (bound : Nat) : Prop :=
  ∀ outline rest, outline.isGrouped = true → fits outline = true →
    outline.tokens.length ≤ bound → Clear blocked rest →
    (outline.opens = true → Clear [.bar, .ampersand] rest) →
    item (outline.tokens ++ rest) = some (outline, rest)

/-- What stands between the marks of a union or an intersection is read back. -/
theorem restores_operand (restores : Restores type fuel) :
    RestoresMembers (operand type fuel) fitsIntersection [.openBracket] fuel := by
  intro outline rest grouped fits few clear ends
  have noBracket : after? .openBracket rest = none := clear _ (List.mem_singleton_self _)
  cases opened : outline.opens with
  | false =>
    rw [operand_tokens restores outline grouped fits opened few, brackets_of_clear noBracket]
  | true =>
    cases outline with
    | name | array | tuple => cases opened
    | union | intersection => cases fits
    | function parameters returns =>
      have all : ∀ mark ∈ [Mark.bar, .ampersand] ++ [.openBracket], after? mark rest = none := by
        rw [List.forall_mem_append]
        exact ⟨ends opened, clear⟩
      exact operand_function restores grouped few all

section Members

variable {fits : Outline → Bool} {mark : Mark} {blocked : List Mark} {item : Reader Outline}
  {rest : List Token}

variable (restores : RestoresMembers item fits blocked fuel) (free : mark ∉ blocked)

include restores free

/-- Members of a union or an intersection are read back, one after the other. -/
theorem readsAs_members (clear : Clear blocked rest) (first : Outline) (others : List Outline)
    (grouped : first.isGrouped = true) (fitsFirst : fits first = true)
    (groupedOthers : areGroupedAfter fits first.opens others = true)
    (few : (first.tokens ++ tokensAfter mark others).length ≤ fuel)
    (ends : lastOpens first.opens others = true → Clear [.bar, .ampersand] rest) :
    ReadsAs item tokens id mark (first :: others) rest := by
  rw [List.length_append] at few
  induction others generalizing first with
  | nil => exact ⟨restores first rest grouped fitsFirst (by omega) clear ends, trivial⟩
  | cons next others ih =>
    simp only [areGroupedAfter, Bool.and_eq_true, Bool.not_eq_true'] at groupedOthers
    obtain ⟨⟨⟨closed, fitsNext⟩, groupedNext⟩, groupedRest⟩ := groupedOthers
    -- The mark in front of the next member ends this one, since it ends in no function's result.
    rw [tokensAfter, List.length_cons, List.length_append] at few
    refine ⟨restores first _ grouped fitsFirst (by omega) (clear_mark free _) fun opened => ?_,
      ih next groupedNext fitsNext groupedRest (by omega) ends⟩
    rw [closed] at opened
    cases opened

theorem separated_members (clear : Clear (mark :: blocked) rest)
    (first : Outline) (others : List Outline) (grouped : first.isGrouped = true)
    (fitsFirst : fits first = true) (groupedOthers : areGroupedAfter fits first.opens others = true)
    (few : (first.tokens ++ tokensAfter mark others).length ≤ fuel)
    (ends : lastOpens first.opens others = true → Clear [.bar, .ampersand] rest) :
    separated mark item fuel ((first.tokens ++ tokensAfter mark others) ++ rest) =
      some ((first, others), rest) := by
  have back := readsAs_members restores free
    (fun other member => clear other (List.mem_cons_of_mem _ member)) first others grouped fitsFirst
    groupedOthers few ends
  have some := tokens_pos first
  rw [List.length_append] at few
  rw [tokensAfter_eq] at few ⊢
  have count := count_le_each mark (others.map tokens)
  rw [List.length_map] at count
  have enough : others.length < fuel := by omega
  have read := separated_joined back (clear mark (List.mem_cons_self)) enough
  rwa [List.map_id] at read

/-- A member alone is read back as one. -/
theorem separated_single
    (clear : Clear (mark :: blocked) rest) (outline : Outline) (grouped : outline.isGrouped = true)
    (fitsAlone : fits outline = true) (few : outline.tokens.length ≤ fuel)
    (ends : outline.opens = true → Clear [.bar, .ampersand] rest) :
    separated mark item fuel (outline.tokens ++ rest) = some ((outline, []), rest) := by
  have single := separated_members restores free clear outline [] grouped fitsAlone rfl
    (by rwa [tokensAfter, List.append_nil]) ends
  rwa [tokensAfter, List.append_nil] at single

end Members

theorem combined_of_nonempty
    {combine : Outline → List Outline → Outline} {first : Outline} {others : List Outline}
    (several : (!others.isEmpty) = true) :
    combined combine (first, others) = combine first others := by
  cases others with
  | nil => cases several
  | cons next others => rfl

/-- A member of a union is read back. -/
theorem restores_intersection (restores : Restores type fuel) :
    RestoresMembers (intersection type fuel) fitsUnion [.ampersand, .openBracket] fuel := by
  intro outline rest grouped fits few clear ends
  have members := restores_operand restores
  unfold intersection
  by_cases alone : outline.fitsIntersection = true
  · rw [separated_single members (by decide) clear outline grouped alone few ends]
    rfl
  · cases outline with
    | name | array | tuple | function => exact absurd rfl alone
    | union => cases fits
    | intersection first others =>
      simp only [isGrouped, Bool.and_eq_true] at grouped
      obtain ⟨⟨⟨several, fitsFirst⟩, groupedFirst⟩, groupedOthers⟩ := grouped
      rw [tokens] at few ⊢
      rw [separated_members members (by decide) clear first others groupedFirst fitsFirst
        groupedOthers few ends]
      exact congrArg (fun read => some (read, rest)) (combined_of_nonempty several)

/-- A reader that gives back the types with few tokens can be used to read back those with one token
more. -/
theorem restores_union (restores : Restores type fuel) :
    Restores (union type fuel) (fuel + 1) := by
  intro outline rest grouped few clear
  have members := restores_intersection restores
  have ends : outline.opens = true → Clear [.bar, .ampersand] rest := fun _ =>
    clear.mono (by decide)
  unfold union
  by_cases alone : outline.fitsUnion = true
  · rw [separated_single members (by decide) clear outline grouped alone (by omega) ends]
    rfl
  · cases outline with
    | name | array | tuple | function | intersection => exact absurd rfl alone
    | union first others =>
      simp only [isGrouped, Bool.and_eq_true] at grouped
      obtain ⟨⟨⟨several, fitsFirst⟩, groupedFirst⟩, groupedOthers⟩ := grouped
      rw [tokens] at few ⊢
      rw [separated_members members (by decide) clear first others groupedFirst fitsFirst
        groupedOthers (by omega) ends]
      exact congrArg (fun read => some (read, rest)) (combined_of_nonempty several)

end Restore

/-- Grouped outlines are read back from their tokens. -/
theorem restores_type (fuel : Nat) : Restores (type fuel) fuel := by
  induction fuel with
  | zero =>
    intro outline rest _ few
    cases few
  | succ fuel ih => exact restores_union ih

end Reader

/-- A grouped outline is what its tokens are read as. -/
theorem ofTokens?_tokens {outline : Outline} (grouped : outline.isGrouped = true) :
    ofTokens? outline.tokens = some outline := by
  have reads := Reader.restores_type (outline.tokens.length + 1) outline [] grouped
    (Nat.lt_succ_self _) fun _ _ => rfl
  rw [List.append_nil] at reads
  unfold ofTokens?
  rw [reads]
  rfl

end Outline
end ModuleAtlas
