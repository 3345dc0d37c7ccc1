import ModuleAtlas.Types.Reading
import ModuleAtlas.Proofs.Types.TextReader

/-!
# What the text of a type means

A reader takes at least as many opening parentheses as the outline that it reads has tokens for.  If
it takes no more, the outline is grouped.  So the text of a type is read as what the type is made of
exactly if that is grouped.
-/

namespace ModuleAtlas
namespace Outline

/-! ## Parentheses -/

/-- The number of opening parentheses among some tokens. -/
def parens (tokens : List Token) : Nat := tokens.count (.mark .openParen)

@[simp] theorem parens_append (first second : List Token) :
    parens (first ++ second) = parens first + parens second :=
  List.count_append

@[simp] theorem parens_word (chars : List Char) (rest : List Token) :
    parens (.word chars :: rest) = parens rest :=
  List.count_cons_of_ne (show Token.word chars ≠ .mark .openParen from nofun)

@[simp] theorem parens_open (rest : List Token) :
    parens (.mark .openParen :: rest) = parens rest + 1 :=
  List.count_cons_self

theorem parens_mark {mark : Mark} (other : mark ≠ .openParen) (rest : List Token) :
    parens (.mark mark :: rest) = parens rest :=
  List.count_cons_of_ne (by simpa using other)

theorem parens_array (element : Outline) :
    parens (Outline.array element).tokens =
      parens element.tokens + if element.needsParentheses then 1 else 0 := by
  rw [tokens, parens_append]
  split
  · rw [parens_open, parens_append]
    rfl
  · rfl

theorem parens_tuple (elements : List Outline) :
    parens (Outline.tuple elements).tokens = parens (joined .comma (elements.map tokens)) := by
  rw [tokens, parens_mark (by decide), parens_append, listTokens_eq]
  rfl

theorem parens_function (parameters : List (String × Outline)) (returns : Outline) :
    parens (Outline.function parameters returns).tokens =
      parens (joined .comma (parameters.map ofParameter)) + parens returns.tokens + 1 := by
  rw [tokens, parens_open, parens_append, parameterTokens_eq, parens_mark (by decide),
    parens_mark (by decide), parens_mark (by decide)]

namespace Reader

variable {α : Type}

theorem after?_eq_some {mark : Mark} {tokens rest : List Token}
    (found : after? mark tokens = some rest) :
    tokens = .mark mark :: rest := by
  unfold after? at found
  split at found
  · split at found
    · rename_i same
      rw [same, Option.some.inj found]
    · cases found
  · cases found

/-! ## Frugal readers -/

/-- A reader leaves none of some marks first.  It takes as many opening parentheses as what it reads
has tokens for, and if no spare ones, what it reads is good. -/
def Frugal (reader : Reader α) (shown : α → List Token) (good : α → List Token → Prop)
    (blocked : List Mark) : Prop :=
  ∀ tokens value rest, reader tokens = some (value, rest) →
    Clear blocked rest ∧ ∃ taken spare, tokens = taken ++ rest ∧
      parens taken = parens (shown value) + spare ∧ (spare = 0 → good value rest)

/-- Each of several values is good where a mark follows, and the last one where the rest does. -/
def GoodAll (good : α → List Token → Prop) (mark : Mark) : α → List α → List Token → Prop
  | value, [], rest => good value rest
  | value, next :: others, rest =>
    (∃ later, good value (.mark mark :: later)) ∧ GoodAll good mark next others rest

section Lists

variable {item : Reader α} {shown : α → List Token} {good : α → List Token → Prop}
  {blocked : List Mark} {mark closing : Mark}

theorem GoodAll.exists_good {value : α} {others : List α} {rest : List Token}
    (all : GoodAll good mark value others rest) :
    ∀ other ∈ value :: others, ∃ later, good other later := by
  induction others generalizing value with
  | nil =>
    intro other member
    rw [List.mem_singleton.mp member]
    exact ⟨rest, all⟩
  | cons next others ih =>
    obtain ⟨⟨later, here⟩, further⟩ := all
    rw [List.forall_mem_cons]
    exact ⟨⟨_, here⟩, ih further⟩

/-- Further members are read frugally if each of them is. -/
theorem frugal_more (frugal : Frugal item shown good blocked) (noParen : mark ≠ .openParen)
    {fuel : Nat} {tokens rest : List Token} {values : List α}
    (ran : more mark item fuel tokens = some (values, rest)) :
    after? mark rest = none ∧ (Clear blocked tokens → Clear blocked rest) ∧
      ∃ taken spare, tokens = taken ++ rest ∧
        parens taken = parens (each mark (values.map shown)) + spare ∧
        (spare = 0 → ∀ before, good before tokens → GoodAll good mark before values rest) := by
  induction fuel generalizing tokens values with
  | zero => cases ran
  | succ fuel ih =>
    rw [more] at ran
    cases found : after? mark tokens with
    | none =>
      rw [found] at ran
      cases ran
      exact ⟨found, id, [], 0, rfl, rfl, fun _ _ => id⟩
    | some start =>
      rw [found] at ran
      obtain ⟨⟨value, between⟩, readValue, ran⟩ := Option.bind_eq_some_iff.mp ran
      obtain ⟨⟨others, last⟩, readOthers, ran⟩ := Option.bind_eq_some_iff.mp ran
      cases ran
      obtain rfl := after?_eq_some found
      obtain ⟨clear, taken, spare, rfl, counts, isGood⟩ := frugal start value between readValue
      obtain ⟨stops, keeps, takenOthers, spareOthers, rfl, countsOthers, allGood⟩ :=
        ih readOthers
      refine ⟨stops, fun _ => keeps clear, .mark mark :: (taken ++ takenOthers),
        spare + spareOthers, by simp, ?_, ?_⟩
      · rw [parens_mark noParen, parens_append, List.map_cons, each_cons, parens_mark noParen,
          parens_append]
        omega
      · intro none before good
        exact ⟨⟨_, good⟩, allGood (by omega) value (isGood (by omega))⟩

/-- Members between marks are read frugally if each of them is. -/
theorem frugal_separated (frugal : Frugal item shown good blocked) (noParen : mark ≠ .openParen)
    (fuel : Nat) :
    Frugal (separated mark item fuel)
      (fun members => shown members.1 ++ each mark (members.2.map shown))
      (fun members => GoodAll good mark members.1 members.2) (mark :: blocked) := by
  rintro tokens members rest ran
  obtain ⟨⟨first, between⟩, readFirst, ran⟩ := Option.bind_eq_some_iff.mp ran
  obtain ⟨⟨others, last⟩, readOthers, ran⟩ := Option.bind_eq_some_iff.mp ran
  cases ran
  obtain ⟨clear, taken, spare, rfl, counts, isGood⟩ := frugal tokens first between readFirst
  obtain ⟨stops, keeps, takenOthers, spareOthers, rfl, countsOthers, allGood⟩ :=
    frugal_more frugal noParen readOthers
  refine ⟨?_, taken ++ takenOthers, spare + spareOthers, by simp, ?_, ?_⟩
  · rw [Clear, List.forall_mem_cons]
    exact ⟨stops, keeps clear⟩
  · rw [parens_append, parens_append]
    dsimp only
    omega
  · exact fun none => allGood (by omega) first (isGood (by omega))

theorem frugal_enclosed (frugal : Frugal item shown good blocked)
    {fuel : Nat} {tokens rest : List Token} {values : List α}
    (ran : enclosed closing item fuel tokens = some (values, rest)) :
    ∃ taken spare, tokens = taken ++ .mark closing :: rest ∧
      parens taken = parens (joined .comma (values.map shown)) + spare ∧
      (spare = 0 → ∀ value ∈ values, ∃ later, good value later) := by
  unfold enclosed at ran
  cases found : after? closing tokens with
  | some start =>
    rw [found] at ran
    cases ran
    exact ⟨[], 0, after?_eq_some found, rfl, fun _ => nofun⟩
  | none =>
    rw [found] at ran
    obtain ⟨⟨⟨first, others⟩, between⟩, readMembers, ran⟩ := Option.bind_eq_some_iff.mp ran
    obtain ⟨last, ends, ran⟩ := Option.bind_eq_some_iff.mp ran
    cases ran
    obtain rfl := after?_eq_some ends
    obtain ⟨_, taken, spare, rfl, counts, allGood⟩ :=
      frugal_separated frugal (by decide) fuel tokens (first, others) _ readMembers
    exact ⟨taken, spare, rfl, counts, fun none => (allGood none).exists_good⟩

end Lists

/-! ## Frugal readers of types -/

/-- An outline is grouped, it fits, and nothing follows that could make more a part of a function's
result. -/
structure Fitting (fits : Outline → Bool) (outline : Outline) (rest : List Token) : Prop where
  grouped : outline.isGrouped = true
  fits : fits outline = true
  ends : outline.opens = true → Clear [.bar, .ampersand] rest

/-- Brackets after a type make it an array, without marks for parentheses. -/
theorem brackets_or_array {element read : Outline} {tokens rest : List Token}
    (ran : brackets element tokens = some (read, rest)) :
    after? .openBracket rest = none ∧ ∃ taken, tokens = taken ++ rest ∧ parens taken = 0 ∧
      (read = element ∨ ∃ inner, read = .array inner ∧
        parens read.tokens = parens (Outline.array element).tokens ∧
        read.isGrouped = element.isGrouped) := by
  fun_induction brackets element tokens with
  | case1 element start ih =>
    obtain ⟨stops, taken, rfl, none, rfl | ⟨inner, rfl, counts, grouped⟩⟩ :=
      ih ran
    · exact ⟨stops, .mark .openBracket :: .mark .closeBracket :: taken, rfl, none,
        .inr ⟨element, rfl, rfl, by rw [isGrouped]⟩⟩
    · refine ⟨stops, .mark .openBracket :: .mark .closeBracket :: taken, rfl, none,
        .inr ⟨inner, rfl, counts.trans ?_, grouped.trans (by rw [isGrouped])⟩⟩
      exact parens_array (.array element)
  | case2 => cases ran
  | case3 element tokens noPair noBracket =>
    cases ran
    refine ⟨?_, [], rfl, rfl, .inl rfl⟩
    cases found : after? .openBracket rest with
    | none => rfl
    | some start => exact absurd (after?_eq_some found) (noBracket start)

/-- Brackets after a type that needs no parentheses. -/
theorem fitting_of_brackets {element read : Outline} {tokens rest : List Token}
    (closed : element.needsParentheses = false)
    (ran : brackets element tokens = some (read, rest)) :
    Clear [.openBracket] rest ∧ ∃ taken, tokens = taken ++ rest ∧ parens taken = 0 ∧
      parens read.tokens = parens element.tokens ∧
      (element.isGrouped = true → Fitting fitsIntersection read rest) := by
  obtain ⟨stops, taken, same, none, rfl | ⟨inner, rfl, counts, grouped⟩⟩ := brackets_or_array ran
  · refine ⟨by simpa [Clear] using stops, taken, same, none, rfl, fun grouped => ?_⟩
    have plain : read.fitsIntersection = true ∧ read.opens = false := by
      cases read with
      | name | array | tuple => exact ⟨rfl, rfl⟩
      | union | intersection | function => cases closed
    exact ⟨grouped, plain.1, fun opened => absurd (plain.2.symm.trans opened) Bool.false_ne_true⟩
  · refine ⟨by simpa [Clear] using stops, taken, same, none, ?_, fun groupedElement =>
      ⟨grouped.trans groupedElement, rfl, fun opened => nomatch opened⟩⟩
    rw [counts, parens_array, closed]
    rfl

section Types

variable {type : Reader Outline} {fuel : Nat}

/-- A reader for types is frugal. -/
def FrugalType (type : Reader Outline) : Prop :=
  Frugal type tokens (fun outline _ => outline.isGrouped = true) [.bar, .ampersand, .openBracket]

theorem frugal_parameter (frugal : FrugalType type) :
    Frugal (parameter type) ofParameter (fun labelled _ => labelled.2.isGrouped = true)
      [.bar, .ampersand, .openBracket] := by
  intro tokens labelled rest ran
  unfold parameter at ran
  split at ran
  · rename_i chars start
    obtain ⟨⟨read, between⟩, readType, made⟩ := Option.bind_eq_some_iff.mp ran
    cases made
    obtain ⟨clear, taken, spare, rfl, counts, isGood⟩ := frugal start read _ readType
    refine ⟨clear, .word chars :: .mark .colon :: taken, spare, rfl, ?_, isGood⟩
    rw [ofParameter, parens_word, parens_word, parens_mark (by decide), parens_mark (by decide)]
    exact counts
  · cases ran

/-- A function is read frugally if its types are. -/
theorem frugal_function (frugal : FrugalType type) {tokens rest : List Token} {read : Outline}
    (ran : function type fuel tokens = some (read, rest)) :
    Clear [.bar, .ampersand, .openBracket] rest ∧ ∃ taken spare, tokens = taken ++ rest ∧
      parens taken + 1 = parens read.tokens + spare ∧
      (spare = 0 → Fitting fitsIntersection read rest) := by
  obtain ⟨⟨parameters, afterParameters⟩, readParameters, ran⟩ := Option.bind_eq_some_iff.mp ran
  obtain ⟨afterEquals, equals, ran⟩ := Option.bind_eq_some_iff.mp ran
  obtain ⟨afterArrow, greater, ran⟩ := Option.bind_eq_some_iff.mp ran
  obtain ⟨⟨returns, last⟩, readResult, ran⟩ := Option.bind_eq_some_iff.mp ran
  cases ran
  obtain rfl := after?_eq_some equals
  obtain rfl := after?_eq_some greater
  obtain ⟨taken, spare, rfl, counts, grouped⟩ :=
    frugal_enclosed (frugal_parameter frugal) readParameters
  obtain ⟨clear, takenResult, spareResult, rfl, countsResult, groupedResult⟩ :=
    frugal afterArrow returns rest readResult
  refine ⟨clear, taken ++ .mark .closeParen :: .mark .equals :: .mark .greater :: takenResult,
    spare + spareResult, by simp, ?_, fun none => ⟨?_, rfl, fun _ => clear.mono (by decide)⟩⟩
  · rw [parens_append, parens_mark (by decide), parens_mark (by decide), parens_mark (by decide),
      parens_function]
    omega
  · rw [isGrouped, Bool.and_eq_true, areGroupedParameters_iff]
    refine ⟨fun labelled member => ?_, groupedResult (by omega)⟩
    obtain ⟨_, good⟩ := grouped (by omega) labelled member
    exact good

theorem frugal_inParens (frugal : FrugalType type) {tokens rest : List Token} {read : Outline}
    (ran : inParens type tokens = some (read, rest)) :
    Clear [.openBracket] rest ∧ ∃ taken spare, tokens = taken ++ rest ∧
      parens taken + 1 = parens read.tokens + spare ∧
      (spare = 0 → Fitting fitsIntersection read rest) := by
  obtain ⟨⟨inner, afterInner⟩, readInner, closesRan⟩ := Option.bind_eq_some_iff.mp ran
  obtain ⟨afterParen, closes, bracketsRan⟩ := Option.bind_eq_some_iff.mp closesRan
  obtain rfl := after?_eq_some closes
  obtain ⟨_, taken, spare, rfl, counts, grouped⟩ := frugal tokens inner _ readInner
  obtain ⟨stops, takenBrackets, rfl, none, array⟩ := brackets_or_array bracketsRan
  refine ⟨by simpa [Clear] using stops, taken ++ .mark .closeParen :: takenBrackets, ?_⟩
  have total : parens (taken ++ .mark .closeParen :: takenBrackets) =
      parens inner.tokens + spare := by
    rw [parens_append, parens_mark (by decide), none, counts, Nat.add_zero]
  rw [total]
  -- The opening parenthesis is spare, unless brackets follow and what they follow needs it.
  rcases array with rfl | ⟨element, rfl, countsArray, groupedArray⟩
  · exact ⟨spare + 1, by simp, by omega, nofun⟩
  · rw [countsArray, parens_array]
    cases needed : inner.needsParentheses with
    | true =>
      refine ⟨spare, by simp, by rw [if_pos rfl]; omega, fun none => ?_⟩
      exact ⟨groupedArray.trans (grouped none), rfl, fun opened => nomatch opened⟩
    | false => exact ⟨spare + 1, by simp, by rw [if_neg Bool.false_ne_true]; omega, nofun⟩

theorem frugal_operand (frugal : FrugalType type) :
    Frugal (operand type fuel) tokens (Fitting fitsIntersection) [.openBracket] := by
  intro tokens read rest ran
  unfold operand at ran
  split at ran
  · rename_i chars start
    obtain ⟨clear, taken, rfl, none, counts, fitting⟩ := fitting_of_brackets rfl ran
    refine ⟨clear, .word chars :: taken, 0, rfl, ?_, fun _ => fitting rfl⟩
    rw [parens_word, none, counts]
    rfl
  · rename_i start
    obtain ⟨⟨elements, between⟩, readElements, bracketsRan⟩ := Option.bind_eq_some_iff.mp ran
    obtain ⟨takenElements, spare, rfl, countsElements, grouped⟩ :=
      frugal_enclosed frugal readElements
    obtain ⟨clear, taken, rfl, none, counts, fitting⟩ := fitting_of_brackets rfl bracketsRan
    refine ⟨clear, .mark .openBracket :: (takenElements ++ .mark .closeBracket :: taken), spare,
      by simp, ?_, fun noSpare => fitting ?_⟩
    · rw [parens_mark (by decide), parens_append, parens_mark (by decide), none, counts,
        parens_tuple, countsElements]
      rfl
    · rw [isGrouped, areGrouped_iff]
      intro element member
      obtain ⟨_, good⟩ := grouped noSpare element member
      exact good
  · rename_i start
    split at ran
    · obtain ⟨clear, taken, spare, rfl, counts, fitting⟩ := frugal_function frugal ran
      refine ⟨clear.mono (by decide), .mark .openParen :: taken, spare, rfl, ?_, fitting⟩
      rw [parens_open, counts]
    · obtain ⟨clear, taken, spare, rfl, counts, fitting⟩ := frugal_inParens frugal ran
      refine ⟨clear, .mark .openParen :: taken, spare, rfl, ?_, fitting⟩
      rw [parens_open, counts]
  · cases ran

end Types

section Members

variable {type : Reader Outline} {fuel : Nat}

/-- Members that are good where they stand group. -/
theorem grouped_of_goodAll
    {fits : Outline → Bool} {mark : Mark} {first : Outline} {others : List Outline}
    {rest : List Token} (isMark : mark ∈ [Mark.bar, .ampersand])
    (all : GoodAll (Fitting fits) mark first others rest) :
    first.isGrouped = true ∧ fits first = true ∧
      areGroupedAfter fits first.opens others = true ∧
      (lastOpens first.opens others = true → Clear [.bar, .ampersand] rest) := by
  induction others generalizing first with
  | nil => exact ⟨all.grouped, all.fits, rfl, all.ends⟩
  | cons next others ih =>
    obtain ⟨⟨later, here⟩, further⟩ := all
    obtain ⟨groupedNext, fitsNext, groupedOthers, ends⟩ := ih further
    have closed : first.opens = false := by
      cases opened : first.opens with
      | false => rfl
      | true =>
        have clear := here.ends opened mark isMark
        rw [after?_mark] at clear
        cases clear
    refine ⟨here.grouped, here.fits, ?_, ends⟩
    simp [areGroupedAfter, closed, fitsNext, groupedNext, groupedOthers]

/-- What is combined of members has their tokens. -/
theorem tokens_combined (combine : Outline → List Outline → Outline) {mark : Mark}
    (shown : ∀ first others, (combine first others).tokens =
      Outline.tokens first ++ tokensAfter mark others)
    (first : Outline) (others : List Outline) :
    (combined combine (first, others)).tokens =
      first.tokens ++ each mark (others.map Outline.tokens) := by
  cases others with
  | nil => exact (List.append_nil _).symm
  | cons next others =>
    show (combine first (next :: others)).tokens = _
    rw [shown, tokensAfter_eq]

theorem frugal_intersection (frugal : FrugalType type) :
    Frugal (intersection type fuel) tokens (Fitting fitsUnion) [.ampersand, .openBracket] := by
  intro tokens read rest ran
  obtain ⟨⟨⟨first, others⟩, last⟩, readMembers, made⟩ := Option.bind_eq_some_iff.mp ran
  cases made
  obtain ⟨clear, taken, spare, rfl, counts, isGood⟩ :=
    frugal_separated (frugal_operand frugal) (by decide) fuel tokens (first, others) rest
      readMembers
  refine ⟨clear, taken, spare, rfl, ?_, fun none => ?_⟩
  · rw [tokens_combined .intersection (fun _ _ => by rw [Outline.tokens])]
    exact counts
  · obtain ⟨grouped, fits, groupedOthers, ends⟩ := grouped_of_goodAll (by decide) (isGood none)
    cases others with
    | nil => exact ⟨grouped, fitsUnion_of_fitsIntersection fits, ends⟩
    | cons next others =>
      refine ⟨?_, rfl, ends⟩
      simp only [combined, isGrouped, grouped, fits, groupedOthers]
      rfl

theorem frugal_union (frugal : FrugalType type) : FrugalType (union type fuel) := by
  intro tokens read rest ran
  obtain ⟨⟨⟨first, others⟩, last⟩, readMembers, made⟩ := Option.bind_eq_some_iff.mp ran
  cases made
  obtain ⟨clear, taken, spare, rfl, counts, isGood⟩ :=
    frugal_separated (frugal_intersection frugal) (by decide) fuel tokens (first, others) rest
      readMembers
  refine ⟨clear, taken, spare, rfl, ?_, fun none => ?_⟩
  · rw [tokens_combined .union (fun _ _ => by rw [Outline.tokens])]
    exact counts
  · obtain ⟨grouped, fits, groupedOthers, _⟩ := grouped_of_goodAll (by decide) (isGood none)
    cases others with
    | nil => exact grouped
    | cons next others =>
      simp only [combined, isGrouped, grouped, fits, groupedOthers]
      rfl

theorem frugal_type (fuel : Nat) : FrugalType (Reader.type fuel) := by
  induction fuel with
  | zero =>
    intro tokens read rest ran
    cases ran
  | succ fuel ih => exact frugal_union ih

end Members

end Reader

/-! ## What tokens are read as -/

/-- An outline is what its tokens are read as exactly if it is grouped. -/
theorem ofTokens?_tokens_iff {outline : Outline} :
    ofTokens? outline.tokens = some outline ↔ outline.isGrouped = true := by
  refine ⟨fun readBack => ?_, ofTokens?_tokens⟩
  obtain ⟨⟨read, rest⟩, ran, same⟩ := Option.bind_eq_some_iff.mp readBack
  dsimp only at same
  split at same
  · rename_i isEmpty
    cases same
    obtain ⟨_, taken, spare, tokens, counts, grouped⟩ :=
      Reader.frugal_type _ outline.tokens outline rest ran
    rw [List.isEmpty_iff.mp isEmpty, List.append_nil] at tokens
    rw [tokens] at counts
    exact grouped (by omega)
  · cases same

end Outline

namespace TypeTerm

/-- The text of a type is read as its outline, with directly nested unions and intersections as one,
exactly if that is grouped. -/
theorem ofText?_text_iff {term : TypeTerm} {outline : Outline}
    (built : term.outline? = some outline) :
    Outline.ofText? term.text = some outline.flat ↔ outline.flat.isGrouped = true := by
  unfold Outline.ofText?
  rw [ofText_text term built, ← Outline.tokens_flat]
  exact Outline.ofTokens?_tokens_iff

/-- The text of a type that is built from names is read as what the type is made of exactly if that
is grouped.  So types of that kind have different texts if they are made of different things. -/
theorem text_read_as_outline {term : TypeTerm} {outline : Outline}
    (built : term.outline? = some outline) :
    (Outline.ofText? term.text = some outline.flat ↔ outline.flat.isGrouped = true) ∧
    ∀ (other : TypeTerm) (otherOutline : Outline), other.outline? = some otherOutline →
      outline.flat.isGrouped = true → otherOutline.flat.isGrouped = true →
      other.text = term.text → otherOutline.flat = outline.flat := by
  refine ⟨ofText?_text_iff built, ?_⟩
  intro other otherOutline builtOther grouped groupedOther same
  have first := (ofText?_text_iff built).mpr grouped
  have second := (ofText?_text_iff builtOther).mpr groupedOther
  rw [same, first] at second
  exact (Option.some.inj second).symm

/-- A union in an array keeps its parentheses, and it is read back. -/
theorem array_of_union_read_back :
    Outline.ofText? (array (union "" [verbatim "A", union "" [verbatim "B", verbatim "C"]])).text =
      some (.array (.union (.name "A") [.name "B", .name "C"])) := by
  have built : (array (union "" [verbatim "A", union "" [verbatim "B", verbatim "C"]])).outline? =
      some (.array (.union (.name "A") [.union (.name "B") [.name "C"]])) :=
    rfl
  exact (text_read_as_outline built).1.mpr (by decide)

/-! ## A function in a union -/

/-- The syntax of a name that is given with the language. -/
def givenName (name : String) (role : Option String) : Node :=
  .mk "predefined_type" true role 0 1 name []

/-- The syntax of a union. -/
def unionSyntax (members : List Node) (role : Option String) : Node :=
  .mk "union_type" true role 0 1 "" members

/-- The syntax of a function type without parameters. -/
def functionSyntax (returns : Node) : Node :=
  .mk "function_type" true none 0 1 "" [
    .mk "formal_parameters" true (some "parameters") 0 1 "()" [], returns]

/-- The union of a function type and a name. -/
def functionOrName : TypeTerm :=
  union "" [function "" [⟨[], primitive "void"⟩], primitive "string"]

@[inherit_doc functionOrName]
def functionOrNameSyntax : Node :=
  unionSyntax
    [.mk "parenthesized_type" true none 0 1 ""
        [functionSyntax (givenName "void" (some "return_type"))],
      givenName "string" none]
    none

/-- A function type whose result is a union of the same names. -/
def functionToUnion : TypeTerm :=
  function "" [⟨[], union "" [primitive "void", primitive "string"]⟩]

@[inherit_doc functionToUnion]
def functionToUnionSyntax : Node :=
  functionSyntax (unionSyntax [givenName "void" none, givenName "string" none] (some "return_type"))

/-- The two types are written with different syntax and made of different things, and they have the
same text. -/
theorem function_in_union_not_read_back :
    (∀ scope tree journal,
      Types.typeOf scope functionOrNameSyntax tree journal = (.ok functionOrName, journal) ∧
      Types.typeOf scope functionToUnionSyntax tree journal = (.ok functionToUnion, journal)) ∧
    ∃ outline otherOutline, functionOrName.outline? = some outline ∧
      functionToUnion.outline? = some otherOutline ∧ otherOutline.flat ≠ outline.flat ∧
      functionToUnion.text = functionOrName.text ∧
      Outline.ofText? functionOrName.text = some otherOutline.flat := by
  have built : functionToUnion.outline? =
      some (.function [] (.union (.name "void") [.name "string"])) :=
    rfl
  have same : functionToUnion.text = functionOrName.text := rfl
  have reads := (ofText?_text_iff built).mpr (by decide)
  rw [same] at reads
  refine ⟨fun _ _ _ => ⟨rfl, rfl⟩, .union (.function [] (.name "void")) [.name "string"], _, rfl,
    built, ?_, same, reads⟩
  intro equal
  cases equal

end TypeTerm
end ModuleAtlas
