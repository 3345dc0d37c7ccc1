import Mathlib.Logic.Equiv.Basic
import ModuleAtlas.Proofs.Shape.Cleaning
import ModuleAtlas.Proofs.Shape.OnSight
import ModuleAtlas.Proofs.Types.Spelling
import ModuleAtlas.Proofs.Types.Substitution

/-!
# Renaming words

A renaming permutes words, those that may be the names of type parameters, and a text is renamed by
renaming each of its words.  Whatever is done with the texts of types, comparing them, putting them
together and putting arguments into them included, can be done before they are renamed as well as
afterwards.  What a text must not hold for that is a backslash, which means something in what is put
in for a parameter, and a word that the qualifier of a module or a wrapper may begin with.
-/

namespace ModuleAtlas

open Text (IsSingleWord Segmented segments rewritten KeepsMarks isWord isBlank collapseChars)

/-! ## Words that may be renamed -/

/-- The words that the qualifiers of modules and the default wrappers begin with. -/
def headWords : List (List Char) :=
  "import".toList :: Shape.wrappers.map fun wrapper => wrapper.name.toList

/-- A word, or a character between words, that means nothing in a template and begins nothing that
is cut out of texts. -/
def IsPlainSegment (segment : List Char) : Prop :=
  segment ≠ ['\\'] ∧ ∀ word ∈ headWords, ¬word <:+ segment

instance (segment : List Char) : Decidable (IsPlainSegment segment) :=
  inferInstanceAs (Decidable (_ ∧ _))

/-- A word that may be the name of a type parameter: it is no number, and the analysis does not put
it in itself. -/
structure IsName (word : List Char) : Prop where
  single : IsSingleWord word
  noNumber : word.head?.any Text.isDigit = false
  foreign : ∀ text ∈ ownTexts, word ∉ segments text.toList
  plain : IsPlainSegment word

instance (word : List Char) : Decidable (IsName word) :=
  decidable_of_iff (IsSingleWord word ∧ word.head?.any Text.isDigit = false ∧
      (∀ text ∈ ownTexts, word ∉ segments text.toList) ∧ IsPlainSegment word)
    ⟨fun ⟨single, noNumber, foreign, plain⟩ => ⟨single, noNumber, foreign, plain⟩,
      fun isName => ⟨isName.single, isName.noNumber, isName.foreign, isName.plain⟩⟩

/-- A permutation of words that moves nothing but names. -/
structure Renaming where
  words : Equiv.Perm (List Char)
  names : ∀ word, words word ≠ word → IsName word

namespace Renaming

/-- Two names in each other's place. -/
def swap {first second : List Char} (isName : IsName first) (otherIsName : IsName second) :
    Renaming where
  words := Equiv.swap first second
  names word moved := by
    rcases Equiv.eq_or_eq_of_swap_apply_ne_self moved with rfl | rfl
    · exact isName
    · exact otherIsName

variable (naming : Renaming) {word segment text first second : List Char} {c : Char}

/-- The renaming that takes the names back. -/
def symm : Renaming where
  words := naming.words.symm
  names word moved := naming.names word fun same => moved <| by
    rw [Equiv.symm_apply_eq]
    exact same.symm

theorem words_eq_self (notName : ¬IsName word) : naming.words word = word :=
  not_imp_comm.mp (naming.names word) notName

/-- Names are renamed to names. -/
theorem isName_words (isName : IsName word) : IsName (naming.words word) := by
  by_cases same : naming.words word = word
  · rw [same]
    exact isName
  · exact naming.names _ fun again => same (naming.words.injective again)

theorem words_mark (isMark : isWord c = false) : naming.words [c] = [c] := by
  refine naming.words_eq_self fun isName => ?_
  rw [isName.single.2 c List.mem_cons_self] at isMark
  cases isMark

theorem words_single (isSingle : IsSingleWord word) : IsSingleWord (naming.words word) := by
  by_cases isName : IsName word
  · exact (naming.isName_words isName).single
  · rw [naming.words_eq_self isName]
    exact isSingle

theorem words_plain (plain : IsPlainSegment segment) : IsPlainSegment (naming.words segment) := by
  by_cases isName : IsName segment
  · exact (naming.isName_words isName).plain
  · rw [naming.words_eq_self isName]
    exact plain

theorem words_own {ownText : String} (isOwn : ownText ∈ ownTexts)
    (member : segment ∈ segments ownText.toList) :
    naming.words segment = segment :=
  naming.words_eq_self fun isName => isName.foreign ownText isOwn member

/-! ## Renaming texts -/

/-- A text with its words renamed. -/
def apply (text : List Char) : List Char := rewritten naming.words text

theorem keepsMarks : KeepsMarks naming.words := fun _ => naming.words_mark

theorem segments_words (whole : segments segment = [segment]) :
    segments (naming.words segment) = [naming.words segment] := by
  by_cases isName : IsName segment
  · exact (naming.isName_words isName).single.segments_eq
  · rw [naming.words_eq_self isName, whole]

theorem segments_apply (text : List Char) :
    segments (naming.apply text) = (segments text).map naming.words := by
  unfold apply rewritten
  rw [Text.segments_flatMap naming.keepsMarks (Text.segmented_segments text),
    ← List.flatMap_singleton' ((segments text).map naming.words), List.flatMap_map]
  refine List.flatMap_congr fun segment member => ?_
  exact naming.segments_words (Text.segments_of_mem member)

theorem apply_append (apart : first.getLast?.any isWord = false ∨ second.head?.any isWord = false) :
    naming.apply (first ++ second) = naming.apply first ++ naming.apply second := by
  unfold apply rewritten
  rw [Text.segments_append apart, List.flatMap_append]

@[simp]
theorem apply_nil : naming.apply [] = [] := rfl

theorem apply_cons_mark (isMark : isWord c = false) (rest : List Char) :
    naming.apply (c :: rest) = c :: naming.apply rest := by
  have apart : [c].getLast?.any isWord = false := by simpa using isMark
  have alone : naming.apply [c] = [c] :=
    (Text.rewritten_of_segment _ (Text.segments_singleton c)).trans (naming.words_mark isMark)
  rw [← List.singleton_append, naming.apply_append (.inl apart), alone, List.singleton_append]

theorem apply_of_single (isSingle : IsSingleWord word) :
    naming.apply word = naming.words word := by
  unfold apply
  exact Text.rewritten_of_segment _ isSingle.segments_eq

theorem apply_eq_self (fixed : ∀ segment ∈ segments text, naming.words segment = segment) :
    naming.apply text = text :=
  Text.rewritten_eq_self fixed

theorem symm_apply_apply (text : List Char) : naming.symm.apply (naming.apply text) = text := by
  rw [apply, rewritten, naming.segments_apply, List.flatMap_map]
  have back : ∀ segment, naming.symm.words (naming.words segment) = segment :=
    naming.words.symm_apply_apply
  simp only [back, List.flatMap_id']
  exact Text.flatten_segments text

theorem apply_injective : Function.Injective naming.apply :=
  Function.LeftInverse.injective naming.symm_apply_apply

/-- Characters that belong to no word stay as they are, and no new ones come. -/
theorem mem_apply_iff (isMark : isWord c = false) : c ∈ naming.apply text ↔ c ∈ text := by
  rw [← Text.mem_segments_iff isMark, ← Text.mem_segments_iff isMark, naming.segments_apply]
  conv_lhs => rw [← naming.words_mark isMark]
  exact List.mem_map_of_injective naming.words.injective

end Renaming

/-! ## Plain texts -/

/-- A text without anything that means something in a template or before a module. -/
def IsPlainText (text : List Char) : Prop := ∀ segment ∈ segments text, IsPlainSegment segment

instance (text : List Char) : Decidable (IsPlainText text) :=
  inferInstanceAs (Decidable (∀ segment ∈ segments text, IsPlainSegment segment))

theorem isPlainText_own : ∀ ownText ∈ ownTexts, IsPlainText ownText.toList := by decide +kernel

section Plain

variable {text more first second before after : List Char} {c : Char}

theorem IsPlainText.append (plain : IsPlainText first) (morePlain : IsPlainText second)
    (apart : first.getLast?.any isWord = false ∨ second.head?.any isWord = false) :
    IsPlainText (first ++ second) := by
  unfold IsPlainText
  rw [Text.segments_append apart]
  exact List.forall_mem_append.mpr ⟨plain, morePlain⟩

theorem IsPlainText.collapse (plain : IsPlainText text) : IsPlainText (collapseChars text) := by
  intro segment member
  rw [Text.segments_collapseChars] at member
  rcases Text.mem_keptSegments member with rfl | isSegment
  · decide
  · exact plain segment isSegment

theorem IsPlainText.apply (naming : Renaming) (plain : IsPlainText text) :
    IsPlainText (naming.apply text) := by
  unfold IsPlainText
  rw [naming.segments_apply, List.forall_mem_map]
  exact fun segment member => naming.words_plain (plain segment member)

theorem IsPlainText.of_append_cons (plain : IsPlainText (before ++ c :: after))
    (isMark : isWord c = false) :
    IsPlainText after := by
  have apart : (c :: after).head?.any isWord = false := by simpa using isMark
  have single : [c].getLast?.any isWord = false := by simpa using isMark
  unfold IsPlainText at plain
  rw [Text.segments_append (.inr apart), ← List.singleton_append,
    Text.segments_append (.inl single)]
    at plain
  exact fun segment member => plain segment
    (List.mem_append_right _ (List.mem_append_right _ member))

/-- What a text without backslashes is read as is the text itself. -/
theorem IsPlainText.readsAsItself (plain : IsPlainText text) :
    Regex.readsAsItself text = true := by
  have noBackslash : '\\' ∉ text := fun member =>
    (plain _ ((Text.mem_segments_iff (by decide)).mpr member)).1 rfl
  clear plain
  fun_induction Regex.readsAsItself text with
  | case1 => rfl
  | case2 => simp at noBackslash
  | case3 c rest => simp at noBackslash
  | case4 c rest _ _ ih => exact ih fun member => noBackslash (List.mem_cons_of_mem _ member)

end Plain

namespace Renaming

/-! ## What is done with texts -/

variable (naming : Renaming) {text more name value code : String} {segment : List Char}

/-- A text with its words renamed. -/
def applyText (text : String) : String := String.ofList (naming.apply text.toList)

theorem toList_applyText (text : String) :
    (naming.applyText text).toList = naming.apply text.toList :=
  String.toList_ofList

theorem symm_applyText_applyText (text : String) :
    naming.symm.applyText (naming.applyText text) = text := by
  rw [← String.toList_inj, toList_applyText, toList_applyText, symm_apply_apply]

theorem applyText_injective : Function.Injective naming.applyText :=
  Function.LeftInverse.injective naming.symm_applyText_applyText

theorem applyText_own (isOwn : text ∈ ownTexts) : naming.applyText text = text := by
  rw [← String.toList_inj, toList_applyText]
  exact naming.apply_eq_self fun _ => naming.words_own isOwn

theorem applyText_append (apart : Text.EndsApart text ∨ Text.StartsApart more) :
    naming.applyText (text ++ more) = naming.applyText text ++ naming.applyText more := by
  rw [← String.toList_inj, toList_applyText, String.toList_append, naming.apply_append apart,
    String.toList_append, toList_applyText, toList_applyText]

theorem keepsWords : Text.KeepsWords naming.words :=
  ⟨naming.keepsMarks, fun _ => naming.words_single⟩

theorem applyText_collapse (text : String) :
    naming.applyText (Text.collapse text) = Text.collapse (naming.applyText text) := by
  unfold Text.collapse
  rw [← String.toList_inj, toList_applyText, toList_applyText, String.toList_ofList,
    String.toList_ofList]
  exact (Text.collapseChars_rewritten naming.keepsWords _).symm

/-- A text is cut where it was cut before. -/
theorem apply_append_cons {before after : List Char} {c : Char} (isMark : isWord c = false) :
    naming.apply (before ++ c :: after) = naming.apply before ++ c :: naming.apply after := by
  have apart : (c :: after).head?.any isWord = false := by simpa using isMark
  rw [naming.apply_append (.inr apart), naming.apply_cons_mark isMark]

/-- Renaming a qualified name renames its last part. -/
theorem applyText_lastName (text : String) :
    naming.applyText (Types.lastName text) = Types.lastName (naming.applyText text) := by
  have isMark : isWord '.' = false := by decide
  unfold Types.lastName
  cases cut : Text.cutLast? '.' text.toList with
  | none =>
    have free : Text.cutLast? '.' (naming.applyText text).toList = none := by
      rw [Text.cutLast?_eq_none_iff, toList_applyText, naming.mem_apply_iff isMark]
      exact Text.cutLast?_eq_none_iff.mp cut
    rw [free]
  | some parts =>
    obtain ⟨before, after⟩ := parts
    obtain ⟨split, free⟩ := Text.cutLast?_eq_some_iff.mp cut
    have otherCut : Text.cutLast? '.' (naming.applyText text).toList =
        some (naming.apply before, naming.apply after) := by
      rw [Text.cutLast?_eq_some_iff, toList_applyText, split, naming.mem_apply_iff isMark]
      exact ⟨naming.apply_append_cons isMark, free⟩
    rw [otherCut]
    dsimp only
    rw [← String.toList_inj, toList_applyText, String.toList_ofList, String.toList_ofList]

/-! ### Literals -/

/-- A number has no names in it. -/
theorem apply_of_isNumberText {text : List Char} (isNumber : Shape.isNumberText text = true) :
    naming.apply text = text := by
  refine naming.apply_eq_self fun segment member => naming.words_eq_self fun isName => ?_
  obtain ⟨c, rest, rfl⟩ := List.exists_cons_of_ne_nil isName.single.1
  have inside : c ∈ text := by
    rw [← Text.flatten_segments text]
    exact List.mem_flatten_of_mem member List.mem_cons_self
  have numeric := Shape.numeric_of_isNumberText isNumber c inside
  have isWordChar := isName.single.2 c List.mem_cons_self
  have noDigit : Text.isDigit c = false := by simpa using isName.noNumber
  simp only [Shape.isNumeric, noDigit, Bool.false_or, Bool.or_eq_true, beq_iff_eq] at numeric
  rcases numeric with (rfl | rfl) | rfl
  all_goals exact absurd isWordChar (by decide)

theorem isQuoted_apply {text : List Char} (isQuoted : Shape.IsQuoted text) :
    Shape.IsQuoted (naming.apply text) := by
  obtain ⟨quote, body, rfl, isQuote, free⟩ := isQuoted
  have isMark : isWord quote = false := by
    rcases isQuote with rfl | rfl
    all_goals decide
  refine ⟨quote, naming.apply body, ?_, isQuote, fun member => ?_⟩
  · rw [naming.apply_cons_mark isMark, naming.apply_append_cons isMark, naming.apply_nil]
  · exact free ((naming.mem_apply_iff isMark).mp member)

theorem isLiteralText_of_isQuoted (isQuoted : Shape.IsQuoted text.toList) :
    Shape.isLiteralText text = true := by
  obtain ⟨quote, body, same, isQuote, free⟩ := isQuoted
  have surrounds : Shape.surroundingQuote? (quote :: (body ++ [quote])) = some quote := by
    simp [Shape.surroundingQuote?, isQuote]
  unfold Shape.isLiteralText
  simp only [same, surrounds]
  simpa using free

theorem isLiteralText_applyText (isLiteral : Shape.isLiteralText text = true) :
    Shape.isLiteralText (naming.applyText text) = true := by
  have kept := isLiteral
  unfold Shape.isLiteralText at isLiteral
  dsimp only at isLiteral
  split at isLiteral
  · rename_i quote found
    have isQuoted := Shape.isQuoted_of_surroundingQuote found (by simpa using isLiteral)
    refine isLiteralText_of_isQuoted ?_
    rw [toList_applyText]
    exact naming.isQuoted_apply isQuoted
  · simp only [Bool.or_eq_true, beq_iff_eq] at isLiteral
    have same : naming.applyText text = text := by
      rcases isLiteral with (isNumber | rfl) | rfl
      · rw [← String.toList_inj, toList_applyText, naming.apply_of_isNumberText isNumber]
      · exact naming.applyText_own (by decide)
      · exact naming.applyText_own (by decide)
    rw [same, kept]

theorem isLiteralText_eq (text : String) :
    Shape.isLiteralText text = Shape.isLiteralText (naming.applyText text) := by
  rw [Bool.eq_iff_iff]
  refine ⟨naming.isLiteralText_applyText, fun isLiteral => ?_⟩
  rw [← naming.symm_applyText_applyText text]
  exact naming.symm.isLiteralText_applyText isLiteral

/-! ### Putting arguments in -/

/-- A text in which a word is replaced by another text. -/
def replaced (name value : List Char) (segment : List Char) : List Char :=
  if segment = name then value else segment

theorem keepsMarks_replaced {name : List Char} (isSingle : IsSingleWord name) (value : List Char) :
    KeepsMarks (replaced name value) := by
  intro c isMark
  refine if_neg ?_
  rintro rfl
  rw [isSingle.2 c List.mem_cons_self] at isMark
  cases isMark

/-- A value without backslashes is put in as it stands. -/
theorem replace_eq (isSingle : IsSingleWord name.toList) (plain : IsPlainText value.toList)
    (code : String) :
    Regex.Expression.replace ⟨Types.wholeWord name, 0, []⟩ value code =
      .ok (String.ofList (rewritten (replaced name.toList value.toList) code.toList)) := by
  obtain ⟨parts, isRead, comes⟩ := Regex.parts_of_readsAsItself ⟨Types.wholeWord name, 0, []⟩
    plain.readsAsItself (Nat.lt_succ_self _)
  have same : Regex.putFor name.toList parts = replaced name.toList value.toList := by
    funext segment
    exact congrArg (fun text => if segment = name.toList then text else segment) (comes _)
  rw [Regex.replace_wholeWord isSingle, isRead, Except.map, same]

/-- Renaming what a replacement makes is replacing the renamed word by the renamed value. -/
theorem apply_rewritten_replaced {name : List Char} (isSingle : IsSingleWord name)
    (value code : List Char) :
    naming.apply (rewritten (replaced name value) code) =
      rewritten (replaced (naming.words name) (naming.apply value)) (naming.apply code) := by
  unfold apply
  rw [Text.rewritten_rewritten (keepsMarks_replaced isSingle value),
    Text.rewritten_rewritten naming.keepsMarks]
  refine Text.rewritten_congr fun segment member => ?_
  have whole := Text.segments_of_mem member
  rw [Text.rewritten_of_segment _ (naming.segments_words whole)]
  unfold replaced
  by_cases same : segment = name
  · rw [if_pos same, if_pos (congrArg _ same)]
  · rw [if_neg same, if_neg fun equal => same (naming.words.injective equal),
      Text.rewritten_of_segment _ whole]

theorem isPlainText_replaced {name : List Char} (isSingle : IsSingleWord name)
    {value code : List Char} (plain : IsPlainText value) (codePlain : IsPlainText code) :
    IsPlainText (rewritten (replaced name value) code) := by
  intro segment member
  unfold rewritten at member
  rw [Text.segments_flatMap (keepsMarks_replaced isSingle value) (Text.segmented_segments code),
    List.mem_flatMap] at member
  obtain ⟨old, isSegment, inside⟩ := member
  unfold replaced at inside
  split at inside
  · exact plain segment inside
  · rw [Text.segments_of_mem isSegment, List.mem_singleton] at inside
    rw [inside]
    exact codePlain old isSegment

/-! ## The spelling -/

/-- Plain texts and their renamings stand for each other. -/
def spelling : Spelling where
  spelled text other := IsPlainText text.toList ∧ other = naming.applyText text
  nameable name other :=
    IsSingleWord name.toList ∧ IsPlainText name.toList ∧ other = naming.applyText name
  unique := by
    rintro text _ more _ ⟨_, rfl⟩ ⟨_, rfl⟩
    exact naming.applyText_injective.eq_iff.symm
  own isOwn := ⟨isPlainText_own _ isOwn, (naming.applyText_own isOwn).symm⟩
  append := by
    rintro text _ more _ ⟨plain, rfl⟩ ⟨morePlain, rfl⟩ apart
    refine ⟨?_, (naming.applyText_append apart).symm⟩
    rw [String.toList_append]
    exact plain.append morePlain apart
  collapse := by
    rintro text _ ⟨plain, rfl⟩
    refine ⟨?_, (naming.applyText_collapse text).symm⟩
    rw [Text.collapse, String.toList_ofList]
    exact plain.collapse
  lastName := by
    rintro text _ ⟨plain, rfl⟩
    refine ⟨?_, (naming.applyText_lastName text).symm⟩
    unfold Types.lastName
    split
    · rename_i before after cut
      obtain ⟨split, -⟩ := Text.cutLast?_eq_some_iff.mp cut
      rw [split] at plain
      rw [String.toList_ofList]
      exact plain.of_append_cons (by decide)
    · exact plain
  isLiteralText := by
    rintro text _ ⟨_, rfl⟩
    exact naming.isLiteralText_eq text
  replace := by
    rintro name _ value _ code _ ⟨isSingle, _, rfl⟩ ⟨plain, rfl⟩ ⟨codePlain, rfl⟩
    have otherSingle : IsSingleWord (naming.applyText name).toList := by
      rw [toList_applyText, naming.apply_of_single isSingle]
      exact naming.words_single isSingle
    have otherPlain : IsPlainText (naming.applyText value).toList := by
      rw [toList_applyText]
      exact plain.apply naming
    rw [replace_eq isSingle plain, replace_eq otherSingle otherPlain]
    refine .ok ⟨?_, ?_⟩
    · rw [String.toList_ofList]
      exact isPlainText_replaced isSingle plain codePlain
    · rw [← String.toList_inj, String.toList_ofList, toList_applyText, toList_applyText,
        toList_applyText, toList_applyText, String.toList_ofList,
        naming.apply_rewritten_replaced isSingle, naming.apply_of_single isSingle]
  spelled_of_nameable := by
    rintro name _ ⟨_, plain, rfl⟩
    exact ⟨plain, rfl⟩
  cutLast?_of_nameable := by
    rintro name _ ⟨isSingle, _, rfl⟩ _
    have free : '.' ∉ name.toList := fun member =>
      absurd (isSingle.2 _ member) (by decide)
    have isMark : isWord '.' = false := by decide
    rw [Text.cutLast?_eq_none_iff, Text.cutLast?_eq_none_iff, toList_applyText,
      naming.mem_apply_iff isMark]
    exact ⟨free, free⟩

/-! ## Cleaning -/

section Cleaning

open Regex (Stretch guardedBy)

variable {guard : Option (Nat × Regex.Pattern)} {stretches : List Stretch} {head more : List Char}
  {c : Char}

/-- Nothing is cut out of a plain text. -/
theorem cuts_eq_nil (plain : IsPlainText text.toList) (isHead : head ∈ headWords)
    (isMark : isWord c = false) :
    (guardedBy guard (Regex.spelled (.fixed (head ++ c :: more) :: stretches))).cuts text = [] := by
  by_contra some
  obtain ⟨cut, cuts, known⟩ := List.exists_cons_of_ne_nil some
  have isCut := Regex.spells_of_mem_cuts guard (.fixed (head ++ c :: more) :: stretches) text cut
    (known ▸ List.mem_cons_self)
  have whole := Regex.toList_eq_cuts guard (.fixed (head ++ c :: more) :: stretches) text
  rw [known, List.flatMap_cons, List.append_assoc] at whole
  generalize List.flatMap _ cuts ++ _ = behind at whole
  obtain ⟨rest, same⟩ : ∃ rest, cut.2 = (head ++ c :: more) ++ rest := by
    generalize cut.2 = piece at isCut
    cases isCut with
    | fixed _ tail => exact ⟨_, rfl⟩
  have split : text.toList = (cut.1 ++ head) ++ c :: (more ++ (rest ++ behind)) := by
    simp only [whole, same, List.append_assoc, List.cons_append]
  have isSingle : IsSingleWord head := by
    have each : ∀ word ∈ headWords, IsSingleWord word := by decide +kernel
    exact each head isHead
  obtain ⟨segment, member, ends⟩ := (Text.segmented_segments (cut.1 ++ head)).exists_suffix isSingle
    (by rw [Text.flatten_segments]; exact List.suffix_append _ _)
  have apart : (c :: (more ++ (rest ++ behind))).head?.any isWord = false := by
    simpa using isMark
  unfold IsPlainText at plain
  rw [split, Text.segments_append (.inr apart)] at plain
  exact (plain segment (List.mem_append_left _ member)).2 head isHead ends

/-- A plain text has no qualifiers of modules. -/
theorem replaceBy_moduleQualifier (plain : IsPlainText text.toList) :
    Shape.moduleQualifier.replaceBy "" text = text := by
  have noCuts : Shape.moduleQualifier.cuts text = [] := by
    have isHead : "import".toList ∈ headWords := List.mem_cons_self
    rw [Shape.moduleQualifier_eq]
    exact cuts_eq_nil plain isHead (show isWord '(' = false by decide)
  have whole := Regex.toList_eq_cuts none Shape.qualifierStretches text
  rw [← Shape.moduleQualifier_eq, noCuts] at whole
  rw [← String.toList_inj, Regex.toList_replaceBy_empty, noCuts]
  exact whole.symm

/-- A plain text has no wrappers. -/
theorem replace_wrapper {wrapper : Shape.Wrapper} (isDefault : wrapper ∈ Shape.wrappers)
    (plain : IsPlainText text.toList) :
    wrapper.rule.1.replace wrapper.rule.2 text = .ok text := by
  have isHead : wrapper.name.toList ∈ headWords :=
    List.mem_cons_of_mem _ (List.mem_map_of_mem isDefault)
  have noCuts : wrapper.pattern.cuts text = [] := by
    unfold Shape.Wrapper.pattern Shape.Wrapper.stretches
    split
    all_goals exact cuts_eq_nil plain isHead (by decide)
  have whole := Regex.toList_eq_cuts wrapper.guard wrapper.stretches text
  rw [Shape.Wrapper.replace_rule (Shape.wrappers_plain wrapper isDefault), noCuts]
  change text.toList = (wrapper.pattern.cuts text).flatMap _ ++ wrapper.pattern.rest text at whole
  rw [noCuts] at whole
  exact congrArg Except.ok (by rw [← String.toList_inj, String.toList_ofList]; exact whole.symm)

variable {cleaner : Shape.Cleaner}

/-- Rules for default wrappers leave a plain text as it is. -/
theorem applyRules_of_plain {rules : List (Regex.Expression × String)}
    (known : rules ⊆ Shape.wrappers.map Shape.Wrapper.rule) (plain : IsPlainText text.toList) :
    Shape.Cleaner.applyRules text rules = .ok text := by
  induction rules with
  | nil => rfl
  | cons rule rest ih =>
    obtain ⟨isKnown, others⟩ := List.cons_subset.mp known
    obtain ⟨wrapper, isDefault, rfl⟩ := List.mem_map.mp isKnown
    rw [Shape.Cleaner.applyRules.eq_def]
    simp only [replace_wrapper isDefault plain]
    exact ih others

/-- Plain texts are cleaned to texts that stand for each other. -/
theorem cleans (naming : Renaming) (known : cleaner.rules ⊆ Shape.wrappers.map Shape.Wrapper.rule)
    {text other : String} (spelled : naming.spelling.spelled text other) :
    Outcomes naming.spelling.spelled (cleaner.clean text) (cleaner.clean other) := by
  have plain := spelled.1
  have otherPlain : IsPlainText other.toList := by
    rw [spelled.2, toList_applyText]
    exact plain.apply naming
  unfold Shape.Cleaner.clean
  rw [replaceBy_moduleQualifier plain, replaceBy_moduleQualifier otherPlain,
    applyRules_of_plain known plain, applyRules_of_plain known otherPlain]
  exact .ok (naming.spelling.collapse spelled)

end Cleaning

end Renaming
end ModuleAtlas
