import Mathlib.Data.List.SplitBy
import ModuleAtlas.Text.Basic
import ModuleAtlas.Text.Classes

/-!
# Words within a text

A text falls into its words and the single characters between them.  A text whose words are
rewritten falls into what they are rewritten to, as nothing that replaces a word can join the
characters around it; so rewriting one text after the other comes to rewriting every word on its
own. Where words are put in the places of words, this can be done before white space is collapsed as
well as afterwards.
-/

namespace ModuleAtlas
namespace Text

/-- Whether two neighbouring characters belong to one word. -/
def areJoined (a b : Char) : Bool := isWord a && isWord b

/-- The words of a text and the single characters between them. -/
def segments (text : List Char) : List (List Char) := text.splitBy areJoined

/-- Whether a text is one word. -/
def IsSingleWord (text : List Char) : Prop := text ≠ [] ∧ ∀ c ∈ text, isWord c = true

instance (text : List Char) : Decidable (IsSingleWord text) :=
  decidable_of_iff ((!text.isEmpty && text.all isWord) = true) (by simp [IsSingleWord])

/-- Words and single characters that belong to none, no two words next to each other. -/
inductive Segmented : List (List Char) → Prop where
  | nil : Segmented []
  | mark {c : Char} {rest : List (List Char)}
      (isMark : isWord c = false) (tail : Segmented rest) :
      Segmented ([c] :: rest)
  | word {word : List Char} {rest : List (List Char)}
      (isSingle : IsSingleWord word) (apart : ∀ next ∈ rest.head?, ¬IsSingleWord next)
      (tail : Segmented rest) :
      Segmented (word :: rest)

variable {rest : List (List Char)}

theorem Segmented.tail {segment : List Char}
    (segmented : Segmented (segment :: rest)) :
    Segmented rest := by
  cases segmented with
  | mark isMark tail => exact tail
  | word isSingle apart tail => exact tail

variable {segment word : List Char} {change : List Char → List Char} {list : List (List Char)}
  {text : List Char}

theorem Segmented.nonempty (segmented : Segmented (segment :: rest)) :
    segment ≠ [] := by
  cases segmented with
  | mark isMark tail => exact List.cons_ne_nil _ _
  | word isSingle apart tail => exact isSingle.1

/-- A part of a word is a word. -/
theorem IsSingleWord.of_subset {part : List Char} (isSingle : IsSingleWord word)
    (nonempty : part ≠ []) (within : part ⊆ word) : IsSingleWord part :=
  ⟨nonempty, fun c member => isSingle.2 c (within member)⟩

/-- The last character of a word is one of a word. -/
theorem IsSingleWord.getLast (isSingle : IsSingleWord word) : word.getLast?.any isWord = true := by
  obtain ⟨start, c, rfl⟩ := (List.eq_nil_or_concat word).resolve_left isSingle.1
  have last := isSingle.2 c (by simp)
  simpa using last

/-- The first character of a word is one of a word. -/
theorem IsSingleWord.head (isSingle : IsSingleWord word) : word.head?.any isWord = true := by
  obtain ⟨c, rest, rfl⟩ := List.exists_cons_of_ne_nil isSingle.1
  have first := isSingle.2 c List.mem_cons_self
  simpa using first

/-- Where no word comes next, no character of a word does. -/
theorem Segmented.head_flatten (segmented : Segmented rest)
    (apart : ∀ next ∈ rest.head?, ¬IsSingleWord next) :
    rest.flatten.head?.any isWord = false := by
  cases segmented with
  | nil => rfl
  | mark isMark tail => simpa using isMark
  | word isSingle => exact absurd isSingle (apart _ rfl)

/-- Characters of a chain are those of one word, or the chain is a single character. -/
theorem isSingleWord_or_eq_singleton (nonempty : segment ≠ [])
    (chain : segment.IsChain fun a b => areJoined a b = true) :
    IsSingleWord segment ∨ ∃ c, isWord c = false ∧ segment = [c] := by
  induction segment with
  | nil => exact absurd rfl nonempty
  | cons c rest ih =>
    cases rest with
    | nil =>
      cases first : isWord c with
      | true => exact .inl ⟨by simp, by simpa using first⟩
      | false => exact .inr ⟨c, first, rfl⟩
    | cons d rest =>
      obtain ⟨joined, chainRest⟩ := List.isChain_cons_cons.mp chain
      obtain ⟨first, second⟩ := Bool.and_eq_true_iff.mp joined
      refine .inl ⟨by simp, ?_⟩
      rcases ih (by simp) chainRest with isSingle | ⟨e, mark, same⟩
      · exact List.forall_mem_cons.mpr ⟨first, isSingle.2⟩
      · cases same
        rw [second] at mark
        cases mark

/-- The segments of a text are its stretches of blanks and of anything else. -/
theorem segmented_segments (text : List Char) : Segmented (segments text) := by
  have noneEmpty : ∀ segment ∈ segments text, segment ≠ [] :=
    fun _ => List.ne_nil_of_mem_splitBy
  have chains : ∀ segment ∈ segments text, segment.IsChain fun a b => areJoined a b = true :=
    fun _ => List.isChain_of_mem_splitBy
  have seams := List.isChain_getLast_head_splitBy areJoined text
  change (segments text).IsChain _ at seams
  generalize segments text = list at noneEmpty chains seams
  induction list with
  | nil => exact .nil
  | cons segment rest ih =>
    obtain ⟨seam, restSeams⟩ := List.isChain_cons.mp seams
    have tail : Segmented rest := ih
      (fun other member => noneEmpty other (List.mem_cons_of_mem _ member))
      (fun other member => chains other (List.mem_cons_of_mem _ member)) restSeams
    rcases isSingleWord_or_eq_singleton (noneEmpty _ List.mem_cons_self)
      (chains _ List.mem_cons_self) with isSingle | ⟨c, isMark, rfl⟩
    · refine .word isSingle (fun next follows nextSingle => ?_) tail
      obtain ⟨_, nonempty, apart⟩ := seam next follows
      rw [areJoined, isSingle.2 _ (List.getLast_mem _), nextSingle.2 _ (List.head_mem nonempty)]
        at apart
      cases apart
    · exact .mark isMark tail

@[simp]
theorem flatten_segments (text : List Char) : (segments text).flatten = text :=
  List.flatten_splitBy _ _

/-- Two texts that do not join fall into their segments one after the other. -/
theorem segments_append {first second : List Char}
    (apart : first.getLast?.any isWord = false ∨ second.head?.any isWord = false) :
    segments (first ++ second) = segments first ++ segments second := by
  refine List.splitBy_append fun a last b next => ?_
  rw [Option.mem_def] at last next
  rw [last, next] at apart
  rw [areJoined, Bool.and_eq_false_iff]
  exact apart

theorem IsSingleWord.segments_eq (isSingle : IsSingleWord word) : segments word = [word] := by
  refine List.splitBy_of_isChain isSingle.1 ?_
  refine (List.pairwise_of_forall_mem_list fun a first b second => ?_).isChain
  rw [areJoined, isSingle.2 a first, isSingle.2 b second]
  rfl

@[simp]
theorem segments_singleton (c : Char) : segments [c] = [[c]] := rfl

/-- Segments are found again in what they come to. -/
theorem Segmented.segments_flatten (segmented : Segmented list) :
    segments list.flatten = list := by
  induction segmented with
  | nil => rfl
  | mark isMark _ ih =>
    rw [List.flatten_cons, segments_append (.inl (by simpa using isMark)), ih]
    rfl
  | word isSingle apart tail ih =>
    rw [List.flatten_cons, segments_append (.inr (tail.head_flatten apart)), ih,
      isSingle.segments_eq, List.singleton_append]

/-- A character that belongs to no word is a segment of its own. -/
theorem Segmented.mem_of_mark {c : Char} (segmented : Segmented list)
    (isMark : isWord c = false) (member : c ∈ list.flatten) : [c] ∈ list := by
  induction segmented with
  | nil => cases member
  | @mark d rest _ _ ih =>
    rw [List.flatten_cons, List.singleton_append, List.mem_cons] at member
    rcases member with rfl | later
    · exact List.mem_cons_self
    · exact List.mem_cons_of_mem _ (ih later)
  | word isSingle _ _ ih =>
    rw [List.flatten_cons, List.mem_append] at member
    rcases member with inside | later
    · rw [isSingle.2 c inside] at isMark
      cases isMark
    · exact List.mem_cons_of_mem _ (ih later)

theorem mem_segments_iff {c : Char} (isMark : isWord c = false) :
    [c] ∈ segments text ↔ c ∈ text := by
  constructor
  · intro isSegment
    rw [← flatten_segments text]
    exact List.mem_flatten_of_mem isSegment List.mem_cons_self
  · intro member
    rw [← flatten_segments text] at member
    exact (segmented_segments text).mem_of_mark isMark member

/-- A word at the end of a text is the end of its last segment. -/
theorem Segmented.exists_suffix (segmented : Segmented list)
    (isSingle : IsSingleWord word) (ends : word <:+ list.flatten) :
    ∃ whole ∈ list, word <:+ whole := by
  induction list with
  | nil => exact absurd (List.suffix_nil.mp ends) isSingle.1
  | cons first rest ih =>
    have later : word <:+ rest.flatten → ∃ whole ∈ first :: rest, word <:+ whole := by
      intro within
      obtain ⟨whole, member, isEnd⟩ := ih segmented.tail within
      exact ⟨whole, List.mem_cons_of_mem _ member, isEnd⟩
    rw [List.flatten_cons] at ends
    rcases List.suffix_or_suffix_of_suffix ends (List.suffix_append first rest.flatten) with
      within | ⟨front, rfl⟩
    · exact later within
    rcases List.eq_nil_or_concat' front with rfl | ⟨start, c, rfl⟩
    · exact later (by simp)
    -- The word goes on from the first segment, so that nothing can come behind it.
    have isWordChar : isWord c = true := isSingle.2 c (by simp)
    have frontEnds : start ++ [c] <:+ first := List.suffix_append_self_iff.mp ends
    have none : rest.flatten.head?.any isWord = false := by
      cases segmented with
      | mark isMark =>
        obtain rfl : c = _ := by simpa using frontEnds.subset (by simp)
        rw [isWordChar] at isMark
        cases isMark
      | word _ apart tail => exact tail.head_flatten apart
    cases behind : rest.flatten with
    | nil =>
      rw [List.append_nil]
      exact ⟨first, List.mem_cons_self, frontEnds⟩
    | cons d more =>
      have next : isWord d = true := isSingle.2 d (by simp [behind])
      simp [behind, next] at none

/-- The segments of a text have no other segments than themselves. -/
theorem segments_of_mem (member : segment ∈ segments text) :
    segments segment = [segment] :=
  List.splitBy_of_isChain (List.ne_nil_of_mem_splitBy member) (List.isChain_of_mem_splitBy member)

/-! ## Rewriting the words of a text -/

/-- A text with each of its segments rewritten. -/
def rewritten (change : List Char → List Char) (text : List Char) : List Char :=
  (segments text).flatMap change

/-- Whether a way to rewrite segments leaves what is no word alone. -/
def KeepsMarks (change : List Char → List Char) : Prop :=
  ∀ c, isWord c = false → change [c] = [c]

theorem rewritten_of_segment (change : List Char → List Char)
    (whole : segments segment = [segment]) : rewritten change segment = change segment := by
  rw [rewritten, whole, List.flatMap_singleton]

theorem rewritten_congr {other : List Char → List Char}
    (agree : ∀ segment ∈ segments text, change segment = other segment) :
    rewritten change text = rewritten other text := by
  unfold rewritten
  rw [List.flatMap_def, List.flatMap_def, List.map_congr_left agree]

theorem rewritten_eq_self
    (fixed : ∀ segment ∈ segments text, change segment = segment) :
    rewritten change text = text := by
  have asIs : rewritten change text = rewritten id text := rewritten_congr fixed
  rw [asIs, rewritten, List.flatMap_id, flatten_segments]

/-- What replaces a word joins nothing around it. -/
theorem segments_flatMap (keepsMarks : KeepsMarks change)
    (segmented : Segmented list) :
    segments (list.flatMap change) = list.flatMap fun segment => segments (change segment) := by
  induction segmented with
  | nil => rfl
  | @mark c rest isMark tail ih =>
    have apart : (change [c]).getLast?.any isWord = false := by
      rw [keepsMarks c isMark]
      simpa using isMark
    rw [List.flatMap_cons, List.flatMap_cons, segments_append (.inl apart), ih]
  | @word word rest isSingle notWord tail ih =>
    have apart : (rest.flatMap change).head?.any isWord = false := by
      cases tail with
      | nil => rfl
      | @mark c rest isMark tail =>
        rw [List.flatMap_cons, keepsMarks c isMark]
        simpa using isMark
      | word nextSingle => exact absurd nextSingle (notWord _ rfl)
    rw [List.flatMap_cons, List.flatMap_cons, segments_append (.inr apart), ih]

/-- Rewriting twice is rewriting what each segment was rewritten to. -/
theorem rewritten_rewritten (keepsMarks : KeepsMarks change) (next : List Char → List Char)
    (text : List Char) :
    rewritten next (rewritten change text) =
      rewritten (fun segment => rewritten next (change segment)) text := by
  unfold rewritten
  rw [segments_flatMap keepsMarks (segmented_segments text), List.flatMap_assoc]

/-! ## Collapsing between the words -/

/-- No character of a word counts as white space. -/
theorem not_isBlank_of_isWord {c : Char} (isWordChar : isWord c = true) : isBlank c = false := by
  by_contra blank
  rw [Bool.not_eq_false] at blank
  have listed : c.toNat ∈ [9, 10, 11, 12, 13, 28, 29, 30, 31, 32, 0x85, 0xA0, 0x1680, 0x2000,
      0x2001, 0x2002, 0x2003, 0x2004, 0x2005, 0x2006, 0x2007, 0x2008, 0x2009, 0x200A, 0x2028,
      0x2029, 0x202F, 0x205F, 0x3000] := by
    simp only [isBlank, Bool.or_eq_true, Bool.and_eq_true, decide_eq_true_eq, beq_iff_eq] at blank
    simp only [List.mem_cons, List.not_mem_nil, or_false]
    omega
  have none : ∀ code ∈ [9, 10, 11, 12, 13, 28, 29, 30, 31, 32, 0x85, 0xA0, 0x1680, 0x2000,
      0x2001, 0x2002, 0x2003, 0x2004, 0x2005, 0x2006, 0x2007, 0x2008, 0x2009, 0x200A, 0x2028,
      0x2029, 0x202F, 0x205F, 0x3000], isWord (Char.ofNat code) = false := by decide +kernel
  have notWord := none _ listed
  rw [Char.ofNat_toNat, isWordChar] at notWord
  cases notWord

variable {start rest : List Char} {c : Char}

theorem collapseChars_cons_blank (blank : isBlank c = true) :
    collapseChars (c :: rest) = collapseChars rest := by
  cases rest with
  | nil => simp [collapseChars, blank]
  | cons d rest => rw [collapseChars, if_pos blank]

/-- A text without blanks stays as it is, and one space stands for the blanks behind it. -/
theorem collapseChars_append_cons (nonempty : start ≠ []) (solid : ∀ c ∈ start, isBlank c = false)
    (blank : isBlank c = true) :
    collapseChars (start ++ c :: rest) =
      start ++ if collapseChars rest = [] then [] else ' ' :: collapseChars rest := by
  induction start with
  | nil => exact absurd rfl nonempty
  | cons d start ih =>
    obtain ⟨first, others⟩ := List.forall_mem_cons.mp solid
    cases start with
    | nil =>
      rw [List.singleton_append, collapseChars, if_neg (by simp [first]), if_pos blank,
        collapseChars_cons_blank blank]
      split
      · rename_i none
        rw [if_pos none, List.append_nil]
      · rename_i some
        rw [if_neg some, List.singleton_append]
    | cons e start =>
      have next : isBlank e = false := others e List.mem_cons_self
      rw [List.cons_append, List.cons_append, collapseChars, if_neg (by simp [first]),
        if_neg (by simp [next])]
      exact congrArg (d :: ·) (ih (List.cons_ne_nil _ _) others)

theorem collapseChars_eq_self (solid : ∀ c ∈ start, isBlank c = false) :
    collapseChars start = start := by
  induction start with
  | nil => rfl
  | cons c start ih =>
    obtain ⟨first, others⟩ := List.forall_mem_cons.mp solid
    cases start with
    | nil => simp [collapseChars, first]
    | cons d start =>
      have next : isBlank d = false := others d List.mem_cons_self
      rw [collapseChars, if_neg (by simp [first]), if_neg (by simp [next]), ih others]

/-- Whether a segment is white space. -/
def isBlankSegment (segment : List Char) : Bool := segment.all isBlank

theorem not_isBlankSegment (isSingle : IsSingleWord word) : isBlankSegment word = false := by
  obtain ⟨c, more, rfl⟩ := List.exists_cons_of_ne_nil isSingle.1
  have first := not_isBlank_of_isWord (isSingle.2 c List.mem_cons_self)
  simp [isBlankSegment, first]

/-- The segments that are left when white space is collapsed, behind another segment or at the start
of a text. -/
def keptSegments : Bool → List (List Char) → List (List Char)
  | _, [] => []
  | behind, segment :: rest =>
    if isBlankSegment segment then
      if behind && !(keptSegments false rest).isEmpty then [' '] :: keptSegments false rest
      else keptSegments false rest
    else segment :: keptSegments true rest

/-- Whether a way to rewrite segments puts words in the places of words. -/
structure KeepsWords (change : List Char → List Char) : Prop where
  marks : KeepsMarks change
  words : ∀ word, IsSingleWord word → IsSingleWord (change word)

theorem keepsWords_id : KeepsWords id := ⟨fun _ _ => rfl, fun _ => id⟩

variable {list : List (List Char)} {behind : Bool}

theorem mem_keptSegments (member : segment ∈ keptSegments behind list) :
    segment = [' '] ∨ segment ∈ list := by
  induction list generalizing behind with
  | nil => cases member
  | cons first rest ih =>
    rw [keptSegments] at member
    split at member
    · split at member
      · rcases List.mem_cons.mp member with space | later
        · exact .inl space
        · exact (ih later).imp_right (List.mem_cons_of_mem _)
      · exact (ih member).imp_right (List.mem_cons_of_mem _)
    · rcases List.mem_cons.mp member with rfl | later
      · exact .inr List.mem_cons_self
      · exact (ih later).imp_right (List.mem_cons_of_mem _)

/-- No word comes to stand next to another. -/
theorem segmented_keptSegments (segmented : Segmented list) :
    Segmented (keptSegments behind list) := by
  have space : isWord ' ' = false := by decide
  induction segmented generalizing behind with
  | nil => exact .nil
  | @mark c rest isMark tail ih =>
    rw [keptSegments]
    split
    · split
      · exact .mark space ih
      · exact ih
    · exact .mark isMark ih
  | @word word rest isSingle apart tail ih =>
    rw [keptSegments, not_isBlankSegment isSingle, if_neg Bool.false_ne_true]
    refine .word isSingle (fun next follows nextSingle => ?_) ih
    cases rest with
    | nil => cases follows
    | cons segment rest =>
      rw [keptSegments] at follows
      split at follows
      · split at follows
        · cases follows
          rw [nextSingle.2 ' ' List.mem_cons_self] at space
          cases space
        · rename_i none
          have nothing : keptSegments false rest = [] := by simpa using none
          rw [nothing] at follows
          cases follows
      · cases follows
        exact apart _ rfl nextSingle

namespace KeepsWords

variable (keepsWords : KeepsWords change)

include keepsWords

theorem nonempty (segmented : Segmented (segment :: list)) : change segment ≠ [] := by
  cases segmented with
  | mark isMark =>
    rw [keepsWords.marks _ isMark]
    exact List.cons_ne_nil _ _
  | word isSingle => exact (keepsWords.words _ isSingle).1

theorem flatMap_eq_nil_iff (segmented : Segmented list) : list.flatMap change = [] ↔ list = [] := by
  cases list with
  | nil => simp
  | cons segment rest => simp [keepsWords.nonempty segmented]

/-- A segment that is no white space is rewritten to one that is none. -/
theorem solid (segmented : Segmented (segment :: list)) (solid : isBlankSegment segment = false) :
    ∀ c ∈ change segment, isBlank c = false := by
  cases segmented with
  | mark isMark =>
    rw [keepsWords.marks _ isMark]
    simpa [isBlankSegment] using solid
  | word isSingle =>
    exact fun c member => not_isBlank_of_isWord ((keepsWords.words _ isSingle).2 c member)

/-- White space stays as it is, and is a single character. -/
theorem blank (segmented : Segmented (segment :: list)) (blank : isBlankSegment segment = true) :
    ∃ c, isBlank c = true ∧ change segment = [c] := by
  cases segmented with
  | @mark c _ isMark => exact ⟨c, by simpa [isBlankSegment] using blank, keepsWords.marks _ isMark⟩
  | word isSingle =>
    rw [not_isBlankSegment isSingle] at blank
    cases blank

/-- Whatever words are rewritten to, the same segments are left when white space is collapsed. -/
theorem collapseChars_flatMap (segmented : Segmented list) :
    collapseChars (list.flatMap change) = (keptSegments false list).flatMap change ∧
      ∀ start ≠ [], (∀ c ∈ start, isBlank c = false) →
        collapseChars (start ++ list.flatMap change) =
          start ++ (keptSegments true list).flatMap change := by
  induction list with
  | nil =>
    refine ⟨rfl, fun start _ solid => ?_⟩
    simp only [keptSegments, List.flatMap_nil, List.append_nil]
    exact collapseChars_eq_self solid
  | cons segment rest ih =>
    obtain ⟨alone, behind⟩ := ih segmented.tail
    rw [keptSegments, keptSegments, List.flatMap_cons]
    cases kind : isBlankSegment segment with
    | true =>
      obtain ⟨c, blank, same⟩ := keepsWords.blank segmented kind
      have space : change [' '] = [' '] := keepsWords.marks ' ' (by decide)
      have kept : Segmented (keptSegments false rest) := segmented_keptSegments segmented.tail
      have nothing := keepsWords.flatMap_eq_nil_iff kept
      rw [if_pos rfl, if_pos rfl, same, List.singleton_append]
      refine ⟨(collapseChars_cons_blank blank).trans alone, fun start nonempty solid => ?_⟩
      rw [collapseChars_append_cons nonempty solid blank, alone]
      by_cases none : keptSegments false rest = []
      · simp [none]
      · simp [none, nothing, space]
    | false =>
      rw [if_neg Bool.false_ne_true, if_neg Bool.false_ne_true, List.flatMap_cons]
      have solidHere := keepsWords.solid segmented kind
      refine ⟨behind _ (keepsWords.nonempty segmented) solidHere, fun start nonempty solid => ?_⟩
      rw [← List.append_assoc, ← List.append_assoc]
      refine behind _ (by simp [nonempty]) fun c member => ?_
      exact (List.mem_append.mp member).elim (solid c) (solidHere c)

end KeepsWords

/-- What is left of a text when white space is collapsed. -/
theorem segments_collapseChars (text : List Char) :
    segments (collapseChars text) = keptSegments false (segments text) := by
  have segmented := segmented_segments text
  have kept := (keepsWords_id.collapseChars_flatMap segmented).1
  rw [List.flatMap_id, List.flatMap_id, flatten_segments] at kept
  rw [kept, (segmented_keptSegments segmented).segments_flatten]

/-- Words can be rewritten before white space is collapsed as well as afterwards. -/
theorem collapseChars_rewritten (keepsWords : KeepsWords change) (text : List Char) :
    collapseChars (rewritten change text) = rewritten change (collapseChars text) := by
  unfold rewritten
  rw [(keepsWords.collapseChars_flatMap (segmented_segments text)).1, segments_collapseChars]

end Text
end ModuleAtlas
