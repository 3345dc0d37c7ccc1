import ModuleAtlas.Proofs.Text.Segments
import ModuleAtlas.Proofs.Regex.Replacing
import ModuleAtlas.Types.Reading

/-!
# Putting arguments into texts

What becomes of a text in which the names of type parameters are replaced by the texts of their
arguments, one parameter after the other and each argument read as a template.  A name is found
where it is a whole segment of the text, so all that happens to a text is told by what happens to
its segments.
-/

namespace ModuleAtlas

open Text (isWord IsSingleWord Segmented segments rewritten KeepsMarks)

namespace Regex

variable {subject : Array Char}

/-! ## Where a word is found -/

theorem match?_sequence_cons (first : Pattern) (rest : List Pattern) (cursor : Cursor)
    (resume : Cursor → Option Cursor) :
    (Pattern.sequence (first :: rest)).match? subject cursor resume =
      first.match? subject cursor fun next =>
        (Pattern.sequence rest).match? subject next resume := by
  cases rest with
  | nil => rfl
  | cons second rest => rfl

theorem match?_single (c : Char) (cursor : Cursor) (resume : Cursor → Option Cursor) :
    (Pattern.one (.single c)).match? subject cursor resume =
      if subject[cursor.position]? = some c then
        resume { cursor with position := cursor.position + 1 }
      else none := by
  rw [Pattern.match?]
  cases subject[cursor.position]? with
  | none => rfl
  | some found =>
    have contained : CharSet.contains (.single c) found = decide (found = c) := by
      have between : (c.toNat ≤ found.toNat ∧ found.toNat ≤ c.toNat) ↔ found = c :=
        ⟨fun both => Char.toNat_inj.mp (Nat.le_antisymm both.2 both.1),
          fun same => same ▸ ⟨Nat.le_refl _, Nat.le_refl _⟩⟩
      simp [CharSet.contains, CharSet.single, Atom.covers, isBetween, ← between]
    simp [contained]

/-- A fixed text is matched where it stands, and nowhere else. -/
theorem match?_literal (text : List Char) (cursor : Cursor) (resume : Cursor → Option Cursor) :
    (Pattern.literal text).match? subject cursor resume =
      if text <+: subject.toList.drop cursor.position then
        resume { cursor with position := cursor.position + text.length }
      else none := by
  unfold Pattern.literal
  induction text generalizing cursor with
  | nil => simp [Pattern.sequence, Pattern.match?]
  | cons c text ih =>
    rw [List.map_cons, match?_sequence_cons, match?_single, ih]
    simp only [cons_prefix_drop_iff, Array.getElem?_toList, ite_and, List.length_cons,
      Nat.add_assoc, Nat.add_comm 1]

/-- Whether a text stands at a position between two edges of words. -/
def StandsAlone (subject : Array Char) (text : List Char) (position : Nat) : Prop :=
  Anchor.wordBoundary.holds subject position = true ∧
    text <+: subject.toList.drop position ∧
    Anchor.wordBoundary.holds subject (position + text.length) = true

variable {name : String} {position : Nat} {before : List Char}

/-- The pattern of a word matches where the word stands alone. -/
theorem matchAt?_of_standsAlone (nonempty : name.toList ≠ [])
    (stands : StandsAlone subject name.toList position) (moving : Bool) :
    (Types.wholeWord name).matchAt? subject position moving =
      some ⟨position, position + name.toList.length, ⟨position + name.toList.length, []⟩⟩ := by
  obtain ⟨edge, here, laterEdge⟩ := stands
  have goesOn : (position + name.toList.length == position) = false := by
    simpa using nonempty
  rw [Types.wholeWord, Pattern.matchAt?, Pattern.match?, Pattern.match?, if_pos edge,
    Pattern.match?, match?_literal, if_pos here, Pattern.match?, if_pos laterEdge]
  simp only [goesOn, Bool.and_false, Bool.false_eq_true, if_false, Option.map_some]

/-- The pattern of a word matches only where the word stands alone. -/
theorem matchAt?_of_not_standsAlone (nowhere : ¬StandsAlone subject name.toList position)
    (moving : Bool) : (Types.wholeWord name).matchAt? subject position moving = none := by
  rw [Types.wholeWord, Pattern.matchAt?, Pattern.match?, Pattern.match?, Option.map_eq_none_iff]
  split
  · rename_i edge
    rw [Pattern.match?, match?_literal]
    split
    · rename_i here
      rw [Pattern.match?, if_neg fun laterEdge => nowhere ⟨edge, here, laterEdge⟩]
    · rfl
  · rfl

variable {after segment : List Char} {rest : List (List Char)} {fuel : Nat}

/-- A position is the edge of a word where characters of words stand on one side only. -/
theorem holds_wordBoundary (split : subject.toList = before ++ after) :
    Anchor.wordBoundary.holds subject before.length =
      (before.getLast?.any isWord != after.head?.any isWord) := by
  have behind : (before.length != 0 && holdsAt isWord subject (before.length - 1)) =
      before.getLast?.any isWord := by
    rcases List.eq_nil_or_concat before with rfl | ⟨start, c, rfl⟩
    · rfl
    · have here : subject[start.length]? = some c := by
        rw [← Array.getElem?_toList, split]
        simp
      simp [holdsAt, here]
  have ahead : holdsAt isWord subject before.length = after.head?.any isWord := by
    have here : subject[before.length]? = after.head? := by
      rw [← Array.getElem?_toList, split, List.getElem?_append_right (Nat.le_refl _),
        Nat.sub_self, List.head?_eq_getElem?]
    rw [holdsAt, here]
    cases after.head? <;> rfl
  rw [← behind, ← ahead]
  rfl

/-- Between two parts of one word there is no edge. -/
theorem holds_wordBoundary_inside {word more : List Char} (wordSingle : IsSingleWord word)
    (moreSingle : IsSingleWord more)
    (split : subject.toList = before ++ (word ++ (more ++ after))) :
    Anchor.wordBoundary.holds subject (before.length + word.length) = false := by
  have last : (before ++ word).getLast?.any isWord = true := by
    rw [List.getLast?_append_of_ne_nil _ wordSingle.1]
    exact wordSingle.getLast
  have first : (more ++ after).head?.any isWord = true := by
    rw [List.head?_append_of_ne_nil _ moreSingle.1]
    exact moreSingle.head
  rw [← List.length_append, holds_wordBoundary (split.trans (List.append_assoc ..).symm), last,
    first]
  rfl

/-- Whether a text can be followed by segments without becoming part of their first one. -/
def EndsApart (before : List Char) (rest : List (List Char)) : Prop :=
  ∀ next ∈ rest.head?, IsSingleWord next → before.getLast?.any isWord = false

theorem endsApart_append (segmented : Segmented (segment :: rest)) (before : List Char) :
    EndsApart (before ++ segment) rest := by
  intro next follows nextSingle
  cases segmented with
  | mark isMark tail => simpa using isMark
  | word isSingle apart tail => exact absurd nextSingle (apart next follows)

/-- A segment stands alone. -/
theorem standsAlone_of_segment {name : List Char} (isSingle : IsSingleWord name)
    (split : subject.toList = before ++ (name :: rest).flatten)
    (segmented : Segmented (name :: rest)) (endsApart : EndsApart before (name :: rest)) :
    StandsAlone subject name before.length := by
  have notBefore : before.getLast?.any isWord = false := endsApart name rfl isSingle
  have notAfter : rest.flatten.head?.any isWord = false := by
    cases segmented with
    | mark isMark tail =>
      have := isSingle.2 _ List.mem_cons_self
      rw [isMark] at this
      cases this
    | word _ apart tail => exact tail.head_flatten apart
  rw [List.flatten_cons] at split
  refine ⟨?_, ?_, ?_⟩
  · have first : (name ++ rest.flatten).head?.any isWord = true := by
      rw [List.head?_append_of_ne_nil _ isSingle.1]
      exact isSingle.head
    rw [holds_wordBoundary split, notBefore, first]
    rfl
  · rw [split, List.drop_left]
    exact List.prefix_append _ _
  · have last : (before ++ name).getLast?.any isWord = true := by
      rw [List.getLast?_append_of_ne_nil _ isSingle.1]
      exact isSingle.getLast
    rw [← List.length_append, holds_wordBoundary (split.trans (List.append_assoc ..).symm), last,
      notAfter]
    rfl

/-- No word stands alone inside or at the start of a segment that is another text. -/
theorem not_standsAlone_of_segment {name : List Char} {offset : Nat}
    (isSingle : IsSingleWord name) (split : subject.toList = before ++ (segment :: rest).flatten)
    (segmented : Segmented (segment :: rest)) (other : segment ≠ name)
    (inside : offset < segment.length) : ¬StandsAlone subject name (before.length + offset) := by
  rintro ⟨edge, stands, laterEdge⟩
  cases segmented with
  | @mark c rest isMark tail =>
    obtain rfl : offset = 0 := Nat.lt_one_iff.mp inside
    rw [split, Nat.add_zero, List.drop_left] at stands
    obtain ⟨d, more, rfl⟩ := List.exists_cons_of_ne_nil isSingle.1
    have first : isWord d = true := isSingle.2 d List.mem_cons_self
    rw [(List.cons_prefix_cons.mp stands).1, isMark] at first
    cases first
  | @word segment rest segmentSingle apart tail =>
    rw [List.flatten_cons] at split
    cases offset with
    | succ offset =>
      have startSingle : IsSingleWord (segment.take (offset + 1)) :=
        segmentSingle.of_subset (List.ne_nil_of_length_pos (by simp; omega))
          (List.take_subset _ _)
      have moreSingle : IsSingleWord (segment.drop (offset + 1)) :=
        segmentSingle.of_subset (List.ne_nil_of_length_pos (by simp; omega))
          (List.drop_subset _ _)
      rw [← List.take_append_drop (offset + 1) segment, List.append_assoc] at split
      have noEdge := holds_wordBoundary_inside startSingle moreSingle split
      rw [List.length_take_of_le (Nat.le_of_lt inside), edge] at noEdge
      cases noEdge
    | zero =>
      rw [split, Nat.add_zero, List.drop_left] at stands
      rw [Nat.add_zero] at laterEdge
      rcases List.prefix_or_prefix_of_prefix stands (List.prefix_append segment _) with
        ⟨more, rfl⟩ | ⟨more, rfl⟩
      · have moreNonempty : more ≠ [] := fun none => other (by rw [none, List.append_nil])
        have moreSingle : IsSingleWord more :=
          segmentSingle.of_subset moreNonempty (List.subset_append_right _ _)
        rw [List.append_assoc] at split
        have noEdge := holds_wordBoundary_inside isSingle moreSingle split
        rw [laterEdge] at noEdge
        cases noEdge
      · have moreNonempty : more ≠ [] := fun none => other (by rw [none, List.append_nil])
        have moreSingle : IsSingleWord more :=
          isSingle.of_subset moreNonempty (List.subset_append_right _ _)
        obtain ⟨further, same⟩ := (List.prefix_append_right_inj _).mp stands
        have first : rest.flatten.head?.any isWord = true := by
          rw [← same, List.head?_append_of_ne_nil _ moreNonempty]
          exact moreSingle.head
        rw [tail.head_flatten apart] at first
        cases first

/-! ## Replacing a word -/

/-- Positions without a match are passed over. -/
theorem searchFrom?_skip {pattern : Pattern} {length : Nat}
    (noneWithin : ∀ offset < length, ∀ moving,
      pattern.matchAt? subject (position + offset) moving = none) (count : Nat) (moving : Bool)
    (positive : 0 < length) :
    pattern.searchFrom? subject (length + count) position moving =
      pattern.searchFrom? subject count (position + length) false := by
  induction length generalizing position moving with
  | zero => exact absurd positive (Nat.lt_irrefl 0)
  | succ length ih =>
    have here := noneWithin 0 (Nat.succ_pos _) moving
    rw [Nat.add_zero] at here
    rw [Nat.add_right_comm, Pattern.searchFrom?, here]
    cases length with
    | zero => rw [Nat.zero_add]
    | succ length =>
      have later : ∀ offset < length + 1, ∀ moving,
          pattern.matchAt? subject (position + 1 + offset) moving = none := by
        intro offset within moving
        have := noneWithin (offset + 1) (Nat.succ_lt_succ within) moving
        rwa [Nat.add_comm offset 1, ← Nat.add_assoc] at this
      rw [ih later false (Nat.succ_pos _), Nat.add_assoc position 1, Nat.add_comm 1]

/-- What a template comes to where a text without groups was matched. -/
def expansion (matched : List Char) (template : List Part) : List Char :=
  template.flatMap fun part =>
    match part with
    | .fixed text => text
    | .group index => if index = 0 then matched else []

theorem expand_eq_expansion {start finish : Nat} (template : List Part) :
    (Occurrence.mk start finish ⟨finish, []⟩).expand subject template =
      expansion (slice subject start finish) template := by
  unfold Occurrence.expand expansion
  refine congrArg (template.flatMap ·) (funext fun part => ?_)
  cases part with
  | fixed text => rfl
  | group index => rfl

/-- A segment, or what a template comes to if the segment is a given word. -/
def putFor (name : List Char) (template : List Part) (segment : List Char) : List Char :=
  if segment = name then expansion name template else segment

theorem keepsMarks_putFor {name : List Char} (isSingle : IsSingleWord name) (template : List Part) :
    KeepsMarks (putFor name template) := by
  intro c isMark
  refine if_neg ?_
  rintro rfl
  rw [isSingle.2 c List.mem_cons_self] at isMark
  cases isMark

theorem slice_of_split (split : subject.toList = before ++ (segment ++ after)) :
    slice subject before.length (before.length + segment.length) = segment := by
  rw [slice, Array.toList_extract, split]
  simp [List.extract_eq_take_drop]

theorem replaceFrom_of_later {later : Nat} {template : List Part} {occurrences : List Occurrence}
    (inOrder : position ≤ later) (within : later ≤ subject.size)
    (starts : ∀ found ∈ occurrences.head?, later ≤ found.start) :
    replaceFrom subject template position occurrences =
      slice subject position later ++ replaceFrom subject template later occurrences := by
  cases occurrences with
  | nil => exact (slice_append inOrder within).symm
  | cons found rest =>
    rw [replaceFrom, replaceFrom, ← slice_append inOrder (starts found rfl)]
    simp only [List.append_assoc]

theorem occurrencesFrom_head {pattern : Pattern} {moving : Bool} :
    ∀ found ∈ (pattern.occurrencesFrom subject fuel position moving).head?,
      position ≤ found.start := by
  intro found first
  cases fuel with
  | zero => cases first
  | succ fuel =>
    rw [Pattern.occurrencesFrom] at first
    split at first
    · cases first
    · rename_i next isFound
      cases first
      exact searchFrom?_start isFound

/-- From the start of a segment on, each segment that is the word is replaced by what the template
comes to, and every other one stays as it is. -/
theorem replaceFrom_segments (isSingle : IsSingleWord name.toList) (template : List Part)
    {list : List (List Char)} {moving : Bool} (split : subject.toList = before ++ list.flatten)
    (segmented : Segmented list) (endsApart : EndsApart before list) (room : list.length < fuel) :
    replaceFrom subject template before.length
        ((Types.wholeWord name).occurrencesFrom subject fuel before.length moving) =
      list.flatMap (putFor name.toList template) := by
  induction list generalizing before fuel moving with
  | nil =>
    obtain ⟨fuel, rfl⟩ := Nat.exists_eq_succ_of_ne_zero (Nat.ne_of_gt room)
    rw [List.flatten_nil, List.append_nil] at split
    have atEnd : before.length = subject.size := by rw [← split, Array.length_toList]
    have nowhere : ¬StandsAlone subject name.toList before.length := by
      rintro ⟨-, stands, -⟩
      rw [split, List.drop_length] at stands
      exact isSingle.1 (List.prefix_nil.mp stands)
    rw [Pattern.occurrencesFrom, atEnd, Nat.add_sub_cancel_left, Pattern.searchFrom?, ← atEnd,
      matchAt?_of_not_standsAlone nowhere, Pattern.searchFrom?]
    rw [replaceFrom, ← atEnd, slice_self, List.flatMap_nil]
  | cons segment rest ih =>
    obtain ⟨fuel, rfl⟩ := Nat.exists_eq_succ_of_ne_zero (Nat.ne_of_gt (Nat.zero_lt_of_lt room))
    have tail : Segmented rest := segmented.tail
    have restSplit : subject.toList = (before ++ segment) ++ rest.flatten := by
      rw [split, List.flatten_cons, List.append_assoc]
    have restApart : EndsApart (before ++ segment) rest := endsApart_append segmented before
    have within : before.length + segment.length ≤ subject.size := by
      rw [← Array.length_toList, restSplit, List.length_append, List.length_append]
      exact Nat.le_add_right _ _
    have here : slice subject before.length (before.length + segment.length) = segment :=
      slice_of_split (by rw [split, List.flatten_cons])
    rw [List.flatMap_cons]
    by_cases same : segment = name.toList
    · subst same
      have stands := standsAlone_of_segment isSingle split segmented endsApart
      have positions : subject.size + 1 - before.length =
          (subject.size - before.length) + 1 := by omega
      rw [Pattern.occurrencesFrom, positions, Pattern.searchFrom?,
        matchAt?_of_standsAlone isSingle.1 stands]
      simp only [replaceFrom]
      rw [slice_self, expand_eq_expansion, here, List.nil_append, ← List.length_append,
        ih restSplit tail restApart (Nat.lt_of_succ_lt_succ room), putFor,
        if_pos rfl]
    · have noneWithin : ∀ offset < segment.length, ∀ moving,
          (Types.wholeWord name).matchAt? subject (before.length + offset) moving = none :=
        fun offset inside => matchAt?_of_not_standsAlone
          (not_standsAlone_of_segment isSingle split segmented same inside)
      have positions : subject.size + 1 - before.length =
          segment.length + (subject.size + 1 - (before.length + segment.length)) := by omega
      have passed : (Types.wholeWord name).occurrencesFrom subject (fuel + 1) before.length moving =
          (Types.wholeWord name).occurrencesFrom subject (fuel + 1)
            (before.length + segment.length) false := by
        rw [Pattern.occurrencesFrom, positions,
          searchFrom?_skip noneWithin _ moving (List.length_pos_iff.mpr segmented.nonempty)]
        rfl
      rw [passed, replaceFrom_of_later (Nat.le_add_right _ _) within occurrencesFrom_head, here,
        ← List.length_append, ih restSplit tail restApart
          (Nat.lt_of_succ_lt room), putFor, if_neg same]

/-- There are no more segments than characters. -/
theorem length_segments_le (text : List Char) : (segments text).length ≤ text.length := by
  have counted : ∀ {list : List (List Char)}, Segmented list →
      list.length ≤ list.flatten.length := by
    intro list segmented
    induction list with
    | nil => exact Nat.le_refl _
    | cons segment rest ih =>
      have positive := List.length_pos_iff.mpr segmented.nonempty
      have others := ih segmented.tail
      rw [List.flatten_cons, List.length_append, List.length_cons]
      omega
  have all := counted (Text.segmented_segments text)
  rwa [Text.flatten_segments] at all

/-- Replacing a word rewrites the segments that are the word. -/
theorem replace_wholeWord (isSingle : IsSingleWord name.toList) (template text : String) :
    Expression.replace ⟨Types.wholeWord name, 0, []⟩ template text =
      (Template.parts ⟨Types.wholeWord name, 0, []⟩ (template.toList.length + 1)
        template.toList).map fun parts =>
          String.ofList (rewritten (putFor name.toList parts) text.toList) := by
  unfold Expression.replace
  dsimp only
  cases Template.parts ⟨Types.wholeWord name, 0, []⟩ (template.toList.length + 1)
      template.toList with
  | error fault => rfl
  | ok parts =>
    have count : (segments text.toList).length < 2 * text.toList.toArray.size + 2 := by
      have := length_segments_le text.toList
      rw [List.size_toArray]
      omega
    have split : text.toList.toArray.toList = [] ++ (segments text.toList).flatten := by
      rw [Text.flatten_segments, List.nil_append]
    have replaced : replaceFrom text.toList.toArray parts 0
        ((Types.wholeWord name).occurrencesFrom text.toList.toArray
          (2 * text.toList.toArray.size + 2) 0 false) = _ :=
      replaceFrom_segments isSingle parts split (Text.segmented_segments _) (fun _ _ _ => rfl)
        count
    exact congrArg (fun chars => Except.ok (String.ofList chars)) replaced

/-! ## Templates that stand for themselves -/

/-- Whether a text, read as a template, stands for itself: every backslash in it stands before a
character that means nothing after a backslash. -/
def readsAsItself : List Char → Bool
  | [] => true
  | ['\\'] => false
  | '\\' :: c :: rest => !c.isAlphanum && c != '\\' && readsAsItself rest
  | _ :: rest => readsAsItself rest

theorem escape_of_meaningless {expression : Expression} {c : Char}
    (notAlphanumeric : c.isAlphanum = false) (notBackslash : c ≠ '\\') (rest : List Char) :
    Template.escape expression (c :: rest) = .ok (.fixed ['\\', c], rest) := by
  have noLetter : ∀ letter : Char, letter.isAlphanum = true → c ≠ letter := by
    rintro letter alphanumeric rfl
    rw [alphanumeric] at notAlphanumeric
    cases notAlphanumeric
  obtain ⟨notAlpha, notDigit⟩ := Bool.or_eq_false_iff.mp notAlphanumeric
  have noControl : Parser.controlEscape? c = none := by
    unfold Parser.controlEscape?
    split <;> first
      | rfl
      | exact absurd rfl notBackslash
      | exact absurd rfl (noLetter _ (by decide))
  unfold Template.escape
  split
  · exact absurd ‹_› (List.cons_ne_nil _ _)
  · rename_i same
    exact absurd (List.cons.inj same).1 (noLetter _ (by decide))
  · rename_i same
    exact absurd (List.cons.inj same).1 (noLetter _ (by decide))
  · rename_i same
    exact absurd (List.cons.inj same).1 (noLetter _ (by decide))
  · rename_i same
    obtain ⟨rfl, rfl⟩ := List.cons.inj same
    simp [notDigit, noControl, notAlpha]

/-- A template that stands for itself is read, and comes to itself wherever it is put. -/
theorem parts_of_readsAsItself (expression : Expression) {template : List Char}
    (itself : readsAsItself template = true) (room : template.length < fuel) :
    ∃ parts, Template.parts expression fuel template = .ok parts ∧
      ∀ matched, expansion matched parts = template := by
  induction template using readsAsItself.induct generalizing fuel with
  | case1 =>
      obtain ⟨fuel, rfl⟩ := Nat.exists_eq_succ_of_ne_zero (Nat.ne_of_gt room)
      exact ⟨[], rfl, fun _ => rfl⟩
  | case2 => cases itself
  | case3 c rest ih =>
    obtain ⟨fuel, rfl⟩ := Nat.exists_eq_succ_of_ne_zero (Nat.ne_of_gt (Nat.zero_lt_of_lt room))
    simp only [readsAsItself, Bool.and_eq_true, Bool.not_eq_true', bne_iff_ne] at itself
    obtain ⟨⟨notAlphanumeric, notBackslash⟩, restItself⟩ := itself
    obtain ⟨parts, isRead, comes⟩ := ih restItself (Nat.lt_of_succ_lt_succ (Nat.lt_of_succ_lt room))
    refine ⟨.fixed ['\\', c] :: parts, ?_, fun matched => ?_⟩
    · rw [Template.parts, escape_of_meaningless notAlphanumeric notBackslash]
      exact congrArg (fun outcome => outcome >>= fun parts => pure (_ :: parts)) isRead
    · exact congrArg (['\\', c] ++ ·) (comes matched)
  | case4 c rest notLone notEscape ih =>
    obtain ⟨fuel, rfl⟩ := Nat.exists_eq_succ_of_ne_zero (Nat.ne_of_gt (Nat.zero_lt_of_lt room))
    have other : c ≠ '\\' := by
      rintro rfl
      cases rest with
      | nil => exact notLone rfl rfl
      | cons d rest => exact notEscape d rest rfl rfl
    rw [readsAsItself.eq_4 _ _ notLone notEscape] at itself
    obtain ⟨parts, isRead, comes⟩ := ih itself (Nat.lt_of_succ_lt_succ room)
    refine ⟨.fixed [c] :: parts, ?_, fun matched => ?_⟩
    · rw [Template.parts.eq_4 _ _ _ _ other]
      exact congrArg (fun outcome => outcome >>= fun parts => pure (_ :: parts)) isRead
    · exact congrArg ([c] ++ ·) (comes matched)

end Regex

namespace Types

/-! ## All parameters of a scope -/

/-- What stands for a segment of a text: the text of the argument if it is the name of a
parameter. -/
def argumentFor (parameters : List (String × TypeTerm)) (segment : List Char) : List Char :=
  match Keyed.find? (String.ofList segment) parameters with
  | some argument => argument.text.toList
  | none => segment

/-- A text in which each whole word that is the name of a parameter is replaced by the text of the
argument, all at once. -/
def substitutedAtOnce (parameters : List (String × TypeTerm)) (code : String) : String :=
  String.ofList (rewritten (argumentFor parameters) code.toList)

/-- Whether the names of all parameters are words. -/
def NamesAreWords (parameters : List (String × TypeTerm)) : Prop :=
  ∀ parameter ∈ parameters, IsSingleWord parameter.1.toList

instance (parameters : List (String × TypeTerm)) : Decidable (NamesAreWords parameters) :=
  decidable_of_iff ((parameters.all fun parameter => IsSingleWord parameter.1.toList) = true)
    (by simp [NamesAreWords])

/-- Parameters whose arguments are put in as they stand: each argument stands for itself when it is
read as a template, and none holds the name of a parameter that is replaced later. -/
structure PutInUntouched (parameters : List (String × TypeTerm)) : Prop where
  readAsThemselves : ∀ parameter ∈ parameters, Regex.readsAsItself parameter.2.text.toList = true
  apart : parameters.Pairwise fun earlier later =>
    later.1.toList ∉ segments earlier.2.text.toList

theorem find?_cons
    (parameter : String × TypeTerm) (rest : List (String × TypeTerm)) (name : String) :
    Keyed.find? name (parameter :: rest) =
      if name = parameter.1 then some parameter.2 else Keyed.find? name rest := by
  obtain ⟨key, value⟩ := parameter
  unfold Keyed.find?
  rw [List.lookup_cons]
  by_cases same : name = key
  · simp [same]
  · simp [same, beq_eq_false_iff_ne.mpr same]

/-- What substitution makes of a segment of a text, if every argument can be read as a template. -/
def segmentChange : List (String × TypeTerm) → Except Regex.Fault (List Char → List Char)
  | [] => .ok id
  | parameter :: rest => do
    let template := parameter.2.text.toList
    let parts ← Regex.Template.parts ⟨wholeWord parameter.1, 0, []⟩ (template.length + 1) template
    let change ← segmentChange rest
    return fun segment => rewritten change (Regex.putFor parameter.1.toList parts segment)

theorem exists_of_segmentChange_cons
    {parameter : String × TypeTerm} {rest : List (String × TypeTerm)}
    {change : List Char → List Char} (isChange : segmentChange (parameter :: rest) = .ok change) :
    ∃ parts later,
      Regex.Template.parts ⟨wholeWord parameter.1, 0, []⟩ (parameter.2.text.toList.length + 1)
        parameter.2.text.toList = .ok parts ∧
      segmentChange rest = .ok later ∧
      change = fun segment => rewritten later (Regex.putFor parameter.1.toList parts segment) := by
  rw [segmentChange] at isChange
  cases isRead : Regex.Template.parts ⟨wholeWord parameter.1, 0, []⟩
      (parameter.2.text.toList.length + 1) parameter.2.text.toList with
  | error fault =>
    simp only [isRead] at isChange
    cases isChange
  | ok parts =>
    simp only [isRead] at isChange
    cases isLater : segmentChange rest with
    | error fault =>
      rw [isLater] at isChange
      cases isChange
    | ok later =>
      rw [isLater] at isChange
      exact ⟨parts, later, rfl, rfl, (Except.ok.inj isChange).symm⟩

variable {parameters : List (String × TypeTerm)}

/-- Substitution fails for every text, or rewrites every text segment by segment. -/
theorem substituted_eq_rewritten (words : NamesAreWords parameters) (code : String) :
    substituted parameters code =
      (segmentChange parameters).map fun change =>
        String.ofList (rewritten change code.toList) := by
  induction parameters generalizing code with
  | nil =>
    have same : rewritten id code.toList = code.toList := Text.rewritten_eq_self fun _ _ => rfl
    simp only [segmentChange, Except.map, same, String.ofList_toList]
    rfl
  | cons parameter rest ih =>
    obtain ⟨isSingle, restWords⟩ := List.forall_mem_cons.mp words
    have unfolded : substituted (parameter :: rest) code =
        Regex.Expression.replace ⟨wholeWord parameter.1, 0, []⟩ parameter.2.text code >>=
          substituted rest := rfl
    rw [unfolded, Regex.replace_wholeWord isSingle, segmentChange]
    cases Regex.Template.parts ⟨wholeWord parameter.1, 0, []⟩
        (parameter.2.text.toList.length + 1) parameter.2.text.toList with
    | error fault => rfl
    | ok parts =>
      change substituted rest _ = _
      rw [ih restWords, String.toList_ofList]
      cases segmentChange rest with
      | error fault => rfl
      | ok change =>
        have once := Text.rewritten_rewritten (Regex.keepsMarks_putFor isSingle parts) change
          code.toList
        exact congrArg (fun chars => Except.ok (String.ofList chars)) once

/-- A segment that is no name of a parameter stays as it is. -/
theorem segmentChange_of_unnamed {change : List Char → List Char} {segment : List Char}
    (isChange : segmentChange parameters = .ok change) (whole : segments segment = [segment])
    (unnamed : ∀ parameter ∈ parameters, parameter.1.toList ≠ segment) :
    change segment = segment := by
  induction parameters generalizing change with
  | nil =>
    cases isChange
    rfl
  | cons parameter rest ih =>
    obtain ⟨other, restUnnamed⟩ := List.forall_mem_cons.mp unnamed
    obtain ⟨parts, later, -, isLater, rfl⟩ := exists_of_segmentChange_cons isChange
    simp only [Regex.putFor, if_neg other.symm]
    rw [Text.rewritten_of_segment later whole]
    exact ih isLater restUnnamed

theorem find?_eq_none_iff {name : String} :
    Keyed.find? name parameters = none ↔ ∀ parameter ∈ parameters, parameter.1 ≠ name := by
  unfold Keyed.find?
  rw [List.lookup_eq_none_iff]
  exact forall₂_congr fun parameter _ => bne_iff_ne.trans ne_comm

/-- Arguments are put into every text at once if each parameter's name, standing alone, becomes
the text of its argument. -/
theorem substituted_eq_atOnce (words : NamesAreWords parameters)
    (each : ∀ name argument, Keyed.find? name parameters = some argument →
      substituted parameters name = .ok argument.text) (code : String) :
    substituted parameters code = .ok (substitutedAtOnce parameters code) := by
  obtain ⟨change, isChange⟩ : ∃ change, segmentChange parameters = .ok change := by
    cases parameters with
    | nil => exact ⟨id, rfl⟩
    | cons parameter rest =>
      have first := each parameter.1 parameter.2 (by rw [find?_cons, if_pos rfl])
      rw [substituted_eq_rewritten words] at first
      cases isChange : segmentChange (parameter :: rest) with
      | error fault =>
        rw [isChange] at first
        cases first
      | ok change => exact ⟨change, rfl⟩
  have rewrites : ∀ text, substituted parameters text =
      .ok (String.ofList (rewritten change text.toList)) := by
    intro text
    rw [substituted_eq_rewritten words, isChange]
    rfl
  rw [rewrites, substitutedAtOnce]
  refine congrArg (fun chars => Except.ok (String.ofList chars)) (Text.rewritten_congr ?_)
  intro segment member
  have whole := Text.segments_of_mem member
  rw [argumentFor]
  cases found : Keyed.find? (String.ofList segment) parameters with
  | none =>
    refine segmentChange_of_unnamed isChange whole fun parameter isParameter same => ?_
    refine find?_eq_none_iff.mp found parameter isParameter ?_
    rw [← same, String.ofList_toList]
  | some argument =>
    have alone := each _ _ found
    rw [rewrites, String.toList_ofList, Text.rewritten_of_segment change whole] at alone
    change change segment = argument.text.toList
    rw [← Except.ok.inj alone, String.toList_ofList]

/-- Arguments without names of parameters leave no trace of the substitution in a text without any.
-/
theorem substituted_of_unnamed {code : String} (words : NamesAreWords parameters)
    (readAsThemselves : ∀ parameter ∈ parameters,
      Regex.readsAsItself parameter.2.text.toList = true)
    (unnamed : ∀ parameter ∈ parameters, parameter.1.toList ∉ segments code.toList) :
    substituted parameters code = .ok code := by
  induction parameters with
  | nil => rfl
  | cons parameter rest ih =>
    obtain ⟨isSingle, restWords⟩ := List.forall_mem_cons.mp words
    obtain ⟨itself, restItself⟩ := List.forall_mem_cons.mp readAsThemselves
    obtain ⟨notNamed, restUnnamed⟩ := List.forall_mem_cons.mp unnamed
    obtain ⟨parts, isRead, -⟩ := Regex.parts_of_readsAsItself
      ⟨wholeWord parameter.1, 0, []⟩ itself (Nat.lt_succ_self _)
    have kept : rewritten (Regex.putFor parameter.1.toList parts) code.toList = code.toList :=
      Text.rewritten_eq_self fun segment member => if_neg (by
        rintro rfl
        exact notNamed member)
    have unfolded : substituted (parameter :: rest) code =
        Regex.Expression.replace ⟨wholeWord parameter.1, 0, []⟩ parameter.2.text code >>=
          substituted rest := rfl
    rw [unfolded, Regex.replace_wholeWord isSingle, isRead]
    change substituted rest (String.ofList _) = _
    rw [kept, String.ofList_toList]
    exact ih restWords restItself restUnnamed

/-- Where arguments are put in untouched, the name of a parameter becomes its argument's text. -/
theorem PutInUntouched.substituted_name (words : NamesAreWords parameters)
    (untouched : PutInUntouched parameters) {name : String} {argument : TypeTerm}
    (found : Keyed.find? name parameters = some argument) :
    substituted parameters name = .ok argument.text := by
  induction parameters with
  | nil => cases found
  | cons parameter rest ih =>
    obtain ⟨isSingle, restWords⟩ := List.forall_mem_cons.mp words
    obtain ⟨itself, restItself⟩ := List.forall_mem_cons.mp untouched.readAsThemselves
    obtain ⟨notLater, restApart⟩ := List.pairwise_cons.mp untouched.apart
    obtain ⟨parts, isRead, comes⟩ := Regex.parts_of_readsAsItself
      ⟨wholeWord parameter.1, 0, []⟩ itself (Nat.lt_succ_self _)
    have unfolded : substituted (parameter :: rest) name =
        Regex.Expression.replace ⟨wholeWord parameter.1, 0, []⟩ parameter.2.text name >>=
          substituted rest := rfl
    rw [unfolded, Regex.replace_wholeWord isSingle, isRead]
    change substituted rest (String.ofList _) = _
    rw [find?_cons] at found
    split at found
    · rename_i same
      obtain rfl := Option.some.inj found
      rw [same, Text.rewritten_of_segment _ isSingle.segments_eq, Regex.putFor, if_pos rfl,
        comes, String.ofList_toList]
      exact substituted_of_unnamed restWords restItself notLater
    · rename_i other
      obtain ⟨key, isParameter⟩ : ∃ key, key ∈ rest ∧ key.1 = name := by
        by_contra none
        rw [find?_eq_none_iff.mpr fun parameter member same => none ⟨parameter, member, same⟩]
          at found
        cases found
      have nameSingle : IsSingleWord name.toList := isParameter.2 ▸ restWords key isParameter.1
      have notName : name.toList ≠ parameter.1.toList := fun same =>
        other (String.toList_injective same)
      rw [Text.rewritten_of_segment _ nameSingle.segments_eq, Regex.putFor, if_neg notName,
        String.ofList_toList]
      exact ih restWords ⟨restItself, restApart⟩ found

/-- The code of a node is what the parameters make of its text, where they make any. -/
theorem codeOf_eq_pure_iff {scope : Scope TypeTerm} {node : Node} {code : String} :
    codeOf scope node = pure code ↔ substituted scope.parameters node.text = .ok code := by
  unfold codeOf
  constructor
  · intro same
    have outcomes := congrArg (fun task => (task default ⟨default, []⟩).1) same
    cases found : substituted scope.parameters node.text with
    | ok value =>
      rw [found] at outcomes
      exact congrArg Except.ok (Except.ok.inj outcomes)
    | error fault =>
      rw [found] at outcomes
      cases outcomes
  · intro found
    rw [found]

/-- The text of every node has its type parameters replaced at once exactly when each parameter's
name, standing alone, becomes the text of its argument.  This is so where every argument stands for
itself as a template and holds no name of a parameter that is replaced after it. -/
theorem codeOf_eq_atOnce {scope : Scope TypeTerm} (words : NamesAreWords scope.parameters) :
    ((∀ node : Node, codeOf scope node =
        pure (substitutedAtOnce scope.parameters node.text)) ↔
      ∀ name argument, Keyed.find? name scope.parameters = some argument →
        substituted scope.parameters name = .ok argument.text) ∧
    (PutInUntouched scope.parameters →
      ∀ node : Node, codeOf scope node =
        pure (substitutedAtOnce scope.parameters node.text)) := by
  have sufficient : (∀ name argument, Keyed.find? name scope.parameters = some argument →
      substituted scope.parameters name = .ok argument.text) →
      ∀ node : Node, codeOf scope node =
        pure (substitutedAtOnce scope.parameters node.text) :=
    fun each node => codeOf_eq_pure_iff.mpr (substituted_eq_atOnce words each node.text)
  refine ⟨⟨fun atOnce name argument found => ?_, sufficient⟩, fun untouched =>
    sufficient fun _ _ => untouched.substituted_name words⟩
  have isName : IsSingleWord name.toList := by
    by_contra notSingle
    have none : Keyed.find? name scope.parameters = none :=
      find?_eq_none_iff.mpr fun parameter member same =>
        notSingle (by rw [← same]; exact words parameter member)
    rw [none] at found
    cases found
  have alone := codeOf_eq_pure_iff.mp (atOnce (.mk "type_identifier" true none 0 1 name []))
  have named : substitutedAtOnce scope.parameters name = argument.text := by
    rw [substitutedAtOnce, Text.rewritten_of_segment _ isName.segments_eq, argumentFor,
      String.ofList_toList, found]
    exact String.ofList_toList
  rw [← named]
  exact alone

/-- A scope whose second argument holds the name of the first parameter. -/
def recordScope : Scope TypeTerm :=
  ⟨default, [("A", .primitive "string"), ("B", .verbatim "A[]")], none⟩

/-- An argument that holds the name of a parameter replaced before it is put in untouched. -/
theorem record_text_at_once :
    codeOf recordScope (.mk "object_type" true none 0 1 "\x7b a: A; b: B \x7d" []) =
      pure "\x7b a: string; b: A[] \x7d" := by
  have words : NamesAreWords recordScope.parameters := by
    decide
  have untouched : PutInUntouched recordScope.parameters :=
    ⟨by decide, by decide⟩
  have atOnce := (codeOf_eq_atOnce words).2 untouched
    (.mk "object_type" true none 0 1 "\x7b a: A; b: B \x7d" [])
  exact atOnce.trans (congrArg pure (by decide))

/-- An argument that holds the name of a parameter replaced after it is rewritten, one that is no
template ends the analysis, and a name that is no word is not replaced. -/
theorem argument_rewritten :
    (codeOf ⟨default, [("A", .verbatim "B"), ("B", .primitive "string")], none⟩
        (.mk "index_type_query" true none 0 1 "keyof A" []) = pure "keyof string" ∧
      substitutedAtOnce [("A", .verbatim "B"), ("B", .primitive "string")] "keyof A" = "keyof B") ∧
    codeOf ⟨default, [("T", .literal "'\\1'")], none⟩
        (.mk "index_type_query" true none 0 1 "keyof T" []) =
      Task.fail (.replacement .unknownGroup) ∧
    codeOf ⟨default, [("$T", .primitive "string")], none⟩
        (.mk "index_type_query" true none 0 1 "keyof $T" []) = pure "keyof $T" :=
  ⟨⟨rfl, by decide⟩, rfl, rfl⟩

end Types
end ModuleAtlas
