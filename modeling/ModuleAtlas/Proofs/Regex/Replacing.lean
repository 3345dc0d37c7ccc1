import ModuleAtlas.Proofs.Regex.Reading
import ModuleAtlas.Regex.Template

/-!
# Replaced matches

A search cuts a text into its matches and what stands between them, and replacing puts another text
in the place of each match.  For patterns that are fixed texts and runs of characters, what is cut
out is known by its letters.
-/

namespace ModuleAtlas
namespace Regex

variable {subject : Array Char}

/-! ## Slices -/

theorem slice_append {start middle finish : Nat}
    (inOrder : start ≤ middle) (further : middle ≤ finish) :
    slice subject start middle ++ slice subject middle finish = slice subject start finish := by
  rw [slice, slice, ← Array.toList_append, Array.extract_append_extract, Nat.min_eq_left inOrder,
    Nat.max_eq_right further, slice]

theorem slice_self (position : Nat) : slice subject position position = [] := by
  simp [slice]

theorem slice_all : slice subject 0 subject.size = subject.toList := by
  simp [slice]

variable {position : Nat} {pattern : Pattern} {moving : Bool} {shape : List Char → Prop}
  {occurrences : List Occurrence} {found : Occurrence}

/-- A text that stands at a position is the slice from there on. -/
theorem slice_of_stands {text : List Char} (stands : text <+: subject.toList.drop position) :
    slice subject position (position + text.length) = text := by
  rw [slice, Array.toList_extract, List.extract_eq_take_drop, Nat.add_sub_cancel_left,
    ← List.prefix_iff_eq_take.mp stands]

/-- A match starts where the search started, or later. -/
theorem searchFrom?_start {count : Nat}
    (isFound : pattern.searchFrom? subject count position moving = some found) :
    position ≤ found.start := by
  induction count generalizing position moving with
  | zero => cases isFound
  | succ count ih =>
    rw [Pattern.searchFrom?] at isFound
    split at isFound
    · rename_i here matched
      cases isFound
      obtain ⟨_, _, rfl⟩ := Option.map_eq_some_iff.mp matched
      exact Nat.le_refl _
    · have later := ih isFound
      omega

/-- What a search finds is a match at one of the positions that it looks at. -/
theorem exists_matchAt?_of_searchFrom? {count : Nat}
    (isFound : pattern.searchFrom? subject count position moving = some found) :
    ∃ moving, pattern.matchAt? subject found.start moving = some found ∧
      found.start < position + count := by
  induction count generalizing position moving with
  | zero => cases isFound
  | succ count ih =>
    rw [Pattern.searchFrom?] at isFound
    split at isFound
    · rename_i here matched
      cases isFound
      obtain ⟨_, _, rfl⟩ := Option.map_eq_some_iff.mp matched
      exact ⟨moving, matched, by dsimp only; omega⟩
    · obtain ⟨moving, matched, before⟩ := ih isFound
      exact ⟨moving, matched, by omega⟩

/-! ## Cuts -/

/-- What stands in front of each match, behind the one before it, with the match itself. -/
def cutsFrom (subject : Array Char) : Nat → List Occurrence → List (List Char × List Char)
  | _, [] => []
  | position, found :: rest =>
    (slice subject position found.start, slice subject found.start found.finish) ::
      cutsFrom subject found.finish rest

/-- What stands behind the last match. -/
def restFrom (subject : Array Char) : Nat → List Occurrence → List Char
  | position, [] => slice subject position subject.size
  | _, found :: rest => restFrom subject found.finish rest

/-- The matches of a pattern in a text, each with what stands in front of it. -/
def Pattern.cuts (pattern : Pattern) (text : String) : List (List Char × List Char) :=
  cutsFrom text.toList.toArray 0 (pattern.occurrences text.toList.toArray)

/-- What stands behind the last match of a pattern in a text. -/
def Pattern.rest (pattern : Pattern) (text : String) : List Char :=
  restFrom text.toList.toArray 0 (pattern.occurrences text.toList.toArray)

/-- Matches that follow each other in a text, all of one shape. -/
inductive InOrder (subject : Array Char) (shape : List Char → Prop) :
    Nat → List Occurrence → Prop where
  | nil {position : Nat} (within : position ≤ subject.size) : InOrder subject shape position []
  | cons {position : Nat} {found : Occurrence} {rest : List Occurrence}
      (behind : position ≤ found.start) (forward : found.start ≤ found.finish)
      (shaped : shape (slice subject found.start found.finish))
      (tail : InOrder subject shape found.finish rest) :
      InOrder subject shape position (found :: rest)

theorem InOrder.within
    (inOrder : InOrder subject shape position occurrences) :
    position ≤ subject.size := by
  induction inOrder with
  | nil within => exact within
  | cons behind forward _ _ ih => omega

/-- The cuts and what is left behind them make up the text. -/
theorem InOrder.slice_eq
    (inOrder : InOrder subject shape position occurrences) :
    slice subject position subject.size =
      (cutsFrom subject position occurrences).flatMap (fun cut => cut.1 ++ cut.2) ++
        restFrom subject position occurrences := by
  induction inOrder with
  | nil within => rfl
  | cons behind forward _ tail ih =>
    have within := tail.within
    rw [cutsFrom, restFrom, List.flatMap_cons, List.append_assoc, ← ih,
      slice_append behind forward, slice_append (Nat.le_trans behind forward) within]

theorem InOrder.shaped
    (inOrder : InOrder subject shape position occurrences) :
    ∀ cut ∈ cutsFrom subject position occurrences, shape cut.2 := by
  induction inOrder with
  | nil => exact nofun
  | cons _ _ shaped _ ih =>
    exact List.forall_mem_cons.mpr ⟨shaped, ih⟩

/-- Replacing puts a text in the place of each match. -/
theorem replaceFrom_eq {template : List Part} {word : List Char}
    (fixed : ∀ found : Occurrence, found.expand subject template = word)
    (position : Nat) (occurrences : List Occurrence) :
    replaceFrom subject template position occurrences =
      (cutsFrom subject position occurrences).flatMap (fun cut => cut.1 ++ word) ++
        restFrom subject position occurrences := by
  induction occurrences generalizing position with
  | nil => rfl
  | cons found rest ih =>
    rw [replaceFrom, cutsFrom, restFrom, fixed, ih, List.flatMap_cons, ← List.append_assoc]

/-- Matches follow each other if each single one goes forward within the text. -/
theorem inOrder_occurrencesFrom
    (sound : ∀ position moving found, position ≤ subject.size →
      pattern.matchAt? subject position moving = some found →
        found.start ≤ found.finish ∧ found.finish ≤ subject.size ∧
          shape (slice subject found.start found.finish)) {fuel : Nat}
    (within : position ≤ subject.size) :
    InOrder subject shape position (pattern.occurrencesFrom subject fuel position moving) := by
  induction fuel generalizing position moving with
  | zero => exact .nil within
  | succ fuel ih =>
    rw [Pattern.occurrencesFrom]
    split
    · exact .nil within
    · rename_i found isFound
      obtain ⟨moving, matched, before⟩ := exists_matchAt?_of_searchFrom? isFound
      obtain ⟨forward, inside, shaped⟩ := sound _ _ _ (by omega) matched
      exact .cons (searchFrom?_start isFound) forward shaped (ih inside)

/-! ## Patterns of fixed texts and runs -/

/-- A part of a pattern: a fixed text, or characters of a set, at least so many. -/
inductive Stretch where
  | fixed (text : List Char)
  | run (set : CharSet) (least : Nat)

/-- The patterns that read a stretch. -/
def Stretch.patterns : Stretch → List Pattern
  | .fixed text => text.map fun c => .one (.single c)
  | .run set least => [.loop (.one set) least none .greedy]

/-- The pattern that reads stretches one after the other. -/
def spelled (stretches : List Stretch) : Pattern :=
  Pattern.sequence (stretches.flatMap Stretch.patterns)

/-- A text that is made of stretches one after the other. -/
inductive Spells : List Stretch → List Char → Prop where
  | nil : Spells [] []
  | fixed {stretches : List Stretch} {rest : List Char} (text : List Char)
      (tail : Spells stretches rest) :
      Spells (.fixed text :: stretches) (text ++ rest)
  | run {stretches : List Stretch} {set : CharSet} {least : Nat} {rest : List Char}
      (text : List Char) (each : ∀ c ∈ text, set.contains c = true) (enough : least ≤ text.length)
      (tail : Spells stretches rest) :
      Spells (.run set least :: stretches) (text ++ rest)

theorem isRegular_spelled (stretches : List Stretch) : (spelled stretches).isRegular = true := by
  refine isRegular_sequence fun pattern member => ?_
  obtain ⟨stretch, -, origin⟩ := List.mem_flatMap.mp member
  cases stretch with
  | fixed text =>
    obtain ⟨c, -, rfl⟩ := List.mem_map.mp origin
    rfl
  | run set least =>
    obtain rfl := List.mem_singleton.mp origin
    rfl

/-- What such a pattern reads is made of its stretches. -/
theorem exists_text_of_spelled {stretches : List Stretch} {start finish : Cursor}
    (reads : Pattern.Reads subject (spelled stretches) start finish) :
    ∃ text, Spells stretches text ∧ text <+: subject.toList.drop start.position ∧
      finish = { start with position := start.position + text.length } := by
  induction stretches generalizing start with
  | nil =>
    cases reads
    exact ⟨[], .nil, List.nil_prefix, rfl⟩
  | cons stretch stretches ih =>
    have goesOn : ∀ {first : List Char}, first <+: subject.toList.drop start.position →
        Pattern.Reads subject (spelled stretches)
          { start with position := start.position + first.length } finish →
        ∃ rest, Spells stretches rest ∧ first ++ rest <+: subject.toList.drop start.position ∧
          finish = { start with position := start.position + (first ++ rest).length } := by
      intro first stands others
      obtain ⟨rest, spells, behind, rfl⟩ := ih others
      exact ⟨rest, spells, append_prefix_drop_iff.mpr ⟨stands, behind⟩,
        by simp [Nat.add_assoc]⟩
    unfold spelled at reads
    rw [List.flatMap_cons] at reads
    cases stretch with
    | fixed text =>
      obtain ⟨stands, others⟩ := reads_literal_append.mp reads
      obtain ⟨rest, spells, whole, ends⟩ := goesOn stands others
      exact ⟨text ++ rest, .fixed text spells, whole, ends⟩
    | run set least =>
      obtain ⟨middle, round, others⟩ := reads_sequence_cons.mp reads
      obtain ⟨text, each, enough, stands, rfl⟩ := exists_text_of_run round
      obtain ⟨rest, spells, whole, ends⟩ := goesOn stands others
      exact ⟨text ++ rest, .run text each enough spells, whole, ends⟩

/-- A pattern that may have a condition on what stands in front of it. -/
def guardedBy : Option (Nat × Pattern) → Pattern → Pattern
  | none, pattern => pattern
  | some (width, refused), pattern => .append (.behind false width refused) pattern

/-- A condition in front of a pattern reads nothing. -/
theorem match?_of_guarded {guard : Option (Nat × Pattern)} {cursor found : Cursor}
    {resume : Cursor → Option Cursor}
    (matched : (guardedBy guard pattern).match? subject cursor resume = some found) :
    pattern.match? subject cursor resume = some found := by
  cases guard with
  | none => exact matched
  | some guard =>
    obtain ⟨width, refused⟩ := guard
    simp only [guardedBy, Pattern.match?, Bool.false_eq_true, if_false] at matched
    split at matched
    · cases matched
    · exact matched

/-- The matches of such a pattern go forward within the text, and each is made of the stretches. -/
theorem sound_guarded {guard : Option (Nat × Pattern)} {stretches : List Stretch}
    (within : position ≤ subject.size)
    (matched :
      (guardedBy guard (spelled stretches)).matchAt? subject position moving = some found) :
    found.start ≤ found.finish ∧ found.finish ≤ subject.size ∧
      Spells stretches (slice subject found.start found.finish) := by
  obtain ⟨cursor, found, rfl⟩ := Option.map_eq_some_iff.mp matched
  obtain ⟨next, reads, accepted⟩ :=
    exists_reads_of_match? (isRegular_spelled stretches) (match?_of_guarded found)
  obtain rfl : next = cursor := by
    split at accepted
    · cases accepted
    · exact Option.some.inj accepted
  obtain ⟨text, spells, stands, rfl⟩ := exists_text_of_spelled reads
  refine ⟨Nat.le_add_right _ _, ?_, ?_⟩
  · have bound : text.length ≤ subject.size - position := by
      simpa using stands.length_le
    dsimp only
    omega
  · dsimp only
    rwa [slice_of_stands stands]

section

variable (guard : Option (Nat × Pattern)) (stretches : List Stretch) (text : String)

theorem inOrder_guarded :
    InOrder text.toList.toArray (Spells stretches) 0
      ((guardedBy guard (spelled stretches)).occurrences text.toList.toArray) :=
  inOrder_occurrencesFrom (fun _ _ _ => sound_guarded) (Nat.zero_le _)

/-- A text is what is cut out of it, with what stands between and behind. -/
theorem toList_eq_cuts :
    text.toList =
      ((guardedBy guard (spelled stretches)).cuts text).flatMap (fun cut => cut.1 ++ cut.2) ++
        (guardedBy guard (spelled stretches)).rest text := by
  have whole := (inOrder_guarded guard stretches text).slice_eq
  rwa [slice_all, List.toList_toArray] at whole

/-- What is cut out is made of the stretches. -/
theorem spells_of_mem_cuts :
    ∀ cut ∈ (guardedBy guard (spelled stretches)).cuts text, Spells stretches cut.2 :=
  (inOrder_guarded guard stretches text).shaped

end

/-- Replacing by a fixed text puts it in the place of each match. -/
theorem toList_replaceBy (pattern : Pattern) (fixed text : String) :
    (pattern.replaceBy fixed text).toList =
      (pattern.cuts text).flatMap (fun cut => cut.1 ++ fixed.toList) ++ pattern.rest text := by
  unfold Pattern.replaceBy
  dsimp only
  rw [String.toList_ofList]
  exact replaceFrom_eq (fun _ => by simp [Occurrence.expand]) 0 _

/-- Replacing by nothing leaves what stands between the matches. -/
theorem toList_replaceBy_empty (pattern : Pattern) (text : String) :
    (pattern.replaceBy "" text).toList =
      (pattern.cuts text).flatMap (·.1) ++ pattern.rest text := by
  rw [toList_replaceBy]
  simp

/-- Replacing by a template without references puts its text in the place of each match. -/
theorem replace_fixed {expression : Expression} {template : String} {word : List Char}
    (read : Template.parts expression (template.toList.length + 1) template.toList =
      .ok (word.map fun c => .fixed [c]))
    (text : String) :
    expression.replace template text =
      .ok (String.ofList ((expression.pattern.cuts text).flatMap (fun cut => cut.1 ++ word) ++
        expression.pattern.rest text)) := by
  have fixed : ∀ found : Occurrence,
      found.expand text.toList.toArray (word.map fun c => .fixed [c]) = word := by
    intro found
    unfold Occurrence.expand
    rw [List.flatMap_map]
    simp
  unfold Expression.replace
  dsimp only
  rw [read]
  exact congrArg (fun chars => Except.ok (String.ofList chars)) (replaceFrom_eq fixed 0 _)

end Regex
end ModuleAtlas
