import ModuleAtlas.Text.Basic

/-!
# Pieces, sorted lists and collapsed texts

Splitting and joining, sorted sets of texts, and what collapsing white space leaves as it is.
-/

namespace ModuleAtlas
namespace Text

/-!
## Pieces and sorted lists of texts

Splitting undoes joining when no piece holds the separator.  A sorted set of texts holds the same
texts in strictly increasing order.
-/

/-! ### Splitting and joining -/

variable {separator : Char} {pieces : List String} {text : List Char} {texts : List String}

theorem splitChars_of_free (free : separator ∉ text) :
    splitChars separator text = [text] := by
  induction text with
  | nil => rfl
  | cons c rest ih =>
    rw [List.mem_cons, not_or] at free
    rw [splitChars, if_neg (Ne.symm free.1), ih free.2]

/-- A text is cut at each of its separators. -/
theorem splitChars_append_separator (separator : Char) (text rest : List Char) :
    splitChars separator (text ++ separator :: rest) =
      splitChars separator text ++ splitChars separator rest := by
  induction text with
  | nil => simp [splitChars]
  | cons c text ih =>
    rw [List.cons_append, splitChars, splitChars, ih]
    split
    · rfl
    · obtain ⟨piece, pieces, known⟩ :=
        List.exists_cons_of_ne_nil (splitChars_ne_nil separator text)
      rw [known]
      rfl

theorem splitChars_append {piece rest : List Char} (free : separator ∉ piece) :
    splitChars separator (piece ++ separator :: rest) = piece :: splitChars separator rest := by
  rw [splitChars_append_separator, splitChars_of_free free, List.singleton_append]

/-- Only an empty text has nothing but one empty piece. -/
theorem splitChars_ne_empty (nonempty : text ≠ []) :
    (splitChars separator text).map String.ofList ≠ [""] := by
  obtain ⟨c, rest, rfl⟩ := List.exists_cons_of_ne_nil nonempty
  rw [splitChars]
  split
  · simp [splitChars_ne_nil]
  · split <;> simp

/-! ### Cutting at the first separator -/

theorem cutFirst?_eq_none_iff :
    cutFirst? separator text = none ↔ separator ∉ text := by
  induction text with
  | nil => simp [cutFirst?]
  | cons c rest ih =>
    by_cases same : c = separator
    · simp [cutFirst?, same]
    · simp [cutFirst?, same, Ne.symm same, ih]

/-- A text is cut at the first separator in it. -/
theorem cutFirst?_eq_some_iff {text before after : List Char} :
    cutFirst? separator text = some (before, after) ↔
      text = before ++ separator :: after ∧ separator ∉ before := by
  induction text generalizing before with
  | nil => simp [cutFirst?]
  | cons c rest ih =>
    by_cases same : c = separator
    · subst same
      cases before with
      | nil => simp [cutFirst?, eq_comm]
      | cons d before =>
        simp only [cutFirst?, if_pos, List.cons_append, List.mem_cons, not_or]
        constructor
        · simp
        · rintro ⟨equal, different, _⟩
          exact absurd (List.cons.inj equal).1 different
    · cases before with
      | nil => simp [cutFirst?, same]
      | cons d before =>
        rw [cutFirst?, if_neg same, Option.map_eq_some_iff]
        constructor
        · rintro ⟨⟨start, finish⟩, found, equal⟩
          simp only [Prod.mk.injEq, List.cons.injEq] at equal
          obtain ⟨⟨rfl, rfl⟩, rfl⟩ := equal
          obtain ⟨rfl, free⟩ := ih.mp found
          simp [free, Ne.symm same]
        · rintro ⟨equal, free⟩
          simp only [List.cons_append, List.cons.injEq] at equal
          simp only [List.mem_cons, not_or] at free
          exact ⟨(before, after), ih.mpr ⟨equal.2, free.2⟩, by simp [equal.1]⟩

theorem cutLast?_eq_none_iff :
    cutLast? separator text = none ↔ separator ∉ text := by
  rw [cutLast?, Option.map_eq_none_iff, cutFirst?_eq_none_iff, List.mem_reverse]

/-- A text is cut at the separator that none comes after. -/
theorem cutLast?_eq_some_iff {text before after : List Char} :
    cutLast? separator text = some (before, after) ↔
      text = before ++ separator :: after ∧ separator ∉ after := by
  rw [cutLast?, Option.map_eq_some_iff]
  constructor
  · rintro ⟨⟨first, second⟩, found, same⟩
    obtain ⟨rfl, rfl⟩ := Prod.mk.inj same
    obtain ⟨split, free⟩ := cutFirst?_eq_some_iff.mp found
    refine ⟨?_, by simpa using free⟩
    rw [← List.reverse_reverse text, split]
    simp
  · rintro ⟨rfl, free⟩
    refine ⟨(after.reverse, before.reverse), cutFirst?_eq_some_iff.mpr ⟨by simp,
      by simpa using free⟩, ?_⟩
    simp

/-- No character of a text is a given one. -/
def IsFreeOf (c : Char) (text : String) : Prop :=
  c ∉ text.toList

/-- Splitting gives back the pieces that were joined. -/
theorem split_join (nonempty : pieces ≠ []) (free : ∀ piece ∈ pieces, IsFreeOf separator piece) :
    split separator (join (String.singleton separator) pieces) = pieces := by
  induction pieces with
  | nil => exact absurd rfl nonempty
  | cons piece rest ih =>
    have pieceFree := free piece (by simp)
    unfold split join
    cases rest with
    | nil =>
      rw [String.intercalate_singleton, splitChars_of_free pieceFree]
      simp
    | cons next rest =>
      have restSplit := ih (by simp) fun other member =>
        free other (List.mem_cons_of_mem _ member)
      unfold split join at restSplit
      rw [String.intercalate_cons_cons, String.toList_append, String.toList_append,
        String.toList_singleton, List.append_assoc, List.singleton_append,
        splitChars_append pieceFree, List.map_cons, restSplit, String.ofList_toList]

/-- The pieces after the first one have the separator in front of them. -/
theorem toList_join (separator piece : String) (rest : List String) :
    (join separator (piece :: rest)).toList =
      piece.toList ++ rest.flatMap fun other => separator.toList ++ other.toList := by
  unfold join
  induction rest generalizing piece with
  | nil => simp
  | cons next rest ih =>
    rw [String.intercalate_cons_cons, String.toList_append, String.toList_append,
      ih, List.flatMap_cons, List.append_assoc, List.append_assoc]

theorem toList_join_cons (piece : String) (rest : List String) :
    (join "/" (piece :: rest)).toList =
      piece.toList ++ rest.flatMap fun other => '/' :: other.toList :=
  toList_join "/" piece rest

theorem toList_join_append (nonempty : pieces ≠ []) (more : List String) :
    (join "/" (pieces ++ more)).toList =
      (join "/" pieces).toList ++ more.flatMap fun other => '/' :: other.toList := by
  obtain ⟨first, rest, rfl⟩ := List.exists_cons_of_ne_nil nonempty
  rw [List.cons_append, toList_join_cons, toList_join_cons, List.flatMap_append, List.append_assoc]

/-- Joining gives back the text that was split. -/
theorem join_split (text : String) : join "/" (split '/' text) = text := by
  have chars : ∀ (text : List Char) (first : List Char) (rest : List (List Char)),
      splitChars '/' text = first :: rest → first ++ rest.flatMap ('/' :: ·) = text := by
    intro text
    induction text with
    | nil =>
      rintro _ _ ⟨⟩
      rfl
    | cons c text ih =>
      intro first rest pieces
      obtain ⟨next, others, onward⟩ := List.exists_cons_of_ne_nil (splitChars_ne_nil '/' text)
      have later := ih next others onward
      rw [splitChars, onward] at pieces
      split at pieces
      · rename_i slash
        cases pieces
        rw [List.nil_append, List.flatMap_cons, List.cons_append, later, slash]
      · cases pieces
        rw [List.cons_append, later]
  obtain ⟨first, rest, pieces⟩ := List.exists_cons_of_ne_nil (splitChars_ne_nil '/' text.toList)
  rw [← String.toList_inj, split, pieces, List.map_cons, toList_join_cons, String.toList_ofList,
    List.flatMap_map]
  simpa using chars text.toList first rest pieces

theorem toList_subset_join {piece : String} (member : piece ∈ pieces) :
    piece.toList ⊆ (join "/" pieces).toList := by
  obtain ⟨first, rest, rfl⟩ := List.exists_cons_of_ne_nil (List.ne_nil_of_mem member)
  intro c found
  rw [toList_join_cons, List.mem_append]
  rcases List.mem_cons.mp member with rfl | later
  · exact .inl found
  · exact .inr (List.mem_flatMap.mpr ⟨piece, later, List.mem_cons_of_mem _ found⟩)

/-- Splitting goes on behind the pieces that were joined. -/
theorem split_join_append (nonempty : pieces ≠ []) (free : ∀ piece ∈ pieces, IsFreeOf '/' piece)
    (rest : List Char) :
    (splitChars '/' ((join "/" pieces).toList ++ '/' :: rest)).map String.ofList =
      pieces ++ (splitChars '/' rest).map String.ofList := by
  obtain ⟨first, others, rfl⟩ := List.exists_cons_of_ne_nil nonempty
  rw [toList_join_cons]
  clear nonempty
  induction others generalizing first with
  | nil =>
    rw [List.flatMap_nil, List.append_nil, splitChars_append (free first List.mem_cons_self)]
    simp
  | cons next others ih =>
    have onward := ih next fun piece member =>
      free piece (List.mem_cons_of_mem _ member)
    rw [List.flatMap_cons, List.append_assoc, List.cons_append, List.cons_append,
      splitChars_append (free first List.mem_cons_self), List.map_cons, onward,
      String.ofList_toList]
    rfl

/-- Every piece of a split text is free of the separator. -/
theorem free_of_mem_split {text piece : String} (member : piece ∈ split separator text) :
    IsFreeOf separator piece := by
  have pieces : ∀ (chars : List Char), ∀ found ∈ splitChars separator chars,
      separator ∉ found := by
    intro chars
    induction chars with
    | nil => simp [splitChars]
    | cons c rest ih =>
      rw [splitChars]
      split
      · simpa using ih
      · rename_i different
        split
        · simpa using Ne.symm different
        · rename_i first more equal
          rw [equal] at ih
          simp only [List.mem_cons, forall_eq_or_imp] at ih ⊢
          refine ⟨?_, ih.2⟩
          rw [not_or]
          exact ⟨Ne.symm different, ih.1⟩
  obtain ⟨found, foundMember, rfl⟩ := List.mem_map.mp member
  unfold IsFreeOf
  rw [String.toList_ofList]
  exact pieces text.toList found foundMember

/-! ### Sorted sets -/

theorem mem_dedupNeighbours {text : String} :
    text ∈ dedupNeighbours texts ↔ text ∈ texts := by
  fun_induction dedupNeighbours texts with
  | case1 => exact Iff.rfl
  | case2 => exact Iff.rfl
  | case3 first rest ih =>
    rw [ih]
    simp
  | case4 first second rest different ih =>
    rw [List.mem_cons, ih, ← List.mem_cons]

/-- A sorted list without equal neighbours is strictly increasing. -/
theorem pairwise_dedupNeighbours (sorted : texts.Pairwise (· ≤ ·)) :
    (dedupNeighbours texts).Pairwise (· < ·) := by
  fun_induction dedupNeighbours texts with
  | case1 => exact List.Pairwise.nil
  | case2 first => simp
  | case3 first rest ih => exact ih sorted.of_cons
  | case4 first second rest different ih =>
    rw [List.pairwise_cons] at sorted ⊢
    refine ⟨fun other member => ?_, ih sorted.2⟩
    rw [mem_dedupNeighbours] at member
    have below := sorted.1 second (by simp)
    have apart : first < second := by
      rw [← String.not_le]
      exact fun above => different (String.le_antisymm below above)
    rcases List.mem_cons.mp member with rfl | later
    · exact apart
    · rw [← String.not_le]
      intro above
      have between := (List.pairwise_cons.mp sorted.2).1 other later
      exact String.not_le.mpr apart (String.le_trans between above)

@[simp] theorem mem_sortedSet {text : String} :
    text ∈ sortedSet texts ↔ text ∈ texts := by
  unfold sortedSet sortStrings
  rw [mem_dedupNeighbours, List.mem_mergeSort]

/-- A sorted set is in strictly increasing order, so it holds no text twice. -/
theorem pairwise_sortedSet (texts : List String) : (sortedSet texts).Pairwise (· < ·) := by
  apply pairwise_dedupNeighbours
  have sorted : (sortStrings texts).Pairwise fun a b => decide (a ≤ b) = true := by
    apply List.pairwise_mergeSort
    · intro a b c first second
      simp only [decide_eq_true_eq] at first second ⊢
      exact String.le_trans first second
    · intro a b
      simp only [Bool.or_eq_true, decide_eq_true_eq]
      exact String.le_total a b
  simpa using sorted

/-!
## Collapsed white space

Collapsing makes each run of white space inside a text one space and drops the runs around it.  All
other characters stay as they are.
-/

variable {c : Char} {text : List Char}

/-- Collapsing white space leaves all other characters, in their order. -/
theorem filter_collapseChars (text : List Char) :
    (collapseChars text).filter (fun c => !isBlank c) = text.filter fun c => !isBlank c := by
  have space : isBlank ' ' = true := by decide
  fun_induction collapseChars text with
  | case1 => rfl
  | case2 c rest blank ih => simp [blank, ih]
  | case3 c visible => rfl
  | case4 c visible d rest blank none ih =>
    rw [none] at ih ⊢
    have nothing : ∀ e ∈ rest, isBlank e = true := by simpa [blank] using ih.symm
    simpa [visible, blank] using nothing
  | case5 c visible d rest blank some ih =>
    split
    · rename_i none
      exact absurd none some
    · simpa [visible, blank, space] using ih
  | case6 c visible d rest next ih =>
    simp [visible, next] at ih ⊢
    exact ih

theorem head_collapseChars (solid : isBlank c = false) (rest : List Char) :
    ∃ more, collapseChars (c :: rest) = c :: more := by
  cases rest with
  | nil => exact ⟨[], by simp [collapseChars, solid]⟩
  | cons d rest =>
    rw [collapseChars, if_neg (by simp [solid])]
    split
    · split <;> exact ⟨_, rfl⟩
    · exact ⟨_, rfl⟩

/-- What is collapsed does not start with white space. -/
theorem solid_of_head_collapseChars {rest : List Char} (known : collapseChars text = c :: rest) :
    isBlank c = false := by
  fun_induction collapseChars text with
  | case1 => cases known
  | case2 d rest blank ih => exact ih known
  | case3 d visible =>
    cases known
    exact Bool.eq_false_iff.mpr visible
  | case4 d visible e rest blank none _ =>
    rw [none] at known
    cases known
    exact Bool.eq_false_iff.mpr visible
  | case5 d visible e rest blank some _ =>
    split at known
    · rename_i none
      exact absurd none some
    · cases known
      exact Bool.eq_false_iff.mpr visible
  | case6 d visible e rest next _ =>
    cases known
    exact Bool.eq_false_iff.mpr visible

end Text
end ModuleAtlas
