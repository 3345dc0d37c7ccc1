import ModuleAtlas.Proofs.Types.TextReader

/-!
# Regrouping

The reader sees rows of operands in the tokens of an outline without functions: `&` stands between
the operands of a row, `|` between the rows.  It makes an intersection of each row and a union of
them, whatever unions and intersections the outline has.  Where no member of an intersection is a
union, this is the outline again, but for unions and intersections that leave no trace in it.
-/

namespace ModuleAtlas
namespace Outline

open Reader (combined brackets operand inParens separated)

mutual

/-- Whether there is no function in an outline. -/
def isPlain : Outline → Bool
  | .name _ => true
  | .array element => isPlain element
  | .tuple elements => arePlain elements
  | .union first others | .intersection first others => isPlain first && arePlain others
  | .function _ _ => false

@[inherit_doc isPlain]
def arePlain : List Outline → Bool
  | [] => true
  | outline :: rest => isPlain outline && arePlain rest

end

/-! ## Rows of operands -/

/-- What stands between the marks of unions and intersections, and what it is read as. -/
structure Operand where
  source : Outline
  meaning : Outline

/-- The combination of one or more members, or the only one. -/
def combination (combine : Outline → List Outline → Outline) : List Outline → Outline
  | [] => default
  | first :: others => combined combine (first, others)

/-- The tokens of a row. -/
def rowTokens (row : List Operand) : List Token :=
  joined .ampersand (row.map fun operand => operand.source.tokens)

/-- The tokens of some rows. -/
def rowsTokens (rows : List (List Operand)) : List Token := joined .bar (rows.map rowTokens)

/-- What a row is read as. -/
def rowMeaning (row : List Operand) : Outline :=
  combination .intersection (row.map Operand.meaning)

/-- What some rows are read as. -/
def rowsMeaning (rows : List (List Operand)) : Outline :=
  combination .union (rows.map rowMeaning)

/-- Some rows and then others after an `&`, so that the last of the one and the first of the others
become one row. -/
def glue : List (List Operand) → List (List Operand) → List (List Operand)
  | [], after => after
  | [last], first :: rest => (last ++ first) :: rest
  | row :: before, after => row :: glue before after

mutual

/-- The rows of operands that the reader sees in the tokens of an outline. -/
def rows : Outline → List (List Operand)
  | .name word => [[⟨.name word, .name word⟩]]
  | .array element => [[⟨.array element, .array (rowsMeaning (rows element))⟩]]
  | .tuple elements => [[⟨.tuple elements, .tuple ((rowsOfEach elements).map rowsMeaning)⟩]]
  | .union first others => rows first ++ (rowsOfEach others).flatten
  | .intersection first others => (rowsOfEach others).foldl glue (rows first)
  | .function parameters returns =>
    [[⟨.function parameters returns, .function parameters returns⟩]]

@[inherit_doc rows]
def rowsOfEach : List Outline → List (List (List Operand))
  | [] => []
  | outline :: rest => rows outline :: rowsOfEach rest

end

/-- What the tokens of an outline without functions are read as. -/
def reading (outline : Outline) : Outline := rowsMeaning (rows outline)

theorem rowsOfEach_eq (outlines : List Outline) : rowsOfEach outlines = outlines.map rows := by
  induction outlines with
  | nil => rfl
  | cons outline rest ih =>
    rw [rowsOfEach, ih, List.map_cons]

/-! ## Gluing -/

/-- Whether there is a row, and an operand in each. -/
def Filled (rows : List (List Operand)) : Prop := rows ≠ [] ∧ ∀ row ∈ rows, row ≠ []

theorem Filled.append {first second : List (List Operand)}
    (filledFirst : Filled first) (filledSecond : ∀ row ∈ second, row ≠ []) :
    Filled (first ++ second) :=
  ⟨List.append_ne_nil_of_left_ne_nil filledFirst.1 _, fun row member =>
    (List.mem_append.mp member).elim (filledFirst.2 row) (filledSecond row)⟩

theorem flatten_glue (before after : List (List Operand)) :
    (glue before after).flatten = before.flatten ++ after.flatten := by
  fun_induction glue before after with
  | case1 => rfl
  | case2 last first rest => simp
  | case3 row before after noSeam ih => simp [ih]

variable {row : List Operand} {before : List (List Operand)} {rest : List Token}

variable {after : List (List Operand)} {mark : Mark} {fuel : Nat} {outline : Outline}

/-- What follows rows that are glued to others. -/
theorem glue_cons (more : before ≠ []) : glue (row :: before) after = row :: glue before after := by
  obtain ⟨next, before, rfl⟩ := List.exists_cons_of_ne_nil more
  rfl

theorem filled_glue (filledBefore : Filled before) (filledAfter : Filled after) :
    Filled (glue before after) := by
  induction before with
  | nil => exact absurd rfl filledBefore.1
  | cons row before ih =>
    obtain ⟨rowFilled, othersFilled⟩ := List.forall_mem_cons.mp filledBefore.2
    by_cases last : before = []
    · subst last
      obtain ⟨first, rest, rfl⟩ := List.exists_cons_of_ne_nil filledAfter.1
      obtain ⟨firstFilled, restFilled⟩ := List.forall_mem_cons.mp filledAfter.2
      exact ⟨List.cons_ne_nil _ _, List.forall_mem_cons.mpr
        ⟨List.append_ne_nil_of_left_ne_nil rowFilled _, restFilled⟩⟩
    · rw [glue_cons last]
      exact ⟨List.cons_ne_nil _ _, List.forall_mem_cons.mpr
        ⟨rowFilled, (ih ⟨last, othersFilled⟩).2⟩⟩

theorem joined_append {first second : List (List Token)} (nonempty : first ≠ []) :
    joined mark (first ++ second) = joined mark first ++ each mark second := by
  obtain ⟨part, parts, rfl⟩ := List.exists_cons_of_ne_nil nonempty
  rw [List.cons_append, joined, joined, each_append, List.append_assoc]

theorem each_eq_cons_joined {parts : List (List Token)} (nonempty : parts ≠ []) :
    each mark parts = .mark mark :: joined mark parts := by
  obtain ⟨part, parts, rfl⟩ := List.exists_cons_of_ne_nil nonempty
  rw [each_cons, joined]

theorem rowsTokens_cons {rows : List (List Operand)} (nonempty : rows ≠ []) :
    rowsTokens (row :: rows) = rowTokens row ++ .mark .bar :: rowsTokens rows := by
  rw [rowsTokens, List.map_cons, joined, each_eq_cons_joined (by simpa using nonempty), rowsTokens]

/-- Where rows are glued together there is an `&` between their tokens. -/
theorem rowsTokens_glue (filledBefore : Filled before) (filledAfter : Filled after) :
    rowsTokens (glue before after) =
      rowsTokens before ++ .mark .ampersand :: rowsTokens after := by
  induction before with
  | nil => exact absurd rfl filledBefore.1
  | cons row before ih =>
    obtain ⟨rowFilled, othersFilled⟩ := List.forall_mem_cons.mp filledBefore.2
    by_cases last : before = []
    · subst last
      obtain ⟨first, rest, rfl⟩ := List.exists_cons_of_ne_nil filledAfter.1
      have firstFilled := filledAfter.2 first List.mem_cons_self
      have seam : rowTokens (row ++ first) =
          rowTokens row ++ .mark .ampersand :: rowTokens first := by
        rw [rowTokens, List.map_append, joined_append (by simpa using rowFilled),
          each_eq_cons_joined (by simpa using firstFilled), rowTokens, rowTokens]
      simp only [glue, rowsTokens, List.map_cons, List.map_nil, joined, seam, each,
        List.flatMap_nil, List.append_nil, List.append_assoc, List.cons_append]
    · have restFilled : Filled before := ⟨last, othersFilled⟩
      rw [glue_cons last, rowsTokens_cons (filled_glue restFilled filledAfter).1,
        ih restFilled, rowsTokens_cons last, List.append_assoc,
        List.cons_append]

/-- Several rows after each other, each glued to the ones before. -/
theorem filled_foldl_glue {others : List (List (List Operand))} (filledBefore : Filled before)
    (filledOthers : ∀ rows ∈ others, Filled rows) : Filled (others.foldl glue before) := by
  induction others generalizing before with
  | nil => exact filledBefore
  | cons rows others ih =>
    obtain ⟨filledRows, filledRest⟩ := List.forall_mem_cons.mp filledOthers
    exact ih (filled_glue filledBefore filledRows) filledRest

theorem rowsTokens_foldl_glue {others : List (List (List Operand))} (filledBefore : Filled before)
    (filledOthers : ∀ rows ∈ others, Filled rows) :
    rowsTokens (others.foldl glue before) =
      rowsTokens before ++ each .ampersand (others.map rowsTokens) := by
  induction others generalizing before with
  | nil => exact (List.append_nil _).symm
  | cons rows others ih =>
    obtain ⟨filledRows, filledRest⟩ := List.forall_mem_cons.mp filledOthers
    rw [List.foldl_cons, ih (filled_glue filledBefore filledRows) filledRest,
      rowsTokens_glue filledBefore filledRows, List.map_cons, each_cons, List.append_assoc,
      List.cons_append]

theorem flatten_foldl_glue (before : List (List Operand)) (others : List (List (List Operand))) :
    (others.foldl glue before).flatten = before.flatten ++ others.flatten.flatten := by
  induction others generalizing before with
  | nil => simp
  | cons rows others ih =>
    rw [List.foldl_cons, ih, flatten_glue, List.flatten_cons,
      List.flatten_append, List.append_assoc]

/-! ## The tokens of rows -/

mutual

/-- An outline has a row, and an operand in each of its rows. -/
theorem filled_rows : (outline : Outline) → Filled (rows outline)
  | .name _ | .array _ | .tuple _ | .function _ _ => by simp [rows, Filled]
  | .union first others => by
    rw [rows]
    refine (filled_rows first).append fun row member => ?_
    obtain ⟨group, isGroup, within⟩ := List.mem_flatten.mp member
    exact (filled_rowsOfEach others group isGroup).2 row within
  | .intersection first others => by
    rw [rows]
    exact filled_foldl_glue (filled_rows first) (filled_rowsOfEach others)

theorem filled_rowsOfEach : (outlines : List Outline) → ∀ group ∈ rowsOfEach outlines, Filled group
  | [], _, member => by cases member
  | outline :: rest, group, member => by
    rw [rowsOfEach] at member
    rcases List.mem_cons.mp member with rfl | later
    · exact filled_rows outline
    · exact filled_rowsOfEach rest group later

end

theorem each_rowTokens_flatten
    {groups : List (List (List Operand))} (filled : ∀ group ∈ groups, Filled group) :
    each .bar (groups.flatten.map rowTokens) = each .bar (groups.map rowsTokens) := by
  induction groups with
  | nil => rfl
  | cons group groups ih =>
    obtain ⟨groupFilled, restFilled⟩ := List.forall_mem_cons.mp filled
    rw [List.flatten_cons, List.map_append, each_append,
      each_eq_cons_joined (by simpa using groupFilled.1), ih restFilled,
      List.map_cons, each_cons, rowsTokens, List.cons_append]

mutual

/-- The rows of an outline have its tokens. -/
theorem rowsTokens_rows : (outline : Outline) → rowsTokens (rows outline) = outline.tokens
  | .name _ | .array _ | .tuple _ | .function _ _ => by
    simp [rows, rowsTokens, rowTokens, joined, each]
  | .union first others => by
    rw [rows, rowsTokens, List.map_append, joined_append (by simpa using (filled_rows first).1),
      each_rowTokens_flatten (filled_rowsOfEach others), rowsTokens_rowsOfEach others, tokens,
      tokensAfter_eq, ← rowsTokens, rowsTokens_rows first]
  | .intersection first others => by
    rw [rows, rowsTokens_foldl_glue (filled_rows first) (filled_rowsOfEach others),
      rowsTokens_rowsOfEach others, tokens, tokensAfter_eq, rowsTokens_rows first]

theorem rowsTokens_rowsOfEach : (outlines : List Outline) →
    (rowsOfEach outlines).map rowsTokens = outlines.map tokens
  | [] => rfl
  | outline :: rest => by
    rw [rowsOfEach, List.map_cons, List.map_cons, rowsTokens_rows outline,
      rowsTokens_rowsOfEach rest]

end

/-! ## Reading rows -/

/-- An operand is read as what it means, wherever it stands; then the brackets after it are taken.
-/
def Stands (part : Operand) : Prop :=
  ∀ fuel rest, part.source.tokens.length ≤ fuel →
    operand (Reader.type fuel) fuel (part.source.tokens ++ rest) = brackets part.meaning rest

theorem rowTokens_pos (nonempty : row ≠ []) : 0 < (rowTokens row).length := by
  obtain ⟨part, others, rfl⟩ := List.exists_cons_of_ne_nil nonempty
  have := Reader.tokens_pos part.source
  rw [rowTokens, List.map_cons, joined, List.length_append]
  omega

theorem clear_each_append {marks : List Mark} (free : mark ∉ marks) (clear : Clear marks rest)
    (parts : List (List Token)) : Clear marks (each mark parts ++ rest) := by
  cases parts with
  | nil => exact clear
  | cons part parts => exact clear_mark free _

/-- A row is read as the intersection of its operands. -/
theorem intersection_rowTokens (nonempty : row ≠ []) (stand : ∀ part ∈ row, Stands part)
    (few : (rowTokens row).length ≤ fuel) (clear : Clear [.ampersand, .openBracket] rest) :
    Reader.intersection (Reader.type fuel) fuel (rowTokens row ++ rest) =
      some (rowMeaning row, rest) := by
  have reads : Reader.ReadsAs (operand (Reader.type fuel) fuel)
      (fun part : Operand => part.source.tokens) Operand.meaning .ampersand row rest := by
    refine Reader.readsAs_of_forall fun part member others => ?_
    have short : part.source.tokens.length ≤ (rowTokens row).length :=
      length_le_joined (List.mem_map_of_mem member)
    rw [stand part member fuel _ (Nat.le_trans short few)]
    exact Reader.brackets_of_clear (clear_each_append (by decide)
      (clear.mono (List.subset_cons_self _ _)) _ _ (List.mem_singleton_self _))
  obtain ⟨first, others, rfl⟩ := List.exists_cons_of_ne_nil nonempty
  have enough : others.length < fuel := by
    have count := count_le_each .ampersand (others.map fun part => part.source.tokens)
    have := Reader.tokens_pos first.source
    rw [List.length_map] at count
    rw [rowTokens, List.map_cons, joined, List.length_append] at few
    omega
  have read := Reader.separated_joined reads (clear _ List.mem_cons_self) enough
  rw [Reader.intersection, rowTokens, read]
  rfl

/-- Rows are read as the union of what they are read as. -/
theorem union_rowsTokens {list : List (List Operand)} (filled : Filled list)
    (stand : ∀ row ∈ list, ∀ part ∈ row, Stands part) (few : (rowsTokens list).length ≤ fuel)
    (clear : Clear [.bar, .ampersand, .openBracket] rest) :
    Reader.union (Reader.type fuel) fuel (rowsTokens list ++ rest) =
      some (rowsMeaning list, rest) := by
  have reads : Reader.ReadsAs (Reader.intersection (Reader.type fuel) fuel) rowTokens rowMeaning
      .bar list rest := by
    refine Reader.readsAs_of_forall fun row member others => ?_
    have short : (rowTokens row).length ≤ (rowsTokens list).length :=
      length_le_joined (List.mem_map_of_mem member)
    exact intersection_rowTokens (filled.2 row member) (stand row member)
      (Nat.le_trans short few)
      (clear_each_append (by decide) (clear.mono (List.subset_cons_self _ _)) _)
  obtain ⟨first, others, rfl⟩ := List.exists_cons_of_ne_nil filled.1
  have enough : others.length < fuel := by
    have count := count_le_each .bar (others.map rowTokens)
    have := rowTokens_pos (filled.2 first List.mem_cons_self)
    rw [List.length_map] at count
    rw [rowsTokens, List.map_cons, joined, List.length_append] at few
    omega
  have read := Reader.separated_joined reads (clear _ List.mem_cons_self) enough
  rw [Reader.union, rowsTokens, read]
  rfl

/-- An outline is read as what its rows are read as if its operands are. -/
theorem type_tokens (stand : ∀ part ∈ (rows outline).flatten, Stands part)
    (few : outline.tokens.length < fuel) (clear : Clear [.bar, .ampersand, .openBracket] rest) :
    Reader.type fuel (outline.tokens ++ rest) = some (reading outline, rest) := by
  obtain ⟨fuel, rfl⟩ := Nat.exists_eq_succ_of_ne_zero (Nat.ne_of_gt (Nat.zero_lt_of_lt few))
  rw [← rowsTokens_rows outline] at few ⊢
  exact union_rowsTokens (filled_rows outline)
    (fun row isRow part member => stand part (List.mem_flatten.mpr ⟨row, isRow, member⟩))
    (Nat.le_of_lt_succ few) clear

theorem operands_of_bare (bare : outline.needsParentheses = false) :
    ∃ meaning, rows outline = [[⟨outline, meaning⟩]] ∧ reading outline = meaning := by
  cases outline with
  | name word => exact ⟨.name word, by rw [rows], by rw [reading, rows]; rfl⟩
  | array element =>
    exact ⟨.array (rowsMeaning (rows element)), by rw [rows], by rw [reading, rows]; rfl⟩
  | tuple elements =>
    exact ⟨.tuple ((rowsOfEach elements).map rowsMeaning), by rw [rows],
      by rw [reading, rows]; rfl⟩
  | union | intersection | function => cases bare

/-- The parentheses around the element of an array, and the brackets after it. -/
theorem stands_array {element : Outline} (stand : ∀ part ∈ (rows element).flatten, Stands part) :
    Stands ⟨.array element, .array (reading element)⟩ := by
  intro fuel rest few
  simp only [tokens] at few ⊢
  cases parens : element.needsParentheses with
  | true =>
    rw [parens, if_pos rfl] at few
    simp only [List.length_cons, List.length_append] at few
    rw [if_pos rfl, List.cons_append, List.cons_append, List.append_assoc, List.append_assoc,
      List.singleton_append, Reader.operand_of_type (Reader.startsParameters_tokens element _ rfl),
      inParens]
    rw [type_tokens stand (by omega) (clear_mark (by decide) _), Option.bind_eq_bind,
      Option.bind_some]
    dsimp only
    rw [after?_mark]
    rfl
  | false =>
    obtain ⟨meaning, rowsEq, readingEq⟩ := operands_of_bare parens
    have stands : Stands ⟨element, meaning⟩ := stand _ (by rw [rowsEq]; simp)
    rw [parens, if_neg Bool.false_ne_true, List.length_append] at few
    rw [if_neg Bool.false_ne_true, List.append_assoc, readingEq]
    exact stands fuel _ (show element.tokens.length ≤ fuel by omega)

theorem stands_tuple {elements : List Outline}
    (stand : ∀ element ∈ elements, ∀ part ∈ (rows element).flatten, Stands part) :
    Stands ⟨.tuple elements, .tuple (elements.map reading)⟩ := by
  intro fuel rest few
  simp only [tokens, listTokens_eq] at few ⊢
  simp only [List.length_cons, List.length_append] at few
  have count := count_le_joined .comma (elements.map tokens)
  rw [List.length_map] at count
  have reads : Reader.ReadsAs (Reader.type fuel) tokens reading .comma elements
      (.mark .closeBracket :: rest) := by
    refine Reader.readsAs_of_forall fun element member others => ?_
    have short : element.tokens.length ≤ (joined .comma (elements.map tokens)).length :=
      length_le_joined (List.mem_map_of_mem member)
    exact type_tokens (stand element member) (by omega) (Reader.clear_each (by decide) rest)
  have read := Reader.enclosed_joined reads (by decide)
    (fun element _ later => Reader.after?_tokens (by decide) (by decide) element later)
    (show elements.length ≤ fuel by omega)
  rw [List.cons_append, List.append_assoc, operand, List.singleton_append, read]
  rfl

/-- The operands of members are those of each member. -/
theorem forall_operands_members
    {holds : Operand → Prop} {first : List (List Operand)} {others : List Outline}
    (holdsFirst : ∀ part ∈ first.flatten, holds part)
    (holdsOthers : ∀ outline ∈ others, ∀ part ∈ (rows outline).flatten, holds part) :
    ∀ part ∈ first.flatten ++ (others.map rows).flatten.flatten, holds part := by
  intro part member
  rcases List.mem_append.mp member with here | later
  · exact holdsFirst part here
  · obtain ⟨row, isRow, within⟩ := List.mem_flatten.mp later
    obtain ⟨group, isGroup, rowWithin⟩ := List.mem_flatten.mp isRow
    obtain ⟨outline, isMember, rfl⟩ := List.mem_map.mp isGroup
    exact holdsOthers outline isMember part (List.mem_flatten.mpr ⟨row, rowWithin, within⟩)

mutual

/-- Every operand of an outline without functions is read as what it means. -/
theorem stands_rows : (outline : Outline) → outline.isPlain = true →
    ∀ part ∈ (rows outline).flatten, Stands part
  | .name word, _ => by
    intro part member
    obtain rfl : part = ⟨.name word, .name word⟩ := by simpa [rows] using member
    intro fuel rest _
    rw [tokens, List.singleton_append, operand, String.ofList_toList]
  | .array element, plain => by
    intro part member
    rw [isPlain] at plain
    obtain rfl : part = ⟨.array element, .array (reading element)⟩ := by
      simpa [rows, reading] using member
    exact stands_array (stands_rows element plain)
  | .tuple elements, plain => by
    intro part member
    rw [isPlain] at plain
    obtain rfl : part = ⟨.tuple elements, .tuple (elements.map reading)⟩ := by
      rw [rows, rowsOfEach_eq, List.map_map, List.flatten_singleton, List.mem_singleton] at member
      exact member
    exact stands_tuple (stands_rowsOfEach elements plain)
  | .union first others, plain => by
    rw [isPlain, Bool.and_eq_true] at plain
    rw [rows, List.flatten_append, rowsOfEach_eq]
    exact forall_operands_members (stands_rows first plain.1) (stands_rowsOfEach others plain.2)
  | .intersection first others, plain => by
    rw [isPlain, Bool.and_eq_true] at plain
    rw [rows, flatten_foldl_glue, rowsOfEach_eq]
    exact forall_operands_members (stands_rows first plain.1) (stands_rowsOfEach others plain.2)
  | .function _ _, plain => by cases plain

theorem stands_rowsOfEach : (outlines : List Outline) → arePlain outlines = true →
    ∀ outline ∈ outlines, ∀ part ∈ (rows outline).flatten, Stands part
  | [], _ => by
    intro _ member
    cases member
  | first :: rest, plain => by
    rw [arePlain, Bool.and_eq_true] at plain
    rw [List.forall_mem_cons]
    exact ⟨stands_rows first plain.1, stands_rowsOfEach rest plain.2⟩

end

/-- What the tokens of an outline without functions are read as. -/
theorem ofTokens?_eq_reading (plain : outline.isPlain = true) :
    ofTokens? outline.tokens = some (reading outline) := by
  have nothing : Clear [.bar, .ampersand, .openBracket] [] := fun _ _ => rfl
  have read := type_tokens (stands_rows outline plain) (Nat.lt_succ_self _) nothing
  rw [List.append_nil] at read
  unfold ofTokens?
  rw [read]
  rfl

end Outline
end ModuleAtlas
