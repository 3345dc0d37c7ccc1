import ModuleAtlas.Proofs.Types.Regrouping

/-!
# Layers of unions and intersections

The core of an outline has no unions and intersections with one member, and none that is directly
inside another of its kind.  An outline without functions is read as its core exactly if no member
of an intersection is a union in it.
-/

namespace ModuleAtlas
namespace Outline

/-! ## Cores -/

/-- The members of a union or an intersection as one list. -/
def listed (members : Outline → Outline × List Outline) (outline : Outline) : List Outline :=
  (members outline).1 :: (members outline).2

mutual

/-- The outline with the members of a union in place of a union that is a member of a union, and
with its only member in place of a union of one; and the same for intersections. -/
def core : Outline → Outline
  | .name word => .name word
  | .array element => .array (core element)
  | .tuple elements => .tuple (coreOfEach elements)
  | .union first others =>
    combination .union (spread alternatives (core first :: coreOfEach others))
  | .intersection first others =>
    combination .intersection (spread conjuncts (core first :: coreOfEach others))
  | .function parameters returns => .function parameters returns

@[inherit_doc core]
def coreOfEach : List Outline → List Outline
  | [] => []
  | outline :: rest => core outline :: coreOfEach rest

end

theorem coreOfEach_eq (outlines : List Outline) : coreOfEach outlines = outlines.map core := by
  induction outlines with
  | nil => rfl
  | cons outline rest ih =>
    rw [coreOfEach, ih, List.map_cons]

/-- Whether the members of an outline combine to it, and none of them has members of its own. -/
structure Settled (members : Outline → Outline × List Outline)
    (combine : Outline → List Outline → Outline) (outline : Outline) : Prop where
  combines : combination combine (listed members outline) = outline
  alone : ∀ member ∈ listed members outline, listed members member = [member]

/-- Whether the alternatives of an outline are no unions, and their conjuncts no intersections. -/
structure Neat (outline : Outline) : Prop where
  alternatives : Settled Outline.alternatives .union outline
  conjuncts : ∀ member ∈ listed Outline.alternatives outline,
    Settled Outline.conjuncts .intersection member

variable {outline : Outline} {outlines : List Outline} {others : List Outline} {first : Outline}

theorem settled_of_alone {members : Outline → Outline × List Outline}
    (combine : Outline → List Outline → Outline) (alone : listed members outline = [outline]) :
    Settled members combine outline := by
  refine ⟨by rw [alone]; rfl, ?_⟩
  rw [alone]
  intro member isMember
  rw [List.mem_singleton.mp isMember, alone]

theorem combination_cons_cons
    (combine : Outline → List Outline → Outline) (first second : Outline) (rest : List Outline) :
    combination combine (first :: second :: rest) = combine first (second :: rest) :=
  rfl

section Combined

variable {members : Outline → Outline × List Outline}
  {combine : Outline → List Outline → Outline} {outlines : List Outline}

theorem spread_ne_nil (nonempty : outlines ≠ []) : spread members outlines ≠ [] := by
  obtain ⟨first, others, rfl⟩ := List.exists_cons_of_ne_nil nonempty
  exact List.cons_ne_nil _ _

theorem mem_spread {member : Outline} :
    member ∈ spread members outlines ↔
      ∃ outline ∈ outlines, member ∈ listed members outline :=
  List.mem_flatMap

/-- The members of the combination of members are these. -/
theorem listed_combination
    (opens : ∀ first others, members (combine first others) = (first, others))
    (settled : ∀ outline ∈ outlines, Settled members combine outline) (nonempty : outlines ≠ []) :
    listed members (combination combine (spread members outlines)) = spread members outlines := by
  have alone : ∀ member ∈ spread members outlines, listed members member = [member] := by
    intro member isMember
    obtain ⟨outline, within, isListed⟩ := mem_spread.mp isMember
    exact (settled outline within).alone member isListed
  have some : spread members outlines ≠ [] := spread_ne_nil nonempty
  generalize spread members outlines = list at alone some
  match list, some, alone with
  | [single], _, alone => exact alone single List.mem_cons_self
  | first :: second :: rest, _, _ =>
    rw [combination_cons_cons, listed, opens]

theorem settled_combination
    (opens : ∀ first others, members (combine first others) = (first, others))
    (settled : ∀ outline ∈ outlines, Settled members combine outline) (nonempty : outlines ≠ []) :
    Settled members combine (combination combine (spread members outlines)) := by
  have same := listed_combination opens settled nonempty
  refine ⟨by rw [same], ?_⟩
  rw [same]
  intro member isMember
  obtain ⟨outline, within, isListed⟩ := mem_spread.mp isMember
  exact (settled outline within).alone member isListed

/-- The combination of members is one of the outlines, the only one, or it is combined of several
members. -/
theorem single_or_combined (settled : ∀ outline ∈ outlines, Settled members combine outline)
    (nonempty : outlines ≠ []) :
    (∃ outline, outlines = [outline] ∧
        combination combine (spread members outlines) = outline) ∨
      ∃ first second rest, spread members outlines = first :: second :: rest ∧
        combination combine (spread members outlines) = combine first (second :: rest) := by
  obtain ⟨outline, others, rfl⟩ := List.exists_cons_of_ne_nil nonempty
  cases others with
  | nil =>
    refine .inl ⟨outline, rfl, ?_⟩
    rw [spread, List.flatMap_singleton]
    exact (settled outline List.mem_cons_self).combines
  | cons next others =>
    have several : ∃ first second rest,
        spread members (outline :: next :: others) = first :: second :: rest := by
      rw [spread, List.flatMap_cons, List.flatMap_cons, List.cons_append, List.cons_append]
      cases (members outline).2 with
      | nil => exact ⟨_, _, _, rfl⟩
      | cons second rest => exact ⟨_, _, _, rfl⟩
    obtain ⟨first, second, rest, same⟩ := several
    exact .inr ⟨first, second, rest, same, by rw [same, combination_cons_cons]⟩

end Combined

theorem Neat.settled_conjuncts (neat : Neat outline) :
    Settled Outline.conjuncts .intersection outline := by
  cases outline with
  | union first others => exact settled_of_alone _ rfl
  | name | array | tuple | intersection | function =>
    exact neat.conjuncts _ List.mem_cons_self

theorem neat_union (neat : ∀ outline ∈ outlines, Neat outline)
    (nonempty : outlines ≠ []) :
    Neat (combination .union (spread Outline.alternatives outlines)) := by
  have settled : ∀ outline ∈ outlines, Settled Outline.alternatives .union outline :=
    fun outline member => (neat outline member).alternatives
  refine ⟨settled_combination (fun _ _ => rfl) settled nonempty, ?_⟩
  rw [listed_combination (fun _ _ => rfl) settled nonempty]
  intro member isMember
  obtain ⟨outline, within, isListed⟩ := mem_spread.mp isMember
  exact (neat outline within).conjuncts member isListed

theorem neat_intersection (neat : ∀ outline ∈ outlines, Neat outline)
    (nonempty : outlines ≠ []) :
    Neat (combination .intersection (spread Outline.conjuncts outlines)) := by
  have settled : ∀ outline ∈ outlines, Settled Outline.conjuncts .intersection outline :=
    fun outline member => (neat outline member).settled_conjuncts
  have settledAll := settled_combination (fun _ _ => rfl) settled nonempty
  rcases single_or_combined settled nonempty with
    ⟨outline, rfl, same⟩ | ⟨first, second, rest, -, same⟩
  · rw [same]
    exact neat outline List.mem_cons_self
  · rw [same] at settledAll ⊢
    refine ⟨settled_of_alone _ rfl, fun member isMember => ?_⟩
    obtain rfl := List.mem_singleton.mp isMember
    exact settledAll

mutual

/-- Cores are neat. -/
theorem neat_core : (outline : Outline) → Neat (core outline)
  | .name _ | .array _ | .tuple _ | .function _ _ => by
    rw [core]
    refine ⟨settled_of_alone _ rfl, fun member isMember => ?_⟩
    obtain rfl := List.mem_singleton.mp isMember
    exact settled_of_alone _ rfl
  | .union first others => by
    rw [core]
    exact neat_union (List.forall_mem_cons.mpr ⟨neat_core first, neat_coreOfEach others⟩)
      (List.cons_ne_nil _ _)
  | .intersection first others => by
    rw [core]
    exact neat_intersection (List.forall_mem_cons.mpr ⟨neat_core first, neat_coreOfEach others⟩)
      (List.cons_ne_nil _ _)

theorem neat_coreOfEach : (outlines : List Outline) →
    ∀ outline ∈ coreOfEach outlines, Neat outline
  | [] => by
    intro _ member
    cases member
  | outline :: rest => by
    rw [coreOfEach, List.forall_mem_cons]
    exact ⟨neat_core outline, neat_coreOfEach rest⟩

end

theorem neat_cores (first : Outline) (others : List Outline) :
    ∀ outline ∈ core first :: coreOfEach others, Neat outline :=
  List.forall_mem_cons.mpr ⟨neat_core first, neat_coreOfEach others⟩

/-! ## Layered outlines -/

mutual

/-- Whether no member of an intersection is a union, anywhere in an outline. -/
def isLayered : Outline → Bool
  | .name _ | .function _ _ => true
  | .array element => isLayered element
  | .tuple elements => areLayered elements
  | .union first others => isLayered first && areLayered others
  | .intersection first others =>
    fitsUnion first && others.all fitsUnion && (isLayered first && areLayered others)

@[inherit_doc isLayered]
def areLayered : List Outline → Bool
  | [] => true
  | outline :: rest => isLayered outline && areLayered rest

end

theorem areLayered_iff :
    areLayered outlines = true ↔ ∀ outline ∈ outlines, outline.isLayered = true := by
  induction outlines with
  | nil => simp [areLayered]
  | cons outline rest ih =>
    rw [areLayered, Bool.and_eq_true, ih, List.forall_mem_cons]

theorem isLayered_union :
    (Outline.union first others).isLayered = true ↔
      ∀ outline ∈ first :: others, outline.isLayered = true := by
  rw [isLayered, Bool.and_eq_true, areLayered_iff, List.forall_mem_cons]

theorem isLayered_intersection :
    (Outline.intersection first others).isLayered = true ↔
      ∀ outline ∈ first :: others, outline.fitsUnion = true ∧ outline.isLayered = true := by
  rw [isLayered, Bool.and_eq_true, Bool.and_eq_true, Bool.and_eq_true, List.all_eq_true,
    areLayered_iff, List.forall_mem_cons]
  exact ⟨fun ⟨⟨fitsFirst, fitsOthers⟩, layeredFirst, layeredOthers⟩ =>
      ⟨⟨fitsFirst, layeredFirst⟩, fun outline member =>
        ⟨fitsOthers outline member, layeredOthers outline member⟩⟩,
    fun ⟨⟨fitsFirst, layeredFirst⟩, both⟩ =>
      ⟨⟨fitsFirst, fun outline member => (both outline member).1⟩, layeredFirst,
        fun outline member => (both outline member).2⟩⟩

theorem isLayered_combination_union :
    (combination .union outlines).isLayered = true ↔
      ∀ outline ∈ outlines, outline.isLayered = true := by
  match outlines with
  | [] => exact ⟨fun _ => nofun, fun _ => rfl⟩
  | [single] =>
    rw [List.forall_mem_singleton]
    exact Iff.rfl
  | first :: second :: rest => rw [combination_cons_cons, isLayered_union]

/-! ## What is read is layered -/

/-- Whether what an operand is read as can be a member of a layered intersection. -/
def Operand.IsLayer (part : Operand) : Prop :=
  part.meaning.fitsUnion = true ∧ part.meaning.isLayered = true

/-- What rows are read as is layered if all of their operands are. -/
theorem isLayered_rowsMeaning {list : List (List Operand)}
    (layers : ∀ part ∈ list.flatten, part.IsLayer) :
    (rowsMeaning list).isLayered = true := by
  refine isLayered_combination_union.mpr fun outline isMeaning => ?_
  obtain ⟨row, isRow, rfl⟩ := List.mem_map.mp isMeaning
  have rowLayers : ∀ part ∈ row, part.IsLayer := fun part member =>
    layers part (List.mem_flatten.mpr ⟨row, isRow, member⟩)
  match row, rowLayers with
  | [], _ => rfl
  | [single], rowLayers => exact (rowLayers single List.mem_cons_self).2
  | first :: second :: rest, rowLayers =>
    refine isLayered_intersection.mpr fun outline member => ?_
    obtain ⟨part, within, rfl⟩ := List.mem_map.mp
      (show outline ∈ (first :: second :: rest).map Operand.meaning from member)
    exact rowLayers part within

mutual

/-- Each operand in the rows of an outline can be a member of a layered intersection. -/
theorem isLayer_rows : (outline : Outline) → ∀ part ∈ (rows outline).flatten, part.IsLayer
  | .name word => by
    rw [rows, List.flatten_singleton, List.forall_mem_singleton]
    exact ⟨rfl, rfl⟩
  | .array element => by
    rw [rows, List.flatten_singleton, List.forall_mem_singleton]
    exact ⟨rfl, isLayered_rowsMeaning (isLayer_rows element)⟩
  | .tuple elements => by
    rw [rows, List.flatten_singleton, List.forall_mem_singleton]
    refine ⟨rfl, areLayered_iff.mpr fun outline member => ?_⟩
    rw [rowsOfEach_eq, List.map_map] at member
    obtain ⟨element, within, rfl⟩ := List.mem_map.mp member
    exact isLayered_rowsMeaning (isLayer_rowsOfEach elements element within)
  | .union first others => by
    rw [rows, List.flatten_append, rowsOfEach_eq]
    exact forall_operands_members (isLayer_rows first) (isLayer_rowsOfEach others)
  | .intersection first others => by
    rw [rows, flatten_foldl_glue, rowsOfEach_eq]
    exact forall_operands_members (isLayer_rows first) (isLayer_rowsOfEach others)
  | .function parameters returns => by
    rw [rows, List.flatten_singleton, List.forall_mem_singleton]
    exact ⟨rfl, rfl⟩

theorem isLayer_rowsOfEach : (outlines : List Outline) →
    ∀ outline ∈ outlines, ∀ part ∈ (rows outline).flatten, part.IsLayer
  | [] => by
    intro _ member
    cases member
  | outline :: rest => by
    rw [List.forall_mem_cons]
    exact ⟨isLayer_rows outline, isLayer_rowsOfEach rest⟩

end

/-- Nothing is ever read as an intersection with a union as a member. -/
theorem isLayered_reading (outline : Outline) : (reading outline).isLayered = true :=
  isLayered_rowsMeaning (isLayer_rows outline)

/-! ## Layered cores are read back -/

/-- The conjuncts of each alternative of an outline. -/
def splitting (outline : Outline) : List (List Outline) :=
  (listed alternatives outline).map (listed conjuncts)

/-- What the operands of rows are read as. -/
def meanings (list : List (List Operand)) : List (List Outline) :=
  list.map (List.map Operand.meaning)

/-- Rows whose operands mean what an outline splits into are read as the outline. -/
theorem rowsMeaning_of_splitting {list : List (List Operand)} (neat : Neat outline)
    (splits : meanings list = splitting outline) : rowsMeaning list = outline := by
  have combined : list.map rowMeaning = (meanings list).map (combination .intersection) := by
    rw [meanings, List.map_map]
    rfl
  have each : (splitting outline).map (combination .intersection) =
      listed alternatives outline := by
    rw [splitting, List.map_map]
    exact (List.map_congr_left fun member isMember =>
      (neat.conjuncts member isMember).combines).trans (List.map_id _)
  rw [rowsMeaning, combined, splits, each, neat.alternatives.combines]

/-- Outlines are put together from the parts that they split into. -/
theorem map_rowsMeaning_of_splitting {groups : List (List (List Operand))}
    (neat : ∀ outline ∈ outlines, Neat outline)
    (splits : groups.map meanings = outlines.map splitting) :
    groups.map rowsMeaning = outlines := by
  induction groups generalizing outlines with
  | nil => exact (List.map_eq_nil_iff.mp splits.symm).symm
  | cons group groups ih =>
    cases outlines with
    | nil => cases splits
    | cons outline outlines =>
      obtain ⟨splitsHere, splitsRest⟩ := List.cons.inj splits
      obtain ⟨neatHere, neatRest⟩ := List.forall_mem_cons.mp neat
      rw [List.map_cons, rowsMeaning_of_splitting neatHere splitsHere, ih neatRest splitsRest]

theorem meanings_append (first second : List (List Operand)) :
    meanings (first ++ second) = meanings first ++ meanings second :=
  List.map_append

/-- Single rows that are glued together are one row. -/
theorem meanings_foldl_glue {before : List (List Operand)} {row : List Outline}
    {others : List (List (List Operand))} {rows : List (List Outline)}
    (single : meanings before = [row]) (singles : others.map meanings = rows.map fun row => [row]) :
    meanings (others.foldl glue before) = [row ++ rows.flatten] := by
  induction others generalizing before row rows with
  | nil =>
    obtain rfl := List.map_eq_nil_iff.mp singles.symm
    rw [List.foldl_nil, single, List.flatten_nil, List.append_nil]
  | cons group others ih =>
    obtain ⟨next, rows, rfl⟩ : ∃ next rest, rows = next :: rest := by
      cases rows with
      | nil => cases singles
      | cons next rest => exact ⟨next, rest, rfl⟩
    obtain ⟨singleNext, singlesRest⟩ := List.cons.inj singles
    obtain ⟨last, rfl, rfl⟩ := List.map_eq_singleton_iff.mp single
    obtain ⟨first, rfl, rfl⟩ := List.map_eq_singleton_iff.mp singleNext
    have glued : meanings (glue [last] [first]) =
        [last.map Operand.meaning ++ first.map Operand.meaning] := by
      rw [glue, meanings, List.map_cons, List.map_append, List.map_nil]
    rw [List.foldl_cons, ih glued singlesRest, List.flatten_cons, List.append_assoc]

/-- The members of a layered union are layered. -/
theorem isLayered_of_union
    (settled : Settled alternatives .union outline)
    (layered : (combination .union (spread alternatives outlines)).isLayered = true)
    (member : outline ∈ outlines) : outline.isLayered = true := by
  rw [← settled.combines]
  refine isLayered_combination_union.mpr fun inner isListed => ?_
  exact isLayered_combination_union.mp layered inner (mem_spread.mpr ⟨outline, member, isListed⟩)

/-- The members of a layered intersection are layered, and no unions. -/
theorem isLayered_of_intersection
    (settled : Settled conjuncts .intersection outline)
    (several : spread conjuncts outlines = first :: others)
    (layered : (Outline.intersection first others).isLayered = true) (member : outline ∈ outlines) :
    outline.fitsUnion = true ∧ outline.isLayered = true := by
  have layers : ∀ inner ∈ listed conjuncts outline,
      inner.fitsUnion = true ∧ inner.isLayered = true := by
    intro inner isListed
    refine isLayered_intersection.mp layered inner ?_
    rw [← several]
    exact mem_spread.mpr ⟨outline, member, isListed⟩
  cases outline with
  | intersection first others => exact ⟨rfl, isLayered_intersection.mpr layers⟩
  | name | array | tuple | union | function => exact layers _ List.mem_cons_self

theorem splitting_of_fitsUnion (fits : outline.fitsUnion = true) :
    splitting outline = [listed conjuncts outline] := by
  cases outline with
  | union => cases fits
  | name | array | tuple | intersection | function => rfl

theorem splitting_union (neat : ∀ outline ∈ outlines, Neat outline)
    (nonempty : outlines ≠ []) :
    splitting (combination .union (spread alternatives outlines)) = outlines.flatMap splitting := by
  rw [splitting, listed_combination (fun _ _ => rfl)
    (fun outline member => (neat outline member).alternatives) nonempty, spread, List.map_flatMap]
  rfl

mutual

/-- The rows of an outline with a layered core are those of the core. -/
theorem meanings_rows : (outline : Outline) → (core outline).isLayered = true →
    meanings (rows outline) = splitting (core outline)
  | .name _, _ | .function _ _, _ => by
    rw [rows, core]
    rfl
  | .array element, layered => by
    rw [core, isLayered] at layered
    have readBack : rowsMeaning (rows element) = core element :=
      rowsMeaning_of_splitting (neat_core element) (meanings_rows element layered)
    rw [rows, core, readBack]
    rfl
  | .tuple elements, layered => by
    rw [core, isLayered, areLayered_iff] at layered
    have readBack : (rowsOfEach elements).map rowsMeaning = coreOfEach elements :=
      map_rowsMeaning_of_splitting (neat_coreOfEach elements) (meanings_rowsOfEach elements layered)
    rw [rows, core, readBack]
    rfl
  | .union first others, layered => by
    rw [core] at layered ⊢
    have neat := neat_cores first others
    have layeredEach : ∀ outline ∈ core first :: coreOfEach others,
        outline.isLayered = true := fun outline member =>
      isLayered_of_union (neat outline member).alternatives layered member
    rw [List.forall_mem_cons] at layeredEach
    rw [rows, meanings_append, meanings_rows first layeredEach.1, meanings, List.map_flatten,
      splitting_union neat (List.cons_ne_nil _ _), List.flatMap_cons, List.flatMap_def,
      ← meanings_rowsOfEach others layeredEach.2]
    rfl
  | .intersection first others, layered => by
    rw [core] at layered ⊢
    have neat := neat_cores first others
    have settled : ∀ outline ∈ core first :: coreOfEach others,
        Settled conjuncts .intersection outline :=
      fun outline member => (neat outline member).settled_conjuncts
    rcases single_or_combined settled (List.cons_ne_nil _ _) with
      ⟨outline, alone, same⟩ | ⟨start, second, rest, several, same⟩
    · obtain ⟨rfl, none⟩ := List.cons.inj alone
      rw [coreOfEach_eq, List.map_eq_nil_iff] at none
      rw [same] at layered ⊢
      rw [rows, none, rowsOfEach, List.foldl_nil, meanings_rows first layered]
    · rw [same] at layered ⊢
      have layers : ∀ outline ∈ core first :: coreOfEach others,
          outline.fitsUnion = true ∧ outline.isLayered = true := fun outline member =>
        isLayered_of_intersection (settled outline member) several layered member
      rw [List.forall_mem_cons] at layers
      have singleFirst : meanings (rows first) = [listed conjuncts (core first)] :=
        (meanings_rows first layers.1.2).trans (splitting_of_fitsUnion layers.1.1)
      have singles : (rowsOfEach others).map meanings =
          ((coreOfEach others).map (listed conjuncts)).map fun row => [row] := by
        rw [meanings_rowsOfEach others fun outline member => (layers.2 outline member).2,
          List.map_map]
        exact List.map_congr_left fun outline member =>
          splitting_of_fitsUnion (layers.2 outline member).1
      have whole : start :: second :: rest =
          listed conjuncts (core first) ++
            ((coreOfEach others).map (listed conjuncts)).flatten := by
        rw [← several, spread, List.flatMap_cons, List.flatMap_def]
        rfl
      rw [rows, meanings_foldl_glue singleFirst singles, ← whole]
      rfl

theorem meanings_rowsOfEach : (outlines : List Outline) →
    (∀ outline ∈ coreOfEach outlines, outline.isLayered = true) →
    (rowsOfEach outlines).map meanings = (coreOfEach outlines).map splitting
  | [], _ => rfl
  | outline :: rest, layered => by
    rw [coreOfEach, List.forall_mem_cons] at layered
    rw [rowsOfEach, coreOfEach, List.map_cons, List.map_cons, meanings_rows outline layered.1,
      meanings_rowsOfEach rest layered.2]

end

/-- An outline is read as its core exactly if that is layered. -/
theorem reading_eq_core_iff : reading outline = outline.core ↔ outline.core.isLayered = true := by
  constructor
  · intro same
    rw [← same]
    exact isLayered_reading outline
  · intro layered
    exact rowsMeaning_of_splitting (neat_core outline) (meanings_rows outline layered)

end Outline
end ModuleAtlas
