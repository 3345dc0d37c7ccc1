import ModuleAtlas.Resolve.Conditions

/-!
# What an export entry offers

An entry of an export table may nest lists and tables to any depth.  Read from the front, with the
values of a table in the order of the known conditions, it offers a list of targets.  The target
that is picked is the first one of this list, so a branch that offers nothing hides nothing.
-/

namespace ModuleAtlas
namespace Resolve

/-! ## Offers -/

mutual

/-- All targets that an entry offers, the preferred one first. -/
def targets : Json → List String
  | .string target => [target]
  | .array items => itemTargets items
  | .object entries =>
    conditions.flatMap fun condition => (Keyed.find? condition (entryTargets entries)).getD []
  | _ => []

/-- All targets that items offer, one item after the other. -/
def itemTargets : List Json → List String
  | [] => []
  | item :: rest => targets item ++ itemTargets rest

/-- The targets that each value of a table offers. -/
def entryTargets : List (String × Json) → List (String × List String)
  | [] => []
  | (key, value) :: rest => (key, targets value) :: entryTargets rest

end

/-- A target stands in an entry where it may be picked: as the entry itself, in an item of a list,
or under a known condition of a table. -/
inductive Offers : Json → String → Prop where
  | here (target : String) : Offers (.string target) target
  | item {items : List Json} {item : Json} {target : String}
      (member : item ∈ items)
      (offers : Offers item target) :
      Offers (.array items) target
  | condition {entries : List (String × Json)} {condition : String} {value : Json}
      {target : String}
      (known : condition ∈ conditions)
      (found : Keyed.find? condition entries = some value)
      (offers : Offers value target) :
      Offers (.object entries) target

theorem find?_map_snd {α β : Type} (image : α → β) (key : String) (entries : List (String × α)) :
    Keyed.find? key (entries.map fun entry => (entry.1, image entry.2)) =
      (Keyed.find? key entries).map image := by
  unfold Keyed.find?
  induction entries with
  | nil => rfl
  | cons entry rest ih =>
    rw [List.map_cons, List.lookup_cons, List.lookup_cons, ih]
    cases key == entry.1 <;> rfl

theorem entryTargets_eq (entries : List (String × Json)) :
    entryTargets entries = entries.map fun entry => (entry.1, targets entry.2) := by
  induction entries with
  | nil => rfl
  | cons entry rest ih =>
    rw [entryTargets, ih, List.map_cons]

/-- A list offers what its items offer, in their order. -/
theorem targets_array (items : List Json) : targets (.array items) = items.flatMap targets := by
  rw [targets]
  induction items with
  | nil => rfl
  | cons item rest ih =>
    rw [itemTargets, ih, List.flatMap_cons]

/-- A table offers what its values under the known conditions offer, in the order of these. -/
theorem targets_object (entries : List (String × Json)) :
    targets (.object entries) = conditions.flatMap fun condition =>
      ((Keyed.find? condition entries).map targets).getD [] := by
  rw [targets, entryTargets_eq]
  simp only [find?_map_snd]

/-! ## Picking -/

/-- The first condition whose value has a pick decides. -/
theorem firstCondition_heads (offered : List (String × List String)) :
    firstCondition (offered.map fun entry => (entry.1, entry.2.head?)) =
      (conditions.flatMap fun condition => (Keyed.find? condition offered).getD []).head? := by
  rw [firstCondition, List.head?_flatMap]
  congr 1
  funext condition
  rw [find?_map_snd]
  cases Keyed.find? condition offered <;> rfl

mutual

theorem pickTarget_eq_head? : ∀ entry : Json, pickTarget entry = (targets entry).head?
  | .null | .bool _ | .int _ | .decimal _ | .string _ => rfl
  | .array items => by rw [pickTarget, targets, pickItem_eq_head? items]
  | .object entries => by
    rw [pickTarget, targets, pickEntries_eq_heads entries, firstCondition_heads]

theorem pickItem_eq_head? : ∀ items : List Json, pickItem items = (itemTargets items).head?
  | [] => rfl
  | item :: rest => by
    rw [pickItem, itemTargets, List.head?_append, pickTarget_eq_head? item, pickItem_eq_head? rest]
    cases (targets item).head? <;> rfl

theorem pickEntries_eq_heads : ∀ entries : List (String × Json),
    pickEntries entries = (entryTargets entries).map fun entry => (entry.1, entry.2.head?)
  | [] => rfl
  | (key, value) :: rest => by
    rw [pickEntries, entryTargets, List.map_cons, pickTarget_eq_head? value,
      pickEntries_eq_heads rest]

end

/-! ## Completeness -/

theorem mem_targets_of_offers {entry : Json} {target : String} (offers : Offers entry target) :
    target ∈ targets entry := by
  induction offers with
  | here target => exact List.mem_singleton.mpr rfl
  | item member _ ih =>
    rw [targets_array]
    exact List.mem_flatMap.mpr ⟨_, member, ih⟩
  | condition known found _ ih =>
    rw [targets_object]
    refine List.mem_flatMap.mpr ⟨_, known, ?_⟩
    rwa [found]

mutual

/-- Every target that is listed is offered. -/
theorem offers_of_mem_targets {target : String} :
    ∀ entry : Json, target ∈ targets entry → Offers entry target
  | .string text, member => by
    rw [targets, List.mem_singleton] at member
    rw [member]
    exact .here text
  | .array items, member => by
    rw [targets] at member
    obtain ⟨item, itemMember, offers⟩ := offers_of_mem_itemTargets items member
    exact .item itemMember offers
  | .object entries, member => by
    rw [targets] at member
    obtain ⟨condition, known, listed⟩ := List.mem_flatMap.mp member
    obtain ⟨value, found, offers⟩ := offers_of_mem_entryTargets entries listed
    exact .condition known found offers
  | .null, member | .bool _, member | .int _, member | .decimal _, member =>
    absurd member List.not_mem_nil

theorem offers_of_mem_itemTargets {target : String} :
    ∀ items : List Json, target ∈ itemTargets items → ∃ item ∈ items, Offers item target
  | item :: rest, member => by
    rw [itemTargets] at member
    rcases List.mem_append.mp member with first | later
    · exact ⟨item, List.mem_cons_self, offers_of_mem_targets item first⟩
    · obtain ⟨other, otherMember, offers⟩ := offers_of_mem_itemTargets rest later
      exact ⟨other, List.mem_cons_of_mem _ otherMember, offers⟩

theorem offers_of_mem_entryTargets {target condition : String} :
    ∀ entries : List (String × Json),
      target ∈ (Keyed.find? condition (entryTargets entries)).getD [] →
        ∃ value, Keyed.find? condition entries = some value ∧ Offers value target
  | (key, value) :: rest, member => by
    unfold Keyed.find? at member ⊢
    rw [entryTargets, List.lookup_cons] at member
    rw [List.lookup_cons]
    cases asked : condition == key with
    | true =>
      rw [asked] at member
      exact ⟨value, rfl, offers_of_mem_targets value member⟩
    | false =>
      rw [asked] at member
      exact offers_of_mem_entryTargets rest member

end

/-- The target that is picked from an entry is the first one that the entry offers.  None is picked
exactly when the entry offers none, and this is so exactly when no target stands in it, however
deep, where it may be picked. -/
theorem pickTarget_first_offered (entry : Json) :
    pickTarget entry = (targets entry).head? ∧
      (pickTarget entry = none ↔ targets entry = []) ∧
      (pickTarget entry = none ↔ ∀ target, ¬Offers entry target) := by
  have first := pickTarget_eq_head? entry
  have nothing : pickTarget entry = none ↔ targets entry = [] := by
    rw [first, List.head?_eq_none_iff]
  refine ⟨first, nothing, nothing.trans ?_⟩
  rw [List.eq_nil_iff_forall_not_mem]
  constructor
  · intro none target offers
    exact none target (mem_targets_of_offers offers)
  · intro none target member
    exact none target (offers_of_mem_targets entry member)

/-- Branches that offer nothing, in a list and in a table, hide neither the item nor the condition
behind them. -/
example :
    pickTarget (.object [("default", .string "late"), ("browser", .string "other"),
      ("import", .array [.null, .object [("types", .bool true)], .array [], .string "early"]),
      ("types", .object [("deno", .string "unknown")])]) = some "early" := by
  decide

end Resolve
end ModuleAtlas
