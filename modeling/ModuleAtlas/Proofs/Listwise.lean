import Mathlib.Data.Finset.Card
import ModuleAtlas.Keyed
import Mathlib.Data.Option.Defs

/-!
# Lists and finite sets

What is left of finitely many things, and two lists side by side.
-/

namespace ModuleAtlas

/-!
## What is left to be met

A search that keeps what it has met leaves less of finitely many things with every new one that it
meets.
-/

section Remaining

variable {α : Type} [DecidableEq α] {all : Finset α}

/-- The number of things that are not among those that were met. -/
def remaining (all : Finset α) (met : List α) : Nat :=
  (all.filter fun value => value ∉ met).card

@[simp]
theorem remaining_nil (all : Finset α) : remaining all [] = all.card := by
  simp [remaining]

/-- Meeting a new thing leaves less. -/
theorem remaining_cons_lt {met : List α} {value : α} (known : value ∈ all)
    (new : value ∉ met) :
    remaining all (value :: met) < remaining all met := by
  apply Finset.card_lt_card
  refine (Finset.ssubset_iff_of_subset ?_).mpr ⟨value, ?_, ?_⟩
  · intro other member
    simp only [Finset.mem_filter, List.mem_cons, not_or] at member ⊢
    exact ⟨member.1, member.2.2⟩
  · simp [known, new]
  · simp

/-- Where nothing is left, all was met. -/
theorem mem_of_remaining_le_zero {met : List α} {value : α}
    (none : remaining all met ≤ 0) (known : value ∈ all) :
    value ∈ met := by
  by_contra new
  have fewer := remaining_cons_lt known new
  omega

theorem remaining_le_of_subset {met more : List α} (grows : met ⊆ more) :
    remaining all more ≤ remaining all met := by
  apply Finset.card_le_card
  intro value member
  simp only [Finset.mem_filter] at member ⊢
  exact ⟨member.1, fun old => member.2 (grows old)⟩

end Remaining

/-!
## Lists side by side

Two lists of the same length with related elements at the same places, and what functions on lists
make of them.
-/

/-- Lists with related elements at the same places.  Unlike `List.Forall₂` it lives in one universe,
so that a relation on types may recur through it. -/
inductive Listwise {α β : Type} (relation : α → β → Prop) : List α → List β → Prop where
  | nil : Listwise relation [] []
  | cons {first : α} {other : β} {rest : List α} {others : List β}
      (head : relation first other) (tail : Listwise relation rest others) :
      Listwise relation (first :: rest) (other :: others)

namespace Listwise

variable {α β γ δ : Type} {relation : α → β → Prop} {wider : γ → δ → Prop}
  {values : List α} {others : List β} {otherTest : β → Bool} {test : α → Bool}

section

variable (related : Listwise relation values others)

include related

theorem map {image : α → γ} {otherImage : β → δ}
    (implied : ∀ value other, relation value other → wider (image value) (otherImage other)) :
    Listwise wider (values.map image) (others.map otherImage) := by
  induction related with
  | nil => exact .nil
  | cons head _ ih => exact .cons (implied _ _ head) ih

theorem map_right {wider : α → δ → Prop} {image : β → δ}
    (implied : ∀ value other, relation value other → wider value (image other)) :
    Listwise wider values (others.map image) := by
  induction related with
  | nil => exact .nil
  | cons head _ ih => exact .cons (implied _ _ head) ih

theorem mono {wider : α → β → Prop}
    (implied : ∀ value other, relation value other → wider value other) :
    Listwise wider values others := by
  induction related with
  | nil => exact .nil
  | cons head _ ih => exact .cons (implied _ _ head) ih

theorem with_mem :
    Listwise (fun value other => relation value other ∧ other ∈ others) values others := by
  induction related with
  | nil => exact .nil
  | cons head _ ih =>
    refine .cons ⟨head, List.mem_cons_self⟩ (ih.mono ?_)
    exact fun _ _ ⟨related, member⟩ => ⟨related, List.mem_cons_of_mem _ member⟩

theorem with_origin :
    Listwise (fun value other => relation value other ∧ value ∈ values) values others := by
  induction related with
  | nil => exact .nil
  | cons head _ ih =>
    refine .cons ⟨head, List.mem_cons_self⟩ (ih.mono ?_)
    exact fun _ _ ⟨related, member⟩ => ⟨related, List.mem_cons_of_mem _ member⟩

theorem exists_related {value : α} (member : value ∈ values) :
    ∃ other, relation value other := by
  induction related with
  | nil => exact absurd member List.not_mem_nil
  | cons head _ ih =>
    rcases List.mem_cons.mp member with rfl | later
    · exact ⟨_, head⟩
    · exact ih later

theorem exists_origin {other : β} (member : other ∈ others) :
    ∃ value ∈ values, relation value other := by
  induction related with
  | nil => exact absurd member List.not_mem_nil
  | cons head _ ih =>
    rcases List.mem_cons.mp member with rfl | later
    · exact ⟨_, List.mem_cons_self, head⟩
    · obtain ⟨value, valueMember, holds⟩ := ih later
      exact ⟨value, List.mem_cons_of_mem _ valueMember, holds⟩

end

/-- Steps that may fail answer for a list exactly when each of them does. -/
theorem mapM_eq_ok_iff {ε : Type} {step : α → Except ε β} :
    values.mapM step = .ok others ↔
      Listwise (fun value other => step value = .ok other) values others := by
  induction values generalizing others with
  | nil =>
    constructor
    · rintro ⟨⟩
      exact .nil
    · rintro ⟨⟩
      rfl
  | cons value rest ih =>
    rw [List.mapM_cons]
    constructor
    · intro ran
      cases first : step value with
      | error fault =>
        rw [first] at ran
        cases ran
      | ok found =>
        cases later : rest.mapM step with
        | error fault =>
          rw [first, later] at ran
          cases ran
        | ok more =>
          rw [first, later] at ran
          cases ran
          exact .cons first (ih.mp later)
    · rintro (_ | ⟨head, tail⟩)
      rw [head, ih.mpr tail]
      rfl

/-- A list that is not answered as a whole has a first entry that is not. -/
theorem exists_first_of_mapM
    {ε : Type} {step : α → Except ε β} {fault : ε} (ran : values.mapM step = .error fault) :
    ∃ before value after, values = before ++ value :: after ∧
      (∀ earlier ∈ before, ∃ answer, step earlier = .ok answer) ∧ step value = .error fault := by
  induction values with
  | nil => cases ran
  | cons first rest ih =>
    rw [List.mapM_cons] at ran
    cases outcome : step first with
    | error other =>
      rw [outcome] at ran
      cases ran
      exact ⟨[], first, rest, rfl, by simp, outcome⟩
    | ok answer =>
      rw [outcome] at ran
      cases later : rest.mapM step with
      | ok found =>
        rw [later] at ran
        cases ran
      | error other =>
        rw [later] at ran
        cases ran
        obtain ⟨before, value, after, rfl, passed, failed⟩ := ih later
        exact ⟨first :: before, value, after, rfl,
          List.forall_mem_cons.mpr ⟨⟨answer, outcome⟩, passed⟩, failed⟩

/-- Steps that may fail fail for a list as the first of them does that fails. -/
theorem mapM_eq_error_iff {ε : Type} {step : α → Except ε β} {fault : ε} :
    values.mapM step = .error fault ↔
      ∃ before value after, values = before ++ value :: after ∧
        (∀ earlier ∈ before, ∃ answer, step earlier = .ok answer) ∧ step value = .error fault := by
  refine ⟨exists_first_of_mapM, ?_⟩
  rintro ⟨before, value, after, rfl, passed, failed⟩
  rw [List.mapM_append, List.mapM_cons, failed]
  cases ran : before.mapM step with
  | ok found => rfl
  | error other =>
    -- A failure in front would be that of a step that answers.
    obtain ⟨_, earlier, _, rfl, -, wrong⟩ := exists_first_of_mapM ran
    obtain ⟨answer, answered⟩ := passed earlier (by simp)
    rw [wrong] at answered
    cases answered

section

variable (related : Listwise relation values others)

include related

/-- The values at the places of others that are told by a function. -/
theorem eq_map {image : α → β}
    (determined : ∀ value other, relation value other → other = image value) :
    others = values.map image := by
  induction related with
  | nil => rfl
  | cons head _ ih =>
    rw [List.map_cons, determined _ _ head, ← ih]

/-- A list determines the other one if each entry determines its partner. -/
theorem unique {more : List β} (again : Listwise relation values more)
    (determined : ∀ value other another, relation value other → relation value another →
      other = another) :
    others = more := by
  induction related generalizing more with
  | nil =>
    cases again
    rfl
  | cons head _ ih =>
    cases again with
    | cons headAgain tailAgain =>
      rw [determined _ _ _ head headAgain, ih tailAgain]

theorem append {more : List α} {moreOthers : List β}
    (moreRelated : Listwise relation more moreOthers) :
    Listwise relation (values ++ more) (others ++ moreOthers) := by
  induction related with
  | nil => exact moreRelated
  | cons head _ ih => exact .cons head ih

theorem trans {further : β → γ → Prop} {last : List γ}
    (furtherRelated : Listwise further others last) :
    Listwise (fun value final => ∃ other, relation value other ∧ further other final) values
      last := by
  induction related generalizing last with
  | nil =>
    cases furtherRelated
    exact .nil
  | cons head _ ih =>
    cases furtherRelated with
    | cons next rest => exact .cons ⟨_, head, next⟩ (ih rest)

end

theorem refl {relation : α → α → Prop}
    (reflexive : ∀ value ∈ values, relation value value) :
    Listwise relation values values := by
  induction values with
  | nil => exact .nil
  | cons value rest ih =>
    exact .cons (reflexive value (by simp))
      (ih fun other member => reflexive other (by simp [member]))

theorem length_eq (related : Listwise relation values others) :
    values.length = others.length := by
  induction related with
  | nil => rfl
  | cons _ _ ih => exact congrArg (· + 1) ih

theorem eq {values others : List α} (related : Listwise Eq values others) : values = others := by
  induction related with
  | nil => rfl
  | cons head _ ih => rw [head, ih]

theorem isEmpty_eq (related : Listwise relation values others) :
    values.isEmpty = others.isEmpty := by
  cases related <;> rfl

theorem take (related : Listwise relation values others) (count : Nat) :
    Listwise relation (values.take count) (others.take count) := by
  induction related generalizing count with
  | nil => simpa using Listwise.nil
  | cons head _ ih =>
    cases count with
    | zero => exact .nil
    | succ count => exact .cons head (ih count)

theorem map_eq {image : α → γ} {otherImage : β → γ} (related : Listwise relation values others)
    (equal : ∀ value other, relation value other → image value = otherImage other) :
    values.map image = others.map otherImage := by
  induction related with
  | nil => rfl
  | cons head _ ih =>
    rw [List.map_cons, List.map_cons, equal _ _ head, ih]

/-- The values that there are among related optional values. -/
theorem filterMap_id {options : List (Option α)} {otherOptions : List (Option β)}
    (related : Listwise (Option.Rel relation) options otherOptions) :
    Listwise relation (options.filterMap id) (otherOptions.filterMap id) := by
  induction related with
  | nil => exact .nil
  | cons head _ ih =>
    cases head with
    | none => exact ih
    | some related => exact .cons related ih

variable (related : Listwise relation values others)

include related

/-- Elements that are kept, when those at the same place in the other list are kept as well. -/
theorem filter (equal : ∀ value other, relation value other → test value = otherTest other) :
    Listwise relation (values.filter test) (others.filter otherTest) := by
  induction related with
  | nil => exact .nil
  | cons head _ ih =>
    rw [List.filter_cons, List.filter_cons, equal _ _ head]
    split
    · exact .cons head ih
    · exact ih

theorem find? (equal : ∀ value other, relation value other → test value = otherTest other) :
    Option.Rel relation (values.find? test) (others.find? otherTest) := by
  induction related with
  | nil => exact .none
  | cons head _ ih =>
    rw [List.find?_cons, List.find?_cons, equal _ _ head]
    split
    · exact .some head
    · exact ih

theorem head? :
    Option.Rel relation values.head? others.head? := by
  cases related with
  | nil => exact .none
  | cons head _ => exact .some head

theorem getLast? :
    Option.Rel relation values.getLast? others.getLast? := by
  induction related with
  | nil => exact .none
  | cons head tail ih =>
    cases tail with
    | nil => exact .some head
    | cons _ _ =>
      rw [List.getLast?_cons_cons, List.getLast?_cons_cons]
      exact ih

theorem filterMap_eq {image : α → Option γ} {otherImage : β → Option γ}
    (equal : ∀ value other, relation value other → image value = otherImage other) :
    values.filterMap image = others.filterMap otherImage := by
  induction related with
  | nil => rfl
  | cons head _ ih =>
    rw [List.filterMap_cons, List.filterMap_cons, equal _ _ head, ih]

theorem any_eq (equal : ∀ value other, relation value other → test value = otherTest other) :
    values.any test = others.any otherTest := by
  induction related with
  | nil => rfl
  | cons head _ ih =>
    rw [List.any_cons, List.any_cons, equal _ _ head, ih]

/-- Folding over related values keeps what is folded related. -/
theorem foldl {step : γ → α → γ} {otherStep : δ → β → δ} {start : γ} {otherStart : δ}
    (startRelated : wider start otherStart)
    (stepRelated : ∀ folded otherFolded value other, wider folded otherFolded →
      relation value other → wider (step folded value) (otherStep otherFolded other)) :
    wider (values.foldl step start) (others.foldl otherStep otherStart) := by
  induction related generalizing start otherStart with
  | nil => exact startRelated
  | cons head _ ih =>
    exact ih (stepRelated _ _ _ _ startRelated head)

end Listwise

/-! ### Outcomes -/

theorem eq_ok_of_toOption {ε α : Type} {outcome : Except ε α} {value : α}
    (known : outcome.toOption = some value) :
    outcome = .ok value := by
  cases outcome with
  | error failure => cases known
  | ok found =>
    cases known
    rfl

/-! ### Optional values -/

section Options

variable {α β : Type} {relation wider : α → β → Prop} {value : Option α} {other : Option β}

theorem optionRel_refl {relation : α → α → Prop} (reflexive : ∀ value, relation value value)
    (value : Option α) :
    Option.Rel relation value value := by
  cases value with
  | none => exact .none
  | some value => exact .some (reflexive value)

variable (related : Option.Rel relation value other)

include related

theorem optionRel_mono (implied : ∀ value other, relation value other → wider value other) :
    Option.Rel wider value other := by
  cases related with
  | none => exact .none
  | some related => exact .some (implied _ _ related)

/-- Two related optional values are both missing or both there. -/
theorem optionRel_cases :
    (value = none ∧ other = none) ∨
      ∃ found answer, value = some found ∧ other = some answer ∧ relation found answer := by
  cases related with
  | none => exact .inl ⟨rfl, rfl⟩
  | some related => exact .inr ⟨_, _, rfl, rfl, related⟩

theorem optionMap_eq {γ : Type} {image : α → γ} {otherImage : β → γ}
    (equal : ∀ value other, relation value other → image value = otherImage other) :
    value.map image = other.map otherImage := by
  cases related with
  | none => rfl
  | some related => exact congrArg some (equal _ _ related)

theorem optionIsSome_eq :
    value.isSome = other.isSome := by
  cases related <;> rfl

theorem optionIsNone_eq :
    value.isNone = other.isNone := by
  cases related <;> rfl

theorem optionGetD_related {default : α} {otherDefault : β}
    (defaultRelated : relation default otherDefault) :
    relation (value.getD default) (other.getD otherDefault) := by
  cases related with
  | none => exact defaultRelated
  | some related => exact related

theorem optionToList_related :
    Listwise relation value.toList other.toList := by
  cases related with
  | none => exact .nil
  | some related => exact .cons related .nil

end Options

/-! ### Named values -/

theorem mem_of_lookup_eq_some {α : Type} {values : List (String × α)} {name : String} {value : α}
    (known : values.lookup name = some value) :
    (name, value) ∈ values := by
  obtain ⟨early, late, rfl, -⟩ := List.lookup_eq_some_iff.mp known
  exact List.mem_append_right _ List.mem_cons_self

/-- Where each name is there once, a value is found under its name. -/
theorem lookup_eq_some_of_nodup {α : Type} {values : List (String × α)} {name : String} {value : α}
    (once : (values.map Prod.fst).Nodup) (member : (name, value) ∈ values) :
    values.lookup name = some value := by
  obtain ⟨early, late, rfl⟩ := List.append_of_mem member
  refine List.lookup_eq_some_iff.mpr ⟨early, late, rfl, fun other otherMember => ?_⟩
  rw [List.map_append, List.nodup_append] at once
  have different := once.2.2 other.1 (List.mem_map_of_mem otherMember) name (by simp)
  simpa [bne_iff_ne] using different.symm

/-- The same name with related values. -/
inductive Named {α β : Type} (relation : α → β → Prop) : String × α → String × β → Prop where
  | mk {name : String} {value : α} {other : β} (related : relation value other) :
      Named relation (name, value) (name, other)

namespace Keyed

variable {α : Type} {entries : List (String × α)}

theorem forall_mem_put {good : α → Prop} {value : α}
    (ofValue : good value) (ofEntries : ∀ entry ∈ entries, good entry.2) (key : String) :
    ∀ entry ∈ put key value entries, good entry.2 := by
  induction entries with
  | nil => exact List.forall_mem_singleton.mpr ofValue
  | cons entry rest ih =>
    obtain ⟨first, others⟩ := List.forall_mem_cons.mp ofEntries
    rw [put]
    split
    · exact List.forall_mem_cons.mpr ⟨ofValue, others⟩
    · exact List.forall_mem_cons.mpr ⟨first, ih others⟩

theorem put_of_new {key : String}
    (new : key ∉ entries.map Prod.fst) (value : α) :
    put key value entries = entries ++ [(key, value)] := by
  induction entries with
  | nil => rfl
  | cons entry rest ih =>
    obtain ⟨different, later⟩ := not_or.mp (List.mem_cons.not.mp new)
    rw [put, if_neg (by simpa using Ne.symm different), ih later]
    rfl

theorem mem_keys_put {key name : String} {value : α} :
    name ∈ (put key value entries).map Prod.fst ↔ name = key ∨ name ∈ entries.map Prod.fst := by
  induction entries with
  | nil => simp [put]
  | cons entry rest ih =>
    rw [put]
    split
    · rename_i same
      simp [eq_of_beq same]
    · rw [List.map_cons, List.mem_cons, ih, List.map_cons, List.mem_cons]
      exact or_left_comm

/-- Putting a value under a key repeats no key. -/
theorem nodup_keys_put
    (distinct : (entries.map Prod.fst).Nodup) (key : String) (value : α) :
    ((put key value entries).map Prod.fst).Nodup := by
  induction entries with
  | nil => exact List.nodup_singleton key
  | cons entry rest ih =>
    obtain ⟨first, others⟩ := List.nodup_cons.mp distinct
    rw [put]
    split
    · exact distinct
    · rename_i different
      refine List.nodup_cons.mpr ⟨fun member => ?_, ih others⟩
      rcases mem_keys_put.mp member with same | later
      · exact different (beq_iff_eq.mpr same)
      · exact first later

theorem nodup_keys_ofPairs (pairs : List (String × α)) :
    ((ofPairs pairs).map Prod.fst).Nodup := by
  have kept : ∀ (pairs entries : List (String × α)), (entries.map Prod.fst).Nodup →
      ((pairs.foldl (fun entries pair => put pair.1 pair.2 entries) entries).map
        Prod.fst).Nodup := by
    intro pairs
    induction pairs with
    | nil => exact fun _ => id
    | cons pair rest ih =>
      exact fun entries distinct => ih _ (nodup_keys_put distinct _ _)
  exact kept pairs [] List.nodup_nil

/-- A list of pairs describes itself if no key is repeated. -/
theorem ofPairs_eq_self {pairs : List (String × α)} (distinct : (pairs.map Prod.fst).Nodup) :
    ofPairs pairs = pairs := by
  have added : ∀ pairs entries : List (String × α), ((entries ++ pairs).map Prod.fst).Nodup →
      pairs.foldl (fun entries pair => put pair.1 pair.2 entries) entries = entries ++ pairs := by
    intro pairs
    induction pairs with
    | nil => simp
    | cons pair rest ih =>
      intro entries distinct
      have new : pair.1 ∉ entries.map Prod.fst := by
        rw [List.map_append, List.map_cons] at distinct
        exact fun old => (List.nodup_append.mp distinct).2.2 _ old _ List.mem_cons_self rfl
      rw [List.foldl_cons, put_of_new new, ih]
      · simp
      · simpa using distinct
  exact added pairs [] distinct

end Keyed
end ModuleAtlas
