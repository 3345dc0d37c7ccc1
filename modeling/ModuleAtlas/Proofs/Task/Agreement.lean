import Mathlib.Tactic.Choose
import Mathlib.Tactic.Push
import ModuleAtlas.Proofs.Task.Steady

/-!
# Agreement of tasks

Two tasks agree when they settle and either both fail, with whatever failures, or both answer, with
related values.  A step that is taken for each element of a list, and that settles, agrees with
itself on lists of the same elements: it fails for one list exactly when it fails for the other, and
the answers are the same up to order and repetition.
-/

namespace ModuleAtlas

/-- Two lists have the same elements, in whatever order and however often. -/
def SameElements {α : Type} (first second : List α) : Prop :=
  ∀ element, element ∈ first ↔ element ∈ second

theorem SameElements.flatMap {α β : Type} {first second : List α} (same : SameElements first second)
    (image : α → List β) :
    SameElements (first.flatMap image) (second.flatMap image) := by
  intro element
  simp only [List.mem_flatMap, same _]

theorem SameElements.filterMap {α β : Type} {first second : List α}
    (same : SameElements first second) (image : α → Option β) :
    SameElements (first.filterMap image) (second.filterMap image) := by
  intro element
  simp only [List.mem_filterMap, same _]

namespace Task

variable {σ α β γ δ : Type} {tree : FileTree} {good : σ → Prop} {relation : α → β → Prop}
  {second : Task σ β} {first : Task σ α}

/-- Both outcomes are failures, or both are values and these are related. -/
inductive Corresponds (relation : α → β → Prop) : Except Failure α → Except Failure β → Prop where
  | error (first second : Failure) : Corresponds relation (.error first) (.error second)
  | ok {first : α} {second : β} (related : relation first second) :
      Corresponds relation (.ok first) (.ok second)

theorem Corresponds.eq_ok_iff {first second : Except Failure α}
    (corresponds : Corresponds Eq first second) (value : α) :
    first = .ok value ↔ second = .ok value := by
  cases corresponds with
  | error => simp
  | ok related => rw [related]

/-- Both tasks settle, to outcomes that correspond. -/
def Agree (tree : FileTree) (good : σ → Prop) (relation : α → β → Prop) (first : Task σ α)
    (second : Task σ β) : Prop :=
  ∃ firstOutcome secondOutcome, Settles tree good first firstOutcome ∧
    Settles tree good second secondOutcome ∧ Corresponds relation firstOutcome secondOutcome

theorem agree_pure {first : α} {second : β}
    (related : relation first second) :
    Agree tree good relation (pure first) (pure second) :=
  ⟨_, _, settles_pure first, settles_pure second, .ok related⟩

theorem agree_note (first second : Notice) :
    Agree tree good Eq (note first) (note second) :=
  ⟨_, _, settles_note first, settles_note second, .ok rfl⟩

/-- A steady task agrees with itself. -/
theorem Steady.agree {kind : α → Prop} {task : Task σ α} (steady : Steady tree good kind task) :
    Agree tree good (fun first second => first = second ∧ kind first) task task := by
  obtain ⟨outcome, settles, ofKind⟩ := steady.exists_settles
  refine ⟨outcome, outcome, settles, settles, ?_⟩
  cases outcome with
  | error failure => exact .error failure failure
  | ok value => exact .ok ⟨rfl, ofKind value rfl⟩

theorem Agree.mono {relation wider : α → β → Prop}
    (agree : Agree tree good relation first second)
    (implied : ∀ firstValue secondValue, relation firstValue secondValue →
      wider firstValue secondValue) :
    Agree tree good wider first second := by
  obtain ⟨firstOutcome, secondOutcome, settles, otherSettles, corresponds⟩ := agree
  refine ⟨_, _, settles, otherSettles, ?_⟩
  cases corresponds with
  | error firstFailure secondFailure => exact .error firstFailure secondFailure
  | ok related => exact .ok (implied _ _ related)

/-- Tasks that agree go on to tasks that agree. -/
theorem Agree.bind {wider : γ → δ → Prop}
    {next : α → Task σ γ} {other : β → Task σ δ}
    (agree : Agree tree good relation first second)
    (goesOn : ∀ firstValue secondValue, relation firstValue secondValue →
      Agree tree good wider (next firstValue) (other secondValue)) :
    Agree tree good wider (first >>= next) (second >>= other) := by
  obtain ⟨firstOutcome, secondOutcome, settles, otherSettles, corresponds⟩ := agree
  cases corresponds with
  | error firstFailure secondFailure =>
    exact ⟨_, _, settles.bind_error, otherSettles.bind_error, .error firstFailure secondFailure⟩
  | ok related =>
    obtain ⟨_, _, nextSettles, otherNextSettles, nextCorresponds⟩ := goesOn _ _ related
    exact ⟨_, _, settles.bind nextSettles, otherSettles.bind otherNextSettles, nextCorresponds⟩

theorem Agree.map {wider : γ → δ → Prop}
    {image : α → γ} {other : β → δ}
    (agree : Agree tree good relation first second)
    (implied : ∀ firstValue secondValue, relation firstValue secondValue →
      wider (image firstValue) (other secondValue)) :
    Agree tree good wider (do return image (← first)) (do return other (← second)) :=
  agree.bind fun _ _ related => agree_pure (implied _ _ related)

/-- Tasks that agree with a state of their own agree from every state around it. -/
theorem Agree.withState {τ : Type} {inner : τ → Prop} {start : τ}
    {first : Task τ α} {second : Task τ β} (agree : Agree tree inner relation first second)
    (starts : inner start) :
    Agree tree good relation (withState start first) (withState start second) := by
  obtain ⟨_, _, firstSettles, secondSettles, corresponds⟩ := agree
  exact ⟨_, _, firstSettles.withState starts, secondSettles.withState starts, corresponds⟩

/-- Tasks that agree answer the same from all states with the property. -/
theorem Agree.ok_iff {first second : Task σ α} (agree : Agree tree good Eq first second)
    {journal other : Journal σ} (held : good journal.state) (otherHeld : good other.state)
    (value : α) :
    (first tree journal).1 = .ok value ↔ (second tree other).1 = .ok value := by
  obtain ⟨firstOutcome, secondOutcome, settles, otherSettles, corresponds⟩ := agree
  obtain ⟨after, ran, _⟩ := settles journal held
  obtain ⟨otherAfter, otherRan, _⟩ := otherSettles other otherHeld
  rw [ran, otherRan]
  exact corresponds.eq_ok_iff value

/-! ## The same elements in another order -/

section Lists

variable {step : α → Task σ β} {outcome : α → Except Failure β} {entries first second : List α}

/-- Steps that all settle on answers settle on the list of these. -/
theorem settles_mapM_ok (settles : ∀ entry, Settles tree good (step entry) (outcome entry))
    (answers : ∀ entry ∈ entries, ∃ value, outcome entry = .ok value) :
    Settles tree good (entries.mapM step)
      (.ok (entries.filterMap fun entry => (outcome entry).toOption)) := by
  induction entries with
  | nil => exact settles_pure []
  | cons entry rest ih =>
    obtain ⟨value, answer⟩ := answers entry (by simp)
    have here : Settles tree good (step entry) (.ok value) := answer ▸ settles entry
    have later := ih fun other member => answers other (by simp [member])
    have taken : (entry :: rest).filterMap (fun entry => (outcome entry).toOption) =
        value :: rest.filterMap fun entry => (outcome entry).toOption := by
      simp [answer, Except.toOption]
    rw [List.mapM_cons, taken]
    exact here.bind (later.bind (settles_pure _))

/-- Where one step fails, the whole list does, for the first step that fails. -/
theorem settles_mapM_error (settles : ∀ entry, Settles tree good (step entry) (outcome entry))
    {failing : α} {failure : Failure} (member : failing ∈ entries)
    (fails : outcome failing = .error failure) :
    ∃ firstFailure, Settles tree good (entries.mapM step) (.error firstFailure) := by
  induction entries with
  | nil => cases member
  | cons entry rest ih =>
    rw [List.mapM_cons]
    cases answer : outcome entry with
    | error firstFailure =>
      have here : Settles tree good (step entry) (.error firstFailure) := answer ▸ settles entry
      exact ⟨firstFailure, here.bind_error⟩
    | ok value =>
      have here : Settles tree good (step entry) (.ok value) := answer ▸ settles entry
      rcases List.mem_cons.mp member with rfl | inRest
      · rw [fails] at answer
        cases answer
      · obtain ⟨firstFailure, later⟩ := ih inRest
        exact ⟨firstFailure, here.bind later.bind_error⟩

/-- A steady step for each element of a list: which answers there are, and whether there are any,
does not depend on order and repetition. -/
theorem agree_mapM {kind : α → β → Prop}
    (steady : ∀ entry, Steady tree good (kind entry) (step entry))
    (same : SameElements first second) :
    Agree tree good
      (fun found other => SameElements found other ∧
        ∀ value ∈ found, ∃ entry ∈ first, kind entry value)
      (first.mapM step) (second.mapM step) := by
  choose outcome settles ofKind using fun entry => (steady entry).exists_settles
  by_cases answers : ∀ entry ∈ first, ∃ value, outcome entry = .ok value
  · refine ⟨_, _, settles_mapM_ok settles answers,
      settles_mapM_ok settles fun entry member => answers entry ((same entry).mpr member), ?_⟩
    refine .ok ⟨same.filterMap _, fun value member => ?_⟩
    obtain ⟨entry, entryMember, taken⟩ := List.mem_filterMap.mp member
    obtain ⟨answer, answered⟩ := answers entry entryMember
    rw [answered] at taken
    cases taken
    exact ⟨entry, entryMember, ofKind entry value answered⟩
  · push Not at answers
    obtain ⟨entry, member, never⟩ := answers
    cases answer : outcome entry with
    | ok value => exact absurd answer (never value)
    | error failure =>
      obtain ⟨firstFailure, firstFails⟩ := settles_mapM_error settles member answer
      obtain ⟨secondFailure, secondFails⟩ :=
        settles_mapM_error settles ((same entry).mp member) answer
      exact ⟨_, _, firstFails, secondFails, .error firstFailure secondFailure⟩

end Lists
end Task
end ModuleAtlas
