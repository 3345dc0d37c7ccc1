import ModuleAtlas.Proofs.Listwise
import ModuleAtlas.Proofs.Task.Steady

/-!
# How tasks end

A task ends well when every state with a given property leads it to a state with the property, and
either to a value of a given kind or to a failure that has a cause of a given kind.  Unlike a steady
task it may come to different ends from different states.
-/

namespace ModuleAtlas
namespace Task

variable {σ τ α β : Type} {tree : FileTree} {good : σ → Prop} {kind : α → Prop}
  {cause wider : Failure → Prop} {task : Task σ α} {value : α} {next : α → Task σ β}
  {anyKind : α → Prop}

/-- An outcome is a value of a kind or a failure that has a cause. -/
inductive OutcomeOf (kind : α → Prop) (cause : Failure → Prop) : Except Failure α → Prop where
  | ok {value : α} (ofKind : kind value) : OutcomeOf kind cause (.ok value)
  | error {failure : Failure} (caused : cause failure) : OutcomeOf kind cause (.error failure)

theorem OutcomeOf.imp {otherKind : α → Prop} {outcome : Except Failure α}
    (ofOne : OutcomeOf kind cause outcome) (implied : ∀ value, kind value → otherKind value)
    (blamed : ∀ failure, cause failure → wider failure) :
    OutcomeOf otherKind wider outcome := by
  cases ofOne with
  | ok ofKind => exact .ok (implied _ ofKind)
  | error caused => exact .error (blamed _ caused)

/-- From every state with a property the task ends in a state with the property, with a value of a
kind or in a failure that has a cause. -/
def Ends (tree : FileTree) (good : σ → Prop) (kind : α → Prop) (cause : Failure → Prop)
    (task : Task σ α) : Prop :=
  ∀ journal, good journal.state →
    ∃ outcome after, task tree journal = (outcome, after) ∧ OutcomeOf kind cause outcome ∧
      good after.state

/-! ## Single steps -/

theorem ends_pure (ofKind : kind value) :
    Ends tree good kind cause (pure value) :=
  fun journal held => ⟨.ok value, journal, rfl, .ok ofKind, held⟩

theorem ends_fail {failure : Failure} (caused : cause failure) :
    Ends tree good kind cause (fail failure) :=
  fun journal held => ⟨.error failure, journal, rfl, .error caused, held⟩

theorem ends_note (notice : Notice) :
    Ends tree good (fun _ => True) cause (note notice) :=
  fun journal held =>
    ⟨.ok (), ⟨journal.state, notice :: journal.notices⟩, rfl, .ok trivial, held⟩

theorem ends_files : Ends tree good (fun found => found = tree) cause files :=
  fun journal held => ⟨.ok tree, journal, rfl, .ok rfl, held⟩

theorem ends_state : Ends tree good good cause state :=
  fun journal held => ⟨.ok journal.state, journal, rfl, .ok held, held⟩

theorem ends_update {change : σ → σ} (kept : ∀ state, good state → good (change state)) :
    Ends tree good (fun _ => True) cause (update change) :=
  fun journal held =>
    ⟨.ok (), ⟨change journal.state, journal.notices⟩, rfl, .ok trivial, kept _ held⟩

theorem ends_passes (test : Entry → Bool) (path : Path)
    (blamed : tree.lookup path = .error .tooLong → cause (.tooLong path)) :
    Ends tree good (fun passed => tree.passes test path = .ok passed) cause (passes test path) := by
  intro journal held
  cases passed : tree.passes test path with
  | ok outcome =>
    obtain ⟨after, ran, kept⟩ := settles_passes_ok passed journal held
    exact ⟨_, after, ran, .ok rfl, kept⟩
  | error long =>
    obtain ⟨after, ran, kept⟩ := settles_passes_error passed journal held
    unfold FileTree.passes at passed
    split at passed
    · cases passed
    · rename_i looked
      cases passed
      exact ⟨_, after, ran, .error (blamed looked), kept⟩
    · cases passed

/-- Resolving a path fails for a null character or a loop of links only. -/
theorem ends_resolvePath (path : Path) (null : path.hasNull = true → cause (.nullCharacter path))
    (loop : tree.resolve? path = none → cause (.linkLoop path)) :
    Ends tree good (fun resolved => path.hasNull = false ∧ tree.resolve? path = some resolved) cause
      (resolvePath path) := by
  intro journal held
  cases hasNull : path.hasNull with
  | true =>
    refine ⟨.error (.nullCharacter path), journal, ?_, .error (null hasNull), held⟩
    unfold resolvePath
    rw [hasNull]
    rfl
  | false =>
    cases known : tree.resolve? path with
    | some resolved =>
      obtain ⟨after, ran, kept⟩ := settles_resolvePath hasNull known journal held
      exact ⟨_, after, ran, .ok ⟨rfl, rfl⟩, kept⟩
    | none =>
      refine ⟨.error (.linkLoop path), journal, ?_, .error (loop known), held⟩
      unfold resolvePath
      rw [hasNull]
      refine (bind_of_ok rfl).trans ?_
      rw [known]
      rfl

/-! ## Sequences -/

theorem Ends.bind {nextKind : β → Prop}
    (first : Ends tree good kind cause task)
    (second : ∀ value, kind value → Ends tree good nextKind cause (next value)) :
    Ends tree good nextKind cause (task >>= next) := by
  intro journal held
  obtain ⟨outcome, between, ran, ofOne, kept⟩ := first journal held
  cases ofOne with
  | @ok value ofKind =>
    obtain ⟨last, after, ranNext, ofNext, keptNext⟩ := second value ofKind between kept
    exact ⟨last, after, (bind_of_ok ran).trans ranNext, ofNext, keptNext⟩
  | @error failure caused => exact ⟨_, between, bind_of_error ran, .error caused, kept⟩

theorem Ends.pure_bind {nextKind : β → Prop}
    (ends : Ends tree good nextKind cause (next value)) :
    Ends tree good nextKind cause (pure value >>= next) :=
  (ends_pure rfl).bind fun _ same => same ▸ ends

theorem Ends.map {image : α → β} {imageKind : β → Prop} (ends : Ends tree good kind cause task)
    (implied : ∀ value, kind value → imageKind (image value)) :
    Ends tree good imageKind cause (do return image (← task)) :=
  ends.bind fun value ofKind => ends_pure (implied value ofKind)

theorem Ends.imp {otherKind : α → Prop} (ends : Ends tree good kind cause task)
    (implied : ∀ value, kind value → otherKind value)
    (blamed : ∀ failure, cause failure → wider failure) :
    Ends tree good otherKind wider task := by
  intro journal held
  obtain ⟨outcome, after, ran, ofOne, kept⟩ := ends journal held
  exact ⟨outcome, after, ran, ofOne.imp implied blamed, kept⟩

theorem Ends.anyhow (ends : Ends tree good kind cause task) :
    Ends tree good (fun _ => True) cause task :=
  ends.imp (fun _ _ => trivial) fun _ => id

/-- Each answer in a list is of the kind of its entry. -/
theorem ends_mapM {step : α → Task σ β} {stepKind : α → β → Prop} {values : List α}
    (each : ∀ value ∈ values, Ends tree good (stepKind value) cause (step value)) :
    Ends tree good (Listwise stepKind values) cause (values.mapM step) := by
  induction values with
  | nil =>
    rw [List.mapM_nil]
    exact ends_pure .nil
  | cons value rest ih =>
    rw [List.mapM_cons]
    refine (each value List.mem_cons_self).bind fun first firstKind => ?_
    have others := ih fun other member =>
      each other (List.mem_cons_of_mem _ member)
    exact others.map fun _ othersKind => .cons firstKind othersKind

/-- Entries are kept just as their tests pass. -/
theorem ends_filterM
    {test : α → Task σ Bool} {passed : α → Bool} {known : α → Prop} {entries : List α}
    (each : ∀ entry ∈ entries,
      Ends tree good (fun found => found = passed entry ∧ known entry) cause (test entry)) :
    Ends tree good (fun kept => kept = entries.filter passed ∧ ∀ entry ∈ entries, known entry) cause
      (entries.filterM test) := by
  have collects : ∀ rest : List α,
      (∀ entry ∈ rest,
        Ends tree good (fun found => found = passed entry ∧ known entry) cause (test entry)) →
      ∀ kept, Ends tree good
        (fun found => found = (rest.filter passed).reverse ++ kept ∧ ∀ entry ∈ rest, known entry)
        cause (rest.filterAuxM test kept) := by
    intro rest
    induction rest with
    | nil => exact fun _ _ => ends_pure (by simp)
    | cons entry rest ih =>
      intro ends kept
      unfold List.filterAuxM
      refine (ends entry List.mem_cons_self).bind ?_
      rintro _ ⟨rfl, here⟩
      have later := ih fun other member =>
        ends other (List.mem_cons_of_mem _ member)
      refine (later _).imp ?_ fun _ => id
      rintro found ⟨rfl, others⟩
      refine ⟨?_, List.forall_mem_cons.mpr ⟨here, others⟩⟩
      cases passes : passed entry <;> simp [passes]
  refine (collects entries each []).map ?_
  rintro found ⟨rfl, all⟩
  exact ⟨by simp, all⟩

theorem ends_findM? {test : α → Task σ Bool} {found : α → Prop} {entries : List α}
    (each : ∀ entry,
      Ends tree good (fun passed => passed = true → found entry) cause (test entry)) :
    Ends tree good (fun outcome => ∀ value, outcome = some value → found value) cause
      (entries.findM? test) := by
  induction entries with
  | nil => exact ends_pure fun _ impossible => by cases impossible
  | cons entry rest ih =>
    unfold List.findM?
    refine (each entry).bind fun passed passedKind => ?_
    cases passed with
    | true =>
      refine ends_pure ?_
      rintro _ ⟨⟩
      exact passedKind rfl
    | false => exact ih

/-! ## Failures taken up -/

theorem Ends.attempt (ends : Ends tree good kind cause task) :
    Ends tree good (OutcomeOf kind cause) wider (attempt task) := by
  intro journal held
  obtain ⟨outcome, after, ran, ofOne, kept⟩ := ends journal held
  exact ⟨_, _, attempt_eq task journal, .ok (by rwa [ran]), by rwa [ran]⟩

/-! ## Parts of a state -/

theorem Ends.within {inner : τ → Prop} {part : σ → τ} {put : τ → σ → σ} {task : Task τ α}
    (ends : Ends tree inner kind cause task) (entered : ∀ state, good state → inner (part state))
    (left : ∀ state innerState, good state → inner innerState → good (put innerState state)) :
    Ends tree good kind cause (within part put task) := by
  intro journal held
  obtain ⟨outcome, after, ran, ofOne, kept⟩ :=
    ends ⟨part journal.state, journal.notices⟩ (entered journal.state held)
  refine ⟨outcome, ⟨put after.state journal.state, after.notices⟩, ?_, ofOne, left _ _ held kept⟩
  simp only [Task.within, ran]

/-- A task with a state of its own ends from every state around it. -/
theorem Ends.withState {inner : τ → Prop} {start : τ} {task : Task τ α}
    (ends : Ends tree inner kind cause task) (starts : inner start) :
    Ends tree good kind cause (withState start task) := by
  intro journal held
  obtain ⟨outcome, after, ran, ofOne, -⟩ := ends ⟨start, journal.notices⟩ starts
  refine ⟨outcome, ⟨journal.state, after.notices⟩, ?_, ofOne, held⟩
  simp only [Task.withState, ran]

/-! ## Answers -/

theorem Ends.kind_of_answer (ends : Ends tree good kind cause task)
    {journal : Journal σ} (held : good journal.state)
    (answered : (task tree journal).1 = .ok value) :
    kind value := by
  obtain ⟨outcome, after, ran, ofOne, -⟩ := ends journal held
  rw [ran] at answered
  cases answered
  cases ofOne with
  | ok ofKind => exact ofKind

/-- A task answers when nothing can cause a failure. -/
theorem Ends.exists_answer (ends : Ends tree good kind cause task)
    (unblamed : ∀ failure, ¬cause failure) {journal : Journal σ} (held : good journal.state) :
    ∃ value, (task tree journal).1 = .ok value ∧ kind value := by
  obtain ⟨outcome, after, ran, ofOne, -⟩ := ends journal held
  cases ofOne with
  | @ok value ofKind => exact ⟨value, by rw [ran], ofKind⟩
  | @error failure caused => exact absurd caused (unblamed failure)

/-! ## Tasks that settle -/

theorem settles_mapM {step : α → Task σ β} {values : List α} {answers : List β}
    (each : Listwise (fun value answer => Settles tree good (step value) (.ok answer)) values
      answers) :
    Settles tree good (values.mapM step) (.ok answers) := by
  induction each with
  | nil => exact settles_pure []
  | cons head _ ih =>
    rw [List.mapM_cons]
    exact head.bind (ih.bind (settles_pure _))

/-! ## Steady tasks -/

theorem Ends.outcomeFrom (ends : Ends tree good kind cause task) {state : σ} (held : good state) :
    OutcomeOf kind cause (task.outcomeFrom tree state) := by
  obtain ⟨outcome, after, ran, ofOne, _⟩ := ends ⟨state, []⟩ held
  unfold Task.outcomeFrom
  rwa [ran]

/-- The answers of a steady task are of its kind, however else it is known to end. -/
theorem Steady.ends_as (steady : Steady tree good kind task)
    (ends : Ends tree good anyKind cause task) :
    Ends tree good kind cause task := by
  obtain ⟨settled, settles, ofKind⟩ := steady.exists_settles
  intro journal held
  obtain ⟨outcome, after, ran, ofOne, kept⟩ := ends journal held
  obtain ⟨otherAfter, otherRan, -⟩ := settles journal held
  obtain ⟨rfl, rfl⟩ := Prod.mk.inj (otherRan.symm.trans ran)
  refine ⟨_, _, ran, ?_, kept⟩
  cases ofOne with
  | ok _ => exact .ok (ofKind _ rfl)
  | error caused => exact .error caused

/-- A steady task ends from every state as it does from one of them. -/
theorem Steady.ends (steady : Steady tree good anyKind task) {state : σ}
    (held : good state) (ofOne : OutcomeOf kind cause (task.outcomeFrom tree state)) :
    Ends tree good kind cause task := by
  intro journal journalHeld
  obtain ⟨after, ran, kept⟩ := steady.settles_outcomeFrom held journal journalHeld
  exact ⟨_, after, ran, ofOne, kept⟩

/-- A steady task ends as it does from one of the states, and with a value of its kind. -/
theorem Steady.ends_outcomeFrom (steady : Steady tree good kind task) {state : σ}
    (held : good state) :
    Ends tree good (fun value => kind value ∧ task.outcomeFrom tree state = .ok value)
      (fun failure => task.outcomeFrom tree state = .error failure) task := by
  obtain ⟨outcome, settles, ofKind⟩ := steady.exists_settles
  intro journal journalHeld
  obtain ⟨after, ran, kept⟩ := settles journal journalHeld
  refine ⟨outcome, after, ran, ?_, kept⟩
  rw [settles.outcomeFrom_eq held]
  cases outcome with
  | ok value => exact .ok ⟨ofKind value rfl, rfl⟩
  | error failure => exact .error rfl

/-- From a state that knows nothing yet, what is kept is what is found out. -/
theorem outcomeFrom_recollect
    {known : σ → Option α} {keep : α → σ → σ} {find : Task σ α} {start : σ}
    (unknown : known start = none) :
    (recollect known keep find).outcomeFrom tree start = find.outcomeFrom tree start := by
  unfold outcomeFrom
  rcases ran : find tree ⟨start, []⟩ with ⟨failure | value, after⟩
  · rw [recollect_of_error unknown ran]
  · rw [recollect_of_ok unknown ran]

/-- What is kept in the state ends as finding it out does. -/
theorem Ends.recollect
    {known : σ → Option α} {keep : α → σ → σ} {find : Task σ α} {start : σ}
    (ends : Ends tree good kind cause find)
    (steady : Steady tree good anyKind (recollect known keep find)) (held : good start)
    (unknown : known start = none) :
    Ends tree good kind cause (recollect known keep find) := by
  refine steady.ends held ?_
  rw [outcomeFrom_recollect unknown]
  exact ends.outcomeFrom held

/-! ## From one journal -/

/-- Run from a journal a task comes to a value and a journal that fit, or to a failure that has a
cause. -/
def Comes (tree : FileTree) (cause : Failure → Prop) (journal : Journal σ) (task : Task σ α)
    (fits : α → Journal σ → Prop) : Prop :=
  match task tree journal with
  | (.ok value, after) => fits value after
  | (.error failure, _) => cause failure

variable {journal : Journal σ} {fits : α → Journal σ → Prop} {after : Journal σ}

theorem comes_of_ok (ran : task tree journal = (.ok value, after))
    (fit : fits value after) :
    Comes tree cause journal task fits := by
  unfold Comes
  rwa [ran]

theorem comes_of_error {failure : Failure}
    (ran : task tree journal = (.error failure, after)) (caused : cause failure) :
    Comes tree cause journal task fits := by
  unfold Comes
  rwa [ran]

theorem comes_pure (fit : fits value journal) :
    Comes tree cause journal (pure value) fits :=
  comes_of_ok rfl fit

theorem Comes.of_ran (comes : Comes tree cause journal task fits)
    (ran : task tree journal = (.ok value, after)) :
    fits value after := by
  unfold Comes at comes
  rwa [ran] at comes

/-- What is known about a run may be used to tell what fits. -/
theorem Comes.imp {further : α → Journal σ → Prop} (comes : Comes tree cause journal task fits)
    (implied : ∀ value after, task tree journal = (.ok value, after) → fits value after →
      further value after) :
    Comes tree cause journal task further := by
  unfold Comes at comes ⊢
  rcases ran : task tree journal with ⟨failure | value, after⟩
  · rwa [ran] at comes
  · rw [ran] at comes
    exact implied value after ran comes

theorem Comes.bind {further : β → Journal σ → Prop}
    (first : Comes tree cause journal task fits)
    (second : ∀ value after, fits value after → Comes tree cause after (next value) further) :
    Comes tree cause journal (task >>= next) further := by
  rcases ran : task tree journal with ⟨failure | value, after⟩
  · unfold Comes at first
    rw [ran] at first
    exact comes_of_error (bind_of_error ran) first
  · have goesOn := second value after (first.of_ran ran)
    unfold Comes at goesOn ⊢
    rwa [bind_of_ok ran]

theorem Comes.map {image : α → β} {further : β → Journal σ → Prop}
    (comes : Comes tree cause journal task fits)
    (implied : ∀ value after, fits value after → further (image value) after) :
    Comes tree cause journal (do return image (← task)) further :=
  comes.bind fun value after fit => comes_pure (implied value after fit)

end Task
end ModuleAtlas
