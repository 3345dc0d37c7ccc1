import ModuleAtlas.Task

/-!
# Steady tasks

A task settles when every state with a given property leads it to the same outcome and to a state
with the property again.  A steady task settles and answers only with values of a given kind.  A
cache is invisible exactly when the tasks that use it are steady: how much of it is filled then
decides neither what they answer nor whether they fail.
-/

namespace ModuleAtlas

/-- The same failure, or answers that are related. -/
inductive Outcomes {ε α β : Type} (relation : α → β → Prop) : Except ε α → Except ε β → Prop where
  | error (failure : ε) : Outcomes relation (.error failure) (.error failure)
  | ok {value : α} {answer : β} (related : relation value answer) :
      Outcomes relation (.ok value) (.ok answer)

theorem outcomes_eq {ε α : Type} {outcome answer : Except ε α} (same : outcome = answer) :
    Outcomes Eq outcome answer := by
  subst same
  cases outcome with
  | error failure => exact .error failure
  | ok value => exact .ok rfl

theorem Outcomes.eq {ε α : Type} {outcome answer : Except ε α}
    (outcomes : Outcomes Eq outcome answer) :
    outcome = answer := by
  cases outcomes with
  | error failure => rfl
  | ok same => exact congrArg _ same

theorem Outcomes.mono {ε α β : Type} {relation wider : α → β → Prop} {outcome : Except ε α}
    {answer : Except ε β} (outcomes : Outcomes relation outcome answer)
    (implied : ∀ value answer, relation value answer → wider value answer) :
    Outcomes wider outcome answer := by
  cases outcomes with
  | error failure => exact .error failure
  | ok related => exact .ok (implied _ _ related)

namespace Task

variable {σ α β : Type} {tree : FileTree} {good : σ → Prop} {task : Task σ α} {next : α → Task σ β}
  {journal after : Journal σ} {value : α}

/-! ## Running sequences -/

theorem bind_of_ok
    (ran : task tree journal = (.ok value, after)) :
    (task >>= next) tree journal = next value tree after := by
  change StateT.bind (task tree) (ExceptT.bindCont fun value => next value tree) journal = _
  unfold StateT.bind
  rw [ran]
  rfl

variable {failure : Failure} {kind : Failure → Prop} {outcome : Except Failure α}
  {step : α → Task σ β}

theorem bind_of_error
    (ran : task tree journal = (.error failure, after)) :
    (task >>= next) tree journal = (.error failure, after) := by
  change StateT.bind (task tree) (ExceptT.bindCont fun value => next value tree) journal = _
  unfold StateT.bind
  rw [ran]
  rfl

/-- A sequence that answers went through an answer of its first task. -/
theorem exists_of_bind_eq_ok
    {value : β}
    (ran : (task >>= next) tree journal = (.ok value, after)) :
    ∃ first between, task tree journal = (.ok first, between) ∧
      next first tree between = (.ok value, after) := by
  cases started : task tree journal with
  | mk outcome between =>
    cases outcome with
    | ok first => exact ⟨first, between, rfl, (bind_of_ok started).symm.trans ran⟩
    | error failure =>
      rw [bind_of_error started] at ran
      cases ran

/-- A sequence fails as its first part does, or as the second one from where the first ended. -/
theorem error_of_bind_eq_error
    (ran : (task >>= next) tree journal = (.error failure, after)) :
    task tree journal = (.error failure, after) ∨
      ∃ first between, task tree journal = (.ok first, between) ∧
        next first tree between = (.error failure, after) := by
  rcases started : task tree journal with ⟨other | first, between⟩
  · rw [bind_of_error started] at ran
    cases ran
    exact .inl rfl
  · exact .inr ⟨first, between, rfl, (bind_of_ok started).symm.trans ran⟩

theorem exists_of_map_eq_ok {image : α → β}
    {value : β}
    (ran : (image <$> task) tree journal = (.ok value, after)) :
    ∃ found, task tree journal = (.ok found, after) ∧ image found = value := by
  rw [map_eq_pure_bind] at ran
  obtain ⟨found, between, answered, finished⟩ := exists_of_bind_eq_ok ran
  cases finished
  exact ⟨found, answered, rfl⟩

/-- Whatever a task answers is of a kind. -/
def Returns (task : Task σ α) (kind : α → Prop) : Prop :=
  ∀ tree journal value after, task tree journal = (.ok value, after) → kind value

theorem returns_pure {kind : α → Prop} (ofKind : kind value) :
    Returns (pure value : Task σ α) kind := by
  intro tree journal found after ran
  cases ran
  exact ofKind

theorem returns_any (task : Task σ α) : Returns task fun _ => True :=
  fun _ _ _ _ _ => trivial

theorem Returns.bind {first : α → Prop} {kind : β → Prop}
    (starts : Returns task first) (goesOn : ∀ value, first value → Returns (next value) kind) :
    Returns (task >>= next) kind := by
  intro tree journal answer after ran
  obtain ⟨value, middle, started, finished⟩ := exists_of_bind_eq_ok ran
  exact goesOn value (starts tree journal value middle started) tree middle answer after finished

/-- What a task answers for each of some values is as far determined as the single answers are. -/
theorem returns_mapM {γ : Type} {image : β → γ} {key : α → γ}
    (each : ∀ value, Returns (step value) fun answer => image answer = key value)
    (values : List α) :
    Returns (values.mapM step) fun answers => answers.map image = values.map key := by
  induction values with
  | nil =>
    rw [List.mapM_nil]
    exact returns_pure rfl
  | cons value rest ih =>
    rw [List.mapM_cons]
    refine (each value).bind fun first firstKey => ?_
    refine ih.bind fun others othersKeys => returns_pure ?_
    rw [List.map_cons, List.map_cons, firstKey, othersKeys]

theorem tryCatch_of_ok {handle : Failure → Task σ α}
    (ran : task tree journal = (.ok value, after)) :
    (tryCatch task handle) tree journal = (.ok value, after) := by
  simp only [tryCatch, tryCatchThe, MonadExceptOf.tryCatch, ExceptT.tryCatch, ExceptT.mk]
  change StateT.bind (task tree) _ journal = _
  unfold StateT.bind
  rw [ran]
  rfl

theorem tryCatch_of_error {handle : Failure → Task σ α}
    (ran : task tree journal = (.error failure, after)) :
    (tryCatch task handle) tree journal = handle failure tree after := by
  simp only [tryCatch, tryCatchThe, MonadExceptOf.tryCatch, ExceptT.tryCatch, ExceptT.mk]
  change StateT.bind (task tree) _ journal = _
  unfold StateT.bind
  rw [ran]
  rfl

/-- An attempt answers the outcome of the task, and what the task did stays. -/
theorem attempt_eq (task : Task σ α) (journal : Journal σ) :
    attempt task tree journal = (.ok (task tree journal).1, (task tree journal).2) := by
  rcases ran : task tree journal with ⟨failure | value, after⟩
  · exact tryCatch_of_error (bind_of_error ran)
  · exact tryCatch_of_ok (bind_of_ok ran)

/-! ## Failures of a kind -/

/-- Whatever failure a task ends in is of a kind. -/
def FailsBy (task : Task σ α) (kind : Failure → Prop) : Prop :=
  ∀ tree journal failure after, task tree journal = (.error failure, after) → kind failure

theorem failsBy_pure (value : α) : FailsBy (pure value : Task σ α) kind := by
  intro tree journal failure after ran
  cases ran

theorem failsBy_attempt (task : Task σ α) : FailsBy (attempt task) kind := by
  intro tree journal failure after ran
  rw [attempt_eq] at ran
  cases ran

theorem FailsBy.bind (starts : FailsBy task kind)
    (goesOn : ∀ value, FailsBy (next value) kind) : FailsBy (task >>= next) kind := by
  intro tree journal failure after ran
  rcases first : task tree journal with ⟨stopped | value, between⟩
  · rw [bind_of_error first] at ran
    cases ran
    exact starts tree journal failure after first
  · rw [bind_of_ok first] at ran
    exact goesOn value tree between failure after ran

theorem failsBy_mapM (each : ∀ value, FailsBy (step value) kind)
    (values : List α) : FailsBy (values.mapM step) kind := by
  induction values with
  | nil =>
    rw [List.mapM_nil]
    exact failsBy_pure _
  | cons value rest ih =>
    rw [List.mapM_cons]
    exact (each value).bind fun _ => ih.bind fun _ => failsBy_pure _

/-! ## Settled outcomes -/

/-- From every state with a property, the task comes to the given outcome and to a state with the
property. -/
def Settles (tree : FileTree) (good : σ → Prop) (task : Task σ α)
    (outcome : Except Failure α) : Prop :=
  ∀ journal, good journal.state →
    ∃ after, task tree journal = (outcome, after) ∧ good after.state

/-- The outcome of a task that starts from a state with nothing told. -/
def outcomeFrom (task : Task σ α) (tree : FileTree) (state : σ) : Except Failure α :=
  (task tree ⟨state, []⟩).1

instance {ε α : Type} [DecidableEq α] (outcome : Except ε α) (value : α) :
    Decidable (outcome = .ok value) :=
  match outcome with
  | .ok found => decidable_of_iff (found = value) ⟨congrArg _, Except.ok.inj⟩
  | .error _ => .isFalse nofun

/-- What a task answers when it starts from a state with nothing told, as far as it is looked at. -/
theorem exists_of_outcomeFrom {state : σ} {image : α → β} {value : β}
    (answers : (task.outcomeFrom tree state).map image = .ok value) :
    ∃ found after, task tree ⟨state, []⟩ = (.ok found, after) ∧ image found = value := by
  unfold outcomeFrom at answers
  cases ran : task tree ⟨state, []⟩ with
  | mk outcome after =>
    rw [ran] at answers
    cases outcome with
    | ok found => exact ⟨found, after, rfl, Except.ok.inj answers⟩
    | error failure => cases answers

theorem Settles.outcomeFrom_eq
    (settles : Settles tree good task outcome) {state : σ} (held : good state) :
    task.outcomeFrom tree state = outcome := by
  obtain ⟨after, ran, _⟩ := settles ⟨state, []⟩ held
  rw [outcomeFrom, ran]

/-- A task settles to one outcome only. -/
theorem Settles.unique {first second : Except Failure α}
    (settles : Settles tree good task first) (others : Settles tree good task second) {state : σ}
    (held : good state) :
    first = second := by
  rw [← settles.outcomeFrom_eq held, others.outcomeFrom_eq held]

theorem settles_pure (value : α) :
    Settles tree good (pure value) (.ok value) :=
  fun journal held => ⟨journal, rfl, held⟩

theorem settles_fail (failure : Failure) :
    Settles tree good (fail failure : Task σ α) (.error failure) :=
  fun journal held => ⟨journal, rfl, held⟩

theorem settles_note (notice : Notice) :
    Settles tree good (note notice) (.ok ()) :=
  fun journal held => ⟨⟨journal.state, notice :: journal.notices⟩, rfl, held⟩

theorem settles_files : Settles tree good files (.ok tree) :=
  fun journal held => ⟨journal, rfl, held⟩

/-- What a task answers may depend on the state, as long as the next one settles all the same. -/
theorem settles_bind_of_runs
    {kind : α → Prop} {outcome : Except Failure β}
    (runs : ∀ journal, good journal.state →
      ∃ value after, task tree journal = (.ok value, after) ∧ kind value ∧ good after.state)
    (second : ∀ value, kind value → Settles tree good (next value) outcome) :
    Settles tree good (task >>= next) outcome := by
  intro journal held
  obtain ⟨value, between, ran, ofKind, kept⟩ := runs journal held
  obtain ⟨after, ranNext, keptNext⟩ := second value ofKind between kept
  exact ⟨after, (bind_of_ok ran).trans ranNext, keptNext⟩

/-- What settles goes on to what settles. -/
theorem Settles.bind
    {outcome : Except Failure β} (first : Settles tree good task (.ok value))
    (second : Settles tree good (next value) outcome) :
    Settles tree good (task >>= next) outcome := by
  have runs : ∀ journal, good journal.state →
      ∃ answer after, task tree journal = (.ok answer, after) ∧ answer = value ∧
        good after.state := by
    intro journal held
    obtain ⟨between, ran, kept⟩ := first journal held
    exact ⟨value, between, ran, rfl, kept⟩
  refine settles_bind_of_runs runs ?_
  rintro _ rfl
  exact second

theorem Settles.bind_error
    (first : Settles tree good task (.error failure)) :
    Settles tree good (task >>= next) (.error failure) := by
  intro journal held
  obtain ⟨between, ran, kept⟩ := first journal held
  exact ⟨between, bind_of_error ran, kept⟩

/-- An attempt settles on the outcome of what is attempted. -/
theorem Settles.attempt
    (settles : Settles tree good task outcome) :
    Settles tree good (attempt task) (.ok outcome) := by
  intro journal held
  obtain ⟨after, ran, kept⟩ := settles journal held
  refine ⟨after, ?_, kept⟩
  rw [attempt_eq, ran]

/-- A run of two tasks goes on from where the first one settles. -/
theorem Settles.bind_eq
    (first : Settles tree good task (.ok value)) (held : good journal.state) (next : α → Task σ β) :
    ∃ between, good between.state ∧ (task >>= next) tree journal = next value tree between := by
  obtain ⟨between, ran, kept⟩ := first journal held
  exact ⟨between, kept, bind_of_ok ran⟩

/-! ## Steady tasks -/

/-- In all file trees among some, from states with a property, the task settles to the same outcome,
and what it answers is of a given kind. -/
def SteadyAmong (among : FileTree → Prop) (good : FileTree → σ → Prop) (kind : α → Prop)
    (task : Task σ α) : Prop :=
  ∃ outcome, (∀ tree, among tree → Settles tree (good tree) task outcome) ∧
    ∀ value, outcome = .ok value → kind value

/-- The task settles, and what it answers is of a given kind. -/
abbrev Steady (tree : FileTree) (good : σ → Prop) (kind : α → Prop) (task : Task σ α) : Prop :=
  SteadyAmong (· = tree) (fun _ => good) kind task

theorem Steady.exists_settles {kind : α → Prop}
    (steady : Steady tree good kind task) :
    ∃ outcome, Settles tree good task outcome ∧ ∀ value, outcome = .ok value → kind value := by
  obtain ⟨outcome, settles, ofKind⟩ := steady
  exact ⟨outcome, settles tree rfl, ofKind⟩

theorem steady_of_settles {kind : α → Prop}
    (settles : Settles tree good task outcome)
    (ofKind : ∀ value, outcome = .ok value → kind value) :
    Steady tree good kind task :=
  ⟨outcome, fun _ same => same ▸ settles, ofKind⟩

variable {among : FileTree → Prop} {goodIn : FileTree → σ → Prop} {test : Entry → Bool}
  {entries : List α}

theorem steadyAmong_ok {kind : α → Prop}
    (settles : ∀ tree, among tree → Settles tree (goodIn tree) task (.ok value))
    (ofKind : kind value) :
    SteadyAmong among goodIn kind task := by
  refine ⟨_, settles, ?_⟩
  rintro _ ⟨⟩
  exact ofKind

theorem steadyAmong_error {kind : α → Prop}
    (settles : ∀ tree, among tree → Settles tree (goodIn tree) task (.error failure)) :
    SteadyAmong among goodIn kind task :=
  ⟨_, settles, nofun⟩

theorem Settles.steady {kind : α → Prop}
    (settles : Settles tree good task (.ok value)) (ofKind : kind value) :
    Steady tree good kind task :=
  steady_of_settles settles fun _ same => Except.ok.inj same ▸ ofKind

theorem Settles.steady_error {kind : α → Prop}
    (settles : Settles tree good task (.error failure)) : Steady tree good kind task :=
  steady_of_settles settles nofun

theorem steady_pure {kind : α → Prop} (ofKind : kind value) :
    SteadyAmong among goodIn kind (pure value) :=
  steadyAmong_ok (fun _ _ => settles_pure value) ofKind

theorem steady_fail {kind : α → Prop} (failure : Failure) :
    SteadyAmong among goodIn kind (fail failure) :=
  steadyAmong_error fun _ _ => settles_fail failure

theorem steady_note (notice : Notice) :
    SteadyAmong among goodIn (fun _ => True) (note notice) :=
  steadyAmong_ok (fun _ _ => settles_note notice) trivial

theorem steady_files : Steady tree good (fun found => found = tree) files :=
  settles_files.steady rfl

namespace SteadyAmong

variable {task : Task σ α} {kind wider : α → Prop} {next : α → Task σ β} {nextKind : β → Prop}

/-- A task that is steady among file trees is steady in each of them. -/
theorem steady (steady : SteadyAmong among goodIn kind task) (member : among tree) :
    Steady tree (goodIn tree) kind task := by
  obtain ⟨outcome, settles, ofKind⟩ := steady
  refine ⟨outcome, ?_, ofKind⟩
  rintro _ rfl
  exact settles _ member

theorem mono (steady : SteadyAmong among goodIn kind task)
    (implied : ∀ value, kind value → wider value) :
    SteadyAmong among goodIn wider task := by
  obtain ⟨outcome, settles, ofKind⟩ := steady
  exact ⟨outcome, settles, fun value equal => implied value (ofKind value equal)⟩

theorem anyhow (steady : SteadyAmong among goodIn kind task) :
    SteadyAmong among goodIn (fun _ => True) task :=
  steady.mono fun _ _ => trivial

theorem bind (first : SteadyAmong among goodIn kind task)
    (second : ∀ value, kind value → SteadyAmong among goodIn nextKind (next value)) :
    SteadyAmong among goodIn nextKind (task >>= next) := by
  obtain ⟨outcome, settles, ofKind⟩ := first
  cases outcome with
  | error failure => exact steadyAmong_error fun tree member => (settles tree member).bind_error
  | ok value =>
    obtain ⟨outcome, settlesNext, ofNextKind⟩ := second value (ofKind value rfl)
    exact ⟨outcome, fun tree member => (settles tree member).bind (settlesNext tree member),
      ofNextKind⟩

theorem pure_bind (steady : SteadyAmong among goodIn nextKind (next value)) :
    SteadyAmong among goodIn nextKind (pure value >>= next) := by
  rwa [LawfulMonad.pure_bind]

theorem map {image : α → β} (steady : SteadyAmong among goodIn kind task)
    (implied : ∀ value, kind value → nextKind (image value)) :
    SteadyAmong among goodIn nextKind (do return image (← task)) :=
  steady.bind fun value ofKind => steady_pure (implied value ofKind)

/-- What is done with the file tree itself, as long as it is the same in all of them. -/
theorem files {next : FileTree → Task σ β}
    (same : ∀ other, among other → next other = next tree)
    (steady : SteadyAmong among goodIn nextKind (next tree)) :
    SteadyAmong among goodIn nextKind (files >>= next) := by
  obtain ⟨outcome, settles, ofKind⟩ := steady
  refine ⟨outcome, fun other member => settles_files.bind ?_, ofKind⟩
  rw [same other member]
  exact settles other member

theorem attempt (tried : SteadyAmong among goodIn kind task) :
    SteadyAmong among goodIn (fun outcome => ∀ value, outcome = .ok value → kind value)
      (attempt task) := by
  obtain ⟨outcome, settles, ofKind⟩ := tried
  exact steadyAmong_ok (fun tree member => (settles tree member).attempt) ofKind

/-- A task that is steady from one state on leaves it as it is. -/
theorem state_eq
    (steady : SteadyAmong among (fun _ => (· = journal.state)) kind task) (member : among tree) :
    (task tree journal).2.state = journal.state := by
  obtain ⟨outcome, settles, _⟩ := steady
  obtain ⟨after, ran, same⟩ := settles tree member journal rfl
  rw [ran, same]

end SteadyAmong

/-- A steady task answers as it does from any one state with the property. -/
theorem Steady.settles_outcomeFrom {kind : α → Prop}
    (steady : Steady tree good kind task) {state : σ} (held : good state) :
    Settles tree good task (task.outcomeFrom tree state) := by
  obtain ⟨outcome, settles, _⟩ := steady.exists_settles
  rw [settles.outcomeFrom_eq held]
  exact settles

theorem Steady.kind_of_settles {kind : α → Prop}
    (steady : Steady tree good kind task) {state : σ} (held : good state)
    (settles : Settles tree good task (.ok value)) :
    kind value := by
  obtain ⟨outcome, settlesToo, ofKind⟩ := steady.exists_settles
  exact ofKind value (settlesToo.unique settles held)

/-! ## Lists of tasks -/

/-- Steps that settle on something settle on a list of just these. -/
theorem steady_mapM {kind : α → β → Prop}
    (each : ∀ entry ∈ entries, SteadyAmong among goodIn (kind entry) (step entry)) :
    SteadyAmong among goodIn
      (fun found => (∀ value ∈ found, ∃ entry ∈ entries, kind entry value) ∧
        ∀ entry ∈ entries, ∃ value ∈ found, kind entry value)
      (entries.mapM step) := by
  induction entries with
  | nil =>
    rw [List.mapM_nil]
    exact steady_pure (by simp)
  | cons entry rest ih =>
    rw [List.mapM_cons]
    refine (each entry (by simp)).bind fun first firstKind => ?_
    have restSteady := ih fun other member => each other (by simp [member])
    refine restSteady.bind fun found foundKind => steady_pure ⟨?_, ?_⟩
    · intro value member
      rcases List.mem_cons.mp member with rfl | later
      · exact ⟨entry, by simp, firstKind⟩
      · obtain ⟨other, otherMember, otherKind⟩ := foundKind.1 value later
        exact ⟨other, by simp [otherMember], otherKind⟩
    · intro other member
      rcases List.mem_cons.mp member with rfl | later
      · exact ⟨first, by simp, firstKind⟩
      · obtain ⟨value, valueMember, valueKind⟩ := foundKind.2 other later
        exact ⟨value, by simp [valueMember], valueKind⟩

/-- Tests that settle keep the same entries again. -/
theorem steady_filterM {test : α → Task σ Bool}
    (each : ∀ entry ∈ entries, SteadyAmong among goodIn (fun _ => True) (test entry)) :
    SteadyAmong among goodIn (fun _ => True) (entries.filterM test) := by
  have collects : ∀ rest : List α, (∀ entry ∈ rest,
      SteadyAmong among goodIn (fun _ => True) (test entry)) →
      ∀ kept, SteadyAmong among goodIn (fun _ => True) (rest.filterAuxM test kept) := by
    intro rest
    induction rest with
    | nil => exact fun _ _ => steady_pure trivial
    | cons entry rest ih =>
      intro steady kept
      unfold List.filterAuxM
      refine (steady entry (by simp)).bind fun passed _ => ?_
      exact ih (fun other member => steady other (by simp [member])) _
  exact (collects entries each []).map fun _ _ => trivial

/-- Tests that settle find the same entry again. -/
theorem steady_findM? {test : α → Task σ Bool} {kind : α → Prop}
    (each : ∀ entry ∈ entries,
      SteadyAmong among goodIn (fun passed => passed = true → kind entry) (test entry)) :
    SteadyAmong among goodIn (fun found => ∀ value, found = some value → kind value)
      (entries.findM? test) := by
  induction entries with
  | nil => exact steady_pure (by simp)
  | cons entry rest ih =>
    unfold List.findM?
    refine (each entry (by simp)).bind fun passed passedKind => ?_
    cases passed with
    | true => exact steady_pure (by simpa using passedKind rfl)
    | false => exact ih fun other member => each other (by simp [member])

/-! ## The state -/

theorem settles_state_bind {next : σ → Task σ α}
    (each : ∀ known, good known → Settles tree good (next known) outcome) :
    Settles tree good (state >>= next) outcome :=
  fun journal held => each journal.state held journal held

theorem Settles.within {τ : Type} {inner : τ → Prop} {part : σ → τ} {put : τ → σ → σ}
    {task : Task τ α} (settles : Settles tree inner task outcome)
    (entered : ∀ state, good state → inner (part state))
    (left : ∀ state innerState, good state → inner innerState → good (put innerState state)) :
    Settles tree good (within part put task) outcome := by
  intro journal held
  obtain ⟨after, ran, kept⟩ :=
    settles ⟨part journal.state, journal.notices⟩ (entered journal.state held)
  refine ⟨⟨put after.state journal.state, after.notices⟩, ?_, left _ _ held kept⟩
  simp only [Task.within, ran]

theorem Steady.within {τ : Type} {inner : τ → Prop} {part : σ → τ} {put : τ → σ → σ}
    {task : Task τ α} {kind : α → Prop} (steady : Steady tree inner kind task)
    (entered : ∀ state, good state → inner (part state))
    (left : ∀ state innerState, good state → inner innerState → good (put innerState state)) :
    Steady tree good kind (within part put task) := by
  obtain ⟨outcome, settles, ofKind⟩ := steady
  exact ⟨outcome, fun other same => (settles other same).within entered left, ofKind⟩

/-- A task with a state of its own settles from every state around it. -/
theorem Settles.withState
    {τ : Type} {inner : τ → Prop} {start : τ} {task : Task τ α}
    (settles : Settles tree inner task outcome) (starts : inner start) :
    Settles tree good (withState start task) outcome := by
  intro journal held
  obtain ⟨after, ran, -⟩ := settles ⟨start, journal.notices⟩ starts
  refine ⟨⟨journal.state, after.notices⟩, ?_, held⟩
  simp only [Task.withState, ran]

section Recollect

variable {known : σ → Option α} {keep : α → σ → σ} {find : Task σ α} {journal after : Journal σ}

/-- What is remembered is not looked for again. -/
theorem recollect_of_known (remembered : known journal.state = some value) :
    recollect known keep find tree journal = (.ok value, journal) := by
  have ran : (state : Task σ σ) tree journal = (.ok journal.state, journal) := rfl
  unfold recollect
  rw [bind_of_ok ran, remembered]
  rfl

theorem recollect_of_ok (unknown : known journal.state = none)
    (found : find tree journal = (.ok value, after)) :
    recollect known keep find tree journal =
      (.ok value, ⟨keep value after.state, after.notices⟩) := by
  have ran : (state : Task σ σ) tree journal = (.ok journal.state, journal) := rfl
  unfold recollect
  rw [bind_of_ok ran, unknown]
  dsimp only
  rw [bind_of_ok found]
  rfl

theorem recollect_of_error (unknown : known journal.state = none)
    (found : find tree journal = (.error failure, after)) :
    recollect known keep find tree journal = (.error failure, after) := by
  have ran : (state : Task σ σ) tree journal = (.ok journal.state, journal) := rfl
  unfold recollect
  rw [bind_of_ok ran, unknown]
  exact bind_of_error found

/-- What is kept in the state is invisible when it is what would be found out from a start at which
nothing is known. -/
theorem steady_recollect {kind : α → Prop} {start : σ}
    (found : SteadyAmong among goodIn kind find)
    (startGood : ∀ tree, among tree → goodIn tree start) (unknown : known start = none)
    (right : ∀ tree state value, goodIn tree state → known state = some value →
      (recollect known keep find).outcomeFrom tree start = .ok value)
    (kept : ∀ tree state value, goodIn tree state →
      (recollect known keep find).outcomeFrom tree start = .ok value →
      goodIn tree (keep value state)) :
    SteadyAmong among goodIn kind (recollect known keep find) := by
  obtain ⟨outcome, settlesAmong, ofKind⟩ := found
  refine ⟨outcome, fun tree member => ?_, ofKind⟩
  have settles := settlesAmong tree member
  have startGood := startGood tree member
  have right := right tree
  have kept := kept tree
  have fromStart : (recollect known keep find).outcomeFrom tree start = outcome := by
    obtain ⟨after, ran, _⟩ := settles ⟨start, []⟩ startGood
    unfold outcomeFrom
    cases outcome with
    | ok value => rw [recollect_of_ok unknown ran]
    | error failure => rw [recollect_of_error unknown ran]
  rw [fromStart] at right kept
  intro journal held
  cases remembered : known journal.state with
  | some value =>
    rw [right journal.state value held remembered]
    exact ⟨journal, recollect_of_known remembered, held⟩
  | none =>
    obtain ⟨after, ran, afterGood⟩ := settles journal held
    cases outcome with
    | ok value =>
      exact ⟨_, recollect_of_ok remembered ran, kept after.state value afterGood rfl⟩
    | error failure => exact ⟨after, recollect_of_error remembered ran, afterGood⟩

end Recollect

/-! ## Looking at the file tree -/

theorem settles_passes_ok {path : Path} {passed : Bool}
    (outcome : tree.passes test path = .ok passed) :
    Settles tree good (passes test path) (.ok passed) := by
  refine settles_files.bind ?_
  rw [outcome]
  exact settles_pure passed

theorem settles_passes_error {path long : Path}
    (outcome : tree.passes test path = .error long) :
    Settles tree good (passes test path) (.error (.tooLong long)) := by
  refine settles_files.bind ?_
  rw [outcome]
  exact settles_fail _

theorem steady_passes_of {path : Path}
    (same : ∀ other, among other → other.passes test path = tree.passes test path) :
    SteadyAmong among goodIn (fun passed => tree.passes test path = .ok passed)
      (passes test path) := by
  cases outcome : tree.passes test path with
  | ok passed =>
    exact steadyAmong_ok (fun other member => settles_passes_ok ((same other member).trans outcome))
      rfl
  | error long =>
    exact steadyAmong_error fun other member =>
      settles_passes_error ((same other member).trans outcome)

theorem steady_passes (test : Entry → Bool) (path : Path) :
    Steady tree good (fun passed => tree.passes test path = .ok passed) (passes test path) :=
  steady_passes_of fun _ same => by rw [same]

theorem steady_isFile (path : Path) :
    Steady tree good (fun passed => tree.passes Entry.isFile path = .ok passed) (isFile path) :=
  steady_passes Entry.isFile path

/-- A path settles among trees in which it resolves alike. -/
theorem steady_resolvePath_of {path : Path}
    (same : ∀ other, among other → other.resolve? path = tree.resolve? path) :
    SteadyAmong among goodIn
      (fun resolved => path.hasNull = false ∧ tree.resolve? path = some resolved)
      (resolvePath path) := by
  unfold resolvePath
  cases path.hasNull with
  | true =>
    have never : SteadyAmong among goodIn (fun _ => False) (fail (.nullCharacter path) :
        Task σ Unit) :=
      steady_fail _
    exact never.bind fun _ impossible => impossible.elim
  | false =>
    refine SteadyAmong.files (fun other member => by rw [same other member]) ?_
    cases outcome : tree.resolve? path with
    | some resolved => exact steady_pure ⟨rfl, rfl⟩
    | none => exact steady_fail _

theorem steady_resolvePath (path : Path) :
    Steady tree good (fun resolved => path.hasNull = false ∧ tree.resolve? path = some resolved)
      (resolvePath path) :=
  steady_resolvePath_of fun _ same => by rw [same]

theorem settles_resolvePath {path resolved : Path} (noNull : path.hasNull = false)
    (known : tree.resolve? path = some resolved) :
    Settles tree good (resolvePath path) (.ok resolved) := by
  unfold resolvePath
  rw [noNull]
  refine settles_files.bind ?_
  rw [known]
  exact settles_pure resolved

end Task
end ModuleAtlas
