import ModuleAtlas.Proofs.Types.Closed

/-!
# What sessions keep

Sessions only grow, and what was found out in one is recalled in all that have grown from it.
-/

namespace ModuleAtlas

open ModuleAtlas.Types

/-!
## Sessions that grow

A cell keeps what it is known to stand for: no reading forgets a target, a list of members or a
name.  So what was answered from the cells once is answered again without finding anything out.
-/

/-- All that the first cell knows the second one knows as well. -/
structure Cell.Grows (known grown : Cell) : Prop where
  name : ∀ name, known.name = some name → grown.name = some name
  target : ∀ target, known.target = some target → grown.target = some target
  members : ∀ members, known.members = some members → grown.members = some members

namespace Cell

variable {known between grown : Cell}

theorem Grows.refl (known : Cell) : known.Grows known :=
  ⟨fun _ => id, fun _ => id, fun _ => id⟩

theorem Grows.trans (first : known.Grows between) (second : between.Grows grown) :
    known.Grows grown :=
  ⟨fun name found => second.name name (first.name name found),
    fun target found => second.target target (first.target target found),
    fun members found => second.members members (first.members members found)⟩

theorem Grows.keepTarget (grows : known.Grows grown) (unknown : known.target = none)
    (target : TypeTerm) :
    known.Grows (grown.keepTarget target) := by
  refine ⟨grows.name, fun other found => ?_, grows.members⟩
  rw [unknown] at found
  cases found

theorem Grows.keepMembers (grows : known.Grows grown) (unknown : known.members = none)
    (members : Members TypeTerm) :
    known.Grows (grown.keepMembers members) := by
  refine ⟨grows.name, grows.target, fun other found => ?_⟩
  rw [unknown] at found
  cases found

end Cell

namespace Session

/-- What is known about a cell. -/
def cell (session : Session) (index : Nat) : Cell := session.cells.getD index ⟨none, none, none⟩

/-- The second session has all cells of the first one, and knows all that is known about them. -/
structure Grows (session after : Session) : Prop where
  size : session.cells.size ≤ after.cells.size
  cells : ∀ index, (session.cell index).Grows (after.cell index)

variable {session between after : Session} {tree : FileTree} {α β : Type}

theorem Grows.refl (session : Session) : Grows session session :=
  ⟨Nat.le_refl _, fun index => .refl (session.cell index)⟩

theorem Grows.trans (first : Grows session between) (second : Grows between after) :
    Grows session after :=
  ⟨Nat.le_trans first.size second.size, fun index => (first.cells index).trans (second.cells index)⟩

theorem grows_of_eq (same : after.cells = session.cells) : Grows session after := by
  refine ⟨Nat.le_of_eq (congrArg Array.size same.symm), fun index => ?_⟩
  unfold cell
  rw [same]
  exact .refl _

/-- A session that grew still has when a cell is changed to one that knows what it knew at first. -/
theorem Grows.modify {changed : Nat} {change : Cell → Cell} (grows : Grows session between)
    (keeps : (session.cell changed).Grows (change (between.cell changed))) :
    Grows session { between with cells := between.cells.modify changed change } := by
  refine ⟨by simpa using grows.size, fun index => ?_⟩
  have here := grows.cells index
  unfold cell at here keeps ⊢
  simp only [Array.getD_eq_getD_getElem?, Array.getElem?_modify] at here keeps ⊢
  by_cases same : changed = index
  · subst same
    rw [if_pos rfl]
    cases inside : between.cells[changed]? with
    | none =>
      rw [inside] at here
      exact here
    | some known =>
      rw [inside] at keeps
      exact keeps
  · rw [if_neg same]
    exact here

theorem grows_push (session : Session) (new : Cell) :
    Grows session { session with cells := session.cells.push new } := by
  refine ⟨by simp, fun index => ?_⟩
  unfold cell
  simp only [Array.getD_eq_getD_getElem?, Array.getElem?_push]
  split
  · rename_i last
    rw [Array.getElem?_eq_none (Nat.le_of_eq last.symm)]
    exact ⟨nofun, nofun, nofun⟩
  · exact .refl _

/-! ### Tasks that forget nothing -/

/-- No run of a task forgets what a session knows. -/
def Retains (task : Task Session α) : Prop :=
  ∀ tree journal, Grows journal.state (task tree journal).2.state

theorem retains_of_leaves {task : Task Session α}
    (leaves : ∀ tree journal, (task tree journal).2.state.cells = journal.state.cells) :
    Retains task :=
  fun tree journal => grows_of_eq (leaves tree journal)

theorem retains_pure (value : α) : Retains (pure value) :=
  fun _ journal => .refl journal.state

theorem Retains.bind {task : Task Session α} {next : α → Task Session β} (first : Retains task)
    (second : ∀ value, Retains (next value)) :
    Retains (task >>= next) := by
  intro tree journal
  have grows := first tree journal
  cases ran : task tree journal with
  | mk outcome middle =>
    rw [ran] at grows
    cases outcome with
    | ok value =>
      rw [Task.bind_of_ok ran]
      exact grows.trans (second value tree middle)
    | error failure =>
      rw [Task.bind_of_error ran]
      exact grows

/-- An alias gives its name to a cell that has none. -/
theorem retains_nameAlias (name : String) (target : TypeTerm) :
    Retains (nameAlias name target) := by
  unfold nameAlias
  split
  · rename_i index code source
    intro tree journal
    have read : cellOf index tree journal = (.ok (journal.state.cell index), journal) := rfl
    rw [Task.bind_of_ok read]
    cases named : (journal.state.cell index).name with
    | some other => exact .refl _
    | none =>
      refine (Grows.refl journal.state).modify ⟨fun other found => ?_, fun _ => id, fun _ => id⟩
      rw [named] at found
      cases found
  · exact retains_pure _

/-- A cell keeps what is found out for it when it did not know that before. -/
theorem retains_kept {find : Task Session α} {known : Cell → Option α} {keep : α → Cell → Cell}
    (keeps : ∀ value cell grown, known cell = none → cell.Grows grown →
      cell.Grows (keep value grown))
    (retains : Retains find) (index : Nat) :
    Retains (kept known keep index find) := by
  intro tree journal
  have read : cellOf index tree journal = (.ok (journal.state.cell index), journal) := rfl
  unfold kept
  rw [Task.bind_of_ok read]
  cases found : known (journal.state.cell index) with
  | some value => exact .refl _
  | none =>
    have grows := retains tree journal
    dsimp only
    cases ran : find tree journal with
    | mk outcome middle =>
      rw [ran] at grows
      cases outcome with
      | error failure =>
        rw [Task.bind_of_error ran]
        exact grows
      | ok value =>
        rw [Task.bind_of_ok ran]
        exact grows.modify (keeps value _ _ found (grows.cells index))

theorem retains_once {collect : Task Session (Members TypeTerm)} (retains : Retains collect)
    (key : Path × Nat) :
    Retains (once key collect) := by
  intro tree journal
  rw [once_eq]
  split
  · exact .refl _
  · have entered : Grows journal.state (entering key journal).state := grows_of_eq rfl
    exact entered.trans ((retains tree (entering key journal)).trans (grows_of_eq rfl))

theorem retains_load (specifier : String) (importer : SourceModule) :
    Retains (load specifier importer) := by
  have resolves : ∀ path, Retains (Task.resolvePath path) := fun path tree journal => by
    rw [(Task.steady_resolvePath path).state_eq rfl]
    exact .refl _
  have reads : ∀ canonical, Retains (readModule canonical) := fun canonical =>
    retains_of_leaves fun tree journal => (readModule_leaves canonical journal).1
  refine Retains.bind (retains_of_leaves fun _ _ => rfl) fun resolution => ?_
  split
  · exact retains_pure _
  · split
    · exact ((resolves _).bind reads).bind fun _ => retains_pure _
    · exact retains_pure _

/-- Reading forgets nothing. -/
theorem closed_retains : Closed fun _ => Retains where
  pure := retains_pure
  bind := .bind
  state := fun _ journal => .refl journal.state
  newCell := fun _ journal => grows_push journal.state _
  nameAlias := retains_nameAlias
  keepTarget index retains :=
    retains_kept (fun target _ _ unknown grows => grows.keepTarget unknown target) retains index
  keepMembers index retains :=
    retains_kept (fun members _ _ unknown grows => grows.keepMembers unknown members) retains index
  newParameterList := retains_of_leaves fun _ _ => rfl
  keepParameters _ _ := retains_of_leaves fun _ _ => rfl
  once key retains := retains_once retains key
  load := retains_load
  sizeBound := fun _ journal => .refl journal.state
  refuse _ := fun _ journal => .refl journal.state

end Session

/-!
## Answers that are recalled

What a type stands for, its members and its name are found out once.  After that every session that
knows at least as much gives the same answers, and learns nothing from giving them.  This needs the
cells of the type to be cells of the session, since only these keep what is found out.
-/

/-- A reference whose name is missing. -/
def TypeTerm.IsUnnamed : TypeTerm → Prop
  | .reference _ _ name _ _ => lastName name = ""
  | _ => False

namespace Session

variable {tree : FileTree} {root : Path} {links more : Links} {session between : Session}
  {journal after : Journal Session} {α β : Type} {task : Task Session α} {value : α}

/-- A session holds the cells of a type and all that can be reached from them. -/
def Holding (tree : FileTree) (root : Path) (session : Session) (type : TypeTerm) : Prop :=
  ∃ links, Matches (.same tree root) links session session ∧ Alike .same links type type

/-- A run goes on to hold all that it held, and holds what it answers. -/
theorem Followed.itself {relation : Links → α → α → Prop}
    (followed : Followed (.same tree root) links relation task task)
    (standing : Matches (.same tree root) links journal.state journal.state)
    (ran : task tree journal = (.ok value, after)) :
    ∃ more, links.Below more ∧ Matches (.same tree root) more after.state after.state ∧
      relation more value value := by
  obtain ⟨more, answer, twinAfter, again, touches, matched, related⟩ :=
    followed.answers standing ran
  rw [ran] at again
  cases again
  exact ⟨more, touches.below, matched, related⟩

/-- Cells with links are cells of the session. -/
theorem Matches.lt {index other : Nat} (standing : Matches (.same tree root) links session between)
    (linked : links.cells index other) :
    index < session.cells.size :=
  (standing.cells.lt linked).1

theorem Retains.grows (retains : Retains task)
    (ran : task tree journal = (.ok value, after)) :
    Grows journal.state after.state := by
  have grows := retains tree journal
  rwa [ran] at grows

/-! ### Recalling -/

/-- Every session that knows at least as much answers a value to a task and is left as it is. -/
def Recalls (tree : FileTree) (session : Session) (task : Task Session α) (value : α) : Prop :=
  ∀ journal, Grows session journal.state → task tree journal = (.ok value, journal)

theorem recalls_pure (value : α) : Recalls tree session (pure value) value :=
  fun _ _ => rfl

theorem Recalls.bind {next : α → Task Session β} {answer : β}
    (first : Recalls tree session task value) (second : Recalls tree session (next value) answer) :
    Recalls tree session (task >>= next) answer :=
  fun journal grows => (Task.bind_of_ok (first journal grows)).trans (second journal grows)

theorem Recalls.later
    (recalls : Recalls tree session task value) (grows : Grows session between) :
    Recalls tree between task value :=
  fun journal further => recalls journal (grows.trans further)

/-- What a run leaves behind: a session that grew, that recalls the answer, and that holds it. -/
structure Leaves (tree : FileTree) (root : Path) (links : Links) (relation : Links → α → α → Prop)
    (task : Task Session α) (value : α) (session after : Session) : Prop where
  grows : Grows session after
  recalls : Recalls tree after task value
  holds : ∃ more, links.Below more ∧ Matches (.same tree root) more after after ∧
      relation more value value

/-- Whatever a task answers is recalled from then on. -/
def Remembered (tree : FileTree) (root : Path) (links : Links) (relation : Links → α → α → Prop)
    (task : Task Session α) : Prop :=
  ∀ journal value after, Matches (.same tree root) links journal.state journal.state →
    task tree journal = (.ok value, after) →
    Leaves tree root links relation task value journal.state after.state

variable {relation : Links → α → α → Prop} {further : Links → β → β → Prop}

theorem remembered_of
    (followed : Followed (.same tree root) links relation task task) (retains : Retains task)
    (recalls : ∀ journal value after, Matches (.same tree root) links journal.state journal.state →
      task tree journal = (.ok value, after) → Recalls tree after.state task value) :
    Remembered tree root links relation task :=
  fun journal value after standing ran =>
    ⟨retains.grows ran, recalls journal value after standing ran, followed.itself standing ran⟩

theorem remembered_pure (related : relation links value value) :
    Remembered tree root links relation (pure value) := by
  intro journal found after standing ran
  cases ran
  exact ⟨.refl _, recalls_pure _, links, .refl _, standing, related⟩

/-- What is remembered goes on to what is remembered. -/
theorem Remembered.bind {next : α → Task Session β}
    (remembered : Remembered tree root links relation task)
    (goesOn : ∀ more, links.Below more → ∀ value, relation more value value →
      Remembered tree root more further (next value)) :
    Remembered tree root links further (task >>= next) := by
  intro journal answer after standing ran
  obtain ⟨value, middle, started, finished⟩ := Task.exists_of_bind_eq_ok ran
  obtain ⟨grows, recalls, more, below, held, related⟩ :=
    remembered journal value middle standing started
  obtain ⟨growsOn, recallsOn, most, above, heldOn, answerRelated⟩ :=
    goesOn more below value related middle answer after held finished
  exact ⟨grows.trans growsOn, (recalls.later growsOn).bind recallsOn, most, below.trans above,
    heldOn, answerRelated⟩

theorem Remembered.map {image : α → β}
    (remembered : Remembered tree root links relation task)
    (implied : ∀ more, links.Below more → ∀ value, relation more value value →
      further more (image value) (image value)) :
    Remembered tree root links further (do return image (← task)) :=
  remembered.bind fun more below value related => remembered_pure (implied more below value related)

end Session

namespace Types

open Session

variable {tree : FileTree} {root : Path} {links : Links} {journal after : Journal Session}
  {α β : Type}

/-! ### What cells keep -/

/-- What was found out for a cell of the session is known there. -/
theorem known_of_kept {find : Task Session α} {index : Nat} {value : α}
    (known : Cell → Option α) (keep : α → Cell → Cell)
    (keeps : ∀ value cell, known (keep value cell) = some value) (retains : Retains find)
    (inside : index < journal.state.cells.size)
    (ran : kept known keep index find tree journal = (.ok value, after)) :
    known (after.state.cell index) = some value := by
  have read : cellOf index tree journal = (.ok (journal.state.cell index), journal) := rfl
  unfold kept at ran
  rw [Task.bind_of_ok read] at ran
  cases found : known (journal.state.cell index) with
  | some other =>
    rw [found] at ran
    cases ran
    exact found
  | none =>
    rw [found] at ran
    obtain ⟨answer, middle, searched, finished⟩ := Task.exists_of_bind_eq_ok ran
    have room := Nat.lt_of_lt_of_le inside (retains.grows searched).size
    cases finished
    unfold Session.cell
    simp only [Array.getD_eq_getD_getElem?, Array.getElem?_modify, if_pos,
      Array.getElem?_eq_getElem room]
    exact keeps _ _

/-- What a cell knows is not found out again. -/
theorem recalls_kept {session : Session} {find : Task Session α} {known : Cell → Option α}
    {keep : α → Cell → Cell} {index : Nat} {value : α}
    (stays : ∀ later, Grows session later → known (later.cell index) = some value) :
    Recalls tree session (kept known keep index find) value := by
  intro journal grows
  have read : cellOf index tree journal = (.ok (journal.state.cell index), journal) := rfl
  unfold kept
  rw [Task.bind_of_ok read, stays journal.state grows]
  rfl

/-! ### What references stand for -/

section Targets

variable {type : TypeTerm}

theorem remembered_step {cell : Nat} {scope : Scope TypeTerm} {arguments : List Node}
    (linked : links.cells cell cell) (scopes : AlikeScope .same links scope scope)
    (code name : String)
    (written : Listwise (Node.CopiedType Revision.same.anywhere) arguments arguments) :
    Remembered tree root links (Alike .same) (step cell code name scope arguments) := by
  refine remembered_of
    (followed_step (Edition.faithful_same tree root) linked scopes rfl (.inl rfl) written)
    (holds_step closed_retains cell code name scope arguments) ?_
  intro journal target after standing ran
  rw [step_eq_kept] at ran ⊢
  have known := known_of_kept Cell.target Cell.keepTarget (fun _ _ => rfl)
    (holds_targetOf closed_retains code name scope arguments) (standing.lt linked) ran
  exact recalls_kept fun later grows => (grows.cells cell).target target known

/-- What a type stands for is found out once. -/
theorem remembered_structureFrom {start : TypeTerm} {hops : Nat}
    (related : Alike .same links type type) :
    Remembered tree root links (Alike .same) (structureFrom start hops type) := by
  induction hops generalizing links type with
  | zero =>
    cases related with
    | reference linked scopes written =>
      exact (remembered_step linked scopes _ _ written).map fun _ _ _ _ => .verbatim rfl
    | _ => exact remembered_pure (by constructor <;> assumption)
  | succ hops ih =>
    cases related with
    | reference linked scopes written =>
      exact (remembered_step linked scopes _ _ written).bind fun _ _ _ => ih
    | _ => exact remembered_pure (by constructor <;> assumption)

theorem remembered_structureOf (related : Alike .same links type type) :
    Remembered tree root links (Alike .same) (structureOf type) :=
  remembered_structureFrom related

theorem remembered_isObject (related : Alike .same links type type) :
    Remembered tree root links (fun _ => Eq) (isObject type) := by
  refine (remembered_structureOf related).bind fun more below target _ => ?_
  split
  · exact remembered_pure rfl
  · exact remembered_pure rfl

/-! ### Members -/

/-- Members are collected once. However deep the declarations of bases may be nested later, they are
not collected again. -/
theorem recalls_membersWith {members : Members TypeTerm} {fuel : Nat}
    (standing : Matches (.same tree root) links journal.state journal.state)
    (related : Alike .same links type type)
    (ran : membersWith (fuel + 1) type tree journal = (.ok members, after)) (other : Nat) :
    Recalls tree after.state (membersWith (other + 1) type) members := by
  rw [membersWith_succ] at ran ⊢
  obtain ⟨target, middle, structured, collected⟩ := Task.exists_of_bind_eq_ok ran
  obtain ⟨_, recalled, more, _, held, alike⟩ :=
    remembered_structureOf related journal target middle standing structured
  cases alike with
  | @object cell _ _ _ _ source _ linked =>
    have collects : ∀ fuel, Retains (collectMembers
        (fun base => do return (← membersWith fuel base).properties) source) := fun fuel =>
      holds_collectMembers closed_retains
        (fun base => closed_retains.map (holds_membersWith closed_retains fuel base)) source
    have known := known_of_kept Cell.members Cell.keepMembers (fun _ _ => rfl) (collects fuel)
      (held.lt linked) collected
    have grows := Retains.grows (closed_retains.keepMembers cell (collects fuel)) collected
    exact (recalled.later grows).bind
      (recalls_kept fun later further => (further.cells cell).members members known)
  | _ =>
    cases collected
    exact recalled.bind (recalls_pure _)

/-- Syntax nodes are counted without finding anything out. -/
theorem sizeBound_returns (journal : Journal Session) :
    ∃ bound, sizeBound tree journal = (.ok bound, journal) :=
  ⟨_, rfl⟩

/-- The members of a type are known to a later run. -/
theorem remembered_membersOf (related : Alike .same links type type) :
    Remembered tree root links (AlikeMembers .same) (membersOf type) := by
  have retains : Retains (membersOf type) :=
    closed_retains.bind closed_retains.sizeBound fun _ => holds_membersWith closed_retains _ type
  refine remembered_of (followed_membersOf (Edition.faithful_same tree root) related) retains ?_
  intro journal members after standing ran later grows
  obtain ⟨bound, counted⟩ : ∃ bound, sizeBound tree journal = (.ok bound, journal) :=
    sizeBound_returns journal
  obtain ⟨other, recounted⟩ : ∃ other, sizeBound tree later = (.ok other, later) :=
    sizeBound_returns later
  unfold membersOf at ran ⊢
  rw [Task.bind_of_ok counted] at ran
  rw [Task.bind_of_ok recounted]
  exact recalls_membersWith standing related ran other later grows

theorem remembered_propertiesOf (related : Alike .same links type type) :
    Remembered tree root links (fun links => Listwise (AlikeProperty .same links))
      (propertiesOf type) :=
  (remembered_membersOf related).map fun _ _ _ ⟨properties, _⟩ => properties

/-! ### Names -/

/-- The name that a type carries itself is known, and it is kept. -/
theorem ownName_later (type : TypeTerm) (journal : Journal Session) :
    ∃ name, ownName type tree journal = (.ok name, journal) ∧
      ∀ later, Grows journal.state later.state → ∃ other,
        ownName type tree later = (.ok other, later) ∧
          ∀ found, name = some found → other = some found := by
  cases type with
  | object cell code name source =>
    cases name with
    | some name => exact ⟨some name, rfl, fun later _ => ⟨some name, rfl, fun _ => id⟩⟩
    | none => exact ⟨_, rfl, fun later grows => ⟨_, rfl, (grows.cells cell).name⟩⟩
  | _ => exact ⟨_, rfl, fun later _ => ⟨_, rfl, fun _ => id⟩⟩

theorem ownName_returns (type : TypeTerm) (journal : Journal Session) :
    ∃ name, ownName type tree journal = (.ok name, journal) :=
  (ownName_later type journal).imp fun _ known => known.1

/-- A reference without a name has the name of what it stands for. -/
theorem symbolOf_of_unnamed (unnamed : type.IsUnnamed) :
    symbolOf type = (do ownName (← structureOf type)) := by
  cases type with
  | reference cell code name scope arguments =>
    have empty : lastName name = "" := unnamed
    unfold symbolOf
    have own : ownName (.reference cell code name scope arguments) = pure (some "") :=
      congrArg (fun name => pure (some name)) empty
    rw [own, pure_bind]
    rfl
  | _ => exact unnamed.elim

/-- The name of any other type is the one that it carries itself, unless that is empty. -/
theorem symbolOf_of_named {own : Option String} (named : ¬type.IsUnnamed)
    (ran : ownName type tree journal = (.ok own, journal)) :
    symbolOf type tree journal = (.ok (own.filter fun name => !name.isEmpty), journal) := by
  unfold symbolOf
  rw [Task.bind_of_ok ran]
  cases carried : own.filter fun name => !name.isEmpty with
  | some name => rfl
  | none =>
    cases type with
    | reference cell code name scope arguments =>
      cases ran
      have empty : lastName name = "" := by simpa using carried
      exact absurd empty named
    | _ => rfl

/-- A name that was found is found again, and where there was none one may be found. -/
theorem symbolOf_later {name : Option String} {later : Journal Session}
    (standing : Matches (.same tree root) links journal.state journal.state)
    (related : Alike .same links type type) (ran : symbolOf type tree journal = (.ok name, after))
    (grows : Grows after.state later.state) :
    ∃ other, symbolOf type tree later = (.ok other, later) ∧
      ∀ found, name = some found → other = some found := by
  by_cases unnamed : type.IsUnnamed
  · rw [symbolOf_of_unnamed unnamed] at ran ⊢
    obtain ⟨target, middle, structured, named⟩ := Task.exists_of_bind_eq_ok ran
    obtain ⟨known, answered, keeps⟩ : ∃ name, ownName target tree middle = (.ok name, middle) ∧ _ :=
      ownName_later target middle
    rw [answered] at named
    cases named
    obtain ⟨other, found, same⟩ := keeps later grows
    have left := remembered_structureOf related journal target _ standing structured
    exact ⟨other, (Task.bind_of_ok (left.recalls later grows)).trans found, same⟩
  · obtain ⟨own, answered, keeps⟩ : ∃ name, ownName type tree journal = (.ok name, journal) ∧ _ :=
      ownName_later type journal
    rw [symbolOf_of_named unnamed answered] at ran
    cases ran
    obtain ⟨other, found, same⟩ := keeps later grows
    refine ⟨_, symbolOf_of_named unnamed found, fun name known => ?_⟩
    obtain ⟨rfl, long⟩ := Option.filter_eq_some_iff.mp known
    rw [same name rfl]
    simpa using long

end Targets

end Types
end ModuleAtlas
