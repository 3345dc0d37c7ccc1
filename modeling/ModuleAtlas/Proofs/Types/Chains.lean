import ModuleAtlas.Proofs.Catalogue.Entries
import ModuleAtlas.Proofs.Types.HandleSessions

/-!
# Chains of references

A reference leads to a type that may be a reference again.  Each cell of such a chain keeps where it
leads, so what is at the end of the chain is found out once.  A chain that goes on for more than the
limit, as every circle does, is cut: of its start nothing but the text is known.  Only a module that
cannot be looked for, or the text of a type argument that is no replacement template, stops a chain.
-/

namespace ModuleAtlas

open Session ModuleAtlas.Types

/-! ## Chains -/

/-- From a type a number of references lead to another one.  Each of their cells knows where it
leads, and what it knows was found by following the reference. -/
inductive Session.Chain (tree : FileTree) (session : Session) :
    Nat → TypeTerm → TypeTerm → Prop where
  | here {type : TypeTerm} : Chain tree session 0 type type
  | hop {hops cell : Nat} {code name : String} {scope : Scope TypeTerm} {arguments : List Node}
      {next last : TypeTerm} (known : (session.cell cell).target = some next)
      (leads : Origin.LeadsTo tree ⟨code, name, scope, arguments⟩ next)
      (rest : Chain tree session hops next last) :
      Chain tree session (hops + 1) (.reference cell code name scope arguments) last

/-- What a type stands for: the end of its chain if it is no longer than the limit, and else its own
text. -/
inductive Session.StandsFor (tree : FileTree) (session : Session) (type : TypeTerm) :
    TypeTerm → Prop where
  | reached {hops : Nat} {last : TypeTerm} (near : hops ≤ hopLimit)
      (chain : Chain tree session hops type last) (settled : last.kind ≠ "reference") :
      StandsFor tree session type last
  | cut {last : TypeTerm} (chain : Chain tree session (hopLimit + 1) type last) :
      StandsFor tree session type (.verbatim type.text)

namespace Session

variable {tree : FileTree} {origins : Origins} {session grown : Session}
  {journal after : Journal Session} {start type last target other : TypeTerm} {hops limit : Nat}

/-! ### Chains that are known -/

theorem recalls_step {cell : Nat} {next : TypeTerm} (known : (session.cell cell).target = some next)
    (code name : String) (scope : Scope TypeTerm) (arguments : List Node) :
    Recalls tree session (step cell code name scope arguments) next := by
  rw [step_eq_kept]
  exact recalls_kept fun _ grows => (grows.cells cell).target next known

/-- The end of a chain that is near enough is recalled. -/
theorem Chain.recalls (chain : Chain tree session hops type last) (near : hops ≤ limit)
    (settled : last.kind ≠ "reference") (start : TypeTerm) :
    Recalls tree session (structureFrom start limit type) last := by
  induction chain generalizing limit with
  | here =>
    rw [structureFrom_eq_pure settled]
    exact recalls_pure _
  | @hop hops cell code name scope arguments _ _ known _ _ ih =>
    cases limit with
    | zero => exact absurd near (Nat.not_succ_le_zero _)
    | succ limit =>
      exact (recalls_step known code name scope arguments).bind
        (ih (Nat.le_of_succ_le_succ near) settled)

/-- The text of the start is recalled if the chain goes on. -/
theorem Chain.recalls_cut (chain : Chain tree session hops type last) (far : limit < hops)
    (start : TypeTerm) :
    Recalls tree session (structureFrom start limit type) (.verbatim start.text) := by
  induction chain generalizing limit with
  | here => exact absurd far (Nat.not_lt_zero _)
  | @hop hops cell code name scope arguments _ _ known _ _ ih =>
    cases limit with
    | zero => exact (recalls_step known code name scope arguments).bind (recalls_pure _)
    | succ limit =>
      exact (recalls_step known code name scope arguments).bind (ih (Nat.lt_of_succ_lt_succ far))

theorem StandsFor.recalls (stands : StandsFor tree session type target) :
    Recalls tree session (structureOf type) target := by
  cases stands with
  | reached near chain settled => exact chain.recalls near settled type
  | cut chain => exact chain.recalls_cut (Nat.lt_succ_self _) type

theorem StandsFor.unique (stands : StandsFor tree session type target)
    (again : StandsFor tree session type other) : target = other := by
  have first := stands.recalls ⟨session, []⟩ (.refl session)
  rw [again.recalls ⟨session, []⟩ (.refl session)] at first
  cases first
  rfl

theorem StandsFor.settled (stands : StandsFor tree session type target) :
    target.kind ≠ "reference" := by
  cases stands with
  | reached _ _ settled => exact settled
  | cut => simp [TypeTerm.kind]

/-! ### Runs -/

/-- What is left of a run behind a hop. -/
def goOn (start : TypeTerm) (limit : Nat) (next : TypeTerm) : Task Session TypeTerm :=
  match limit with
  | 0 => return .verbatim start.text
  | fewer + 1 => structureFrom start fewer next

theorem structureFrom_reference (start : TypeTerm) (limit cell : Nat) (code name : String)
    (scope : Scope TypeTerm) (arguments : List Node) :
    structureFrom start limit (.reference cell code name scope arguments) =
      step cell code name scope arguments >>= goOn start limit := by
  cases limit <;> rfl

theorem retains_goOn (start : TypeTerm) (limit : Nat) (next : TypeTerm) :
    Retains (goOn start limit next) := by
  cases limit with
  | zero => exact retains_pure _
  | succ fewer => exact holds_structureFrom closed_retains start fewer next

section Reference

variable {cell : Nat} {code name : String} {scope : Scope TypeTerm} {arguments : List Node}
  {next : TypeTerm}

/-- A step that answers is a hop of the chain, and what it leads to is handed out. -/
theorem exists_of_step (sound : journal.state.IsSound tree origins)
    (made : origins cell = some ⟨code, name, scope, arguments⟩)
    (stepped : step cell code name scope arguments tree journal = (.ok next, after)) :
    (after.state.cell cell).target = some next ∧
      Origin.LeadsTo tree ⟨code, name, scope, arguments⟩ next ∧
      ∃ more, after.state.IsSound tree more ∧ IsHandle more next := by
  obtain ⟨more, -, ended, ofAnswer⟩ := gives_step made journal sound
  rw [stepped] at ended ofAnswer
  obtain ⟨handle, leads⟩ := ofAnswer next rfl
  rw [step_eq_kept] at stepped
  have known := known_of_kept Cell.target Cell.keepTarget (fun _ _ => rfl)
    (holds_targetOf closed_retains code name scope arguments) (sound.room cell _ made) stepped
  exact ⟨known, leads, more, ended, handle⟩

/-- A step fails only where the target is not known yet, and for the failure of looking it up. -/
theorem step_error {failure : Failure}
    (stepped : step cell code name scope arguments tree journal = (.error failure, after)) :
    (journal.state.cell cell).target = none ∧
      targetOf code name scope arguments tree journal = (.error failure, after) := by
  have read : cellOf cell tree journal = (.ok (journal.state.cell cell), journal) := rfl
  unfold step at stepped
  rw [Task.bind_of_ok read] at stepped
  cases known : (journal.state.cell cell).target with
  | some next =>
    rw [known] at stepped
    cases stepped
  | none =>
    rw [known] at stepped
    rcases Task.error_of_bind_eq_error stepped with failed | ⟨next, between, -, kept⟩
    · exact ⟨rfl, failed⟩
    · cases kept

end Reference

/-- A chain is stopped at a reference that is near enough: where it leads is not known and cannot be
found out. -/
inductive StopsAt (tree : FileTree) (after : Journal Session) (limit : Nat) (type : TypeTerm)
    (failure : Failure) : Prop where
  | mk {hops cell : Nat} {code name : String} {scope : Scope TypeTerm} {arguments : List Node}
      {between : Journal Session} (near : hops ≤ limit)
      (chain : Chain tree after.state hops type (.reference cell code name scope arguments))
      (unknown : (between.state.cell cell).target = none)
      (failed : targetOf code name scope arguments tree between = (.error failure, after))

section

variable (sound : journal.state.IsSound tree origins) (handle : IsHandle origins type)

include sound handle

/-- What a run comes to: the type is no reference, or the chain is stopped at it, or it is the first
hop of a chain, behind which the run goes on. -/
theorem cases_of_structureFrom {outcome : Except Failure TypeTerm}
    (ran : structureFrom start limit type tree journal = (outcome, after)) :
    (type.kind ≠ "reference" ∧ outcome = .ok type) ∨
    (∃ failure, outcome = .error failure ∧ StopsAt tree after limit type failure) ∨
    ∃ next more between,
      (∀ hops last, Chain tree after.state hops next last →
        Chain tree after.state (hops + 1) type last) ∧
      between.state.IsSound tree more ∧ IsHandle more next ∧
      goOn start limit next tree between = (outcome, after) := by
  cases handle with
  | @reference cell code name scope arguments made =>
    right
    rw [structureFrom_reference] at ran
    rcases stepped : step cell code name scope arguments tree journal with ⟨failure | next, between⟩
    · rw [Task.bind_of_error stepped] at ran
      cases ran
      obtain ⟨unknown, failed⟩ := step_error stepped
      exact .inl ⟨failure, rfl, Nat.zero_le _, .here, unknown, failed⟩
    · rw [Task.bind_of_ok stepped] at ran
      obtain ⟨known, leads, more, ended, ofNext⟩ := exists_of_step sound made stepped
      have grows := retains_goOn start limit next tree between
      rw [ran] at grows
      exact .inr ⟨next, more, between, fun _ _ => .hop ((grows.cells cell).target next known) leads,
        ended, ofNext, ran⟩
  | _ =>
    rw [structureFrom_eq_pure (by simp [TypeTerm.kind])] at ran
    cases ran
    exact .inl ⟨by simp [TypeTerm.kind], rfl⟩

/-- A run that answers has come to the end of a chain, or has gone beyond the limit. -/
theorem exists_chain_of_ok
    (ran : structureFrom start limit type tree journal = (.ok target, after)) :
    (∃ hops ≤ limit, Chain tree after.state hops type target ∧ target.kind ≠ "reference") ∨
      target = .verbatim start.text ∧ ∃ last, Chain tree after.state (limit + 1) type last := by
  induction limit using Nat.strongRecOn generalizing journal type origins with
  | ind limit ih =>
    rcases cases_of_structureFrom sound handle ran with
      ⟨settled, same⟩ | ⟨_, impossible, -⟩ | ⟨next, _, _, hop, goesOn, ofNext, ended⟩
    · cases same
      exact .inl ⟨0, Nat.zero_le _, .here, settled⟩
    · cases impossible
    · cases limit with
      | zero =>
        cases ended
        exact .inr ⟨rfl, next, hop _ _ .here⟩
      | succ fewer =>
        rcases ih fewer (Nat.lt_succ_self _) goesOn ofNext ended with
          ⟨hops, near, chain, settled⟩ | ⟨cut, last, chain⟩
        · exact .inl ⟨hops + 1, Nat.succ_le_succ near, hop _ _ chain, settled⟩
        · exact .inr ⟨cut, last, hop _ _ chain⟩

theorem standsFor_of_ok (ran : structureOf type tree journal = (.ok target, after)) :
    StandsFor tree after.state type target := by
  rcases exists_chain_of_ok sound handle ran with ⟨hops, near, chain, settled⟩ | ⟨rfl, last, chain⟩
  · exact .reached near chain settled
  · exact .cut chain

end

/-! ### Runs that are stopped -/

/-- Following a handle fails only at a reference that the chain comes to. -/
theorem stopsAt_of_error {failure : Failure} (sound : journal.state.IsSound tree origins)
    (handle : IsHandle origins type)
    (ran : structureFrom start limit type tree journal = (.error failure, after)) :
    StopsAt tree after limit type failure := by
  induction limit using Nat.strongRecOn generalizing journal type origins with
  | ind limit ih =>
    rcases cases_of_structureFrom sound handle ran with
      ⟨_, impossible⟩ | ⟨_, same, stops⟩ | ⟨_, _, _, hop, goesOn, ofNext, ended⟩
    · cases impossible
    · cases same
      exact stops
    · cases limit with
      | zero => cases ended
      | succ fewer =>
        obtain ⟨near, chain, unknown, failed⟩ :=
          ih fewer (Nat.lt_succ_self _) goesOn ofNext ended
        exact ⟨Nat.succ_le_succ near, hop _ _ chain, unknown, failed⟩

/-- What stops a chain: a module cannot be looked for, or a text is taken for a template and is
none. -/
inductive Halts (tree : FileTree) : Failure → Prop where
  | load {specifier : String} {importer : SourceModule} {before after : Journal Session}
      {failure : Failure} (ran : load specifier importer tree before = (.error failure, after)) :
      Halts tree failure
  | replacement {expression : Regex.Expression} {template text : String} {fault : Regex.Fault}
      (escaped : '\\' ∈ template.toList)
      (refused : expression.replace template text = .error fault) :
      Halts tree (.replacement fault)

/-- A task that nothing else stops. -/
def HaltsOnly {α : Type} (tree : FileTree) (task : Task Session α) : Prop :=
  Task.Ends tree (fun _ => True) (fun _ => True) (Halts tree) task

variable {α β : Type}

theorem haltsOnly_of_answers {task : Task Session α}
    (answers : ∀ journal, ∃ value after, task tree journal = (.ok value, after)) :
    HaltsOnly tree task := fun journal _ =>
  have ⟨value, after, ran⟩ := answers journal
  ⟨.ok value, after, ran, .ok trivial, trivial⟩

theorem HaltsOnly.bind {task : Task Session α} {next : α → Task Session β}
    (first : HaltsOnly tree task) (second : ∀ value, HaltsOnly tree (next value)) :
    HaltsOnly tree (task >>= next) :=
  Task.Ends.bind first fun value _ => second value

theorem haltsOnly_setCell (index : Nat) (change : Cell → Cell) :
    HaltsOnly tree (setCell index change) :=
  haltsOnly_of_answers fun _ => ⟨_, _, rfl⟩

theorem haltsOnly_nameAlias (name : String) (target : TypeTerm) :
    HaltsOnly tree (nameAlias name target) := by
  unfold nameAlias
  split
  · refine HaltsOnly.bind (haltsOnly_of_answers fun _ => ⟨_, _, rfl⟩) fun known => ?_
    split
    · exact haltsOnly_setCell _ _
    · exact Task.ends_pure trivial
  · exact Task.ends_pure trivial

theorem haltsOnly_kept {find : Task Session α} (halts : HaltsOnly tree find)
    (known : Cell → Option α) (keep : α → Cell → Cell) (index : Nat) :
    HaltsOnly tree (kept known keep index find) := by
  refine HaltsOnly.bind (haltsOnly_of_answers fun _ => ⟨_, _, rfl⟩) fun found => ?_
  split
  · exact Task.ends_pure trivial
  · exact halts.bind fun value => (haltsOnly_setCell index _).bind fun _ => Task.ends_pure trivial

theorem haltsOnly_once {collect : Task Session (Members TypeTerm)} (halts : HaltsOnly tree collect)
    (key : Path × Nat) :
    HaltsOnly tree (once key collect) := by
  intro journal _
  rw [once_eq]
  split
  · exact ⟨_, _, rfl, .ok trivial, trivial⟩
  · obtain ⟨outcome, after, ran, ofOutcome, -⟩ := halts (entering key journal) trivial
    rw [ran]
    exact ⟨outcome, _, rfl, ofOutcome, trivial⟩

theorem haltsOnly_load (specifier : String) (importer : SourceModule) :
    HaltsOnly tree (load specifier importer) := by
  intro journal _
  rcases ran : load specifier importer tree journal with ⟨failure | found, after⟩
  · exact ⟨_, after, rfl, .error (.load ran), trivial⟩
  · exact ⟨_, after, rfl, .ok trivial, trivial⟩

/-- Reading is stopped as its steps are. -/
theorem closed_haltsOnly : Closed fun _ => HaltsOnly tree where
  pure _ := Task.ends_pure trivial
  bind := .bind
  state := haltsOnly_of_answers fun _ => ⟨_, _, rfl⟩
  newCell := haltsOnly_of_answers fun _ => ⟨_, _, rfl⟩
  nameAlias := haltsOnly_nameAlias
  keepTarget index halts := haltsOnly_kept halts _ _ index
  keepMembers index halts := haltsOnly_kept halts _ _ index
  newParameterList := haltsOnly_of_answers fun _ => ⟨_, _, rfl⟩
  keepParameters _ _ := haltsOnly_of_answers fun _ => ⟨_, _, rfl⟩
  once key halts := haltsOnly_once halts key
  load := haltsOnly_load
  sizeBound := haltsOnly_of_answers fun _ => ⟨_, _, rfl⟩
  refuse refused :=
    Task.ends_fail (.replacement (Regex.Expression.escaped_of_replace_error refused) refused)

theorem halts_of_error {task : Task Session α} {failure : Failure} (halts : HaltsOnly tree task)
    (ran : task tree journal = (.error failure, after)) : Halts tree failure := by
  obtain ⟨outcome, _, again, ofOutcome, -⟩ := halts journal trivial
  rw [ran] at again
  cases again
  cases ofOutcome with
  | error caused => exact caused

end Session

/-! ## What is asked for later -/

namespace Types

variable {tree : FileTree} {journal between later after : Journal Session}
  {types more : List TypeTerm} {type : TypeTerm} {outcome : Except Failure TypeTerm}

/-- From a session in which some types have been handed out more is asked for, which leads to
another one. -/
inductive Continues (tree : FileTree) (journal : Journal Session) (types : List TypeTerm) :
    Journal Session → List TypeTerm → Prop where
  | here : Continues tree journal types journal types
  | asked {between later : Journal Session} {more : List TypeTerm}
      {task : Task Session (List TypeTerm)} {outcome : Except Failure (List TypeTerm)}
      (continues : Continues tree journal types between more) (asks : Asks more task)
      (ran : task tree between = (outcome, later)) :
      Continues tree journal types later (outcome.toOption.getD [] ++ more)

theorem retains_asks {task : Task Session (List TypeTerm)} (asks : Asks types task) :
    Retains task := by
  cases asks with
  | syntaxOf source node => exact closed_retains.map (holds_typeOf closed_retains _ node)
  | valueOf source constant node =>
    exact closed_retains.map (holds_valueType closed_retains _ constant node)
  | declaration declaration source =>
    exact closed_retains.map (holds_declarationType closed_retains declaration source)
  | parts => exact retains_pure _
  | «structure» => exact closed_retains.map (holds_structureOf closed_retains _)
  | members =>
    exact closed_retains.map (closed_retains.bind closed_retains.sizeBound fun _ =>
      holds_membersWith closed_retains _ _)
  | elsewhere leaves =>
    exact (retains_of_leaves fun tree journal => (leaves tree journal).1).bind fun _ =>
      retains_pure _

theorem Continues.grows (continues : Continues tree journal types later more) :
    Grows journal.state later.state := by
  induction continues with
  | here => exact .refl _
  | @asked between later _ _ _ _ asks ran ih =>
    have grows := retains_asks asks tree between
    rw [ran] at grows
    exact ih.trans grows

/-- A type that was handed out stands for the end of its chain, which is no reference: the first
type within the limit that is none, and nothing but its own text if there is no such type.  Whatever
else is asked for, it stands for the same from then on.  Only a reference on the way whose target
cannot be found stops this: a module cannot be looked for, or the text of an argument is refused. -/
theorem structure_ends_chain (handed : HandedOut tree journal types) (member : type ∈ types)
    (ran : structureOf type tree journal = (outcome, after)) :
    (∃ target, outcome = .ok target ∧ target.kind ≠ "reference" ∧
      (∀ other, StandsFor tree after.state type other ↔ other = target) ∧
      ∀ later more, Continues tree after (target :: types) later more →
        structureOf type tree later = (.ok target, later)) ∨
    ∃ failure, outcome = .error failure ∧ StopsAt tree after hopLimit type failure ∧
      Halts tree failure := by
  obtain ⟨origins, sound, each⟩ := handed.exists_origins
  have handle := each type member
  cases outcome with
  | ok target =>
    have stands := standsFor_of_ok sound handle ran
    refine .inl ⟨target, rfl, stands.settled, fun other => ⟨fun again => again.unique stands, ?_⟩,
      fun later more continues => stands.recalls later continues.grows⟩
    rintro rfl
    exact stands
  | error failure =>
    exact .inr ⟨failure, rfl, stopsAt_of_error sound handle ran,
      halts_of_error (holds_structureOf closed_haltsOnly type) ran⟩

/-! ### Aliases of aliases -/

/-- The use of a type by its name. -/
def nameUse (name : String) : Node := .mk "type_identifier" true (some "value") 0 1 name []

/-- The file with an alias of an alias, and with two that are each other's. -/
def aliasModule : SourceModule := .ofTree (.ofRoot ["a.ts"]) .plain (program [
  Catalogue.aliasStatement "Short" (nameUse "Plain"),
  Catalogue.aliasStatement "Plain" (.mk "predefined_type" true (some "value") 0 1 "string" []),
  Catalogue.aliasStatement "Left" (nameUse "Right"),
  Catalogue.aliasStatement "Right" (nameUse "Left")])

/-- What the use of a name stands for, and what it is. -/
def followed (source : SourceModule) (name : String) : Task Session (String × String × String) := do
  let type ← typeOf ⟨source, [], none⟩ (nameUse name)
  let target ← structureOf type
  return (type.kind, target.kind, target.text)

theorem exists_of_followed {source : SourceModule} {name kind targetKind text : String}
    (answers : ((followed source name).outcomeFrom tree (.fresh (.ofRoot []))).map id =
      .ok (kind, targetKind, text)) :
    ∃ journal type target after, HandedOut tree journal [type] ∧ type.kind = kind ∧
      structureOf type tree journal = (.ok target, after) ∧ target.kind = targetKind ∧
      target.text = text := by
  obtain ⟨seen, last, ran, same⟩ := Task.exists_of_outcomeFrom answers
  obtain ⟨type, journal, read, ran⟩ := Task.exists_of_bind_eq_ok ran
  obtain ⟨target, after, structured, ran⟩ := Task.exists_of_bind_eq_ok ran
  cases ran
  cases same
  exact ⟨journal, type, target, _, .asked (.start (.ofRoot []) []) (.syntaxOf source (nameUse name))
    (Task.bind_of_ok read), rfl, structured, rfl, rfl⟩

/-- Of an alias in a circle nothing but its name is known, however often it is asked for. -/
theorem circle_is_cut :
    ∃ journal type target after, HandedOut default journal [type] ∧ type.kind = "reference" ∧
      structureOf type default journal = (.ok target, after) ∧ target.kind = "opaque" ∧
      target.text = "Left" ∧ StandsFor default after.state type target ∧
      ∀ later more, Continues default after [target, type] later more →
        structureOf type default later = (.ok target, later) := by
  have answers : ((followed aliasModule "Left").outcomeFrom default (.fresh (.ofRoot []))).map id =
      .ok ("reference", "opaque", "Left") := by
    decide +kernel
  obtain ⟨journal, type, target, after, handed, isReference, ran, opaqueKind, text⟩ :=
    exists_of_followed answers
  rcases structure_ends_chain handed List.mem_cons_self ran with
    ⟨_, same, -, stands, later⟩ | failed
  · cases same
    exact ⟨journal, type, target, after, handed, isReference, ran, opaqueKind, text,
      (stands target).mpr rfl, later⟩
  · obtain ⟨_, impossible, -⟩ := failed
    cases impossible

/-- The alias of an alias stands for what this one is an alias of. -/
example : ((followed aliasModule "Short").outcomeFrom default (.fresh (.ofRoot []))).map id =
    .ok ("reference", "primitive", "string") := by
  decide +kernel

/-- The module of the file that exports the keys of a text with a backslash. -/
def keysModule : SourceModule := .ofTree (.ofRoot ["a.ts"]) .plain Catalogue.keysFile

/-- The chain of an alias stops where the text of a type argument is taken for a template. -/
theorem escape_stops_chain :
    ∃ journal type after, HandedOut Catalogue.keysTree journal [type] ∧ type.kind = "reference" ∧
      structureOf type Catalogue.keysTree journal =
        (.error (.replacement .unknownGroup), after) := by
  have answers : ((do return (← typeOf ⟨keysModule, [], none⟩ (nameUse "Escaped")).kind :
      Task Session String).outcomeFrom Catalogue.keysTree (.fresh (.ofRoot []))).map id =
        .ok "reference" := by
    decide +kernel
  have stopped : ∃ after, followed keysModule "Escaped" Catalogue.keysTree
      ⟨.fresh (.ofRoot []), []⟩ = (.error (.replacement .unknownGroup), after) := ⟨_, rfl⟩
  obtain ⟨_, journal, ran, isReference⟩ := Task.exists_of_outcomeFrom answers
  obtain ⟨type, _, read, ran⟩ := Task.exists_of_bind_eq_ok ran
  cases ran
  obtain ⟨after, failed⟩ := stopped
  unfold followed at failed
  rw [Task.bind_of_ok read] at failed
  have handed : HandedOut Catalogue.keysTree journal [type] :=
    .asked (.start (.ofRoot []) []) (.syntaxOf keysModule (nameUse "Escaped"))
      (Task.bind_of_ok read)
  rcases Task.error_of_bind_eq_error failed with structured | ⟨_, _, _, finished⟩
  · exact ⟨journal, type, after, handed, isReference, structured⟩
  · cases finished

end Types
end ModuleAtlas
