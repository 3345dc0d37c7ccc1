import ModuleAtlas.Proofs.Session.Worlds
import ModuleAtlas.Proofs.Catalogue.Names
import ModuleAtlas.Proofs.Catalogue.Twins
import ModuleAtlas.Proofs.Shape.Closed

/-!
# Entries of a catalogue

A session is idle when it reads from a file tree and is collecting no members.  A task that is
followed by itself and that only faults stop comes to the same outcome from all idle sessions: the
one that it comes to alone, from a session that has read nothing yet.

An extraction consists of such parts: where an input leads, the file there, its module, the exports
of the module, and what is told of each wanted export.  Each part comes to what it comes to alone,
whatever was read before.  So the catalogue holds one entry for each wanted export: the export as it
is described alone, or the reason why it cannot be, or a word that there was no room for the calls
that it takes.  There is no catalogue only when one of the parts is stopped by a fault that gives no
reason, which stops it alone as well, or when there is no room to list the exports of a module.
-/

namespace ModuleAtlas
namespace Session

variable {α β : Type} {tree : FileTree} {root : Path} {task : Task Session α} {value other : α}
  {outcome : Except Failure α}

/-! ## Outcomes that do not depend on a session -/

/-- A session that reads from a file tree and is collecting no members. -/
abbrev Idle (tree : FileTree) (root : Path) : Session → Prop := Collecting tree root []

theorem idle_fresh : Idle tree root (fresh root) := ⟨fromTree_fresh, rfl⟩

/-- What a task answers alone, from a session that has read nothing yet. -/
def Answers (tree : FileTree) (root : Path) (task : Task Session α) (value : α) : Prop :=
  task.outcomeFrom tree (fresh root) = .ok value

/-- A fault stops a task, alone as well. -/
structure Stops
    (tree : FileTree) (root : Path) (task : Task Session α) (failure : Failure) : Prop where
  fault : Fault tree root failure
  alone : task.outcomeFrom tree (fresh root) = .error failure

/-- A task whose outcome does not depend on what a session has read before. -/
structure Independent (tree : FileTree) (root : Path) (task : Task Session α) : Prop where
  orderly : Orderly tree root task
  followed : ∀ links, Followed (.same tree root) links (fun _ => Eq) task task

theorem independent_pure (value : α) : Independent tree root (pure value : Task Session α) :=
  ⟨closed_orderly.pure _, fun _ => followed_pure rfl⟩

namespace Independent

section

variable (independent : Independent tree root task)

include independent

/-- What a task comes to from one idle session it comes to from all of them. -/
theorem agrees {journal twin : Journal Session}
    (idle : Idle tree root journal.state) (twinIdle : Idle tree root twin.state)
    (came : (task tree journal).1 = outcome) :
    (task tree twin).1 = outcome := by
  have matched : Matches (.same tree root) .empty journal.state twin.state :=
    matches_empty idle.fromTree twinIdle.fromTree
      (by rw [Edition.map_moved_same, twinIdle.expanding_eq, idle.expanding_eq])
  obtain ⟨_, _, twinAfter, twinRan, _, _, outcomes⟩ :=
    independent.followed .empty journal twin outcome _ matched (Prod.ext came rfl)
  rw [twinRan, outcomes.eq]

/-- From every idle session a task comes to what it comes to alone. -/
theorem settles_alone (alone : task.outcomeFrom tree (fresh root) = outcome) :
    Task.Settles tree (Idle tree root) task outcome := by
  intro journal idle
  obtain ⟨found, after, ran, _, kept⟩ := independent.orderly [] journal idle
  have same : (task tree journal).1 = outcome := independent.agrees idle_fresh idle alone
  rw [ran] at same
  exact ⟨after, same ▸ ran, kept⟩

/-- From every idle session a task comes to the answer that it gives alone, or it is stopped there
and alone. -/
theorem ends :
    Task.Ends tree (Idle tree root) (Answers tree root task) (Stops tree root task) task := by
  intro journal idle
  obtain ⟨outcome, after, ran, ofOne, kept⟩ := independent.orderly [] journal idle
  have alone : task.outcomeFrom tree (fresh root) = outcome :=
    independent.agrees idle idle_fresh (congrArg Prod.fst ran)
  refine ⟨outcome, after, ran, ?_, kept⟩
  cases ofOne with
  | ok => exact .ok alone
  | error fault => exact .error ⟨fault, alone⟩

theorem ends_by {cause : Failure → Prop}
    (blamed : ∀ failure, Stops tree root task failure → cause failure) :
    Task.Ends tree (Idle tree root) (Answers tree root task) cause task :=
  independent.ends.imp (fun _ => id) blamed

/-- What a task answers alone it answers from every idle session. -/
theorem settles (answers : Answers tree root task value) :
    Task.Settles tree (Idle tree root) task (.ok value) :=
  independent.settles_alone answers

end

theorem bind {next : α → Task Session β} (first : Independent tree root task)
    (second : ∀ value, Independent tree root (next value)) :
    Independent tree root (task >>= next) := by
  refine ⟨closed_orderly.bind first.orderly fun value => (second value).orderly, fun links => ?_⟩
  refine (first.followed links).bind ?_
  rintro more _ value _ rfl
  exact (second value).followed more

theorem map {image : α → β} (first : Independent tree root task) :
    Independent tree root (do return image (← task)) :=
  first.bind fun _ => independent_pure _

end Independent

theorem independent_passes (test : Entry → Bool) (path : Path) :
    Independent tree root (Task.passes test path) := by
  have steady : ∀ good : FileTree → Session → Prop, Task.SteadyAmong (· = tree) good
      (fun passed => tree.passes test path = .ok passed) (Task.passes test path) :=
    fun _ => Task.steady_passes_of fun _ same => by rw [same]
  exact ⟨fun _ => (Task.ends_passes test path .long).anyhow, fun _ =>
    followed_of_steady steady rfl rfl⟩

theorem independent_resolvePath (path : Path) : Independent tree root (Task.resolvePath path) :=
  ⟨fun _ => (ends_resolvePath path).anyhow, fun _ =>
    followed_resolvePath (Edition.faithful_same tree root) path⟩

theorem independent_resolving
    {start : Path} {specifier : String} {task : Task Resolver α} {kind steadyKind : α → Prop}
    (stopped : Resolver.Stopped tree root start specifier kind task)
    (steady : Resolver.Steady tree root steadyKind task) :
    Independent tree root (resolving task) :=
  ⟨fun _ => (ends_resolving stopped).anyhow, fun _ => followed_resolving (.refl tree) steady⟩

theorem independent_parse (path : Path) : Independent tree root (parse path) :=
  (independent_resolvePath path).bind fun canonical =>
    ⟨fun _ => (ends_readModule canonical).anyhow, fun links =>
      ((paired_same tree root).reads links canonical).mono fun _ _ _ => Outcomes.eq⟩

end Session

namespace Catalogue

open Session ModuleAtlas.Types

variable {tree : FileTree} {root base path : Path} {simplifier : Simplifier} {stack : Stack}
  {wanted : Option (List String)} {input : String} {failure : Failure} {what : Overflow}

/-! ## Parts of an extraction -/

theorem independent_declarationText
    (simplifier : Simplifier) (declaration : Declaration) (source : SourceModule) :
    Independent tree root (declarationText simplifier declaration source) :=
  ⟨holds_declarationText closed_orderly simplifier declaration source, fun _ =>
    (followed_declarationText (simplifier.presents_same tree root) (source.revised_same _)
      (declaration.revised_same _)).mono fun _ _ _ agree => agree Spelling.isSame_same rfl⟩

theorem independent_declarationShape
    (simplifier : Simplifier) (declaration : Declaration) (source : SourceModule) :
    Independent tree root (declarationShape simplifier declaration source) :=
  ⟨holds_declarationShape closed_orderly simplifier declaration source, fun _ =>
    (followed_declarationShape (simplifier.presents_same tree root) (source.revised_same _)
      (declaration.revised_same _)).mono fun _ _ _ => Shape.Spelled.eq⟩

theorem independent_tell
    (simplifier : Simplifier) (declaration : Declaration) (source : SourceModule) :
    Independent tree root (tell simplifier declaration source) :=
  (independent_declarationText simplifier declaration source).bind fun _ =>
    (independent_declarationShape simplifier declaration source).map

theorem independent_moduleExports (source : SourceModule) :
    Independent tree root (moduleExports source) :=
  ⟨holds_moduleExports closed_orderly source, fun _ =>
    (followed_moduleExports (paired_same tree root) rfl).mono fun _ _ _ related =>
      (related.mono fun _ _ => eq_of_exportAlike).eq⟩

theorem independent_fileAt (path : Path) : Independent tree root (fileAt root path) :=
  (independent_resolvePath path).map

theorem independent_firstFile? (paths : List Path) :
    Independent tree root (Resolver.firstFile? paths) := by
  constructor
  · intro expanding
    have each : ∀ path : Path, Task.Ends tree (Collecting tree root expanding)
        (fun passed => passed = true → True) (Fault tree root) (Task.isFile path) := fun path =>
      (Task.ends_passes Entry.isFile path .long).imp (fun _ _ _ => trivial) fun _ => id
    exact (Task.ends_findM? each).anyhow
  · exact fun _ => followed_of_steady (fun _ => Resolver.steady_firstFile? paths) (.refl tree)
      (.refl tree)

/-- A file that was found is seen under its canonical path. -/
theorem independent_canonical (found : Option Path) :
    Independent tree root (do
      match found with
      | some found => return some (← Task.resolvePath found)
      | none => return none : Task Session (Option Path)) := by
  cases found with
  | some found => exact (independent_resolvePath found).map
  | none => exact independent_pure none

theorem independent_directoryEntry (directory : Path) :
    Independent tree root (directoryEntry directory) := by
  refine (independent_passes Entry.isFile _).bind fun isFile => ?_
  split
  · refine Independent.bind ?_ fun manifest => ?_
    · have stopped : Resolver.Stopped tree root directory "" _ _ :=
        Resolver.stopped_readManifestQuietly (directory.child "package.json")
      exact independent_resolving stopped (Resolver.steady_readManifestQuietly _)
    · split
      · refine (independent_passes Entry.isFile _).bind fun isFile => ?_
        split
        · exact (independent_resolvePath _).map
        · exact independent_pure none
      · exact independent_pure none
  · exact (independent_firstFile? _).bind independent_canonical

theorem independent_resolveInput (input : String) (directory : Path) :
    Independent tree root (resolveInput input directory) := by
  refine (independent_passes Entry.isFile _).bind fun isFile => ?_
  split
  · exact (independent_resolvePath _).map
  · refine (independent_passes Entry.isDirectory _).bind fun isDirectory => ?_
    split
    · exact independent_directoryEntry _
    · split
      · refine Independent.bind ?_ independent_canonical
        exact independent_resolving Resolver.stopped_resolvePackage
          (Resolver.steady_resolvePackage input directory)
      · exact independent_pure none

/-! ## Room for calls -/

/-- A run that breaks off for want of room leaves an idle session idle, as a run that is stopped by
anything else does. -/
structure Stack.Spares (stack : Stack) (tree : FileTree) (root : Path) : Prop where
  listing : ∀ source journal what after, Idle tree root journal.state →
    stack.listing source tree journal = some (what, after) → Idle tree root after.state
  telling : ∀ declaration source journal what after, Idle tree root journal.state →
    stack.telling declaration source tree journal = some (what, after) →
    Idle tree root after.state

theorem spares_ample : Stack.ample.Spares tree root where
  listing _ _ _ _ _ cut := by cases cut
  telling _ _ _ _ _ _ cut := by cases cut

/-- In some idle session there is no room to list the exports of a module. -/
def Stack.CutsListing (stack : Stack) (tree : FileTree) (root : Path) (source : SourceModule)
    (what : Overflow) : Prop :=
  ∃ journal after, Idle tree root journal.state ∧
    stack.listing source tree journal = some (what, after)

/-- In some idle session there is no room to tell what an export is. -/
def Stack.CutsTelling (stack : Stack) (tree : FileTree) (root : Path) (found : Export)
    (what : Overflow) : Prop :=
  ∃ journal after, Idle tree root journal.state ∧
    stack.telling found.declaration found.source tree journal = some (what, after)

theorem not_cutsTelling_ample {found : Export} : ¬Stack.ample.CutsTelling tree root found what := by
  rintro ⟨_, _, _, cut⟩
  cases cut

/-- A task with a bound on its calls ends as it does without, or it breaks off. -/
theorem ends_bounded {α : Type} {task : Task Session α} {kind : α → Prop} {cause : Failure → Prop}
    {shortage : Shortage} (ends : Task.Ends tree (Idle tree root) kind cause task)
    (cut : ∀ journal what after, Idle tree root journal.state →
      shortage tree journal = some (what, after) →
      Idle tree root after.state ∧ cause (.overflow what)) :
    Task.Ends tree (Idle tree root) kind cause (bounded shortage task) := by
  intro journal idle
  unfold bounded
  cases short : shortage tree journal with
  | none => exact ends journal idle
  | some found =>
    obtain ⟨kept, blamed⟩ := cut journal found.1 found.2 idle short
    exact ⟨_, _, rfl, .error blamed, kept⟩

/-! ## Entries -/

section Entries

variable {found : Export} {description other : Description}

/-- A description of an export: the text of its declaration and the shape of its type, each as it is
told alone. -/
structure Tells
    (tree : FileTree) (root : Path) (simplifier : Simplifier) (found : Export)
    (description : Description) : Prop where
  text : Answers tree root (declarationText simplifier found.declaration found.source)
    description.declaration
  shape : Answers tree root (declarationShape simplifier found.declaration found.source)
    description.shape

/-- A description is what is told alone. -/
theorem Tells.answers (tells : Tells tree root simplifier found description) :
    Answers tree root (tell simplifier found.declaration found.source) description := by
  have settled : Task.Settles tree (Idle tree root)
      (tell simplifier found.declaration found.source) (.ok description) :=
    ((independent_declarationText _ _ _).settles tells.text).bind
      (((independent_declarationShape _ _ _).settles tells.shape).bind (Task.settles_pure _))
  exact settled.outcomeFrom_eq idle_fresh

/-- From every idle session an export is told as it is alone, or telling it is stopped, alone as
well. -/
theorem ends_tell (simplifier : Simplifier) (found : Export) :
    Task.Ends tree (Idle tree root) (Tells tree root simplifier found)
      (Stops tree root (tell simplifier found.declaration found.source))
      (tell simplifier found.declaration found.source) := by
  have independent : Independent tree root _ :=
    independent_tell simplifier found.declaration found.source
  have told : Task.Ends tree (Idle tree root) (Tells tree root simplifier found) (fun _ => True)
      (tell simplifier found.declaration found.source) :=
    ((independent_declarationText _ _ _).ends_by fun _ _ => trivial).bind fun _ text =>
      ((independent_declarationShape _ _ _).ends_by fun _ _ => trivial).map fun _ shape =>
        ⟨text, shape⟩
  exact independent.ends.imp (fun _ => told.kind_of_answer idle_fresh) fun _ => id

/-- An export cannot be described, nor could it be alone, and there is no reason to give. -/
structure Undescribed (tree : FileTree) (root : Path) (simplifier : Simplifier) (found : Export)
    (failure : Failure) : Prop where
  stops : Stops tree root (tell simplifier found.declaration found.source) failure
  unreasoned : failure.reason? = none

theorem Undescribed.untold (undescribed : Undescribed tree root simplifier found failure) :
    failure.message? = none :=
  undescribed.stops.fault.untold

/-- The entry of an export carries its name and the kind of its declaration, and its description as
it is told alone, or the reason why it cannot be told alone either, or what there is no room for. -/
inductive Describes (tree : FileTree) (root : Path) (stack : Stack) (simplifier : Simplifier)
    (found : Export) : ExportEntry → Prop where
  | told {description : Description} (tells : Tells tree root simplifier found description) :
      Describes tree root stack simplifier found
        ⟨found.name, found.declaration.kind, .ok description⟩
  | untold {failure : Failure} {reason : String}
      (stops : Stops tree root (tell simplifier found.declaration found.source) failure)
      (reasoned : failure.reason? = some reason) :
      Describes tree root stack simplifier found
        ⟨found.name, found.declaration.kind, .error reason⟩
  | cut {what : Overflow} (cuts : stack.CutsTelling tree root found what) :
      Describes tree root stack simplifier found
        ⟨found.name, found.declaration.kind, .error what.message⟩

/-- An export ends in an entry that describes it, or the extraction fails. -/
theorem ends_entryOn (spares : stack.Spares tree root) (simplifier : Simplifier) (found : Export) :
    Task.Ends tree (Idle tree root) (Describes tree root stack simplifier found)
      (Undescribed tree root simplifier found) (entryOn stack simplifier found) := by
  have bounds : Task.Ends tree (Idle tree root) (Tells tree root simplifier found)
      (fun failure => Stops tree root (tell simplifier found.declaration found.source) failure ∨
        ∃ what, failure = .overflow what ∧ stack.CutsTelling tree root found what)
      (bounded (stack.telling found.declaration found.source)
        (tell simplifier found.declaration found.source)) := by
    refine ends_bounded ((ends_tell simplifier found).imp (fun _ => id) fun _ => .inl) ?_
    intro journal what after idle cut
    exact ⟨spares.telling _ _ journal what after idle cut,
      .inr ⟨what, rfl, journal, after, idle, cut⟩⟩
  have described : Task.Ends tree (Idle tree root)
      (fun outcome =>
        Describes tree root stack simplifier found ⟨found.name, found.declaration.kind, outcome⟩)
      (Undescribed tree root simplifier found)
      (describeOn stack simplifier found.declaration found.source) := by
    refine bounds.attempt.bind fun outcome ofOne => ?_
    cases ofOne with
    | ok tells => exact Task.ends_pure (.told tells)
    | error stopped =>
      dsimp only
      rcases stopped with stops | ⟨what, rfl, cuts⟩
      · split
        · next reasoned => exact Task.ends_pure (.untold stops reasoned)
        · next unreasoned => exact Task.ends_fail ⟨stops, unreasoned⟩
      · exact Task.ends_pure (.cut cuts)
  exact described.map fun _ => id

/-- With room for all calls, an entry is what it is alone. -/
theorem settles_entryOf {entry : ExportEntry}
    (describes : Describes tree root .ample simplifier found entry) :
    Task.Settles tree (Idle tree root) (entryOf simplifier found) (.ok entry) := by
  have independent : Independent tree root _ :=
    independent_tell simplifier found.declaration found.source
  unfold entryOf entryOn describeOn
  rw [bounded_ample_telling]
  cases describes with
  | told tells =>
    refine Task.Settles.bind ((independent.settles tells.answers).attempt.bind ?_)
      (Task.settles_pure _)
    exact Task.settles_pure _
  | @untold failure reason stops reasoned =>
    refine Task.Settles.bind ((independent.settles_alone stops.alone).attempt.bind ?_)
      (Task.settles_pure _)
    dsimp only
    rw [reasoned]
    exact Task.settles_pure _
  | cut cuts => exact absurd cuts not_cutsTelling_ample

/-- Of an export and its entry both are wanted or neither is. -/
theorem isWanted_of_describes {entry : ExportEntry}
    (describes : Describes tree root stack simplifier found entry)
    (wanted : Option (List String)) :
    isWanted wanted found.name = isWanted wanted entry.name := by
  cases describes with
  | told | untold | cut => rfl

end Entries

/-! ## Files -/

/-- The file at a path, its module and the exports of the module. -/
structure Exporting
    (tree : FileTree) (root path : Path) (file : File) (source : SourceModule)
    (exports : List Export) : Prop where
  seen : Answers tree root (fileAt root path) file
  read : Answers tree root (parse file.path) (.ok source)
  listed : Answers tree root (moduleExports source) exports

/-- The entries of wanted names that stand for other modules as a whole. -/
def nameSpaceEntries (wanted : Option (List String)) (source : SourceModule) : List ExportEntry :=
  (source.reExports.filterMap nameSpaceEntry?).filter fun entry => isWanted wanted entry.name

/-- What is shown of the file at a path: why it cannot be read, or an entry for each wanted export
and for each wanted name that stands for another module. -/
inductive Lists (tree : FileTree) (root : Path) (stack : Stack) (simplifier : Simplifier)
    (wanted : Option (List String)) (path : Path) : FileExports → Prop where
  | unreadable {file : File} {fault : SourceFault}
      (seen : Answers tree root (fileAt root path) file)
      (refused : Answers tree root (parse file.path) (.error fault)) :
      Lists tree root stack simplifier wanted path ⟨file.name, .error fault.message⟩
  | listed {file : File} {source : SourceModule} {exports : List Export}
      {entries : List ExportEntry}
      (exporting : Exporting tree root path file source exports)
      (described : Listwise (Describes tree root stack simplifier)
        (exports.filter fun found => isWanted wanted found.name) entries) :
      Lists tree root stack simplifier wanted path
        ⟨file.name, .ok (entries ++ nameSpaceEntries wanted source)⟩

/-- What stops the entries of the file at a path. -/
inductive Unlisted (tree : FileTree) (root : Path) (stack : Stack) (simplifier : Simplifier)
    (wanted : Option (List String)) (path : Path) (failure : Failure) : Prop where
  | file (stops : Stops tree root (fileAt root path) failure)
  | module {file : File}
      (seen : Answers tree root (fileAt root path) file)
      (stops : Stops tree root (parse file.path) failure)
  | exports {file : File} {source : SourceModule}
      (seen : Answers tree root (fileAt root path) file)
      (read : Answers tree root (parse file.path) (.ok source))
      (stops : Stops tree root (moduleExports source) failure)
  | cut {file : File} {source : SourceModule} {what : Overflow}
      (seen : Answers tree root (fileAt root path) file)
      (read : Answers tree root (parse file.path) (.ok source))
      (cuts : stack.CutsListing tree root source what)
      (same : failure = .overflow what)
  | entry {file : File} {source : SourceModule} {exports : List Export} {found : Export}
      (exporting : Exporting tree root path file source exports)
      (member : found ∈ exports)
      (isWanted : isWanted wanted found.name = true)
      (undescribed : Undescribed tree root simplifier found failure)

theorem Unlisted.untold (unlisted : Unlisted tree root stack simplifier wanted path failure) :
    failure.message? = none := by
  cases unlisted with
  | file stops | module _ stops | exports _ _ stops => exact stops.fault.untold
  | cut _ _ _ same =>
    rw [same]
    rfl
  | entry _ _ _ undescribed => exact undescribed.untold

/-- A file ends in the list of its exports, or the extraction fails. -/
theorem ends_ofFileOn (spares : stack.Spares tree root) (simplifier : Simplifier)
    (wanted : Option (List String)) (path : Path) :
    Task.Ends tree (Idle tree root) (Lists tree root stack simplifier wanted path)
      (Unlisted tree root stack simplifier wanted path)
      (ofFileOn stack simplifier root wanted path) := by
  refine ((independent_fileAt path).ends_by fun _ => .file).bind fun file seen => ?_
  refine ((independent_parse file.path).ends_by fun _ => .module seen).bind fun parsed read => ?_
  cases parsed with
  | error fault => exact (Task.ends_note _).bind fun _ _ => Task.ends_pure (.unreadable seen read)
  | ok source =>
    refine Task.Ends.bind (ends_bounded
      ((independent_moduleExports source).ends_by fun _ => .exports seen read) ?_) ?_
    · intro journal what after idle cut
      exact ⟨spares.listing source journal what after idle cut,
        .cut seen read ⟨journal, after, idle, cut⟩ rfl⟩
    intro exports listed
    have exporting : Exporting tree root path file source exports := ⟨seen, read, listed⟩
    refine (Task.ends_mapM fun found member => ?_).map fun entries described =>
      .listed exporting described
    obtain ⟨inExports, isWanted⟩ := List.mem_filter.mp member
    exact (ends_entryOn spares simplifier found).imp (fun _ => id)
      fun _ => .entry exporting inExports isWanted

/-! ## Inputs -/

/-- What is shown for an input: nothing when it leads to no file, and nothing when only some names
are wanted and the file has none of them. -/
inductive Shows (tree : FileTree) (root : Path) (stack : Stack) (simplifier : Simplifier)
    (wanted : Option (List String)) (base : Path) (input : String) :
    Option FileExports → Prop where
  | nowhere (leads : Answers tree root (resolveInput input base) none) :
      Shows tree root stack simplifier wanted base input none
  | file {path : Path} {found : FileExports}
      (leads : Answers tree root (resolveInput input base) (some path))
      (lists : Lists tree root stack simplifier wanted path found) :
      Shows tree root stack simplifier wanted base input
        (if wanted.isSome && found.isEmpty then none else some found)

/-- What stops an input. -/
inductive Unshown (tree : FileTree) (root : Path) (stack : Stack) (simplifier : Simplifier)
    (wanted : Option (List String)) (base : Path) (input : String) (failure : Failure) : Prop where
  | input (stops : Stops tree root (resolveInput input base) failure)
  | file {path : Path}
      (leads : Answers tree root (resolveInput input base) (some path))
      (unlisted : Unlisted tree root stack simplifier wanted path failure)

/-- An input ends in what its file exports, or the extraction fails. -/
theorem ends_ofInputOn (spares : stack.Spares tree root) (simplifier : Simplifier) (base : Path)
    (wanted : Option (List String)) (input : String) :
    Task.Ends tree (Idle tree root) (Shows tree root stack simplifier wanted base input)
      (Unshown tree root stack simplifier wanted base input)
      (ofInputOn stack simplifier root base wanted input) := by
  refine ((independent_resolveInput input base).ends_by fun _ => .input).bind fun path leads => ?_
  cases path with
  | none => exact (Task.ends_note _).bind fun _ _ => Task.ends_pure (.nowhere leads)
  | some path =>
    have lists : Task.Ends tree (Idle tree root) _ _ _ :=
      ends_ofFileOn spares simplifier wanted path
    exact (lists.imp (fun _ => id) fun _ => .file leads).map fun found lists => .file leads lists

/-- The names that are wanted; an empty list wants all. -/
def wantedAmong (names : List String) : Option (List String) :=
  if names.isEmpty then none else some names

/-- The files of a catalogue: what is shown for each of the inputs, in their order. -/
def Catalogued (tree : FileTree) (root : Path) (stack : Stack) (simplifier : Simplifier)
    (inputs : List String) (directory : Path) (names : List String) (found : List FileExports) :
    Prop :=
  ∃ base shown, Answers tree root (Task.resolvePath directory) base ∧
    Listwise (Shows tree root stack simplifier (wantedAmong names) base) inputs shown ∧
    found = shown.filterMap id

/-- What stops a catalogue. -/
inductive Uncatalogued (tree : FileTree) (root : Path) (stack : Stack) (simplifier : Simplifier)
    (inputs : List String) (directory : Path) (names : List String) (failure : Failure) : Prop where
  | directory (stops : Stops tree root (Task.resolvePath directory) failure)
  | input {base : Path} {input : String}
      (resolved : Answers tree root (Task.resolvePath directory) base)
      (member : input ∈ inputs)
      (unshown : Unshown tree root stack simplifier (wantedAmong names) base input failure)

theorem Uncatalogued.untold {inputs names : List String} {directory : Path}
    (uncatalogued :
      Uncatalogued tree root stack simplifier inputs directory names failure) :
    failure.message? = none := by
  cases uncatalogued with
  | directory stops => exact stops.fault.untold
  | input _ _ unshown =>
    cases unshown with
    | input stops => exact stops.fault.untold
    | file _ unlisted => exact unlisted.untold

theorem ends_extractOn (spares : stack.Spares tree root) (simplifier : Simplifier)
    (inputs : List String) (directory : Path) (names : List String) :
    Task.Ends tree (Idle tree root) (Catalogued tree root stack simplifier inputs directory names)
      (Uncatalogued tree root stack simplifier inputs directory names)
      (extractOn stack simplifier root inputs directory names) := by
  refine ((independent_resolvePath directory).ends_by fun _ => .directory).bind ?_
  intro base resolved
  refine (Task.ends_mapM fun input member => ?_).map fun shown shows =>
    ⟨base, shown, resolved, shows, rfl⟩
  exact (ends_ofInputOn spares simplifier base _ input).imp (fun _ => id)
    fun _ => .input resolved member

/-- From every idle session an extraction comes to a catalogue with one entry for each wanted export
of each input: the export as it is described alone, or the reason why it cannot be described alone
either, or what there is no room for while it is described.  Otherwise one of its parts is stopped
by a fault and so would be alone, or there is no room to list the exports of a module.  No failure
stops it that users are told. -/
theorem extract_describes_each_export (spares : stack.Spares tree root) (simplifier : Simplifier)
    (inputs : List String) (directory : Path) (names : List String) :
    Task.Ends tree (Idle tree root) (Catalogued tree root stack simplifier inputs directory names)
      (fun failure => failure.message? = none ∧
        Uncatalogued tree root stack simplifier inputs directory names failure)
      (extractOn stack simplifier root inputs directory names) :=
  (ends_extractOn spares simplifier inputs directory names).imp (fun _ => id)
    fun _ uncatalogued => ⟨uncatalogued.untold, uncatalogued⟩

mutual

/-- The number of nodes on the longest way down. -/
def height : Node → Nat
  | .mk _ _ _ _ _ _ children => heights children + 1

/-- The number of nodes on the longest way down from one of the nodes. -/
def heights : List Node → Nat
  | [] => 0
  | node :: rest => max (height node) (heights rest)

end

/-- A stack with room for declarations of a height only. -/
def Stack.ofHeight (limit : Nat) : Stack where
  listing _ _ _ := none
  telling declaration _ _ journal :=
    if limit < height declaration.node then some (.call "", journal) else none

theorem spares_ofHeight (limit : Nat) : (Stack.ofHeight limit).Spares tree root where
  listing _ _ _ _ _ cut := by cases cut
  telling declaration source journal what after idle cut := by
    dsimp only [Stack.ofHeight] at cut
    split at cut
    · cases cut
      exact idle
    · cases cut

/-- A statement that exports an alias of a piece of type syntax. -/
def aliasStatement (name : String) (value : Node) : Node :=
  .mk "export_statement" true none 0 1 "" [
    .mk "type_alias_declaration" true (some "declaration") 0 1 "" [
      .mk "type_identifier" true (some "name") 0 1 name [],
      value]]

/-- The syntax of an array type. -/
def arrayOf (element : Node) : Node := .mk "array_type" true (some "value") 0 1 "" [element]

/-- The file that exports a plain type and one that is nested deep. -/
def nestedFile : Node := program [
  aliasStatement "Plain" (.mk "predefined_type" true (some "value") 0 1 "string" []),
  aliasStatement "Deep"
    (arrayOf (arrayOf (.mk "predefined_type" true none 0 1 "string" [])))]

/-- A file tree with the file. -/
def nestedTree : FileTree := ⟨.directory [("a.ts", .file .empty (some nestedFile))], []⟩

/-- The names of the entries, with the reasons of those that have no description. -/
def reasons (found : FileExports) : List (String × Option String) :=
  match found.exports with
  | .ok entries => entries.map fun entry =>
      (entry.name, match entry.description with
        | .ok _ => none
        | .error reason => some reason)
  | .error _ => []

/-- The deep type carries the reason, the plain one its description. -/
theorem deep_type_carries_reason :
    (Stack.ofHeight 3).Spares nestedTree (.ofRoot []) ∧
      Task.Ends nestedTree (Idle nestedTree (.ofRoot []))
        (Catalogued nestedTree (.ofRoot []) (.ofHeight 3) plainSimplifier ["a.ts"] (.ofRoot []) [])
        (fun failure => failure.message? = none ∧ Uncatalogued nestedTree (.ofRoot [])
          (.ofHeight 3) plainSimplifier ["a.ts"] (.ofRoot []) [] failure)
        (extractOn (.ofHeight 3) plainSimplifier (.ofRoot []) ["a.ts"] (.ofRoot []) []) ∧
      ((extractOn (.ofHeight 3) plainSimplifier (.ofRoot []) ["a.ts"] (.ofRoot []) []).outcomeFrom
        nestedTree (fresh (.ofRoot []))).map (List.map reasons) =
        .ok [[("Plain", none), ("Deep", some "maximum recursion depth exceeded")]] :=
  ⟨spares_ofHeight 3, extract_describes_each_export (spares_ofHeight 3) _ _ _ _, by decide +kernel⟩

/-! ## A description that stops all others -/

/-- The declaration of an alias of a piece of type syntax that is generic in one type. -/
def genericDeclaration (name parameter : String) (value : Node) : Node :=
  .mk "type_alias_declaration" true none 0 1 "" [
    .mk "type_identifier" true (some "name") 0 1 name [],
    .mk "type_parameters" true (some "type_parameters") 0 1 "" [
      .mk "type_parameter" true none 0 1 parameter [
        .mk "type_identifier" true (some "name") 0 1 parameter []]],
    value]

/-- The use of a generic type with one argument. -/
def genericUse (name : String) (argument : Node) : Node :=
  .mk "generic_type" true (some "value") 0 1 "" [
    .mk "type_identifier" true (some "name") 0 1 name [],
    .mk "type_arguments" true (some "type_arguments") 0 1 "" [argument]]

/-- The file that exports a plain type and the keys of a text with a backslash. -/
def keysFile : Node := program [
  genericDeclaration "Keys" "T" (.mk "index_type_query" true (some "value") 0 1 "keyof T" []),
  aliasStatement "Plain" (.mk "predefined_type" true (some "value") 0 1 "string" []),
  aliasStatement "Escaped" (genericUse "Keys" (.mk "literal_type" true none 0 1 "'\\1'" []))]

/-- A file tree with the file. -/
def keysTree : FileTree := ⟨.directory [("a.ts", .file .empty (some keysFile))], []⟩

/-- The type that cannot be described stops the catalogue of the whole file.  Alone the plain type
has its entry. -/
theorem escape_stops_catalogue :
    (extract plainSimplifier (.ofRoot []) ["a.ts"] (.ofRoot []) []).outcomeFrom keysTree
        (fresh (.ofRoot [])) = .error (.replacement .unknownGroup) ∧
      ((extract plainSimplifier (.ofRoot []) ["a.ts"] (.ofRoot []) ["Plain"]).outcomeFrom keysTree
        (fresh (.ofRoot []))).map (List.map names) = .ok [["Plain"]] := by
  refine ⟨rfl, ?_⟩
  decide +kernel

end Catalogue
end ModuleAtlas
