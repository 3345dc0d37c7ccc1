import ModuleAtlas.Proofs.Resolve.Agreement
import ModuleAtlas.Proofs.Resolve.Coherent

/-!
# What specifiers lead to

Every way to resolve a specifier is steady from coherent resolvers, and what it finds is a file.
-/

namespace ModuleAtlas

namespace Resolver

variable {σ α : Type} {tree : FileTree} {root : Path} {good : FileTree → σ → Prop}

/-- From coherent resolvers a task comes to the same end in all file trees that agree with one, and
answers only with values of a kind. -/
abbrev Steady (tree : FileTree) (root : Path) (kind : α → Prop) (task : Task Resolver α) : Prop :=
  Task.SteadyAmong tree.Agrees (fun other => Coherent other root) kind task

theorem Steady.alone {kind : α → Prop} {task : Task Resolver α}
    (steady : Steady tree root kind task) :
    Task.Steady tree (Coherent tree root) kind task :=
  Task.SteadyAmong.steady steady (.refl tree)

/-- A path leads to a file. -/
def IsFileAt (tree : FileTree) (path : Path) : Prop :=
  tree.passes Entry.isFile path = .ok true

/-- What is found, if anything, leads to a file. -/
def Finds (tree : FileTree) (found : Option Path) : Prop :=
  ∀ path, found = some path → IsFileAt tree path

theorem finds_none : Finds tree none := by
  intro path impossible
  cases impossible

theorem finds_some {path : Path} (isFile : IsFileAt tree path) : Finds tree (some path) := by
  rintro _ ⟨⟩
  exact isFile

theorem steady_firstFile? (paths : List Path) :
    Task.SteadyAmong tree.Agrees good (Finds tree) (firstFile? paths) := by
  refine Task.steady_findM? fun path _ => (Task.agreeing_isFile path).mono ?_
  rintro passed outcome rfl
  exact outcome

theorem steady_entryFile? (directory : Path) (manifest : Json) (keys : List String) :
    Task.SteadyAmong tree.Agrees good (Finds tree) (entryFile? directory manifest keys) :=
  steady_firstFile? _

/-- A path that is tried first, and other ways when it is no file. -/
theorem steady_orElse {first : Task σ (Option Path)} {second : Task σ (Option Path)}
    (tried : Task.SteadyAmong tree.Agrees good (Finds tree) first)
    (otherwise : Task.SteadyAmong tree.Agrees good (Finds tree) second) :
    Task.SteadyAmong tree.Agrees good (Finds tree) (do
      match ← first with
      | some found => return some found
      | none => second) := by
  refine tried.bind fun found finds => ?_
  cases found with
  | some path => exact Task.steady_pure finds
  | none => exact otherwise

theorem manifestIn_eq {other : FileTree} (agrees : tree.Agrees other) (path : Path) :
    manifestIn tree path = manifestIn other path := by
  unfold manifestIn
  rw [agrees.isFile, agrees.manifests]

theorem steady_readManifestQuietly (path : Path) :
    Steady tree root (fun _ => True) (readManifestQuietly path) :=
  ⟨manifestIn tree path, fun other agrees => by
    rw [manifestIn_eq agrees]
    exact settles_readManifestQuietly path, fun _ _ => trivial⟩

/-! ## Paths -/

theorem steady_withEnding (path : Path) (ending : String) :
    Steady tree root (fun _ => True) (withEnding path ending) := by
  unfold withEnding
  cases path.withName? (path.name ++ ending) with
  | some named => exact Task.steady_pure trivial
  | none => exact Task.steady_fail _

theorem steady_resolveEnding (base : Path) :
    Steady tree root (Finds tree) (resolveEnding base) :=
  (Task.steady_mapM fun ending _ => steady_withEnding base ending).bind
    fun paths _ => steady_firstFile? paths

theorem steady_resolveEntries (directory : Path) (manifest : Json) (keys : List String) :
    Steady tree root (Finds tree)
      (resolveEntries directory manifest keys) := by
  induction keys with
  | nil => exact Task.steady_pure finds_none
  | cons key rest ih =>
    unfold resolveEntries
    cases entryText? manifest key with
    | none => exact ih
    | some entry =>
      refine (Task.agreeing_isFile (directory.child entry)).bind fun isFile outcome => ?_
      cases isFile with
      | true => exact Task.steady_pure (finds_some outcome)
      | false => exact steady_orElse (steady_resolveEnding _) ih

theorem steady_resolveDirectory (directory : Path) :
    Steady tree root (Finds tree) (resolveDirectory directory) := by
  refine (steady_readManifestQuietly (directory.child "package.json")).bind fun manifest _ => ?_
  exact steady_orElse (steady_resolveEntries directory _ _) (steady_firstFile? _)

theorem steady_resolvePath (base : Path) :
    Steady tree root (Finds tree) (resolvePath base) := by
  refine (Task.agreeing_isFile base).bind fun isFile outcome => ?_
  cases isFile with
  | true => exact Task.steady_pure (finds_some outcome)
  | false =>
    refine steady_orElse (steady_resolveEnding base) (steady_orElse (steady_firstFile? _) ?_)
    refine (Task.agreeing_isDirectory base).bind fun isDirectory _ => ?_
    cases isDirectory with
    | true => exact steady_resolveDirectory base
    | false => exact Task.steady_pure finds_none

/-! ## Installed packages -/

theorem steady_findInstalled (name : String) (start : Path) :
    Steady tree root (fun _ => True) (findInstalled name start) := by
  refine (Task.agreeing_resolvePath start).bind fun resolved _ => ?_
  have each : ∀ place : Path, Steady tree root
      (fun passed => passed = true → IsFileAt tree (place.child "package.json"))
      (Task.isFile (place.child "package.json")) := by
    intro place
    refine (Task.agreeing_isFile _).mono ?_
    rintro passed outcome rfl
    exact outcome
  exact (Task.steady_findM? fun place _ => each place).anyhow

theorem steady_exportEntry (manifest : Json) (key : String) :
    Steady tree root (fun _ => True) (exportEntry manifest key) := by
  unfold exportEntry
  cases manifest.get? "exports" with
  | none => exact Task.steady_pure trivial
  | some exports =>
    cases exports with
    | null => exact Task.steady_pure trivial
    | string text => exact Task.steady_pure trivial
    | array items => exact Task.steady_pure trivial
    | object entries =>
      cases indexed : entries.any fun entry => Text.startsWith "." entry.1 with
      | true => simp only [indexed]; exact Task.steady_pure trivial
      | false => simp only [indexed]; exact Task.steady_pure trivial
    | bool value => exact Task.steady_fail _
    | int value => exact Task.steady_fail _
    | decimal literal => exact Task.steady_fail _

theorem steady_resolveExport (directory : Path) (manifest : Json) (key : String) :
    Steady tree root (Finds tree) (resolveExport directory manifest key) :=
  (steady_exportEntry manifest key).bind fun _ _ => steady_firstFile? _

theorem steady_resolveInstalledSubpath (directory : Path) (manifest : Json) (subpath : String) :
    Steady tree root (Finds tree)
      (resolveInstalledSubpath directory manifest subpath) :=
  steady_orElse (steady_resolveExport directory manifest _)
    (steady_orElse (steady_firstFile? _) (steady_resolvePath _))

theorem steady_resolveInstalledMain (directory : Path) (manifest : Json) :
    Steady tree root (Finds tree)
      (resolveInstalledMain directory manifest) := by
  refine steady_orElse (steady_entryFile? directory manifest _)
    (steady_orElse (steady_resolveExport directory manifest _) ?_)
  cases entryText? manifest "main" with
  | some main => exact steady_orElse (steady_resolvePath _) (steady_firstFile? _)
  | none => exact steady_orElse (Task.steady_pure finds_none) (steady_firstFile? _)

theorem steady_resolveInstalled (specifier : String) (start : Path) :
    Steady tree root (Finds tree) (resolveInstalled specifier start) := by
  unfold resolveInstalled
  obtain ⟨name, subpath⟩ := Resolve.splitPackage specifier
  dsimp only
  refine (steady_findInstalled _ start).bind fun directory _ => ?_
  cases directory with
  | none => exact Task.steady_pure finds_none
  | some directory =>
    refine (steady_readManifestQuietly (directory.child "package.json")).bind fun manifest _ => ?_
    split
    · exact steady_resolveInstalledMain directory _
    · exact steady_resolveInstalledSubpath directory _ _

/-! ## Path aliases -/

theorem steady_readOptions (path : Path) :
    Steady tree root (fun _ => True) (readOptions path) := by
  unfold readOptions
  cases path.hasNull with
  | true =>
    have never : Steady tree root (fun _ => False)
        (Task.fail (.nullCharacter path) : Task Resolver Unit) :=
      Task.steady_fail _
    exact never.bind fun _ impossible => impossible.elim
  | false =>
    refine Task.SteadyAmong.files (fun other agrees => by rw [← agrees.options]) ?_
    cases readObject tree path Json.stripComments .noOptions with
    | ok object => exact Task.steady_pure trivial
    | error failure => exact Task.steady_fail failure

theorem steady_withOptionsEnding (target : Path) :
    Steady tree root (fun _ => True) (withOptionsEnding target) := by
  refine (Task.agreeing_isFile target).bind fun isFile _ => ?_
  cases isFile with
  | true => exact Task.steady_pure trivial
  | false =>
    simp only [Bool.false_eq_true, if_false]
    split
    · exact steady_withEnding _ _
    · exact Task.steady_pure trivial

/-- The options that are extended, once it is known where they should be. -/
theorem steady_extended (target : Option Path) :
    Steady tree root (fun _ => True) (do
      match target with
      | none => return none
      | some target =>
        if ← Task.isFile target then return some (← Task.resolvePath target)
        else return none) := by
  cases target with
  | none => exact Task.steady_pure trivial
  | some target =>
    refine (Task.agreeing_isFile target).bind fun isFile _ => ?_
    cases isFile with
    | true => exact (Task.agreeing_resolvePath target).map fun _ _ => trivial
    | false => exact Task.steady_pure trivial

theorem steady_extendedOptions (file : Path) (base : Option Json) :
    Steady tree root (fun _ => True) (extendedOptions file base) := by
  unfold extendedOptions
  dsimp only
  generalize Option.filter _ _ = specifier
  cases specifier with
  | none => exact Task.steady_pure trivial
  | some specifier =>
    dsimp only
    split
    · refine (steady_withOptionsEnding _).bind fun target _ => ?_
      exact (steady_extended (some target)).pure_bind
    · obtain ⟨name, subpath⟩ := Resolve.splitPackage specifier
      refine (steady_findInstalled name file.parent).bind fun directory _ => ?_
      cases directory with
      | none => exact (steady_extended none).pure_bind
      | some directory =>
        refine (steady_withOptionsEnding _).bind fun target _ => ?_
        exact (steady_extended (some target)).pure_bind

/-- The patterns of a file are taken unless a file before it has some. -/
theorem steady_extendPatterns (tree : FileTree) (root : Path) (chain : ChainState) (file : Path)
    (entries : List (String × Json)) (base : Option Path) :
    Steady tree root (fun _ => True) (do
      match chain.patterns, Keyed.find? "paths" entries with
      | none, some (.object patterns) =>
        return (⟨base, some patterns, some (← Task.resolvePath file.parent)⟩ : ChainState)
      | patterns, _ => return (⟨base, patterns, chain.patternBase⟩ : ChainState)) := by
  split
  · exact (Task.agreeing_resolvePath _).map fun _ _ => trivial
  · exact Task.steady_pure trivial

theorem steady_extend (chain : ChainState) (file : Path) (options : Option Json) :
    Steady tree root (fun _ => True) (chain.extend file options) := by
  unfold ChainState.extend
  split
  · rename_i entries
    have patterns := steady_extendPatterns tree root chain file entries
    dsimp only
    split
    · exact (Task.agreeing_resolvePath _).bind fun resolved _ =>
        (patterns (some resolved)).pure_bind
    · exact (patterns _).pure_bind
  · exact Task.steady_pure trivial

/-- A chain of configurations is followed to the same end every time. -/
theorem steady_followChain (fuel : Nat) (seen : List Path) (chain : ChainState)
    (file : Option Path) :
    Steady tree root (fun _ => True) (followChain fuel seen chain file) := by
  induction fuel generalizing seen chain file with
  | zero => exact Task.steady_pure trivial
  | succ fuel ih =>
    cases file with
    | none => exact Task.steady_pure trivial
    | some file =>
      unfold followChain
      split
      · exact Task.steady_pure trivial
      · refine (steady_readOptions file).attempt.bind fun outcome _ => ?_
        split
        · exact (Task.steady_note _).bind fun _ _ => Task.steady_pure trivial
        · exact Task.steady_fail _
        · refine (steady_extend chain file _).bind fun chain _ => ?_
          refine (steady_extendedOptions file _).bind fun next _ => ?_
          exact ih _ chain next

theorem steady_loadAliases (file : Path) :
    Steady tree root (fun _ => True) (loadAliases file) := by
  refine Task.SteadyAmong.files (fun other agrees => by rw [← agrees.count]) ?_
  refine (steady_followChain _ _ _ _).bind fun chain _ => ?_
  split
  · exact Task.steady_pure trivial
  · exact Task.steady_pure trivial

/-- The directories from one up to the root are the directory and those from the one above. -/
theorem ancestors_cases (directory : Path) :
    ancestors directory = [directory] ∨
      directory.parent.names.length < directory.names.length ∧
        ancestors directory = directory :: ancestors directory.parent := by
  obtain ⟨anchor, names⟩ := directory
  rcases List.eq_nil_or_concat names with rfl | ⟨above, name, rfl⟩
  · exact .inl rfl
  · right
    simp only [Path.parent, ancestors, List.concat_eq_append, List.dropLast_concat,
      List.length_append, List.length_singleton]
    refine ⟨Nat.lt_succ_self _, ?_⟩
    rw [List.range_succ_eq_map, List.map_cons, List.map_map]
    congr 1
    · rw [List.take_of_length_le (by simp)]
    · apply List.map_congr_left
      intro steps member
      have bound : above.length + 1 - (steps + 1) = above.length - steps := by omega
      simp only [Function.comp, Nat.succ_eq_add_one, bound]
      rw [List.take_append_of_le_length (Nat.sub_le _ _)]

/-- What holds of no directories, and of a directory with those above it if it holds of these, holds
of the directories from one up to the root. -/
theorem ancestors_induction {motive : List Path → Prop} (none : motive [])
    (further : ∀ directory above, ancestors directory = directory :: above → motive above →
      motive (directory :: above)) (directory : Path) :
    motive (ancestors directory) := by
  induction size : directory.names.length using Nat.strongRecOn generalizing directory with
  | ind size ih =>
    rcases ancestors_cases directory with alone | ⟨smaller, equal⟩
    · exact alone ▸ further directory [] alone none
    · exact equal ▸ further directory _ equal (ih _ (size ▸ smaller) directory.parent rfl)

theorem steady_aliasesAlong (directory : Path) :
    Steady tree root (fun _ => True)
      (aliasesAlong (ancestors directory)) := by
  refine ancestors_induction (motive := fun directories =>
    Steady tree root (fun _ => True) (aliasesAlong directories))
    (Task.steady_pure trivial) (fun directory above equal steadyAbove => ?_) directory
  have right : ∀ other resolver found, Coherent other root resolver →
      Keyed.find? directory resolver.aliases = some found →
      (aliasesAlong (ancestors directory)).outcomeFrom other (fresh root) = .ok found :=
    fun _ resolver found coherent known => coherent.aliases directory found known
  have kept : ∀ other (resolver : Resolver) found, Coherent other root resolver →
      (aliasesAlong (ancestors directory)).outcomeFrom other (fresh root) = .ok found →
      Coherent other root
        { resolver with aliases := Keyed.put directory found resolver.aliases } := by
    intro _ resolver found coherent outcome
    refine ⟨coherent.root_eq, coherent.manifests, coherent.members, ?_⟩
    intro other otherFound known
    rw [Keyed.find?_put] at known
    split at known
    · rename_i same
      cases known
      rw [eq_of_beq same]
      exact outcome
    · exact coherent.aliases other otherFound known
  rw [equal] at right kept
  unfold aliasesAlong at right kept ⊢
  refine Task.steady_recollect ?_ (fun _ _ => coherent_fresh) rfl right kept
  refine (Task.agreeing_isFile _).bind fun isFile _ => ?_
  cases isFile with
  | true => exact steady_loadAliases _
  | false => exact steadyAbove

theorem steady_aliasesIn (directory : Path) :
    Steady tree root (fun _ => True) (aliasesIn directory) :=
  (Task.agreeing_resolvePath directory).bind fun resolved _ => steady_aliasesAlong resolved

theorem steady_resolveTargets (aliases : Resolve.Aliases) (captured : String)
    (targets : List String) :
    Steady tree root (Finds tree)
      (resolveTargets aliases captured targets) := by
  induction targets with
  | nil => exact Task.steady_pure finds_none
  | cons target rest ih =>
    exact steady_orElse (steady_resolvePath _) ih

/-- What no pattern leads to is looked for below the base, if there is one. -/
theorem steady_aliasBase (base : Option Path) (specifier : String) {found : Option Path}
    (finds : Finds tree found) :
    Steady tree root (fun outcome => Finds tree outcome.2) (do
      match found, base with
      | some file, _ => return (true, some file)
      | none, some base => return (true, ← resolvePath (base.child specifier))
      | none, none => return (true, none)) := by
  split
  · exact Task.steady_pure finds
  · exact (steady_resolvePath _).map fun _ found => found
  · exact Task.steady_pure finds_none

/-- A specifier is resolved through aliases to the same end every time. -/
theorem steady_resolveAlias (specifier : String) (importer : Path) :
    Steady tree root (fun outcome => Finds tree outcome.2)
      (resolveAlias specifier importer) := by
  refine (steady_aliasesIn importer.parent).bind fun aliases _ => ?_
  cases aliases with
  | none => exact Task.steady_pure finds_none
  | some aliases =>
    dsimp only
    cases aliases.match? specifier with
    | none => exact (steady_aliasBase aliases.base specifier finds_none).pure_bind
    | some best =>
      exact (steady_resolveTargets aliases _ _).bind fun found finds =>
        steady_aliasBase aliases.base specifier finds

/-! ## Workspace packages -/

theorem steady_workspaceFilePatterns (path : Path) :
    Steady tree root (fun _ => True) (workspaceFilePatterns path) := by
  refine Task.SteadyAmong.files (fun other agrees => by rw [← agrees.workspaces]) ?_
  dsimp only
  split
  · exact Task.steady_pure trivial
  · exact (Task.steady_note _).bind fun _ _ => Task.steady_pure trivial
  · exact Task.steady_fail _

/-- A directory is the root of the workspace when there are patterns for it. -/
theorem steady_chosenWorkspace (directory : Path)
    {above : Task Resolver (Option (Path × List String))}
    (further : Steady tree root (fun _ => True) above)
    (patterns : List String) :
    Steady tree root (fun _ => True) (do
      match patterns with
      | [] => above
      | patterns => return some (directory, patterns)) := by
  split
  · exact further
  · exact Task.steady_pure trivial

theorem steady_findWorkspace (directories : List Path) :
    Steady tree root (fun _ => True) (findWorkspace directories) := by
  induction directories with
  | nil => exact Task.steady_pure trivial
  | cons directory above ih =>
    refine (steady_readManifestQuietly _).bind fun manifest _ => ?_
    have chosen := steady_chosenWorkspace directory ih
    refine (Task.agreeing_isFile _).bind fun isFile _ => ?_
    cases isFile with
    | true => exact (steady_workspaceFilePatterns _).bind fun more _ => chosen _
    | false => exact (chosen _).pure_bind

/-- The members of the workspace that is found from some directories. -/
theorem steady_chosenMembers (tree : FileTree) (root : Path) (directories : List Path) :
    Steady tree root (fun _ => True) (do
      match ← findWorkspace directories with
      | none => return []
      | some (root, patterns) =>
        match chooseMembers (← Task.files) root [] patterns with
        | .ok members => return members
        | .error fault => Task.fail (.memberPattern fault)) := by
  refine (steady_findWorkspace _).bind fun workspace _ => ?_
  split
  · exact Task.steady_pure trivial
  · refine Task.SteadyAmong.files (fun other agrees => by rw [← chooseMembers_eq agrees]) ?_
    split
    · exact Task.steady_pure trivial
    · exact Task.steady_fail _

theorem steady_findMembers :
    Steady tree root (fun _ => True) findMembers := by
  obtain ⟨outcome, settles, ofKind⟩ := steady_chosenMembers tree root (ancestors root)
  refine ⟨outcome, fun other agrees => Task.settles_state_bind fun resolver coherent => ?_, ofKind⟩
  rw [coherent.root_eq]
  exact settles other agrees

theorem steady_workspaceMembers :
    Steady tree root (fun _ => True) workspaceMembers := by
  refine Task.steady_recollect steady_findMembers (fun _ _ => coherent_fresh) rfl ?_ ?_
  · exact fun _ resolver members coherent known => coherent.members members known
  · intro _ resolver members coherent outcome
    refine ⟨coherent.root_eq, coherent.manifests, ?_, coherent.aliases⟩
    rintro other ⟨⟩
    exact outcome

theorem steady_resolveMember (name subpath : String) (members : List Path) :
    Steady tree root (Finds tree) (resolveMember name subpath members) := by
  induction members with
  | nil => exact Task.steady_pure finds_none
  | cons member rest ih =>
    refine (steady_readManifestQuietly _).bind fun manifest _ => ?_
    dsimp only
    split
    · split
      · exact steady_orElse (steady_entryFile? member _ _) (steady_firstFile? _)
      · exact steady_firstFile? _
    · exact ih

theorem steady_resolveWorkspace (specifier : String) :
    Steady tree root (Finds tree) (resolveWorkspace specifier) := by
  unfold resolveWorkspace
  obtain ⟨name, subpath⟩ := Resolve.splitPackage specifier
  exact steady_workspaceMembers.bind fun members _ => steady_resolveMember name subpath members

theorem steady_resolvePackage (specifier : String) (directory : Path) :
    Steady tree root (Finds tree) (resolvePackage specifier directory) :=
  steady_orElse (steady_resolveWorkspace specifier) (steady_resolveInstalled specifier directory)

/-! ## Specifiers -/

/-- What a resolution names, if anything, is the canonical path of a file. -/
def Settled (tree : FileTree) (resolution : Resolution) : Prop :=
  ∀ path, resolution.file = some path →
    ∃ found, IsFileAt tree found ∧ tree.resolve? found = some path

theorem settled_none (attempted : List Strategy) : Settled tree ⟨none, attempted⟩ := by
  intro path impossible
  cases impossible

theorem steady_settle {found : Option Path} (finds : Finds tree found) (attempted : List Strategy) :
    Steady tree root (Settled tree) (settle found attempted) := by
  cases found with
  | none => exact Task.steady_pure (settled_none attempted)
  | some path =>
    refine (Task.agreeing_resolvePath path).map ?_
    rintro resolved ⟨_, known⟩ _ ⟨⟩
    exact ⟨path, finds path rfl, known⟩

theorem steady_resolveBare (specifier : String) (importer : Path) :
    Steady tree root (Settled tree) (resolveBare specifier importer) := by
  refine (steady_resolveAlias specifier importer).bind fun outcome finds => ?_
  obtain ⟨applied, found⟩ := outcome
  dsimp only
  split
  · exact steady_settle finds _
  · refine (steady_resolveWorkspace specifier).bind fun found finds => ?_
    split
    · exact steady_settle finds _
    · exact (steady_resolveInstalled specifier _).bind fun found finds => steady_settle finds _

/-- From coherent resolvers a specifier of a file always comes to the same end. -/
theorem steady_resolve (specifier : String) (importer : Path) :
    Steady tree root (Settled tree) (resolve specifier importer) := by
  unfold resolve
  split
  · exact Task.steady_pure (settled_none _)
  · split
    · exact (steady_resolvePath _).bind fun found finds => steady_settle finds _
    · split
      · exact Task.steady_pure (settled_none _)
      · exact steady_resolveBare specifier importer

end Resolver

/-!
## What a resolver was asked before

A resolver serves one request after the other, and some of them fail.  Each one leaves it coherent,
so what a specifier leads to, and which ways were tried, does not depend on the requests before.
-/

namespace Resolver

variable {tree : FileTree} {root : Path}

/-- What may be asked of a resolver. -/
inductive Request where
  | resolution (specifier : String) (importer : Path)
  | package (specifier : String) (directory : Path)
  | aliases (directory : Path)
  | members
  | manifest (path : Path)
deriving Repr, DecidableEq

/-- Does what is asked; the answer is of no interest here. -/
def Request.run : Request → Task Resolver Unit
  | .resolution specifier importer => do let _ ← resolve specifier importer
  | .package specifier directory => do let _ ← resolvePackage specifier directory
  | .aliases directory => do let _ ← aliasesIn directory
  | .members => do let _ ← workspaceMembers
  | .manifest path => do let _ ← readManifest path

/-- Serves requests one after the other, whether or not they fail. -/
def serve : List Request → Task Resolver Unit
  | [] => return ()
  | request :: rest => do
    let _ ← Task.attempt request.run
    serve rest

/-- A steady task leaves a coherent resolver coherent, also when its answer is dropped. -/
theorem coherent_after_steady
    {α : Type} {task : Task Resolver α} {kind : α → Prop} {journal : Journal Resolver}
    (steady : Task.Steady tree (Coherent tree root) kind task)
    (coherent : Coherent tree root journal.state) :
    Coherent tree root ((task >>= fun _ => pure ()) tree journal).2.state := by
  have dropped : Task.Steady tree (Coherent tree root) (fun _ => True)
      (task >>= fun _ => pure ()) :=
    steady.bind fun _ _ => Task.steady_pure trivial
  obtain ⟨outcome, settles, _⟩ := dropped.exists_settles
  obtain ⟨after, ran, kept⟩ := settles journal coherent
  rw [ran]
  exact kept

/-- A manifest that cannot be used is told in other words the second time, and so asking for one is
not steady; still the resolver stays coherent. -/
theorem coherent_after_readManifest (path : Path) {journal : Journal Resolver}
    (coherent : Coherent tree root journal.state) :
    Coherent tree root ((readManifest path >>= fun _ => pure ()) tree journal).2.state := by
  obtain ⟨outcome, after, ran, _, kept⟩ := readManifest_reads path coherent
  cases outcome with
  | ok found =>
    rw [Task.bind_of_ok ran]
    exact kept
  | error failure =>
    rw [Task.bind_of_error ran]
    exact kept

/-- Every request leaves a coherent resolver coherent. -/
theorem Request.coherent_after (request : Request) {journal : Journal Resolver}
    (coherent : Coherent tree root journal.state) :
    Coherent tree root (request.run tree journal).2.state := by
  cases request with
  | resolution specifier importer =>
    exact coherent_after_steady (steady_resolve specifier importer).alone coherent
  | package specifier directory =>
    exact coherent_after_steady (steady_resolvePackage specifier directory).alone coherent
  | aliases directory => exact coherent_after_steady (steady_aliasesIn directory).alone coherent
  | members => exact coherent_after_steady steady_workspaceMembers.alone coherent
  | manifest path => exact coherent_after_readManifest path coherent

/-- Serving never fails, and whatever was asked, the resolver is coherent afterwards. -/
theorem settles_serve (requests : List Request) :
    Task.Settles tree (Coherent tree root) (serve requests) (.ok ()) := by
  induction requests with
  | nil => exact Task.settles_pure ()
  | cons request rest ih =>
    intro journal coherent
    obtain ⟨after, ran, kept⟩ :=
      ih (request.run tree journal).2 (request.coherent_after coherent)
    exact ⟨after, (Task.bind_of_ok (Task.attempt_eq request.run journal)).trans ran, kept⟩

/-- After any requests, failed ones included, a specifier of a file comes to the same end as with a
resolver that was never asked before: to the same file by the same ways, or to the same failure. -/
theorem resolve_after_requests (tree : FileTree) (root : Path) (requests : List Request)
    (specifier : String) (importer : Path) :
    (do serve requests; resolve specifier importer).outcomeFrom tree (fresh root) =
      (resolve specifier importer).outcomeFrom tree (fresh root) := by
  have settles : Task.Settles tree (Coherent tree root) (resolve specifier importer)
      ((resolve specifier importer).outcomeFrom tree (fresh root)) :=
    (steady_resolve specifier importer).alone.settles_outcomeFrom coherent_fresh
  exact ((settles_serve requests).bind settles).outcomeFrom_eq coherent_fresh

end Resolver
end ModuleAtlas
