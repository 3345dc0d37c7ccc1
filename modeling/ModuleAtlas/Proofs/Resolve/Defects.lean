import ModuleAtlas.Proofs.FileTree.Canonical
import ModuleAtlas.Proofs.Resolve.Steady
import ModuleAtlas.Proofs.Task.Ending

/-!
# What stops a resolution

A specifier comes to a resolution unless one of a few defects stops it.  A manifest that cannot be
read, or that holds values of other kinds than are looked for, is no defect: the ways to resolve
that need it find nothing and the next one is tried.  What stops a resolution are texts that name no
file at all where a path is wanted, patterns for workspace members that are none, export tables that
are numbers or truth values, manifests with numbers that are too long or with arrays and objects
that are nested too deep, and paths that the file system does not allow.
-/

namespace ModuleAtlas
namespace Resolver

variable {tree : FileTree} {root start : Path} {specifier : String}

/-! ## Where texts come from -/

/-- A file holds compiler options. -/
def HoldsOptions (tree : FileTree) (file : Path) (options : Json) : Prop :=
  readObject tree file Json.stripComments .noOptions = .ok options

theorem HoldsOptions.lookup {file : Path} {options : Json} (held : HoldsOptions tree file options) :
    ∃ found, tree.lookup file = .ok found := by
  unfold HoldsOptions readObject FileTree.text? FileTree.bytes? at held
  cases looked : tree.lookup file with
  | ok found => exact ⟨found, rfl⟩
  | error fault =>
    rw [looked] at held
    cases held

/-- The options for the compiler itself under a key. -/
def compilerOption (options : Json) (key : String) : Option Json :=
  (options.get? "compilerOptions").bind (Json.get? key)

/-- The options that some options extend as they are named there: the last one of several. -/
def extendedText? (base : Option Json) : Option String :=
  let last :=
    match base with
    | some (.array items) => items.getLast?
    | other => other
  (last.bind Json.text?).filter (!·.isEmpty)

/-- A pattern in the options of a file has a target. -/
def HasTarget (tree : FileTree) (target : String) : Prop :=
  ∃ file options patterns pattern items, HoldsOptions tree file options ∧
    compilerOption options "paths" = some (.object patterns) ∧ (pattern, .array items) ∈ patterns ∧
    target ∈ Json.texts items

/-- The texts that a resolution takes for paths: the specifier and what lies inside the package that
it names, entries of manifests, targets of path aliases, and the options that others extend. -/
inductive Named (tree : FileTree) (specifier : String) : String → Prop where
  | specifier : Named tree specifier specifier
  | subpath : Named tree specifier (Resolve.splitPackage specifier).2
  | entry {path : Path} {manifest : Json} {key text : String}
      (known : manifestIn tree path = .ok (some manifest))
      (listed : entryText? manifest key = some text) :
      Named tree specifier text
  | target {target captured : String}
      (listed : HasTarget tree target) :
      Named tree specifier (Text.replaceFirst "*" captured target)
  | extended {file : Path} {options : Json} {text : String}
      (held : HoldsOptions tree file options)
      (listed : extendedText? (options.get? "extends") = some text) :
      Named tree specifier text
  | inner {file : Path} {options : Json} {text : String}
      (held : HoldsOptions tree file options)
      (listed : extendedText? (options.get? "extends") = some text) :
      Named tree specifier (Resolve.splitPackage text).2

/-- The paths that a resolution makes canonical before it is known whether anything is there. -/
inductive Sought (tree : FileTree) (start : Path) : Path → Prop where
  | start : Sought tree start start
  | base {file : Path} {options : Json} {text : String}
      (held : HoldsOptions tree file options)
      (listed : compilerOption options "baseUrl" = some (.string text)) :
      Sought tree start (file.parent.child text)
  | extended {path file : Path}
      (isFile : IsFileAt tree path)
      (known : tree.resolve? path = some file) :
      Sought tree start file

/-- A directory at or above the root declares a pattern for workspace members. -/
def Declares (tree : FileTree) (root directory : Path) (pattern : String) : Prop :=
  directory ∈ ancestors root ∧
    ((∃ manifest, manifestIn tree (directory.child "package.json") = .ok (some manifest) ∧
        pattern ∈ workspacePatterns manifest) ∨
      ∃ text patterns, tree.text? (directory.child workspaceName) = some text ∧
        Yaml.textsUnder "packages" text = .ok patterns ∧ pattern ∈ patterns)

/-- A value of an export table that is neither a table nor a target nor a list of targets. -/
inductive NoTable : Json → Prop where
  | bool (value : Bool) : NoTable (.bool value)
  | int (value : Int) : NoTable (.int value)
  | decimal (literal : String) : NoTable (.decimal literal)

/-- What stops a resolution of a specifier that starts from a directory, with the failure in which
it ends. -/
inductive Defect (tree : FileTree) (root start : Path) (specifier : String) : Failure → Prop where
  /-- A text that is taken for a path has no last name. -/
  | unnamed {directory : Path} {text : String}
      (named : Named tree specifier text)
      (nameless : (directory.child text).names = []) :
      Defect tree root start specifier .unnamedPath
  /-- The exports of a package are a number or a truth value. -/
  | exports {directory : Path} {manifest exports : Json}
      (known : manifestIn tree (directory.child "package.json") = .ok (some manifest))
      (listed : manifest.get? "exports" = some exports)
      (noTable : NoTable exports) :
      Defect tree root start specifier .exportsNotTable
  /-- A pattern for workspace members is none, or leads to a path that is too long. -/
  | pattern {directory : Path} {written pattern : String} {fault : Glob.MemberFault}
      (declared : Declares tree root directory written)
      (trimmed : memberPattern? written = some pattern)
      (refused : Glob.members tree directory pattern = .error fault) :
      Defect tree root start specifier (.memberPattern fault)
  /-- A workspace file is well-formed but holds a value that there is not, or too many collections
  inside each other. -/
  | workspace {directory : Path} {text : List Char} {fault : Yaml.Fault}
      (above : directory ∈ ancestors root)
      (known : tree.text? (directory.child workspaceName) = some text)
      (refused : Yaml.textsUnder "packages" text = .error fault)
      (wellFormed : fault ≠ .malformed) :
      Defect tree root start specifier (workspaceFailure fault)
  /-- A manifest or a file with compiler options holds a number that is too long, or too many arrays
  and objects inside each other. -/
  | content {path : Path} {strip : List Char → List Char} {fault : Json.Fault}
      (strips : strip = id ∨ strip = Json.stripComments)
      (refuses : Refuses tree path strip fault) :
      Defect tree root start specifier (manifestFailure path fault)
  /-- A path or a name in it is longer than any file system allows. -/
  | long {path : Path}
      (refused : tree.lookup path = .error .tooLong) :
      Defect tree root start specifier (.tooLong path)
  /-- The links on the way to a path form a loop. -/
  | loop {path : Path}
      (sought : Sought tree start path)
      (endless : tree.resolve? path = none) :
      Defect tree root start specifier (.linkLoop path)
  /-- A path holds a null character. -/
  | null {path : Path}
      (sought : Sought tree start path)
      (holds : path.hasNull = true) :
      Defect tree root start specifier (.nullCharacter path)

/-- No user is told a defect. -/
theorem Defect.untold {failure : Failure} (defect : Defect tree root start specifier failure) :
    failure.message? = none := by
  cases defect with
  | @workspace directory text fault => cases fault <;> rfl
  | content _ refuses =>
    rcases refuses.failure_cases with long | ⟨what, deep⟩
    · rw [long]
      rfl
    · rw [deep]
      rfl
  | _ => rfl

/-- A task of a resolver is stopped by defects only. -/
abbrev Stopped (tree : FileTree) (root start : Path) (specifier : String) (kind : α → Prop)
    (task : Task Resolver α) : Prop :=
  Task.Ends tree (Coherent tree root) kind (Defect tree root start specifier) task

/-! ## Files -/

theorem stopped_isFile (path : Path) :
    Stopped tree root start specifier
      (fun passed => tree.passes Entry.isFile path = .ok passed) (Task.isFile path) :=
  Task.ends_passes Entry.isFile path .long

theorem stopped_resolvePath (path : Path) (sought : Sought tree start path) :
    Stopped tree root start specifier
      (fun resolved => path.hasNull = false ∧ tree.resolve? path = some resolved)
      (Task.resolvePath path) :=
  Task.ends_resolvePath path (.null sought) (.loop sought)

theorem stopped_firstFile? (paths : List Path) :
    Stopped tree root start specifier (Finds tree) (firstFile? paths) := by
  refine Task.ends_findM? fun path => (stopped_isFile path).imp ?_ fun _ => id
  rintro passed outcome rfl
  exact outcome

/-- A path that is tried first, and other ways when it is no file. -/
theorem stopped_orElse {first second : Task Resolver (Option Path)}
    (tried : Stopped tree root start specifier (Finds tree) first)
    (otherwise : Stopped tree root start specifier (Finds tree) second) :
    Stopped tree root start specifier (Finds tree) (do
      match ← first with
      | some found => return some found
      | none => second) := by
  refine tried.bind fun found finds => ?_
  cases found with
  | some path => exact Task.ends_pure finds
  | none => exact otherwise

variable {path directory : Path} {found : Option Json}

/-- A path that leads to a file is found in the file tree. -/
theorem lookup_of_isFileAt (isFile : IsFileAt tree path) :
    ∃ found, tree.lookup path = .ok found := by
  unfold IsFileAt FileTree.passes at isFile
  split at isFile
  · rename_i found
    exact ⟨_, found⟩
  · cases isFile
  · cases isFile

/-- A path that is known to be resolved is made canonical without fail. -/
theorem stopped_resolved (noNull : path.hasNull = false) (known : tree.resolve? path ≠ none) :
    Stopped tree root start specifier
      (fun resolved => tree.resolve? path = some resolved) (Task.resolvePath path) := by
  refine (Task.ends_resolvePath path ?_ ?_).imp (fun _ found => found.2) fun _ => id
  · exact fun null => absurd null (by simp [noNull])
  · exact fun endless => absurd endless known

/-- The canonical path of a file is always found. -/
theorem stopped_canonical (isFile : IsFileAt tree path) :
    Stopped tree root start specifier
      (fun resolved => tree.resolve? path = some resolved) (Task.resolvePath path) := by
  obtain ⟨⟨names, entry⟩, looked⟩ := lookup_of_isFileAt isFile
  refine stopped_resolved (FileTree.follow_of_lookup looked).1 ?_
  simp [(FileTree.resolve?_of_lookup looked).1]

/-- The directory of a file with compiler options is always found. -/
theorem stopped_parent {file : Path} {options : Json} (held : HoldsOptions tree file options) :
    Stopped tree root start specifier
      (fun resolved => tree.resolve? file.parent = some resolved)
      (Task.resolvePath file.parent) := by
  obtain ⟨found, looked⟩ := held.lookup
  obtain ⟨noNull, known⟩ := FileTree.resolve?_parent_of_lookup looked
  exact stopped_resolved noNull known

/-! ## Manifests -/

/-- A manifest that is refused is a defect. -/
theorem manifestIn_defect {failure : Failure} (failed : manifestIn tree path = .error failure) :
    Defect tree root start specifier failure := by
  unfold manifestIn at failed
  split at failed
  · rename_i long passes
    cases failed
    unfold FileTree.passes at passes
    split at passes
    · cases passes
    · rename_i refused
      cases passes
      exact .long refused
    · cases passes
  · cases failed
  · split at failed
    · cases failed
    · cases failed
    · rename_i notManifest read
      cases failed
      rcases readObject_error read with ⟨fault, rfl⟩ | ⟨fault, refuses, rfl⟩
      · exact absurd rfl (notManifest path fault)
      · exact .content (.inl rfl) refuses

theorem stopped_readManifestQuietly (path : Path) :
    Stopped tree root start specifier (fun found => manifestIn tree path = .ok found)
      (readManifestQuietly path) := by
  intro journal coherent
  obtain ⟨after, ran, kept⟩ := settles_readManifestQuietly path journal coherent
  refine ⟨_, after, ran, ?_, kept⟩
  cases known : manifestIn tree path with
  | ok found => exact .ok rfl
  | error failure => exact .error (manifestIn_defect known)

/-- All entries of a manifest are named. -/
def EntriesNamed (tree : FileTree) (specifier : String) (manifest : Json) : Prop :=
  ∀ key text, entryText? manifest key = some text → Named tree specifier text

theorem entriesNamed_of_known (known : manifestIn tree path = .ok found) :
    EntriesNamed tree specifier (found.getD .null) := by
  intro key text listed
  cases found with
  | none => cases listed
  | some manifest => exact .entry known listed

/-! ## Paths -/

theorem stopped_withEnding (ending : String)
    (blamed : path.names = [] → Defect tree root start specifier .unnamedPath) :
    Stopped tree root start specifier (fun _ => True) (withEnding path ending) := by
  unfold withEnding Path.withName?
  cases nameless : path.names.isEmpty with
  | true => exact Task.ends_fail (blamed (List.isEmpty_iff.mp nameless))
  | false => exact Task.ends_pure trivial

theorem stopped_resolveEnding
    (blamed : path.names = [] → Defect tree root start specifier .unnamedPath) :
    Stopped tree root start specifier (Finds tree) (resolveEnding path) :=
  (Task.ends_mapM fun ending _ => stopped_withEnding ending blamed).bind
    fun paths _ => stopped_firstFile? paths

theorem stopped_resolveEntries (directory : Path) {manifest : Json}
    (named : EntriesNamed tree specifier manifest) (keys : List String) :
    Stopped tree root start specifier (Finds tree)
      (resolveEntries directory manifest keys) := by
  induction keys with
  | nil => exact Task.ends_pure finds_none
  | cons key rest ih =>
    unfold resolveEntries
    cases listed : entryText? manifest key with
    | none => exact ih
    | some entry =>
      refine (stopped_isFile (directory.child entry)).bind fun isFile outcome => ?_
      cases isFile with
      | true => exact Task.ends_pure (finds_some outcome)
      | false =>
        refine stopped_orElse (stopped_resolveEnding ?_) ih
        exact .unnamed (named key entry listed)

theorem stopped_resolveDirectory (directory : Path) :
    Stopped tree root start specifier (Finds tree) (resolveDirectory directory) := by
  refine (stopped_readManifestQuietly (directory.child "package.json")).bind ?_
  intro manifest known
  exact stopped_orElse (stopped_resolveEntries directory (entriesNamed_of_known known) _)
    (stopped_firstFile? _)

theorem stopped_resolveFile
    (blamed : path.names = [] → Defect tree root start specifier .unnamedPath) :
    Stopped tree root start specifier (Finds tree) (resolvePath path) := by
  refine (stopped_isFile path).bind fun isFile outcome => ?_
  cases isFile with
  | true => exact Task.ends_pure (finds_some outcome)
  | false =>
    refine stopped_orElse (stopped_resolveEnding blamed) (stopped_orElse (stopped_firstFile? _) ?_)
    refine (Task.ends_passes Entry.isDirectory path .long).bind fun isDirectory _ => ?_
    cases isDirectory with
    | true => exact stopped_resolveDirectory path
    | false => exact Task.ends_pure finds_none

/-! ## Installed packages -/

theorem stopped_findInstalled (name : String) {kind : Path → Prop}
    (sought : Stopped tree root start specifier kind (Task.resolvePath directory)) :
    Stopped tree root start specifier (fun _ => True) (findInstalled name directory) := by
  refine sought.bind fun resolved _ => ?_
  have each : ∀ place : Path, Stopped tree root start specifier
      (fun passed => passed = true → IsFileAt tree (place.child "package.json"))
      (Task.isFile (place.child "package.json")) := by
    intro place
    refine (stopped_isFile _).imp ?_ fun _ => id
    rintro passed outcome rfl
    exact outcome
  exact (Task.ends_findM? each).anyhow

section

variable (known : manifestIn tree (directory.child "package.json") = .ok found)

include known

theorem stopped_exportEntry (key : String) :
    Stopped tree root start specifier (fun _ => True)
      (exportEntry (found.getD .null) key) := by
  cases found with
  | none => exact Task.ends_pure trivial
  | some manifest =>
    unfold exportEntry
    cases listed : (Option.getD (some manifest) Json.null).get? "exports" with
    | none => exact Task.ends_pure trivial
    | some exports =>
      cases exports with
      | null => exact Task.ends_pure trivial
      | string text => exact Task.ends_pure trivial
      | array items => exact Task.ends_pure trivial
      | object entries =>
        dsimp only
        split
        · exact Task.ends_pure trivial
        · exact Task.ends_pure trivial
      | bool value => exact Task.ends_fail (.exports known listed (.bool value))
      | int value => exact Task.ends_fail (.exports known listed (.int value))
      | decimal literal => exact Task.ends_fail (.exports known listed (.decimal literal))

theorem stopped_resolveExport (key : String) :
    Stopped tree root start specifier (Finds tree)
      (resolveExport directory (found.getD .null) key) :=
  (stopped_exportEntry known key).bind fun _ _ => stopped_firstFile? _

theorem stopped_resolveInstalledSubpath {subpath : String} (named : Named tree specifier subpath) :
    Stopped tree root start specifier (Finds tree)
      (resolveInstalledSubpath directory (found.getD .null) subpath) :=
  stopped_orElse (stopped_resolveExport known _)
    (stopped_orElse (stopped_firstFile? _) (stopped_resolveFile (.unnamed named)))

theorem stopped_resolveInstalledMain :
    Stopped tree root start specifier (Finds tree)
      (resolveInstalledMain directory (found.getD .null)) := by
  refine stopped_orElse (stopped_firstFile? _) (stopped_orElse (stopped_resolveExport known _) ?_)
  cases listed : entryText? (found.getD .null) "main" with
  | some main =>
    have named : Named tree specifier main := entriesNamed_of_known known "main" main listed
    exact stopped_orElse (stopped_resolveFile (.unnamed named)) (stopped_firstFile? _)
  | none => exact stopped_orElse (Task.ends_pure finds_none) (stopped_firstFile? _)

end

/-- Looking for an installed package stops only at a defect. -/
theorem stopped_resolveInstalled :
    Stopped tree root start specifier (Finds tree)
      (resolveInstalled specifier start) := by
  unfold resolveInstalled
  dsimp only
  refine (stopped_findInstalled _ (stopped_resolvePath _ .start)).bind fun directory _ => ?_
  cases directory with
  | none => exact Task.ends_pure finds_none
  | some directory =>
    refine (stopped_readManifestQuietly (directory.child "package.json")).bind ?_
    intro manifest known
    split
    · exact stopped_resolveInstalledMain known
    · exact stopped_resolveInstalledSubpath known .subpath

end Resolver
end ModuleAtlas
