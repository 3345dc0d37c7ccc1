import ModuleAtlas.Project
import ModuleAtlas.Proofs.FileTree.Names
import ModuleAtlas.Proofs.Graph.Structure
import ModuleAtlas.Proofs.Task.Steady

/-!
# The files of a project

Patterns stand for files that are not left out, and a walk through the root finds the source files.
Both start from written paths and end with the canonical paths that these are resolved to.
-/

namespace ModuleAtlas

namespace Path

/-- The path that some names lead to from a directory. -/
def under (directory : Path) (names : List String) : Path :=
  ⟨directory.anchor, directory.names ++ names⟩

theorem under_nil (directory : Path) : directory.under [] = directory := by
  rw [under, List.append_nil]

theorem under_cons {directory : Path} {name : String} {names : List String} :
    directory.under (name :: names) = (directory.under [name]).under names := by
  simp [under]

end Path

namespace Project

variable {tree : FileTree} {project : Project}

variable {σ : Type} {path : Path} {entry : Entry} {names : List String} {good : σ → Prop}

theorem steady_fileAt (root path : Path) :
    Task.Steady tree good
      (fun file => tree.resolve? path = some file.path ∧ file = File.seenFrom root file.path)
      (Session.fileAt root path) := by
  refine (Task.steady_resolvePath path).map ?_
  rintro resolved ⟨_, known⟩
  exact ⟨known, rfl⟩

/-! ## Patterns -/

/-- A written path that patterns stand for, and the canonical path of the file that it leads to.
The written path is not ignored, and the file is in no directory for installed packages. -/
structure IsExpanded
    (project : Project) (tree : FileTree) (patterns : List String)
    (written canonical : Path) : Prop where
  matched : written ∈ patterns.flatMap (project.pathsOf tree)
  isFile : tree.passes Entry.isFile written = .ok true
  resolved : tree.resolve? written = some canonical
  outside : project.isInstalled canonical = false
  kept : project.ignore.ignores written false = false

/-- What patterns stand for: the files that the written paths lead to. -/
structure AreExpanded
    (project : Project) (tree : FileTree) (patterns : List String) (files : List File) : Prop where
  path_iff : ∀ path, path ∈ File.paths files ↔
    ∃ written, project.IsExpanded tree patterns written path
  seen : ∀ file ∈ files, file = File.seenFrom project.root file.path

/-- What a written path stands for. -/
structure StandsFor (project : Project) (tree : FileTree) (written : Path) (found : Option File) :
    Prop where
  sound : ∀ file, found = some file → tree.passes Entry.isFile written = .ok true ∧
    tree.resolve? written = some file.path ∧ project.isInstalled file.path = false ∧
    project.ignore.ignores written false = false ∧ file = File.seenFrom project.root file.path
  complete : ∀ canonical, tree.passes Entry.isFile written = .ok true →
    tree.resolve? written = some canonical → project.isInstalled canonical = false →
    project.ignore.ignores written false = false →
    found = some (File.seenFrom project.root canonical)

/-- A path stands for the same file every time. -/
theorem steady_fileAt? (written : Path) :
    Task.Steady tree good (project.StandsFor tree written) (project.fileAt? written) := by
  unfold fileAt?
  refine (Task.steady_isFile written).bind fun isFile outcome => ?_
  cases isFile with
  | false =>
    refine Task.steady_pure ⟨?_, ?_⟩
    · intro file impossible
      cases impossible
    · intro canonical isFile
      rw [outcome] at isFile
      cases isFile
  | true =>
    refine (steady_fileAt project.root written).map ?_
    rintro file ⟨known, seen⟩
    refine ⟨?_, ?_⟩
    · intro other found
      split at found
      · cases found
      · rename_i kept
        cases found
        simp only [Bool.or_eq_true, not_or, Bool.not_eq_true] at kept
        exact ⟨outcome, known, kept.1, kept.2, seen⟩
    · intro canonical _ otherKnown outside kept
      rw [known] at otherKnown
      cases otherKnown
      rw [if_neg (by simp [outside, kept]), ← seen]

/-- Patterns are expanded to the same files every time. -/
theorem steady_expand (patterns : List String) :
    Task.Steady tree good (project.AreExpanded tree patterns) (project.expand patterns) := by
  unfold expand
  refine Task.steady_files.bind fun found same => ?_
  subst same
  refine (Task.steady_mapM fun written _ => steady_fileAt? written).map ?_
  rintro files ⟨each, all⟩
  refine ⟨fun path => ?_, fun file member => ?_⟩
  · rw [File.mem_paths_sort, File.mem_paths_distinct, File.mem_paths]
    constructor
    · rintro ⟨file, member, rfl⟩
      obtain ⟨option, optionMember, rfl⟩ := List.mem_filterMap.mp member
      obtain ⟨written, matched, stands⟩ := each _ optionMember
      obtain ⟨isFile, known, outside, kept, _⟩ := stands.sound file rfl
      exact ⟨written, matched, isFile, known, outside, kept⟩
    · rintro ⟨written, matched, isFile, known, outside, kept⟩
      obtain ⟨option, optionMember, stands⟩ := all written matched
      have equal := stands.complete path isFile known outside kept
      exact ⟨_, List.mem_filterMap.mpr ⟨option, optionMember, equal⟩, rfl⟩
  · have listed := File.mem_of_mem_distinct (File.mem_sort.mp member)
    obtain ⟨option, optionMember, rfl⟩ := List.mem_filterMap.mp listed
    obtain ⟨_, _, stands⟩ := each _ optionMember
    obtain ⟨_, _, _, _, seen⟩ := stands.sound file rfl
    exact seen

/-! ## Source files -/

/-- A written path of a source file below a directory: no directory on the way holds installed
packages, and the path is not ignored. -/
structure IsWritten
    (project : Project) (directory : Path) (names : List String) (path : Path) : Prop where
  below : path = ⟨directory.anchor, directory.names ++ names⟩
  outside : ∀ name ∈ names.dropLast, project.dependencyDirs.contains name = false
  kept : project.ignore.ignores path false = false
  source : isSourceName path.name = true

theorem name_under (directory : Path) (name : String) : (directory.under [name]).name = name := by
  simp [Path.under, Path.name]

/-- What the walk takes up from an entry that stands at a path: the names of what it comes to
through directories that it enters. -/
inductive Takes (project : Project) (tree : FileTree) : Path → Entry → List String → Prop where
  | here {path : Path} {entry : Entry}
      (isLeaf : entry.isDirectory = false)
      (leads : tree.passes Entry.isDirectory path ≠ .ok true)
      (source : isSourceName path.name = true)
      (kept : project.ignore.ignores path false = false) :
      Takes project tree path entry []
  | enter {directory : Path} {entries : List (String × Entry)} {name : String} {entry : Entry}
      {names : List String}
      (used : project.dependencyDirs.contains directory.name = false)
      (kept : project.ignore.ignores directory true = false)
      (child : (name, entry) ∈ entries)
      (further : Takes project tree (directory.under [name]) entry names) :
      Takes project tree directory (.directory entries) (name :: names)

theorem Takes.mem_placesOf (takes : project.Takes tree path entry names) :
    names ∈ Entry.placesOf (fun _ => true) entry := by
  induction takes with
  | here => exact Entry.nil_mem_placesOf rfl
  | enter used kept child further ih =>
    rw [Entry.placesOf]
    exact List.mem_append_right _ (Entry.mem_placesAmong child ih)

theorem Takes.used
    (takes : project.Takes tree path entry names) (further : names ≠ []) :
    project.dependencyDirs.contains path.name = false := by
  cases takes with
  | here => exact absurd rfl further
  | enter used => exact used

/-- What is written below a directory in another one is written below that one. -/
theorem IsWritten.cons {directory path : Path} {name : String}
    (written : project.IsWritten (directory.under [name]) names path)
    (used : names ≠ [] → project.dependencyDirs.contains (directory.under [name]).name = false) :
    project.IsWritten directory (name :: names) path := by
  refine ⟨written.below.trans Path.under_cons.symm, fun other member => ?_, written.kept,
    written.source⟩
  cases names with
  | nil => cases member
  | cons next names =>
    rw [List.dropLast_cons_of_ne_nil (by simp)] at member
    rcases List.mem_cons.mp member with rfl | deeper
    · have outside := used (by simp)
      rwa [name_under] at outside
    · exact written.outside other deeper

theorem Takes.isWritten (takes : project.Takes tree path entry names) :
    project.IsWritten path names (path.under names) := by
  induction takes with
  | @here path entry isLeaf leads source kept =>
    rw [Path.under_nil]
    exact ⟨(Path.under_nil path).symm, by simp, kept, source⟩
  | enter used kept child further ih =>
    rw [Path.under_cons]
    exact ih.cons further.used

/-- What the walk takes up in an entry of a directory is written below the directory. -/
theorem Takes.isWritten_cons {directory : Path} {name : String}
    (takes : project.Takes tree (directory.under [name]) entry names) :
    project.IsWritten directory (name :: names) (directory.under (name :: names)) := by
  rw [Path.under_cons]
  exact takes.isWritten.cons takes.used

/-- What the walk takes up at a path that is no directory. -/
theorem mem_sourceHere_iff (isLeaf : entry.isDirectory = false) {paths : List Path}
    (collected : (do
      let isDirectory ← tree.passes Entry.isDirectory path
      return if !isDirectory && isSourceName path.name && !project.ignore.ignores path false then
        [path] else []) = Except.ok paths) (found : Path) :
    found ∈ paths ↔ ∃ names, project.Takes tree path entry names ∧ found = path.under names := by
  cases passes : tree.passes Entry.isDirectory path with
  | error long =>
    rw [passes] at collected
    cases collected
  | ok isDirectory =>
    rw [passes] at collected
    change Except.ok _ = _ at collected
    cases collected
    constructor
    · intro member
      split at member
      · rename_i accepted
        simp only [Bool.and_eq_true, Bool.not_eq_true'] at accepted
        have leads : tree.passes Entry.isDirectory path ≠ .ok true := by
          rw [passes, accepted.1.1]
          nofun
        rw [List.mem_singleton.mp member]
        exact ⟨[], .here isLeaf leads accepted.1.2 accepted.2, (Path.under_nil path).symm⟩
      · cases member
    · rintro ⟨names, takes, rfl⟩
      cases takes with
      | here _ leads source kept =>
        have noDirectory : isDirectory = false := by
          rw [passes] at leads
          exact Bool.eq_false_iff.mpr fun directory => leads (congrArg Except.ok directory)
        rw [noDirectory, source, kept, Path.under_nil]
        exact List.mem_singleton_self path
      | enter => cases isLeaf

mutual

/-- The walk finds what it takes up. -/
theorem mem_sourcesAt_iff :
    ∀ (path : Path) (entry : Entry) {paths : List Path},
      project.sourcesAt tree path entry = .ok paths → ∀ found,
        (found ∈ paths ↔ ∃ names, project.Takes tree path entry names ∧ found = path.under names)
  | path, .directory entries, paths, collected, found => by
    unfold sourcesAt at collected
    split at collected
    · rename_i left
      cases collected
      constructor
      · rintro ⟨⟩
      · rintro ⟨names, takes, -⟩
        cases takes with
        | here isLeaf => cases isLeaf
        | enter used kept =>
          rw [used, kept] at left
          cases left
    · rename_i entered
      simp only [Bool.or_eq_true, not_or, Bool.not_eq_true] at entered
      rw [mem_sourcesAmong_iff path entries collected found]
      constructor
      · rintro ⟨name, entry, names, child, further, rfl⟩
        exact ⟨_, .enter entered.1 entered.2 child further, rfl⟩
      · rintro ⟨names, takes, rfl⟩
        cases takes with
        | here isLeaf => cases isLeaf
        | enter used kept child further => exact ⟨_, _, _, child, further, rfl⟩
  | path, .file bytes parsed, paths, collected, found => by
    unfold sourcesAt at collected
    exact mem_sourceHere_iff rfl collected found
  | path, .link target, paths, collected, found => by
    unfold sourcesAt at collected
    exact mem_sourceHere_iff rfl collected found

/-- The source files among some entries are those that the project takes. -/
theorem mem_sourcesAmong_iff :
    ∀ (directory : Path) (entries : List (String × Entry)) {paths : List Path},
      project.sourcesAmong tree directory entries = .ok paths → ∀ found,
        (found ∈ paths ↔ ∃ name entry names, (name, entry) ∈ entries ∧
          project.Takes tree (directory.under [name]) entry names ∧
            found = directory.under (name :: names))
  | directory, [], paths, collected, found => by
    cases collected
    simp
  | directory, (name, entry) :: rest, paths, collected, found => by
    unfold sourcesAmong at collected
    cases first : project.sourcesAt tree (directory.under [name]) entry with
    | error long =>
      rw [Path.under] at first
      rw [first] at collected
      cases collected
    | ok firstPaths =>
      cases later : project.sourcesAmong tree directory rest with
      | error long =>
        rw [Path.under] at first
        rw [first, later] at collected
        cases collected
      | ok laterPaths =>
        have here := mem_sourcesAt_iff _ entry first found
        have there := mem_sourcesAmong_iff directory rest later found
        rw [Path.under] at first
        rw [first, later] at collected
        change Except.ok _ = _ at collected
        cases collected
        rw [List.mem_append, here, there]
        constructor
        · rintro (⟨names, takes, rfl⟩ | ⟨other, child, names, member, takes, rfl⟩)
          · exact ⟨name, entry, names, List.mem_cons_self, takes, Path.under_cons.symm⟩
          · exact ⟨other, child, names, List.mem_cons_of_mem _ member, takes, rfl⟩
        · rintro ⟨other, child, names, member, takes, rfl⟩
          rcases List.mem_cons.mp member with same | member
          · cases same
            exact .inl ⟨names, takes, Path.under_cons⟩
          · exact .inr ⟨other, child, names, member, takes, rfl⟩

end

/-- The written paths of the source files that the walk through the root finds. -/
def sourcePaths (project : Project) (tree : FileTree) : List Path :=
  match tree.lookup project.root with
  | .ok (_, .directory entries) => (project.sourcesAmong tree project.root entries).toOption.getD []
  | _ => []

theorem isWritten_of_mem_sourcePaths {written : Path}
    (member : written ∈ project.sourcePaths tree) :
    ∃ directory entries names, tree.root.at? directory = some (.directory entries) ∧
      names ∈ Entry.placesAmong (fun _ => true) entries ∧
      project.IsWritten project.root names written := by
  unfold sourcePaths at member
  split at member
  · rename_i directory entries found
    obtain ⟨_, known, _⟩ := FileTree.resolve?_of_lookup found
    cases collected : project.sourcesAmong tree project.root entries with
    | error long =>
      rw [collected] at member
      cases member
    | ok paths =>
      rw [collected] at member
      obtain ⟨name, entry, names, child, takes, rfl⟩ :=
        (mem_sourcesAmong_iff _ _ collected written).mp member
      exact ⟨directory, entries, name :: names, known,
        Entry.mem_placesAmong child takes.mem_placesOf, takes.isWritten_cons⟩
  · cases member

/-- What a project knows about a list of its source files: it holds what the written paths are
resolved to. -/
structure AreSources (project : Project) (tree : FileTree) (files : List File) : Prop where
  path_iff : ∀ path, path ∈ File.paths files ↔
    ∃ written ∈ project.sourcePaths tree, tree.resolve? written = some path
  seen : ∀ file ∈ files, file = File.seenFrom project.root file.path

/-- The source files of a project are the same every time. -/
theorem steady_sourceFiles :
    Task.Steady tree good (project.AreSources tree) project.sourceFiles := by
  unfold sourceFiles
  refine Task.steady_files.bind fun found same => ?_
  subst same
  split
  · rename_i directory entries lookup
    cases collected : project.sourcesAmong found project.root entries with
    | error long => exact Task.steady_fail _
    | ok paths =>
      have sources : project.sourcePaths found = paths := by
        unfold sourcePaths
        rw [lookup]
        dsimp only
        rw [collected]
        rfl
      refine (Task.steady_mapM fun path _ => steady_fileAt project.root path).map ?_
      rintro files ⟨each, all⟩
      refine ⟨fun path => ?_, fun file member => ?_⟩
      · rw [File.mem_paths_sort, File.mem_paths_distinct, File.mem_paths, sources]
        constructor
        · rintro ⟨file, member, rfl⟩
          obtain ⟨written, writtenMember, known, _⟩ := each file member
          exact ⟨written, writtenMember, known⟩
        · rintro ⟨written, writtenMember, known⟩
          obtain ⟨file, member, fileKnown, _⟩ := all written writtenMember
          rw [known] at fileKnown
          cases fileKnown
          exact ⟨file, member, rfl⟩
      · obtain ⟨_, _, _, seen⟩ :=
          each file (File.mem_of_mem_distinct (File.mem_sort.mp member))
        exact seen
  · rename_i noDirectory
    refine (Task.steady_note _).bind fun _ _ => Task.steady_pure ⟨fun path => ?_, ?_⟩
    · have none : project.sourcePaths found = [] := by
        unfold sourcePaths
        split
        · rename_i directory entries lookup
          exact absurd lookup (noDirectory directory entries)
        · rfl
      simp [none]
    · intro file impossible
      cases impossible

/-- No name in a file tree and none on the way to the root of a project holds a slash, as in every
file system. -/
structure IsNamed (project : Project) (tree : FileTree) : Prop where
  places : ∀ names ∈ Entry.placesOf (fun _ => true) tree.root, FileTree.AreFree names
  root : FileTree.AreFree (tree.fullNames project.root)

theorem IsNamed.isProper (named : project.IsNamed tree) {written resolved : Path}
    (member : written ∈ project.sourcePaths tree) (known : tree.resolve? written = some resolved) :
    resolved.IsProper := by
  obtain ⟨directory, entries, names, found, place, isWritten⟩ := isWritten_of_mem_sourcePaths member
  have entriesPlace : names ∈ Entry.placesOf (fun _ => true) (.directory entries) := by
    rw [Entry.placesOf]
    exact List.mem_append_right _ place
  have free := named.places _ (Entry.append_mem_placesOf found entriesPlace)
  refine FileTree.isProper_of_resolve? ?_ known
  have full : tree.fullNames written = tree.fullNames project.root ++ names := by
    rw [isWritten.below]
    unfold FileTree.fullNames Path.isAbsolute
    dsimp only
    split
    · rfl
    · rw [List.append_assoc]
  rw [full]
  exact FileTree.areFree_append.mpr ⟨named.root, (FileTree.areFree_append.mp free).2⟩

theorem AreSources.isProper {files : List File} (sources : project.AreSources tree files)
    (named : project.IsNamed tree) (member : path ∈ File.paths files) : path.IsProper := by
  obtain ⟨written, writtenMember, known⟩ := (sources.path_iff path).mp member
  exact named.isProper writtenMember known

end Project
end ModuleAtlas
