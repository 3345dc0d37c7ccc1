import ModuleAtlas.Proofs.Graph.Closure
import ModuleAtlas.Proofs.Ignore.Persisting

/-!
# The walk and the test of single files

The walk through a project skips ignored directories, while a file that is met otherwise is tested
by itself.  The walk finds exactly the files that pass this test and lie in no ignored directory.
So the two agree where whatever lies in an ignored directory is ignored itself: always, when no rule
takes anything back and none has a set.  A rule that takes files back makes them differ.
-/

namespace ModuleAtlas

variable {tree : FileTree}

/-! ## File trees with the names of files -/

namespace Entry

/-- Whether a name can be that of a file. -/
def isFileName (name : String) : Bool :=
  name != ".." && Path.isKept name && !name.toList.contains '/' && !name.toList.contains '\x00'

mutual

/-- Whether each name in an entry can be that of a file and is there once in its directory. -/
def isNamed : Entry → Bool
  | .directory entries => areNamed entries && decide (entries.map Prod.fst).Nodup
  | .file _ _ => true
  | .link _ => true

/-- Whether each name in the entries of a directory can be that of a file, and is there once in its
own directory. -/
def areNamed : List (String × Entry) → Bool
  | [] => true
  | (name, entry) :: rest => isFileName name && isNamed entry && areNamed rest

end

/-- Entries are named if each of them and all below it have file names. -/
theorem areNamed_iff {entries : List (String × Entry)} :
    areNamed entries = true ↔
      ∀ name entry, (name, entry) ∈ entries → isFileName name = true ∧ isNamed entry = true := by
  induction entries with
  | nil => simp [areNamed]
  | cons pair rest ih =>
    obtain ⟨name, entry⟩ := pair
    rw [areNamed, Bool.and_eq_true, Bool.and_eq_true, ih]
    constructor
    · rintro ⟨here, there⟩ other child member
      rcases List.mem_cons.mp member with same | later
      · cases same
        exact here
      · exact there other child later
    · intro each
      exact ⟨each name entry List.mem_cons_self, fun other child member =>
        each other child (List.mem_cons_of_mem _ member)⟩

theorem lookup_eq_some_iff_mem {entries : List (String × Entry)} {name : String} {entry : Entry}
    (named : isNamed (.directory entries) = true) :
    entries.lookup name = some entry ↔ (name, entry) ∈ entries := by
  rw [isNamed, Bool.and_eq_true, decide_eq_true_eq] at named
  exact ⟨mem_of_lookup_eq_some, lookup_eq_some_of_nodup named.2⟩

/-- What names lead to in an entry is named as the entry is, and so are the names. -/
theorem isNamed_of_at? {entry found : Entry} {names : List String} (named : entry.isNamed = true)
    (known : entry.at? names = some found) :
    found.isNamed = true ∧ ∀ name ∈ names, isFileName name = true := by
  induction names generalizing entry with
  | nil =>
    cases known
    exact ⟨named, by simp⟩
  | cons name rest ih =>
    rw [at?_cons, Option.bind_eq_some_iff] at known
    obtain ⟨child, childKnown, restKnown⟩ := known
    cases entry with
    | file bytes parsed => cases childKnown
    | link target => cases childKnown
    | directory entries =>
      have inEntries := (lookup_eq_some_iff_mem named).mp childKnown
      rw [isNamed, Bool.and_eq_true] at named
      obtain ⟨nameKnown, childNamed⟩ := areNamed_iff.mp named.1 name child inEntries
      obtain ⟨foundNamed, restKnown⟩ := ih childNamed restKnown
      exact ⟨foundNamed, List.forall_mem_cons.mpr ⟨nameKnown, restKnown⟩⟩

end Entry

namespace FileTree

/-- A file system without links, in which each directory holds a name once, and only names that a
file can have. -/
structure IsPlainTree (tree : FileTree) : Prop where
  unlinked : tree.root.linkCount = 0
  named : tree.root.isNamed = true

variable {path : Path} {entry : Entry}

/-- The path of an entry in a plain file tree is proper and holds no null character. -/
theorem IsPlainTree.isProper (plainTree : tree.IsPlainTree) (anchored : path.anchor = .root)
    (known : tree.root.at? path.names = some entry) :
    path.IsProper ∧ path.hasNull = false := by
  have each := (Entry.isNamed_of_at? plainTree.named known).2
  simp only [Entry.isFileName, Bool.and_eq_true, bne_iff_ne, Bool.not_eq_true',
    List.contains_eq_mem, decide_eq_false_iff_not] at each
  refine ⟨⟨anchored, fun name member => (each name member).1.1, fun name member =>
    (each name member).1.2⟩, ?_⟩
  rw [Path.hasNull, List.any_eq_false]
  intro name member
  simpa using (each name member).2

/-- What is found further down from a path lies in an entry of its directory. -/
theorem exists_of_at?_under_cons {name : String} {rest : List String} {found : Entry}
    (known : tree.root.at? path.names = some entry)
    (below : tree.root.at? (path.under (name :: rest)).names = some found) :
    ∃ entries child, entry = .directory entries ∧
      tree.root.at? (path.under [name]).names = some child := by
  rw [Path.under, Entry.at?_append, known, Option.bind_some, Entry.at?_cons,
    Option.bind_eq_some_iff] at below
  obtain ⟨child, childKnown, -⟩ := below
  rw [Path.under, Entry.at?_concat, known]
  cases entry with
  | directory entries => exact ⟨entries, child, rfl, childKnown⟩
  | file bytes parsed => cases childKnown
  | link target => cases childKnown

/-- The entries of a directory in a plain file tree are those that stand right below its path. -/
theorem IsPlainTree.mem_iff_at? (plainTree : tree.IsPlainTree)
    {entries : List (String × Entry)} (known : tree.root.at? path.names = some (.directory entries))
    {name : String} :
    (name, entry) ∈ entries ↔ tree.root.at? (path.under [name]).names = some entry := by
  rw [Path.under, Entry.at?_concat, known]
  exact (Entry.lookup_eq_some_iff_mem (Entry.isNamed_of_at? plainTree.named known).1).symm

theorem IsPlainTree.lookup_of_at? (plainTree : tree.IsPlainTree) (anchored : path.anchor = .root)
    (known : tree.root.at? path.names = some entry) :
    tree.lookup path = .ok (path.names, entry) ∨ tree.lookup path = .error .tooLong := by
  obtain ⟨proper, noNull⟩ := plainTree.isProper anchored known
  exact FileTree.lookup_of_at? plainTree.unlinked anchored proper.plain noNull known

end FileTree

/-! ## Sorted files -/

/-- Files that are seen from one root at proper paths are sorted strictly by their names. -/
theorem File.pairwise_sort_distinct {root : Path} {files : List File}
    (seen : ∀ file ∈ files, file = File.seenFrom root file.path ∧ file.path.IsProper) :
    (File.sort (File.distinct files)).Pairwise fun a b => a.name < b.name := by
  have distinct : (File.sort (File.distinct files)).Nodup :=
    (File.sort_perm _).nodup_iff.mpr (File.nodup_distinct files)
  have known : ∀ file ∈ File.sort (File.distinct files),
      file = File.seenFrom root file.path ∧ file.path.IsProper :=
    fun file member => seen file (File.mem_of_mem_distinct (File.mem_sort.mp member))
  refine ((File.pairwise_sort _).and distinct).imp_of_mem ?_
  rintro a b aMember bMember ⟨le, different⟩
  rw [← String.not_le]
  intro ge
  exact different (File.eq_of_name_eq (known a aMember) (known b bMember)
    (String.le_antisymm le ge))

namespace Project

variable {project : Project} {path : Path} {entry : Entry} {names : List String}

/-! ## What the walk takes up -/

/-- The walk enters every directory on the way from a path along names, the path included. -/
def Enters (project : Project) (path : Path) (names : List String) : Prop :=
  ∀ first rest, names = first ++ rest → rest ≠ [] →
    project.dependencyDirs.contains (path.under first).name = false ∧
      project.ignore.ignores (path.under first) true = false

theorem enters_nil : project.Enters path [] := by
  intro first rest equal some
  exact absurd (List.append_eq_nil_iff.mp equal.symm).2 some

theorem enters_cons {name : String} :
    project.Enters path (name :: names) ↔
      (project.dependencyDirs.contains path.name = false ∧
        project.ignore.ignores path true = false) ∧ project.Enters (path.under [name]) names := by
  constructor
  · intro enters
    refine ⟨?_, fun first rest equal some => ?_⟩
    · have here := enters [] (name :: names) rfl (List.cons_ne_nil _ _)
      rwa [Path.under_nil] at here
    · rw [← Path.under_cons]
      exact enters (name :: first) rest (congrArg (name :: ·) equal) some
  · rintro ⟨here, further⟩ first rest equal some
    cases first with
    | nil =>
      rw [Path.under_nil]
      exact here
    | cons other first =>
      obtain ⟨rfl, inRest⟩ := List.cons.inj equal
      rw [Path.under_cons]
      exact further first rest inRest some

theorem Takes.enters (takes : project.Takes tree path entry names) : project.Enters path names := by
  induction takes with
  | here => exact enters_nil
  | enter used kept child further ih =>
    exact enters_cons.mpr ⟨⟨used, kept⟩, ih⟩

/-- What the walk takes up in a plain file tree is a file. -/
theorem Takes.isFile (takes : project.Takes tree path entry names) (plainTree : tree.IsPlainTree)
    (known : tree.root.at? path.names = some entry) :
    ∃ bytes parsed, tree.root.at? (path.under names).names = some (.file bytes parsed) := by
  induction takes with
  | @here path entry isLeaf leads source kept =>
    rw [Path.under_nil]
    cases entry with
    | file bytes parsed => exact ⟨bytes, parsed, known⟩
    | directory entries => cases isLeaf
    | link target => exact absurd known (FileTree.ne_link_of_linkCount plainTree.unlinked _ target)
  | enter used kept child further ih =>
    rw [Path.under_cons]
    exact ih ((plainTree.mem_iff_at? known).mp child)

/-- A file that passes the test of single files is taken up when the walk enters every directory on
the way. -/
theorem takes_of_at? (plainTree : tree.IsPlainTree) (anchored : path.anchor = .root)
    (known : tree.root.at? path.names = some entry) {bytes : ByteArray} {parsed : Option Node}
    (found : tree.root.at? (path.under names).names = some (.file bytes parsed))
    (enters : project.Enters path names) (source : isSourceName (path.under names).name = true)
    (kept : project.ignore.ignores (path.under names) false = false) :
    project.Takes tree path entry names := by
  induction names generalizing path entry with
  | nil =>
    rw [Path.under_nil] at found source kept
    rw [known] at found
    cases found
    refine .here rfl (fun leads => ?_) source kept
    -- Asked whether a directory is here, the file tree says no or that the path is too long.
    unfold FileTree.passes at leads
    rcases plainTree.lookup_of_at? anchored known with looked | looked
    · rw [looked] at leads
      cases leads
    · rw [looked] at leads
      cases leads
  | cons name rest ih =>
    obtain ⟨⟨used, entered⟩, further⟩ := enters_cons.mp enters
    obtain ⟨entries, child, rfl, onward⟩ := FileTree.exists_of_at?_under_cons known found
    rw [Path.under_cons] at found source kept
    exact .enter used entered ((plainTree.mem_iff_at? known).mpr onward)
      (ih anchored onward found further source kept)

/-! ## The test of single files -/

/-- A file below the root that passes the test of single files: it is a source file, no directory on
the way holds installed packages, and it is not ignored. -/
structure IsAdmitted (project : Project) (tree : FileTree) (names : List String) : Prop where
  nonempty : names ≠ []
  isFile : ∃ bytes parsed, tree.root.at? (project.root.names ++ names) = some (.file bytes parsed)
  written : project.IsWritten project.root names (project.root.under names)

/-- No directory between the root and a file below it is ignored. -/
def IsOpen (project : Project) (names : List String) : Prop :=
  ∀ first rest, names = first ++ rest → first ≠ [] → rest ≠ [] →
    project.ignore.ignores (project.root.under first) true = false

/-- The walk enters the directories on the way to a file that is admitted and open. -/
theorem IsAdmitted.enters {name : String} {rest : List String}
    (admitted : project.IsAdmitted tree (name :: rest)) (isOpen : project.IsOpen (name :: rest)) :
    project.Enters (project.root.under [name]) rest := by
  rintro first last rfl some
  rw [← Path.under_cons]
  refine ⟨?_, isOpen (name :: first) last rfl (List.cons_ne_nil _ _) some⟩
  have lastName : (project.root.under (name :: first)).name =
      (name :: first).getLast (List.cons_ne_nil _ _) := by
    rw [Path.name, Path.under, List.getLast?_append_of_ne_nil _ (List.cons_ne_nil _ _),
      List.getLast?_eq_getLast_of_ne_nil (List.cons_ne_nil _ _), Option.getD_some]
  rw [lastName]
  refine admitted.written.outside _ ?_
  rw [← List.cons_append, List.dropLast_append_of_ne_nil some]
  exact List.mem_append_left _ (List.getLast_mem _)

/-- The walk through the root takes up the files that pass the test of single files and lie in no
ignored directory. -/
theorem mem_sourcesAmong_root_iff (plainTree : tree.IsPlainTree)
    (rootProper : project.root.IsProper) {entries : List (String × Entry)}
    (known : tree.root.at? project.root.names = some (.directory entries)) {paths : List Path}
    (collected : project.sourcesAmong tree project.root entries = .ok paths) (found : Path) :
    found ∈ paths ↔ ∃ names, (project.IsAdmitted tree names ∧ project.IsOpen names) ∧
      found = project.root.under names := by
  rw [mem_sourcesAmong_iff _ _ collected found]
  constructor
  · rintro ⟨name, entry, rest, child, takes, rfl⟩
    have isFile := takes.isFile plainTree ((plainTree.mem_iff_at? known).mp child)
    rw [← Path.under_cons] at isFile
    refine ⟨name :: rest, ⟨⟨List.cons_ne_nil _ _, isFile, takes.isWritten_cons⟩, ?_⟩, rfl⟩
    intro first last equal firstSome lastSome
    obtain ⟨other, first, rfl⟩ := List.exists_cons_of_ne_nil firstSome
    obtain ⟨rfl, inRest⟩ := List.cons.inj equal
    rw [Path.under_cons]
    exact (takes.enters first last inRest lastSome).2
  · rintro ⟨names, ⟨admitted, isOpen⟩, rfl⟩
    obtain ⟨name, rest, rfl⟩ := List.exists_cons_of_ne_nil admitted.nonempty
    obtain ⟨bytes, parsed, isFile⟩ := admitted.isFile
    obtain ⟨_, child, -, onward⟩ := FileTree.exists_of_at?_under_cons known isFile
    have source := admitted.written.source
    have kept := admitted.written.kept
    rw [Path.under_cons] at source kept
    have inside : tree.root.at? ((project.root.under [name]).under rest).names =
        some (.file bytes parsed) := by
      rw [← Path.under_cons]
      exact isFile
    exact ⟨name, child, rest, (plainTree.mem_iff_at? known).mpr onward,
      takes_of_at? plainTree rootProper.anchor onward inside (admitted.enters isOpen) source kept,
      rfl⟩

/-! ## Paths that are too long -/

/-- An entry below a path whose own path is too long. -/
def HidesLong (tree : FileTree) (path long : Path) : Prop :=
  (∃ names, long = path.under names) ∧ (tree.root.at? long.names).isSome = true ∧
    tree.lookup long = .error .tooLong

theorem HidesLong.of_under {long : Path} (hides : HidesLong tree (path.under names) long) :
    HidesLong tree path long := by
  obtain ⟨⟨more, rfl⟩, found⟩ := hides
  refine ⟨⟨names ++ more, ?_⟩, found⟩
  simp [Path.under]

theorem hidesLong_of_sourceHere (known : tree.root.at? path.names = some entry) {long : Path}
    (failed : (do
      let isDirectory ← tree.passes Entry.isDirectory path
      return if !isDirectory && isSourceName path.name && !project.ignore.ignores path false then
        [path] else []) = Except.error long) :
    HidesLong tree path long := by
  unfold FileTree.passes at failed
  split at failed
  · cases failed
  · rename_i looked
    cases failed
    exact ⟨⟨[], (Path.under_nil path).symm⟩, by rw [known]; rfl, looked⟩
  · cases failed

mutual

/-- The walk fails at an entry that has too long a path, and nowhere else. -/
theorem hidesLong_of_sourcesAt :
    ∀ (path : Path) (entry : Entry), tree.IsPlainTree → tree.root.at? path.names = some entry →
      ∀ long, project.sourcesAt tree path entry = .error long → HidesLong tree path long
  | path, .directory entries, plainTree, known, long, failed => by
    unfold sourcesAt at failed
    split at failed
    · cases failed
    · exact hidesLong_of_sourcesAmong path entries plainTree
        (fun name entry child => (plainTree.mem_iff_at? known).mp child) long failed
  | path, .file bytes parsed, _, known, long, failed => by
    unfold sourcesAt at failed
    exact hidesLong_of_sourceHere known failed
  | path, .link target, _, known, long, failed => by
    unfold sourcesAt at failed
    exact hidesLong_of_sourceHere known failed

/-- The walk fails only at an entry whose path is too long. -/
theorem hidesLong_of_sourcesAmong :
    ∀ (directory : Path) (entries : List (String × Entry)), tree.IsPlainTree →
      (∀ name entry, (name, entry) ∈ entries →
        tree.root.at? (directory.under [name]).names = some entry) →
      ∀ long, project.sourcesAmong tree directory entries = .error long →
        HidesLong tree directory long
  | directory, [], _, _, long, failed => by cases failed
  | directory, (name, entry) :: rest, plainTree, known, long, failed => by
    unfold sourcesAmong at failed
    cases first : project.sourcesAt tree (directory.under [name]) entry with
    | error other =>
      have hides := hidesLong_of_sourcesAt _ entry plainTree
        (known name entry List.mem_cons_self) other first
      rw [Path.under] at first
      rw [first] at failed
      cases failed
      exact hides.of_under
    | ok firstPaths =>
      cases later : project.sourcesAmong tree directory rest with
      | error other =>
        have hides := hidesLong_of_sourcesAmong directory rest plainTree
          (fun name entry child => known name entry (List.mem_cons_of_mem _ child)) other later
        rw [Path.under] at first
        rw [first, later] at failed
        cases failed
        exact hides
      | ok laterPaths =>
        rw [Path.under] at first
        rw [first, later] at failed
        cases failed

end

/-! ## The files that the walk answers -/

/-- The file that some names lead to from the root, shown by these names. -/
def fileBelow (project : Project) (names : List String) : File :=
  ⟨project.root.under names, Text.join "/" names⟩

/-- A list holds the files of some names below the root and no others, by name and each once. -/
structure Lists (project : Project) (chosen : List String → Prop) (files : List File) : Prop where
  sorted : files.Pairwise fun a b => a.name < b.name
  mem_iff : ∀ file, file ∈ files ↔ ∃ names, chosen names ∧ file = project.fileBelow names

section

variable (admitted : project.IsAdmitted tree names) (plainTree : tree.IsPlainTree)
  (rootProper : project.root.IsProper)

include admitted plainTree rootProper

theorem IsAdmitted.isProper :
    (project.root.under names).IsProper ∧ (project.root.under names).hasNull = false := by
  obtain ⟨bytes, parsed, known⟩ := admitted.isFile
  exact plainTree.isProper rootProper.anchor known

theorem IsAdmitted.liesBelow :
    Ignore.LiesBelow project.root (project.root.under names) names :=
  ⟨rootProper, (admitted.isProper plainTree rootProper).1, rfl, admitted.nonempty⟩

theorem IsAdmitted.seenFrom :
    File.seenFrom project.root (project.root.under names) = project.fileBelow names :=
  congrArg (File.mk _) (admitted.liesBelow plainTree rootProper).relativeText

theorem IsAdmitted.root_directory (short : tree.lookup project.root ≠ .error .tooLong) :
    ∃ above entries, tree.lookup project.root = .ok (above, .directory entries) := by
  obtain ⟨bytes, parsed, isFile⟩ := admitted.isFile
  obtain ⟨name, rest, rfl⟩ := List.exists_cons_of_ne_nil admitted.nonempty
  have fromRoot := isFile
  rw [Entry.at?_append, Option.bind_eq_some_iff] at fromRoot
  obtain ⟨root, known, -⟩ := fromRoot
  obtain ⟨entries, _, rfl, -⟩ := FileTree.exists_of_at?_under_cons known isFile
  rcases plainTree.lookup_of_at? rootProper.anchor known with looked | long
  · exact ⟨_, entries, looked⟩
  · exact absurd long short

end

section Walk

variable {σ : Type} {good : σ → Prop}

theorem settles_fileAt_of_isProper (unlinked : tree.root.linkCount = 0) (proper : path.IsProper)
    (noNull : path.hasNull = false) :
    Task.Settles tree good (Session.fileAt project.root path)
      (.ok (File.seenFrom project.root path)) :=
  (Task.settles_resolvePath noNull (FileTree.resolve?_of_isProper unlinked proper)).bind
    (Task.settles_pure _)

/-- A walk that comes to its end answers the files that pass the test of single files and lie in no
ignored directory. -/
theorem exists_settles_sourceFiles (plainTree : tree.IsPlainTree)
    (rootProper : project.root.IsProper) {above : List String} {entries : List (String × Entry)}
    (looked : tree.lookup project.root = .ok (above, .directory entries))
    (known : tree.root.at? project.root.names = some (.directory entries))
    {paths : List Path} (collected : project.sourcesAmong tree project.root entries = .ok paths) :
    ∃ files, Task.Settles tree good project.sourceFiles (.ok files) ∧
      project.Lists (fun names => project.IsAdmitted tree names ∧ project.IsOpen names) files := by
  have found := mem_sourcesAmong_root_iff plainTree rootProper known collected
  have proper : ∀ path ∈ paths, path.IsProper ∧ path.hasNull = false := by
    intro path member
    obtain ⟨names, ⟨admitted, -⟩, rfl⟩ := (found path).mp member
    exact admitted.isProper plainTree rootProper
  have seen : ∀ file ∈ paths.map (File.seenFrom project.root),
      file = File.seenFrom project.root file.path ∧ file.path.IsProper := by
    intro file member
    obtain ⟨path, pathMember, rfl⟩ := List.mem_map.mp member
    exact ⟨rfl, (proper path pathMember).1⟩
  have resolved : Task.Settles tree good (paths.mapM (Session.fileAt project.root))
      (.ok (paths.map (File.seenFrom project.root))) := by
    refine Task.settles_mapM ?_
    have each : Listwise (fun path other : Path => path = other ∧ other ∈ paths) paths paths :=
      (Listwise.refl fun path _ => rfl).with_mem
    refine each.map_right ?_
    rintro path _ ⟨rfl, member⟩
    obtain ⟨isProper, noNull⟩ := proper path member
    exact settles_fileAt_of_isProper plainTree.unlinked isProper noNull
  refine ⟨File.sort (File.distinct (paths.map (File.seenFrom project.root))), ?_,
    File.pairwise_sort_distinct seen, fun file => ?_⟩
  · unfold sourceFiles
    refine Task.settles_files.bind ?_
    rw [looked]
    dsimp only
    rw [collected]
    exact resolved.bind (Task.settles_pure _)
  · rw [File.mem_sort, File.mem_distinct_of_seen fun file member => (seen file member).1,
      List.mem_map]
    constructor
    · rintro ⟨path, member, rfl⟩
      obtain ⟨names, chosen, rfl⟩ := (found path).mp member
      exact ⟨names, chosen, chosen.1.seenFrom plainTree rootProper⟩
    · rintro ⟨names, chosen, rfl⟩
      exact ⟨_, (found _).mpr ⟨names, chosen, rfl⟩, chosen.1.seenFrom plainTree rootProper⟩

/-- The walk answers the files that pass the test of single files and lie in no ignored directory,
or fails at an entry whose path is too long. -/
theorem ends_sourceFiles (plainTree : tree.IsPlainTree) (rootProper : project.root.IsProper)
    (short : tree.lookup project.root ≠ .error .tooLong) :
    Task.Ends tree good
      (project.Lists fun names => project.IsAdmitted tree names ∧ project.IsOpen names)
      (fun failure => ∃ long, failure = .tooLong long ∧ HidesLong tree project.root long)
      project.sourceFiles := by
  by_cases directory : ∃ above entries, tree.lookup project.root = .ok (above, .directory entries)
  · obtain ⟨above, entries, looked⟩ := directory
    have known : tree.root.at? project.root.names = some (.directory entries) := by
      obtain ⟨resolved, known, -⟩ := FileTree.resolve?_of_lookup looked
      rw [FileTree.resolve?_of_isProper plainTree.unlinked rootProper] at resolved
      rwa [congrArg Path.names (Option.some.inj resolved)]
    cases collected : project.sourcesAmong tree project.root entries with
    | ok paths =>
      obtain ⟨files, settles, lists⟩ :=
        exists_settles_sourceFiles plainTree rootProper looked known collected
      intro journal held
      obtain ⟨after, ran, kept⟩ := settles journal held
      exact ⟨_, after, ran, .ok lists, kept⟩
    | error long =>
      have hides : HidesLong tree project.root long :=
        hidesLong_of_sourcesAmong _ entries plainTree
          (fun name entry child => (plainTree.mem_iff_at? known).mp child) long collected
      unfold sourceFiles
      refine Task.ends_files.bind ?_
      rintro _ rfl
      rw [looked]
      dsimp only
      rw [collected]
      exact Task.ends_fail ⟨long, rfl, hides⟩
  · unfold sourceFiles
    refine Task.ends_files.bind ?_
    rintro _ rfl
    split
    · rename_i above entries looked
      exact absurd ⟨above, entries, looked⟩ directory
    · -- Nothing is answered where the root is no directory, and nothing is admitted there.
      refine (Task.ends_note _).bind fun _ _ => Task.ends_pure ⟨List.Pairwise.nil, fun file => ?_⟩
      simp only [List.not_mem_nil, false_iff, not_exists]
      rintro names ⟨⟨admitted, -⟩, -⟩
      exact directory (admitted.root_directory plainTree rootProper short)

end Walk

/-! ## Where the walk and the test agree -/

/-- Where no rule takes anything back and none has a set, a file that passes the test of single
files lies in no ignored directory. -/
theorem IsAdmitted.isOpen (admitted : project.IsAdmitted tree names) (plainTree : tree.IsPlainTree)
    (rootProper : project.root.IsProper) {rules : List Ignore.Rule} {extra : List String}
    (compiled : Ignore.RuleSet.compile rules project.root extra = .ok project.ignore)
    (uniform : ∀ line ∈ Ignore.RuleSet.allPatterns rules project.root extra,
      Ignore.IsUniform line) :
    project.IsOpen names := by
  rintro first rest rfl firstSome restSome
  refine Bool.eq_false_iff.mpr fun ignored => ?_
  have below := admitted.liesBelow plainTree rootProper
  have directoryProper : (project.root.under first).IsProper := by
    refine ⟨rootProper.anchor, fun name member => below.proper.plain name ?_,
      fun name member => below.proper.free name ?_⟩
    all_goals
      rw [Path.under, ← List.append_assoc]
      exact List.mem_append_left _ member
  have inside : project.ignore.ignores (project.root.under (first ++ rest)) false = true :=
    Ignore.ignores_below compiled uniform ⟨rootProper, directoryProper, rfl, firstSome⟩ below
      restSome ignored
  rw [admitted.written.kept] at inside
  cases inside

/-- In a plain file tree the walk through a project answers the files below the root that pass the
test of single files and lie in no ignored directory, sorted by name and each once, or it fails at
an entry whose path is too long.  So it answers what the test of single files admits exactly when no
file that passes it lies in an ignored directory.  This is so whenever no rule takes anything back
and none has a set. -/
theorem sourceFiles_prune (project : Project) (tree : FileTree) (plainTree : tree.IsPlainTree)
    (rootProper : project.root.IsProper) (short : tree.lookup project.root ≠ .error .tooLong) :
    (∀ {σ : Type} (journal : Journal σ),
      (∃ files, (project.sourceFiles tree journal).1 = .ok files ∧
        project.Lists (fun names => project.IsAdmitted tree names ∧ project.IsOpen names) files ∧
        (project.Lists (project.IsAdmitted tree) files ↔
          ∀ names, project.IsAdmitted tree names → project.IsOpen names)) ∨
      ∃ long, (project.sourceFiles tree journal).1 = .error (.tooLong long) ∧
        HidesLong tree project.root long) ∧
    ∀ rules extra,
      Ignore.RuleSet.compile rules project.root extra = .ok project.ignore →
      (∀ line ∈ Ignore.RuleSet.allPatterns rules project.root extra, Ignore.IsUniform line) →
        ∀ names, project.IsAdmitted tree names → project.IsOpen names := by
  refine ⟨fun {σ} journal => ?_, fun rules extra compiled uniform names admitted =>
    admitted.isOpen plainTree rootProper compiled uniform⟩
  have ends : Task.Ends tree (fun _ : σ => True) _ _ project.sourceFiles :=
    ends_sourceFiles plainTree rootProper short
  obtain ⟨outcome, after, ran, ofOne, -⟩ := ends journal trivial
  rw [ran]
  cases ofOne with
  | @ok files lists =>
    refine .inl ⟨files, rfl, lists, fun plainly names admitted => ?_, fun isOpen =>
      ⟨lists.sorted, fun file => ?_⟩⟩
    · obtain ⟨others, ⟨otherAdmitted, isOpen⟩, same⟩ :=
        (lists.mem_iff _).mp ((plainly.mem_iff _).mpr ⟨names, admitted, rfl⟩)
      have paths := congrArg (fun file : File => file.path.names) same
      rwa [List.append_cancel_left paths]
    · rw [lists.mem_iff]
      constructor
      · rintro ⟨names, ⟨admitted, -⟩, rfl⟩
        exact ⟨names, admitted, rfl⟩
      · rintro ⟨names, admitted, rfl⟩
        exact ⟨names, ⟨admitted, isOpen names admitted⟩, rfl⟩
  | error caused =>
    obtain ⟨long, rfl, hides⟩ := caused
    exact .inr ⟨long, rfl, hides⟩

/-! ## A directory that is left out -/

/-- A file tree with a source file and a directory of files that were made from it. -/
def builtTree : FileTree :=
  ⟨.directory [("a.ts", .file .empty none), ("dist", .directory [("a.ts", .file .empty none)])], []⟩

/-- A project at the top of the file system. -/
def topProject (ignore : Ignore.RuleSet) : Project := ⟨.ofRoot [], ignore, []⟩

theorem isProper_top : Path.IsProper (.ofRoot []) := Ignore.isProper_ofRoot (by decide)

theorem isPlainTree_builtTree : builtTree.IsPlainTree :=
  ⟨by decide, by decide +kernel⟩

theorem built_left_out :
    ∃ set, Ignore.RuleSet.compile [⟨"dist/", .ofRoot []⟩] (.ofRoot []) [] = .ok set ∧
      ((topProject set).sourceFiles builtTree (Journal.mk () [])).1 = .ok [rootFile "a.ts"] ∧
      (topProject set).Lists ((topProject set).IsAdmitted builtTree) [rootFile "a.ts"] := by
  have ran : ((Ignore.RuleSet.compile [⟨"dist/", .ofRoot []⟩] (.ofRoot []) []).toOption.bind
      fun set => ((topProject set).sourceFiles builtTree (Journal.mk () [])).1.toOption) =
        some [rootFile "a.ts"] := by
    decide +kernel
  obtain ⟨set, compiled, answered⟩ := Option.bind_eq_some_iff.mp ran
  have compiled := eq_ok_of_toOption compiled
  have answered := eq_ok_of_toOption answered
  have uniform : ∀ line ∈ Ignore.RuleSet.allPatterns [⟨"dist/", .ofRoot []⟩] (.ofRoot []) [],
      Ignore.IsUniform line := by
    unfold Ignore.IsUniform
    decide +kernel
  have looked : builtTree.lookup (.ofRoot []) = .ok ([], builtTree.root) := rfl
  have short : builtTree.lookup (topProject set).root ≠ .error .tooLong := by
    rw [topProject, looked]
    nofun
  obtain ⟨walk, agree⟩ := sourceFiles_prune (topProject set) builtTree isPlainTree_builtTree
    isProper_top short
  refine ⟨set, compiled, answered, ?_⟩
  rcases walk (Journal.mk () []) with ⟨files, found, -, plainly⟩ | ⟨long, failed, -⟩
  · rw [answered] at found
    cases found
    exact plainly.mpr (agree _ [] compiled uniform)
  · rw [answered] at failed
    cases failed

/-! ## A directory that is taken back -/

/-- Rules that leave out everything but directories and source files. -/
def sourcesOnly : List Ignore.Rule :=
  [⟨"*", .ofRoot []⟩, ⟨"!*/", .ofRoot []⟩, ⟨"!*.ts", .ofRoot []⟩]

/-- A file tree with a source file in a directory. -/
def innerTree : FileTree :=
  ⟨.directory [("src", .directory [("a.ts", .file .empty none)])], []⟩

theorem isPlainTree_innerTree : innerTree.IsPlainTree :=
  ⟨by decide, by decide +kernel⟩

/-- The walk misses files that the test of single files admits. -/
theorem inner_source_missed :
    ¬∀ (project : Project) (tree : FileTree) (rules : List Ignore.Rule) (extra : List String),
      tree.IsPlainTree → project.root.IsProper →
      Ignore.RuleSet.compile rules project.root extra = .ok project.ignore →
      ∀ files, (project.sourceFiles tree (Journal.mk () [])).1 = .ok files →
        project.Lists (project.IsAdmitted tree) files := by
  intro always
  have ran : ((Ignore.RuleSet.compile sourcesOnly (.ofRoot []) []).toOption.bind fun set =>
      if set.ignores (.ofRoot ["src", "a.ts"]) false then none
      else ((topProject set).sourceFiles innerTree (Journal.mk () [])).1.toOption) = some [] := by
    decide +kernel
  obtain ⟨set, compiled, answered⟩ := Option.bind_eq_some_iff.mp ran
  split at answered
  · cases answered
  · rename_i kept
    have lists := always (topProject set) innerTree sourcesOnly [] isPlainTree_innerTree
      isProper_top (eq_ok_of_toOption compiled) []
      (eq_ok_of_toOption answered)
    have isSource : isSourceName "a.ts" = true := by decide +kernel
    have admitted : (topProject set).IsAdmitted innerTree ["src", "a.ts"] :=
      ⟨by simp, ⟨_, _, rfl⟩, rfl, by simp [topProject], Bool.eq_false_iff.mpr kept, isSource⟩
    exact absurd ((lists.mem_iff _).mpr ⟨_, admitted, rfl⟩) List.not_mem_nil

end Project
end ModuleAtlas
