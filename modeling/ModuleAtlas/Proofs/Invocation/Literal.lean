import ModuleAtlas.Proofs.Invocation.Patterns

/-!
# Patterns that name a file

A pattern can be read in two ways: as a wildcard, and literally, as the path of a file.  Whether it
has a star, a question mark or an opening bracket decides between them before the file tree is
looked at, so a file whose path has one of these is found only if the wildcard happens to match it.
-/

namespace ModuleAtlas

variable {tree : FileTree} {pattern : String} {canonical : Path}

namespace Session

theorem settles_parse_canonical {root : Path} (noNull : canonical.hasNull = false)
    (known : tree.resolve? canonical = some canonical) :
    Task.Settles tree (Coherent tree root) (parse canonical) (.ok (moduleAt tree canonical)) :=
  (Task.settles_resolvePath noNull known).bind (settles_readModule canonical)

end Session

/-- The analysis of a file is that of its name, whether or not the file can be read. -/
theorem FileAnalysis.settles_ofFile {root : Path} {file : File} (noNull : file.path.hasNull = false)
    (known : tree.resolve? file.path = some file.path) :
    ∃ items, Task.Settles tree (Session.Coherent tree root) (ofFile file)
      (.ok ⟨file.name, items⟩) := by
  have parsed : Task.Settles tree (Session.Coherent tree root) (Session.parse file.path)
      (.ok (Session.moduleAt tree file.path)) :=
    Session.settles_parse_canonical noNull known
  cases outcome : Session.moduleAt tree file.path with
  | ok source =>
    rw [outcome] at parsed
    exact ⟨.ok (Item.catalogue source.root), parsed.bind (Task.settles_pure _)⟩
  | error fault =>
    rw [outcome] at parsed
    exact ⟨.error fault.message, parsed.bind ((Task.settles_note _).bind (Task.settles_pure _))⟩

/-- The analyses of files are those of their names, in order. -/
theorem FileAnalysis.settles_ofFiles {root : Path} {files : List File}
    (readable : ∀ file ∈ files, file.path.hasNull = false ∧
      tree.resolve? file.path = some file.path) :
    ∃ analyses, Task.Settles tree (Session.Coherent tree root) (files.mapM ofFile)
      (.ok analyses) ∧ analyses.map (·.file) = files.map (·.name) := by
  induction files with
  | nil => exact ⟨[], Task.settles_pure [], rfl⟩
  | cons file rest ih =>
    obtain ⟨noNull, known⟩ := readable file List.mem_cons_self
    obtain ⟨items, settles⟩ := settles_ofFile noNull known
    obtain ⟨analyses, others, listed⟩ := ih fun other member =>
      readable other (List.mem_cons_of_mem _ member)
    refine ⟨⟨file.name, items⟩ :: analyses, ?_, by rw [List.map_cons, List.map_cons, listed]⟩
    rw [List.mapM_cons]
    exact settles.bind (others.bind (Task.settles_pure _))

namespace Project

variable {project : Project}

/-- Read literally, a pattern names a regular file that the project does not leave out. -/
structure NamesFile
    (project : Project) (tree : FileTree) (pattern : String) (canonical : Path) : Prop where
  isFile : tree.passes Entry.isFile (project.root.child pattern) = .ok true
  resolved : tree.resolve? (project.root.child pattern) = some canonical
  outside : project.isInstalled canonical = false
  kept : project.ignore.ignores (project.root.child pattern) false = false

theorem pathsOf_of_magic (magic : Glob.hasMagic pattern.toList = true) :
    project.pathsOf tree pattern = Glob.expand tree project.root pattern :=
  if_pos magic

theorem pathsOf_of_plain (plain : Glob.hasMagic pattern.toList = false) :
    project.pathsOf tree pattern = [project.root.child pattern] :=
  if_neg (by simp [plain])

variable {σ : Type} {good : σ → Prop}

theorem NamesFile.settles_fileAt? (named : project.NamesFile tree pattern canonical) :
    Task.Settles tree good (project.fileAt? (project.root.child pattern))
      (.ok (some (File.seenFrom project.root canonical))) := by
  obtain ⟨found, looked⟩ : ∃ found, tree.lookup (project.root.child pattern) = .ok found := by
    have isFile := named.isFile
    unfold FileTree.passes at isFile
    split at isFile
    · rename_i looked
      exact ⟨_, looked⟩
    · cases isFile
    · cases isFile
  have noNull := (FileTree.follow_of_lookup looked).1
  have file : Task.Settles tree good (Session.fileAt project.root (project.root.child pattern))
      (.ok (File.seenFrom project.root canonical)) :=
    (Task.settles_resolvePath noNull named.resolved).bind (Task.settles_pure _)
  have admitted : (project.isInstalled (File.seenFrom project.root canonical).path ||
      project.ignore.ignores (project.root.child pattern) false) = false := by
    rw [Bool.or_eq_false_iff]
    exact ⟨named.outside, named.kept⟩
  unfold fileAt?
  refine (Task.settles_passes_ok named.isFile).bind (file.bind ?_)
  rw [admitted]
  exact Task.settles_pure _

/-- What a pattern stands for that names a file and matches nothing. -/
def foundFor (project : Project) (pattern : String) (canonical : Path) : List File :=
  if Glob.hasMagic pattern.toList then [] else [File.seenFrom project.root canonical]

theorem NamesFile.settles_expand (named : project.NamesFile tree pattern canonical)
    (nothing : Glob.expand tree project.root pattern = []) :
    Task.Settles tree good (project.expand [pattern])
      (.ok (project.foundFor pattern canonical)) := by
  have listed : Task.Settles tree good ((project.pathsOf tree pattern).mapM project.fileAt?)
      (.ok ((project.foundFor pattern canonical).map some)) := by
    unfold foundFor
    cases magic : Glob.hasMagic pattern.toList with
    | true =>
      rw [pathsOf_of_magic magic, nothing]
      exact Task.settles_pure _
    | false =>
      rw [pathsOf_of_plain magic, List.mapM_cons, List.mapM_nil]
      exact named.settles_fileAt?.bind ((Task.settles_pure []).bind (Task.settles_pure _))
  -- There is one file at most, so nothing is put in order or left out.
  have sorted : File.sort (File.distinct
      (((project.foundFor pattern canonical).map some).filterMap id)) =
        project.foundFor pattern canonical := by
    unfold foundFor
    split
    · simp [File.sort, File.distinct]
    · simp [File.sort, File.distinct, File.addTo, File.isIn]
  unfold expand
  refine Task.settles_files.bind ?_
  rw [List.flatMap_singleton]
  refine listed.bind ?_
  rw [sorted]
  exact Task.settles_pure _

end Project

namespace Invocation

/-- A session for some patterns works in a project. -/
structure WorksIn
    (invocation : Invocation) (tree : FileTree) (patterns : List String)
    (project : Project) : Prop where
  noNull : invocation.root.hasNull = false
  resolved : tree.resolve? invocation.root = some project.root
  collected : Task.Settles tree (Session.Coherent tree project.root)
    (invocation.project project.root patterns) (.ok project)

/-- A session answers what its task answers in the project. -/
theorem WorksIn.settles_inSession
    {σ α : Type} {good : σ → Prop} {invocation : Invocation} {patterns : List String}
    {project : Project} (works : invocation.WorksIn tree patterns project)
    {task : Project → Task Session α} {value : α}
    (gives : project.Gives tree (task project) value) :
    Task.Settles tree good (invocation.inSession invocation.root patterns task) (.ok value) := by
  have inside : Task.Settles tree (Session.Coherent tree project.root)
      (do task (← invocation.project project.root patterns)) (.ok value) :=
    works.collected.bind gives
  exact (Task.settles_resolvePath works.noNull works.resolved).bind
    (inside.withState Session.coherent_fresh)

end Invocation

namespace Project

variable {project : Project}

theorem NamesFile.gives_closure (named : project.NamesFile tree pattern canonical)
    (nothing : Glob.expand tree project.root pattern = []) {imports : Graph.Imports}
    (tells : Glob.hasMagic pattern.toList = false → project.Tells tree imports canonical) :
    ∃ names, project.Gives tree (project.closure [pattern]) names ∧
      (∀ name, name ∈ names ↔ ∃ path,
        imports.Reaches (project.foundFor pattern canonical) path ∧
          (File.seenFrom project.root path).name = name) := by
  have seedsTell : ∀ seed ∈ project.foundFor pattern canonical,
      project.Tells tree imports seed.path := by
    unfold foundFor
    intro seed member
    split at member
    · cases member
    · rename_i plain
      rw [List.mem_singleton] at member
      rw [member]
      exact tells (Bool.eq_false_iff.mpr plain)
  obtain ⟨names, gives, -, member⟩ :=
    Project.gives_closure (named.settles_expand nothing) seedsTell
  exact ⟨names, gives, member⟩

end Project

namespace Invocation

variable {σ : Type} {good : σ → Prop} {invocation : Invocation} {project : Project}

theorem settles_analyze (works : invocation.WorksIn tree [pattern] project)
    (named : project.NamesFile tree pattern canonical)
    (nothing : Glob.expand tree project.root pattern = []) (noNull : canonical.hasNull = false) :
    ∃ analyses, Task.Settles tree good (invocation.analyze [pattern]) (.ok analyses) ∧
      analyses.map (·.file) = ((project.foundFor pattern canonical).filter fun file =>
        !Text.endsWith Project.declarationEnding file.name).map (·.name) := by
  have known := (FileTree.isCanonicalFile_of_passes named.isFile named.resolved).resolve?_eq
  have readable : ∀ file ∈ (project.foundFor pattern canonical).filter fun file =>
      !Text.endsWith Project.declarationEnding file.name, file.path = canonical := by
    intro file member
    have found := (List.mem_filter.mp member).1
    unfold Project.foundFor at found
    split at found
    · cases found
    · rw [List.mem_singleton.mp found]
      rfl
  obtain ⟨analyses, settles, listed⟩ := FileAnalysis.settles_ofFiles fun file member => by
    rw [readable file member]
    exact ⟨noNull, known⟩
  refine ⟨analyses, works.settles_inSession ?_, listed⟩
  refine Task.Settles.bind (named.settles_expand nothing) ?_
  dsimp only
  split
  · exact (Task.settles_note _).bind settles
  · exact settles

end Invocation

namespace Project

variable {project : Project}

theorem NamesFile.mem_names_iff (named : project.NamesFile tree pattern canonical)
    (nothing : Glob.expand tree project.root pattern = []) {imports : Graph.Imports}
    (tells : Glob.hasMagic pattern.toList = false → project.Tells tree imports canonical) :
    ∃ names, project.Gives tree (project.closure [pattern]) names ∧
      ((File.seenFrom project.root canonical).name ∈ names ↔
        Glob.hasMagic pattern.toList = false ∧ imports.Parses canonical) := by
  obtain ⟨names, gives, member_iff⟩ := named.gives_closure nothing tells
  refine ⟨names, gives, ?_⟩
  rw [member_iff]
  unfold foundFor
  constructor
  · rintro ⟨path, ⟨seed, member, parses, -⟩, -⟩
    split at member
    · cases member
    · rename_i plain
      rw [List.mem_singleton.mp member] at parses
      exact ⟨Bool.eq_false_iff.mpr plain, parses⟩
  · rintro ⟨plain, parses⟩
    rw [if_neg (by simp [plain])]
    exact ⟨canonical, ⟨_, List.mem_singleton_self _, parses, .refl⟩, rfl⟩

/-- A pattern that names a file, and matches nothing as a wildcard, stands for the file when it has
no wildcard character and for nothing when it has one.  So a closure lists the file exactly when
the pattern has none and the imports of the file can be told, and an analysis takes the file up
exactly when the pattern has none, unless the file only declares. -/
theorem literal_found_iff_plain (project : Project) (tree : FileTree) {pattern : String}
    {canonical : Path} (named : project.NamesFile tree pattern canonical)
    (nothing : Glob.expand tree project.root pattern = []) :
    (∀ {σ : Type} (journal : Journal σ), (project.expand [pattern] tree journal).1 =
      .ok (if Glob.hasMagic pattern.toList then [] else [File.seenFrom project.root canonical])) ∧
    (∀ imports, (Glob.hasMagic pattern.toList = false → project.Tells tree imports canonical) →
      ∃ names, project.Gives tree (project.closure [pattern]) names ∧
        ((File.seenFrom project.root canonical).name ∈ names ↔
          Glob.hasMagic pattern.toList = false ∧ imports.Parses canonical)) ∧
    ∀ (invocation : Invocation) {σ : Type} (journal : Journal σ),
      invocation.WorksIn tree [pattern] project → canonical.hasNull = false →
      ∃ analyses, (invocation.analyze [pattern] tree journal).1 = .ok analyses ∧
        analyses.map (·.file) = ((project.foundFor pattern canonical).filter fun file =>
          !Text.endsWith declarationEnding file.name).map (·.name) := by
  refine ⟨?_, fun imports tells => named.mem_names_iff nothing tells, ?_⟩
  · intro σ journal
    have settles : Task.Settles tree (fun _ : σ => True) (project.expand [pattern])
        (.ok (project.foundFor pattern canonical)) :=
      named.settles_expand nothing
    obtain ⟨after, ran, -⟩ := settles journal trivial
    rw [ran]
    rfl
  · intro invocation σ journal works noNull
    obtain ⟨analyses, settles, listed⟩ : ∃ analyses,
        Task.Settles tree (fun _ : σ => True) (invocation.analyze [pattern]) (.ok analyses) ∧ _ :=
      Invocation.settles_analyze works named nothing noNull
    obtain ⟨after, ran, -⟩ := settles journal trivial
    exact ⟨analyses, by rw [ran], listed⟩

/-! ## A file with brackets in its name -/

/-- A file tree with one file. -/
def soleTree (name : String) : FileTree := ⟨.directory [(name, .file .empty none)], []⟩

theorem names_bracketed :
    rootProject.NamesFile (soleTree "[id].ts") "[id].ts" (.ofRoot ["[id].ts"]) :=
  ⟨by decide +kernel, by decide +kernel, by decide +kernel, by decide +kernel⟩

theorem names_unbracketed :
    rootProject.NamesFile (soleTree "id.ts") "id.ts/" (.ofRoot ["id.ts"]) :=
  ⟨by decide +kernel, by decide +kernel, by decide +kernel, by decide +kernel⟩

theorem expand_bracketed :
    Glob.expand (soleTree "[id].ts") rootProject.root "[id].ts" = [] := by
  decide +kernel

theorem expand_unbracketed :
    Glob.expand (soleTree "id.ts") rootProject.root "id.ts/" = [] := by
  decide +kernel

/-- The file that a pattern names is not always found: brackets hide it. -/
theorem bracketed_not_found :
    ¬∀ (project : Project) (tree : FileTree) (pattern : String) (canonical : Path),
      project.NamesFile tree pattern canonical → Glob.expand tree project.root pattern = [] →
      ∀ files, project.Gives tree (project.expand [pattern]) files →
        canonical ∈ File.paths files := by
  intro always
  have found := always _ _ _ _ names_bracketed expand_bracketed []
    (names_bracketed.settles_expand expand_bracketed)
  cases found

theorem unbracketed_alone_found :
    (rootProject.expand ["[id].ts"] (soleTree "[id].ts") ⟨(), []⟩).1 = .ok [] ∧
      (rootProject.expand ["id.ts/"] (soleTree "id.ts") ⟨(), []⟩).1 = .ok [rootFile "id.ts"] :=
  ⟨(rootProject.literal_found_iff_plain _ names_bracketed expand_bracketed).1 _,
    (rootProject.literal_found_iff_plain _ names_unbracketed expand_unbracketed).1 _⟩

end Project
end ModuleAtlas
