import ModuleAtlas.Proofs.Graph.Traversal
import ModuleAtlas.Proofs.Graph.Dependencies
import ModuleAtlas.Proofs.Project.Files

/-!
# Graphs of projects

The forward graph of some files of a project, the graph of all its source files, and the names that
a closure lists.
-/

namespace ModuleAtlas
namespace Graph

/-!
## Forward graphs of projects

The forward graph of some files is the part of the dependency relation that they lead to, whatever
the relation is.  In a project the relation is that of the file tree, and the entries of the tree
bound the traversal.
-/

open Relation

/-- From states with a property, every list of seeds of a kind is built into the graph of what the
seeds lead to, which is the union of the graphs of any two parts of the list. -/
def BuildsClosures {σ : Type} (tree : FileTree) (good : σ → Prop) (allowed : Path → Prop)
    (imports : Imports) (build : List File → Task σ Graph) : Prop :=
  ∀ seeds : List File, (∀ seed ∈ seeds, allowed seed.path) →
    ∃ graph, Task.Settles tree good (build seeds) (.ok graph) ∧ IsClosure imports seeds graph ∧
      ∀ first second, seeds = first ++ second →
        ∃ firstGraph secondGraph, Task.Settles tree good (build first) (.ok firstGraph) ∧
          Task.Settles tree good (build second) (.ok secondGraph) ∧
          IsUnion graph firstGraph secondGraph

/-- Building every list of seeds into its closure is enough. -/
theorem buildsClosures_of_each
    {σ : Type} {tree : FileTree} {good : σ → Prop} {allowed : Path → Prop} {imports : Imports}
    {build : List File → Task σ Graph}
    (each : ∀ seeds : List File, (∀ seed ∈ seeds, allowed seed.path) →
      ∃ graph, Task.Settles tree good (build seeds) (.ok graph) ∧ IsClosure imports seeds graph) :
    BuildsClosures tree good allowed imports build := by
  intro seeds seedsAllowed
  obtain ⟨graph, settles, closure⟩ := each seeds seedsAllowed
  refine ⟨graph, settles, closure, ?_⟩
  rintro first second rfl
  obtain ⟨firstGraph, firstSettles, firstClosure⟩ :=
    each first fun seed member => seedsAllowed seed (List.mem_append_left _ member)
  obtain ⟨secondGraph, secondSettles, secondClosure⟩ :=
    each second fun seed member => seedsAllowed seed (List.mem_append_right _ member)
  exact ⟨firstGraph, secondGraph, firstSettles, secondSettles,
    closure.append firstClosure secondClosure⟩

end Graph

namespace Project

open ModuleAtlas.Graph Relation

variable {tree : FileTree} {project : Project} {source target : Path}

/-- What a project finds in a file tree, where a path that ends the search leads nowhere. -/
def importsIn (project : Project) (tree : FileTree) : Imports := fun path =>
  match project.importsOf tree path with
  | .ok told => told
  | .error _ => .ok []

theorem importsIn_eq {path : Path} {told : Except SourceFault (List File)}
    (found : project.importsOf tree path = .ok told) :
    project.importsIn tree path = told := by
  unfold importsIn
  simp only [found]

/-- Imports lead to canonical paths of the tree, of which there are only so many. -/
theorem located_of_leads
    (leads : Imports.Leads (project.importsIn tree) source target) :
    target ∈ tree.located := by
  obtain ⟨targets, told, member⟩ := leads
  obtain ⟨file, fileMember, rfl⟩ := File.mem_paths.mp member
  unfold importsIn at told
  split at told
  · rename_i found
    rw [told] at found
    exact (isTarget_of_importsOf found fileMember).canonical.mem_located
  · cases told
    cases fileMember

theorem answers_oracle (project : Project) (tree : FileTree) (scope : Path → Prop) :
    project.oracle.Answers tree (Session.Coherent tree project.root) scope
      (project.importsOf tree) := by
  refine ⟨fun file _ => ?_, fun _ _ => Task.settles_note _, fun _ _ => Task.settles_note _⟩
  simp only [oracle]
  exact project.settles_dependencies file

theorem settles_visitBound {σ : Type} {good : σ → Prop} :
    Task.Settles tree good visitBound (.ok tree.root.count) :=
  Task.settles_files.bind (Task.settles_pure _)

/-- From a coherent session the forward graph of a project is the closure of its seeds, unless some
path ends the search. -/
theorem forwardGraph_settles (project : Project) (tree : FileTree) (seeds : List File) :
    (∃ graph, Task.Settles tree (Session.Coherent tree project.root) (project.forwardGraph seeds)
      (.ok graph) ∧ IsClosure (project.importsIn tree) seeds graph) ∨
    ∃ failure, Task.Settles tree (Session.Coherent tree project.root)
      (project.forwardGraph seeds) (.error failure) := by
  rcases forward_settles (project.answers_oracle tree fun _ => True)
    (fun _ _ _ found => importsIn_eq found) (fun _ _ _ leads => ⟨trivial, located_of_leads leads⟩)
    tree.card_located_le seeds (fun _ _ => trivial) with
    ⟨graph, settles, closure⟩ | ⟨_, failure, _, _, settles⟩
  · exact .inl ⟨graph, settles_visitBound.bind settles, closure⟩
  · exact .inr ⟨failure, settles_visitBound.bind settles⟩

theorem steady_forwardGraph (project : Project) (seeds : List File) :
    Task.Steady tree (Session.Coherent tree project.root)
      (IsClosure (project.importsIn tree) seeds) (project.forwardGraph seeds) := by
  rcases project.forwardGraph_settles tree seeds with ⟨graph, settles, closure⟩ | ⟨failure, settles⟩
  · exact settles.steady closure
  · exact settles.steady_error

/-- A forward graph is the closure of its seeds. -/
theorem isClosure_of_gives {seeds : List File} {graph : Graph}
    (gives : project.Gives tree (project.forwardGraph seeds) graph) :
    IsClosure (project.importsIn tree) seeds graph :=
  (project.steady_forwardGraph seeds).kind_of_settles Session.coherent_fresh gives

/-- All that a path leads to is what a project finds in a file tree. -/
def Tells (project : Project) (tree : FileTree) (imports : Imports) (path : Path) : Prop :=
  ∀ reached, ReflTransGen imports.Leads path reached →
    project.importsOf tree reached = .ok (imports reached)

theorem Tells.importsOf_eq {imports : Imports} {path : Path}
    (tells : project.Tells tree imports path) :
    project.importsOf tree path = .ok (imports path) :=
  tells path .refl

theorem Tells.leads {imports : Imports}
    (tells : project.Tells tree imports source) (leads : imports.Leads source target) :
    project.Tells tree imports target ∧ target ∈ tree.located := by
  refine ⟨fun reached way => tells reached (.head leads way), ?_⟩
  obtain ⟨targets, told, member⟩ := leads
  obtain ⟨file, fileMember, rfl⟩ := File.mem_paths.mp member
  have known := tells.importsOf_eq
  rw [told] at known
  exact (isTarget_of_importsOf known fileMember).canonical.mem_located

/-- Where no path that is reached ends the search, the forward graph is the closure of its seeds. -/
theorem forwardGraph_settles_of_tells (project : Project) (imports : Imports) (seeds : List File)
    (tells : ∀ seed ∈ seeds, project.Tells tree imports seed.path) :
    ∃ graph, Task.Settles tree (Session.Coherent tree project.root) (project.forwardGraph seeds)
      (.ok graph) ∧ IsClosure imports seeds graph := by
  have agrees : Answer.Agrees (project.importsOf tree) (project.Tells tree imports) imports := by
    intro path told pathTells found
    rw [pathTells.importsOf_eq] at found
    cases found
    rfl
  rcases forward_settles (project.answers_oracle tree _) agrees
    (fun _ _ pathTells leads => pathTells.leads leads) tree.card_located_le seeds tells with
    ⟨graph, settles, closure⟩ | ⟨path, failure, pathTells, failed, _⟩
  · exact ⟨graph, settles_visitBound.bind settles, closure⟩
  · rw [pathTells.importsOf_eq] at failed
    cases failed

/-- The forward graph is the reachable part of the dependency relation.  This holds of a traversal
over any finite set of files and any relation among them, and of the forward graph of any project in
any file tree. -/
theorem forward_buildsClosures :
    (∀ {σ : Type} (tree : FileTree) (good : σ → Prop) (oracle : Oracle (Task σ))
      (files : Finset Path) (imports : Imports) (fuel : Nat),
      oracle.Answers tree good (· ∈ files) (fun path => .ok (imports path)) →
      (∀ source ∈ files, ∀ target, imports.Leads source target → target ∈ files) →
      files.card ≤ fuel →
      BuildsClosures tree good (· ∈ files) imports (forward oracle fuel)) ∧
    (∀ (tree : FileTree) (project : Project) (imports : Imports),
      BuildsClosures tree (Session.Coherent tree project.root) (project.Tells tree imports) imports
        project.forwardGraph) := by
  refine ⟨?_, ?_⟩
  · intro σ tree good oracle files imports fuel answers closed enough
    refine buildsClosures_of_each fun seeds allowed => ?_
    have agrees : Answer.Agrees (fun path => .ok (imports path)) (· ∈ files) imports := by
      rintro path told _ ⟨⟩
      rfl
    have within : ∀ source target, source ∈ files → imports.Leads source target →
        target ∈ files ∧ target ∈ files :=
      fun source target member leads =>
        ⟨closed source member target leads, closed source member target leads⟩
    rcases forward_settles answers agrees within enough seeds allowed with
      built | ⟨_, _, _, impossible, _⟩
    · exact built
    · cases impossible
  · intro tree project imports
    exact buildsClosures_of_each fun seeds tells =>
      project.forwardGraph_settles_of_tells imports seeds tells

/-! ### Two files that import each other -/

/-- The syntax tree of a file whose only statement imports a specifier. -/
def importTree (specifier : String) : Node :=
  .mk "program" true none 0 1 "" [
    .mk "import_statement" true none 0 1 "" [
      .mk "string" true (some "source") 0 1 ("'" ++ specifier ++ "'") []]]

/-- A file whose only statement imports a specifier. -/
def importing (specifier : String) : Entry := .file .empty (some (importTree specifier))

/-- A file tree with two files that import each other. -/
def pairTree : FileTree :=
  ⟨.directory [("a.ts", importing "./b"), ("b.ts", importing "./a")], []⟩

/-- A project at the root without ignore rules. -/
def rootProject : Project := ⟨.ofRoot [], ⟨.ofRoot [], [], [], []⟩, ["node_modules"]⟩

/-- What a file of the root is called by its path and by its name. -/
def rootFile (name : String) : File := ⟨.ofRoot [name], name⟩

/-- What the files of the pair import; no other file can be read. -/
def pairImports (path : Path) : Except SourceFault (List File) :=
  if path = .ofRoot ["a.ts"] then .ok [rootFile "b.ts"]
  else if path = .ofRoot ["b.ts"] then .ok [rootFile "a.ts"]
  else .error (.unreadable path .missing)

/-- The paths of the pair and one that leads nowhere. -/
def pairPaths : Finset Path := {.ofRoot ["a.ts"], .ofRoot ["b.ts"], .ofRoot ["c.ts"]}

/-- The files of the pair out of order, one of them twice, after one that cannot be read. -/
def pairSeeds : List File :=
  [rootFile "c.ts", rootFile "b.ts", rootFile "a.ts", rootFile "b.ts"]

/-- What a traversal of the pair asks and tells, without any session. -/
def pairOracle : Oracle (Task Unit) where
  targets file := pure (pairImports file.path)
  seedFailed _ _ := pure ()
  fileFailed _ _ := pure ()

theorem path_mem_of_mem_pairSeeds {seed : File} (member : seed ∈ pairSeeds) :
    seed.path ∈ pairPaths := by
  revert seed
  decide

theorem mem_pairPaths_of_leads
    (leads : Imports.Leads pairImports source target) :
    target ∈ pairPaths := by
  obtain ⟨targets, told, member⟩ := leads
  unfold pairImports at told
  split at told
  · cases told
    simp_all [File.paths, rootFile, pairPaths]
  · split at told
    · cases told
      simp_all [File.paths, rootFile, pairPaths]
    · cases told

theorem pair_tells {path : Path} (member : path ∈ pairPaths) :
    rootProject.Tells pairTree pairImports path := by
  intro reached way
  have known : reached ∈ pairPaths := by
    cases way with
    | refl => exact member
    | tail _ leads => exact mem_pairPaths_of_leads leads
  simp only [pairPaths, Finset.mem_insert, Finset.mem_singleton] at known
  rcases known with rfl | rfl | rfl
  · rfl
  · rfl
  · rfl

theorem pair_buildsClosures :
    (∃ graph, Task.Settles pairTree (fun _ => True) (forward pairOracle 3 pairSeeds) (.ok graph) ∧
      IsClosure pairImports pairSeeds graph) ∧
    (∃ graph, Task.Settles pairTree (Session.Coherent pairTree (.ofRoot []))
        (rootProject.forwardGraph pairSeeds) (.ok graph) ∧
      IsClosure pairImports pairSeeds graph) := by
  have answers : pairOracle.Answers pairTree (fun _ => True) (· ∈ pairPaths)
      (fun path => .ok (pairImports path)) :=
    ⟨fun file _ => Task.settles_pure (pairImports file.path), fun _ _ => Task.settles_pure (),
      fun _ _ => Task.settles_pure ()⟩
  have closed : ∀ source ∈ pairPaths, ∀ target, Imports.Leads pairImports source target →
      target ∈ pairPaths :=
    fun _ _ _ leads => mem_pairPaths_of_leads leads
  constructor
  · obtain ⟨graph, settles, closure, _⟩ :=
      forward_buildsClosures.1 pairTree (fun _ => True) pairOracle pairPaths pairImports 3 answers
        closed (by decide) pairSeeds fun _ member => path_mem_of_mem_pairSeeds member
    exact ⟨graph, settles, closure⟩
  · obtain ⟨graph, settles, closure, _⟩ :=
      forward_buildsClosures.2 pairTree rootProject pairImports pairSeeds
        fun _ member => pair_tells (path_mem_of_mem_pairSeeds member)
    exact ⟨graph, settles, closure⟩

end Project

/-!
## The graph of a whole project

The graph of a project holds its source files and what each of them imports: its edges start at
source files only.
-/

namespace Graph

/-- A graph holds some files and what each of them leads to, and all its edges start at them. -/
structure Collects (imports : Imports) (files : List File) (graph : Graph) : Prop where
  node_iff : ∀ path, graph.HasNode path ↔
    path ∈ File.paths files ∨ ∃ source ∈ File.paths files, imports.Leads source path
  edge_iff : ∀ source target, graph.HasEdge source target ↔
    source ∈ File.paths files ∧ imports.Leads source target
  distinct : graph.Distinct

theorem collects_empty (imports : Imports) : Collects imports [] empty :=
  ⟨by simp, by simp, distinct_empty⟩

/-- A file whose targets cannot be told becomes a node without edges. -/
theorem Collects.addNode
    {imports : Imports} {files : List File} {graph : Graph} {file : File} {fault : SourceFault}
    (collects : Collects imports files graph) (untold : imports file.path = .error fault) :
    Collects imports (files ++ [file]) (graph.addNode file) := by
  refine ⟨fun path => ?_, fun source target => ?_, collects.distinct.addNode file⟩
  · rw [hasNode_addNode, collects.node_iff]
    simp only [File.paths_append, File.paths_cons, File.paths_nil, List.mem_append,
      List.mem_singleton, or_and_right, exists_or, exists_eq_left,
      iff_false_intro (Imports.not_leads untold path), or_false]
    exact or_right_comm
  · rw [hasEdge_addNode, collects.edge_iff]
    simp only [File.paths_append, File.paths_cons, File.paths_nil, List.mem_append,
      List.mem_singleton, or_and_right]
    constructor
    · tauto
    · rintro (old | ⟨rfl, impossible⟩)
      · exact old
      · exact absurd impossible (Imports.not_leads untold target)

/-- A file comes with edges to its targets. -/
theorem Collects.link {imports : Imports} {files targets : List File} {graph : Graph} {file : File}
    (collects : Collects imports files graph) (told : imports file.path = .ok targets) :
    Collects imports (files ++ [file])
      (targets.foldl (fun graph target => graph.addEdge file target) (graph.addNode file)) := by
  have present : (graph.addNode file).HasNode file.path := hasNode_addNode.mpr (.inr rfl)
  refine ⟨fun path => ?_, fun source target => ?_,
    (collects.distinct.addNode file).foldl_addEdge file targets⟩
  · rw [hasNode_foldl_addEdge present, hasNode_addNode, collects.node_iff,
      ← Imports.leads_iff told]
    simp only [File.paths_append, File.paths_cons, File.paths_nil, List.mem_append,
      List.mem_singleton, or_and_right, exists_or, exists_eq_left]
    rw [or_assoc]
    exact or_or_or_comm
  · rw [hasEdge_foldl_addEdge, hasEdge_addNode, collects.edge_iff, ← Imports.leads_iff told]
    simp only [File.paths_append, File.paths_cons, File.paths_nil, List.mem_append,
      List.mem_singleton, or_and_right]
    constructor
    · rintro (old | ⟨rfl, leads⟩)
      · exact .inl old
      · exact .inr ⟨rfl, leads⟩
    · rintro (old | ⟨rfl, leads⟩)
      · exact .inl old
      · exact .inr ⟨rfl, leads⟩

end Graph

namespace Project

open ModuleAtlas.Graph

variable {tree : FileTree} {project : Project}

/-- A file as the graph of a project shows it: under the way from the root. -/
def IsSeen (project : Project) (file : File) : Prop :=
  file = File.seenFrom project.root file.path

theorem isSeen_of_importsIn {path : Path} {targets : List File}
    (told : project.importsIn tree path = .ok targets) {target : File} (member : target ∈ targets) :
    project.IsTarget tree target := by
  unfold importsIn at told
  split at told
  · rename_i found
    rw [told] at found
    exact isTarget_of_importsOf found member
  · cases told
    cases member

/-- Adding files collects them and their dependencies, unless some file ends the search. -/
theorem addFiles_settles {done : List File} {graph : Graph} (files : List File)
    (collects : Collects (project.importsIn tree) done graph) (seen : graph.All project.IsSeen)
    (filesSeen : ∀ file ∈ files, project.IsSeen file) :
    (∃ result failures,
      Task.Settles tree (Session.Coherent tree project.root) (project.addFiles graph files)
        (.ok (result, failures)) ∧
      Collects (project.importsIn tree) (done ++ files) result ∧ result.All project.IsSeen) ∨
    ∃ failure, Task.Settles tree (Session.Coherent tree project.root)
      (project.addFiles graph files) (.error failure) := by
  induction files generalizing done graph with
  | nil =>
    rw [List.append_nil]
    exact .inl ⟨graph, [], Task.settles_pure _, collects, seen⟩
  | cons file rest ih =>
    have asked : Task.Settles tree (Session.Coherent tree project.root)
        (project.dependencies file) (project.importsOf tree file.path) :=
      project.settles_dependencies file
    have fileSeen := filesSeen file (by simp)
    have restSeen : ∀ other ∈ rest, project.IsSeen other := fun other member =>
      filesSeen other (List.mem_cons_of_mem _ member)
    have split : done ++ file :: rest = (done ++ [file]) ++ rest := by simp
    unfold addFiles
    rw [split]
    rcases answered : project.importsOf tree file.path with failure | fault | targets
    · rw [answered] at asked
      exact .inr ⟨failure, asked.bind_error⟩
    · rw [answered] at asked
      have untold := importsIn_eq answered
      rcases ih (collects.addNode untold) (seen.addNode fileSeen) restSeen with
        ⟨result, failures, settles, all⟩ | ⟨failure, settles⟩
      · refine .inl ⟨result, (file, fault) :: failures, ?_, all⟩
        exact asked.bind ((Task.settles_note _).bind (settles.bind (Task.settles_pure _)))
      · exact .inr ⟨failure, asked.bind ((Task.settles_note _).bind settles.bind_error)⟩
    · rw [answered] at asked
      have told := importsIn_eq answered
      have targetsSeen : ∀ target ∈ targets, project.IsSeen target := fun target member =>
        (isSeen_of_importsIn told member).seen
      rcases ih (collects.link told)
        ((seen.addNode fileSeen).foldl_addEdge fileSeen targetsSeen) restSeen with
        ⟨result, failures, settles, all⟩ | ⟨failure, settles⟩
      · exact .inl ⟨result, failures, asked.bind settles, all⟩
      · exact .inr ⟨failure, asked.bind settles⟩

/-- What the graph of a project is made of: source files, what each of them leads to, and every file
under its name. -/
structure IsWhole (project : Project) (tree : FileTree) (files : List File) (graph : Graph) :
    Prop where
  sources : project.AreSources tree files
  collects : Collects (project.importsIn tree) files graph
  seen : graph.All project.IsSeen

/-- From a coherent session the graph of a project collects its source files, unless something ends
the search. -/
theorem steady_wholeGraph (project : Project) (tree : FileTree) :
    Task.Steady tree (Session.Coherent tree project.root)
      (fun outcome => ∃ files, Task.Settles tree (Session.Coherent tree project.root)
        project.sourceFiles (.ok files) ∧ project.IsWhole tree files outcome.1)
      project.wholeGraph := by
  have steady : Task.Steady tree (Session.Coherent tree project.root) (project.AreSources tree)
      project.sourceFiles := steady_sourceFiles
  obtain ⟨listed, settles, areSources⟩ := steady.exists_settles
  unfold wholeGraph
  cases listed with
  | error failure => exact settles.bind_error.steady_error
  | ok files =>
    have sources := areSources files rfl
    rcases addFiles_settles files (collects_empty _) (all_empty _) sources.seen with
      ⟨result, failures, settlesAll, collects, seen⟩ | ⟨failure, settlesAll⟩
    · exact (settles.bind settlesAll).steady ⟨files, settles, sources, collects, seen⟩
    · exact (settles.bind settlesAll).steady_error

/-- The graph of a project is made of its source files and what they lead to. -/
theorem isWhole_of_gives {graph : Graph} {failures : List (File × SourceFault)}
    (gives : project.Gives tree project.wholeGraph (graph, failures)) :
    ∃ files, project.Gives tree project.sourceFiles files ∧ project.IsWhole tree files graph :=
  (project.steady_wholeGraph tree).kind_of_settles Session.coherent_fresh gives

end Project

/-!
## The names of a closure

A closure lists the names of the files that its seeds lead to.  Every file of a forward graph is
shown under the way from the root, the seeds because patterns stand for files in this way, and the
others because imports lead to files in this way.
-/

namespace Graph

variable {σ : Type} {property : File → Prop} {oracle : Oracle (Task σ)}

/-- Whatever targets an oracle tells, they have a property. -/
def TellsOnly (property : File → Prop) (oracle : Oracle (Task σ)) : Prop :=
  ∀ file, Task.Returns (oracle.targets file) fun told =>
    ∀ targets, told = .ok targets → ∀ target ∈ targets, property target

namespace Trace

/-- A walk draws only files that the seeds and the oracle name. -/
theorem returns_walk (tells : TellsOnly property oracle)
    (fuel : Nat) {trace : Trace} {stack : List File} (all : trace.graph.All property)
    (stackHolds : ∀ file ∈ stack, property file) :
    Task.Returns (walk oracle fuel trace stack) fun result => result.graph.All property := by
  induction fuel generalizing trace stack with
  | zero => exact Task.returns_pure all
  | succ fuel ih =>
    unfold walk
    split
    · exact Task.returns_pure all
    · rename_i file rest remaining
      have waiting : ∀ other ∈ file :: rest, property other := by
        rw [← remaining]
        exact fun other member => stackHolds other ((List.dropWhile_sublist _).subset member)
      have fileHolds := waiting file List.mem_cons_self
      have restHolds : ∀ other ∈ rest, property other :=
        fun other member => waiting other (List.mem_cons_of_mem _ member)
      have visited : (trace.visit file).graph.All property := all.addNode fileHolds
      refine (tells file).bind fun told toldHolds => ?_
      cases told with
      | error fault =>
        exact (Task.returns_any _).bind fun _ _ => ih visited restHolds
      | ok targets =>
        have targetsHold := toldHolds targets rfl
        refine ih (visited.foldl_addEdge fileHolds targetsHold) ?_
        intro other member
        rcases List.mem_append.mp member with new | later
        · exact targetsHold other (List.mem_filter.mp (List.mem_reverse.mp new)).1
        · exact restHolds other later

theorem returns_addSeed (tells : TellsOnly property oracle)
    (fuel : Nat) {trace : Trace} {seed : File} (all : trace.graph.All property)
    (seedHolds : property seed) :
    Task.Returns (addSeed oracle fuel trace seed) fun result => result.graph.All property := by
  unfold addSeed
  split
  · exact Task.returns_pure all
  · refine (tells seed).bind fun told toldHolds => ?_
    cases told with
    | error fault => exact (Task.returns_any _).bind fun _ _ => Task.returns_pure all
    | ok targets =>
      have targetsHold := toldHolds targets rfl
      refine returns_walk tells fuel ((all.addNode seedHolds).foldl_addEdge seedHolds targetsHold)
        fun other member => targetsHold other (List.mem_reverse.mp member)

theorem returns_addSeeds (tells : TellsOnly property oracle)
    (fuel : Nat) {seeds : List File} {trace : Trace} (all : trace.graph.All property)
    (seedsHold : ∀ seed ∈ seeds, property seed) :
    Task.Returns (seeds.foldlM (addSeed oracle fuel) trace)
      fun result => result.graph.All property := by
  induction seeds generalizing trace with
  | nil => exact Task.returns_pure all
  | cons seed rest ih =>
    rw [List.foldlM_cons]
    refine (returns_addSeed tells fuel all (seedsHold seed List.mem_cons_self)).bind ?_
    exact fun next nextAll => ih nextAll fun other member =>
      seedsHold other (List.mem_cons_of_mem _ member)

end Trace

/-- What the seeds and all targets have in common, the files of a forward graph have too. -/
theorem returns_forward (tells : TellsOnly property oracle) (fuel : Nat) {seeds : List File}
    (seedsHold : ∀ seed ∈ seeds, property seed) :
    Task.Returns (forward oracle fuel seeds) fun graph => graph.All property := by
  unfold forward
  refine (Trace.returns_addSeeds tells fuel (all_empty property) seedsHold).bind ?_
  exact fun trace all => Task.returns_pure all

end Graph

namespace Project

open ModuleAtlas.Graph

variable {tree : FileTree} {project : Project}

theorem returns_targetsOf (project : Project) (importer : Path) (specifiers : List String) :
    Task.Returns (project.targetsOf importer specifiers)
      fun targets => ∀ target ∈ targets, project.IsSeen target := by
  unfold targetsOf
  refine (Task.returns_any _).bind fun resolutions _ => Task.returns_pure ?_
  intro target member
  obtain ⟨path, -, rfl⟩ := List.mem_map.mp (File.mem_of_mem_distinct member)
  rfl

/-- A project names all files as they are seen from its root. -/
theorem returns_dependencies (project : Project) (file : File) :
    Task.Returns (project.dependencies file)
      fun told => ∀ targets, told = .ok targets → ∀ target ∈ targets, project.IsSeen target := by
  unfold dependencies
  split
  · refine Task.returns_pure ?_
    rintro _ ⟨⟩ target member
    cases member
  · refine (Task.returns_any _).bind fun parsed _ => ?_
    cases parsed with
    | error fault =>
      refine Task.returns_pure ?_
      rintro _ ⟨⟩
    | ok source =>
      refine (project.returns_targetsOf _ _).bind fun found seen => Task.returns_pure ?_
      rintro _ ⟨⟩
      exact seen

theorem tellsOnly_seen (project : Project) : TellsOnly project.IsSeen project.oracle := by
  intro file
  simp only [oracle]
  exact project.returns_dependencies file

theorem all_seen_of_gives {seeds : List File} {graph : Graph}
    (gives : project.Gives tree (project.forwardGraph seeds) graph)
    (seen : ∀ seed ∈ seeds, project.IsSeen seed) :
    graph.All project.IsSeen := by
  obtain ⟨after, ran, -⟩ := gives ⟨Session.fresh project.root, []⟩ Session.coherent_fresh
  have returns : Task.Returns (project.forwardGraph seeds) fun graph =>
      graph.All project.IsSeen :=
    (Task.returns_any _).bind fun fuel _ => returns_forward project.tellsOnly_seen fuel seen
  exact returns tree _ graph after ran

/-- The names of the nodes are the names of their paths, seen from the root. -/
theorem mem_names_nodes {graph : Graph} (seen : graph.All project.IsSeen) {name : String} :
    name ∈ graph.nodes.map (·.name) ↔
      ∃ path ∈ File.paths graph.nodes, (File.seenFrom project.root path).name = name := by
  have nodesSeen : ∀ node ∈ graph.nodes, project.IsSeen node := by
    intro node member
    obtain ⟨entry, entryMember, rfl⟩ := List.mem_map.mp (File.mem_sort.mp member)
    exact (seen entry entryMember).1
  rw [List.mem_map]
  constructor
  · rintro ⟨node, member, rfl⟩
    exact ⟨node.path, File.mem_paths_of_mem member, congrArg File.name (nodesSeen node member).symm⟩
  · rintro ⟨path, member, rfl⟩
    obtain ⟨node, nodeMember, rfl⟩ := File.mem_paths.mp member
    exact ⟨node, nodeMember, congrArg File.name (nodesSeen node nodeMember)⟩

/-- A closure lists in increasing order, each once, the names of the files that its seeds lead to:
of the seeds whose imports can be told, and of all that these lead to. -/
theorem gives_closure {patterns : List String} {seeds : List File} {imports : Imports}
    (expanded : project.Gives tree (project.expand patterns) seeds)
    (tells : ∀ seed ∈ seeds, project.Tells tree imports seed.path) :
    ∃ names, project.Gives tree (project.closure patterns) names ∧
      names.Pairwise (· < ·) ∧
      ∀ name, name ∈ names ↔
        ∃ path, imports.Reaches seeds path ∧ (File.seenFrom project.root path).name = name := by
  have seedsSeen : ∀ seed ∈ seeds, project.IsSeen seed :=
    ((steady_expand patterns).kind_of_settles Session.coherent_fresh expanded).seen
  cases seeds with
  | nil =>
    refine ⟨[], ?_, .nil, fun name => ?_⟩
    · exact Task.Settles.bind expanded ((Task.settles_note _).bind (Task.settles_pure _))
    · simp [Imports.Reaches]
  | cons seed rest =>
    obtain ⟨graph, built, closure⟩ :=
      project.forwardGraph_settles_of_tells imports (seed :: rest) tells
    have seen := all_seen_of_gives built seedsSeen
    refine ⟨Text.sortedSet (graph.nodes.map (·.name)), ?_, Text.pairwise_sortedSet _,
      fun name => ?_⟩
    · refine Task.Settles.bind expanded (Task.Settles.bind built ?_)
      dsimp only
      split
      · exact (Task.settles_note _).bind (Task.settles_pure _)
      · exact Task.settles_pure _
    · rw [Text.mem_sortedSet, mem_names_nodes seen]
      simp only [closure.node_iff]

end Project
end ModuleAtlas
