import ModuleAtlas.Command.Run
import ModuleAtlas.Proofs.Graph.Search
import ModuleAtlas.Proofs.Graph.Closure

/-!
# Dependents

The dependents of some targets are the files that reach one of them along edges of the whole graph.
They are found by turning all edges round and searching from the targets, and the forward graph of a
file is found by following its imports: the two agree wherever the whole graph knows the imports.
-/

namespace ModuleAtlas
namespace Project

open ModuleAtlas.Graph Relation

variable {tree : FileTree} {project : Project}

/-- A file reaches one of some targets other than itself. -/
def ReachesOther (graph : Graph) (targets : List File) (path : Path) : Prop :=
  ∃ target ∈ targets, target.path ≠ path ∧ TransGen graph.HasEdge path target.path

variable {graph : Graph} {targets : List File} {files : List File}

/-- Searching the turned graph finds the files that reach a target other than themselves. -/
theorem mem_paths_dependentsIn {path : Path} :
    path ∈ File.paths (dependentsIn graph targets) ↔ ReachesOther graph targets path := by
  unfold dependentsIn ReachesOther
  rw [File.mem_paths_distinct, File.mem_paths]
  simp only [List.mem_flatMap, List.mem_filter, Bool.not_eq_true', Bool.eq_false_iff, ne_eq,
    File.same_iff]
  constructor
  · rintro ⟨file, ⟨target, targetMember, reached, different⟩, rfl⟩
    have way := (mem_paths_reachable (distinct_transpose graph)).mp (File.mem_paths_of_mem reached)
    exact ⟨target, targetMember, Ne.symm different, transGen_transpose.mp way⟩
  · rintro ⟨target, targetMember, different, way⟩
    have reached :=
      (mem_paths_reachable (distinct_transpose graph)).mpr (transGen_transpose.mpr way)
    obtain ⟨file, fileMember, rfl⟩ := File.mem_paths.mp reached
    exact ⟨file, ⟨target, targetMember, fileMember, Ne.symm different⟩, rfl⟩

theorem all_dependentsIn {property : File → Prop} (all : graph.All property) {file : File}
    (member : file ∈ dependentsIn graph targets) : property file := by
  obtain ⟨target, _, found⟩ := List.mem_flatMap.mp (File.mem_of_mem_distinct member)
  exact all.transpose.of_mem_reachable (List.mem_filter.mp found).1

/-- The first step of a way. -/
theorem ReachesOther.edge {path : Path}
    (reaches : ReachesOther graph targets path) :
    ∃ next, graph.HasEdge path next := by
  obtain ⟨target, _, _, way⟩ := reaches
  obtain ⟨next, edge, _⟩ := TransGen.head'_iff.mp way
  exact ⟨next, edge⟩

/-- The names of the dependents of targets in a graph. -/
def dependentNames (graph : Graph) (targets : List File) : List String :=
  Text.sortedSet ((dependentsIn graph targets).map (·.name))

/-- A name is listed when a file of that name reaches a target other than itself. -/
theorem mem_dependentNames {name : String} (seen : graph.All project.IsSeen) :
    name ∈ dependentNames graph targets ↔
      ∃ path, (File.seenFrom project.root path).name = name ∧
        ReachesOther graph targets path := by
  unfold dependentNames
  rw [Text.mem_sortedSet, List.mem_map]
  constructor
  · rintro ⟨file, member, rfl⟩
    have fileSeen : file = File.seenFrom project.root file.path := all_dependentsIn seen member
    exact ⟨file.path, congrArg File.name fileSeen.symm,
      mem_paths_dependentsIn.mp (File.mem_paths_of_mem member)⟩
  · rintro ⟨path, rfl, reaches⟩
    obtain ⟨file, member, rfl⟩ := File.mem_paths.mp (mem_paths_dependentsIn.mpr reaches)
    have fileSeen : file = File.seenFrom project.root file.path := all_dependentsIn seen member
    exact ⟨file, member, congrArg File.name fileSeen⟩

/-- Where names hold no slash, a file is listed when it reaches a target other than itself. -/
theorem seenFrom_mem_dependentNames (whole : project.IsWhole tree files graph)
    (named : project.IsNamed tree) {path : Path} (proper : path.IsProper) :
    (File.seenFrom project.root path).name ∈ dependentNames graph targets ↔
      ReachesOther graph targets path := by
  rw [mem_dependentNames whole.seen]
  constructor
  · rintro ⟨other, sameName, reaches⟩
    -- Edges start at source files, and these have proper paths, so the name tells the file.
    obtain ⟨next, edge⟩ := reaches.edge
    have otherMember := ((whole.collects.edge_iff other next).mp edge).1
    have otherProper := whole.sources.isProper named otherMember
    rwa [← File.path_eq_of_seenFrom_name_eq otherProper proper sameName]
  · exact fun reaches => ⟨path, rfl, reaches⟩

/-- The dependents are read off the transposed graph of the whole project. -/
theorem gives_dependents {patterns : List String} {failures : List (File × SourceFault)}
    (expanded : project.Gives tree (project.expand patterns) targets)
    (built : project.Gives tree project.wholeGraph (graph, failures)) :
    project.Gives tree (project.dependents patterns) (dependentNames graph targets) := by
  refine Task.Settles.bind expanded ?_
  cases targets with
  | nil =>
    have none : dependentNames graph [] = [] := by
      simp [dependentNames, dependentsIn, File.distinct, Text.sortedSet, Text.sortStrings,
        Text.dedupNeighbours]
    rw [none]
    exact (Task.settles_note _).bind (Task.settles_pure _)
  | cons target rest => exact Task.Settles.bind built (Task.settles_pure _)

/-- What a source file reaches along edges of the whole graph, its forward graph holds. -/
theorem mem_forward_of_way {forward : Graph} {dependent : File}
    {target : Path} (whole : project.IsWhole tree files graph)
    (closure : IsClosure (project.importsIn tree) [dependent] forward)
    (way : TransGen graph.HasEdge dependent.path target) : target ∈ File.paths forward.nodes := by
  have leads : ∀ source next, graph.HasEdge source next →
      Imports.Leads (project.importsIn tree) source next :=
    fun source next edge => ((whole.collects.edge_iff source next).mp edge).2
  obtain ⟨next, edge, _⟩ := TransGen.head'_iff.mp way
  obtain ⟨targets, told, _⟩ := leads _ _ edge
  rw [closure.node_iff]
  exact ⟨dependent, by simp, ⟨targets, told⟩, (TransGen.mono leads _ _ way).to_reflTransGen⟩

/-- What the forward graph of a file holds, the file reaches along edges of the whole graph, when
all files with edges on the way are source files. -/
theorem way_of_mem_forward {forward : Graph} {dependent : File}
    {target : Path} (whole : project.IsWhole tree files graph)
    (closure : IsClosure (project.importsIn tree) [dependent] forward)
    (inside : ∀ source next, (source, next) ∈ ends forward.edges → source ∈ File.paths files)
    (different : target ≠ dependent.path) (member : target ∈ File.paths forward.nodes) :
    TransGen graph.HasEdge dependent.path target := by
  obtain ⟨seed, seedMember, parses, way⟩ := (closure.node_iff target).mp member
  rw [List.mem_singleton] at seedMember
  subst seedMember
  have edges : ReflTransGen graph.HasEdge seed.path target := by
    clear different member
    induction way with
    | refl => exact .refl
    | @tail source next before leads ih =>
      have node := (closure.node_iff source).mpr ⟨seed, by simp, parses, before⟩
      have sourceMember := inside source next ((closure.edge_iff source next).mpr ⟨node, leads⟩)
      exact ih.tail ((whole.collects.edge_iff source next).mpr ⟨sourceMember, leads⟩)
  rcases reflTransGen_iff_eq_or_transGen.mp edges with same | some
  · exact absurd same different
  · exact some

/-- The dependents of targets are the inverse of forward graphs.  The report lists in increasing
order, each once, the names of the files that reach a target other than themselves in the whole
graph, with their number.  A source file that is listed for a target leads to it, and a source file
that leads to a target is listed for it when all files with edges on its ways are source files. -/
theorem dependents_invert_closures (project : Project) (tree : FileTree) (patterns : List String)
    {targets : List File} {graph : Graph} {failures : List (File × SourceFault)}
    (expanded : project.Gives tree (project.expand patterns) targets)
    (built : project.Gives tree project.wholeGraph (graph, failures)) :
    ∃ names, project.Gives tree (project.dependents patterns) names ∧
      names.Pairwise (· < ·) ∧
      (Command.dependentsReport names).get? "files" = some (.array (names.map .string)) ∧
      (Command.dependentsReport names).get? "count" = some (.int names.length) ∧
      (∀ name, name ∈ names ↔ ∃ path, (File.seenFrom project.root path).name = name ∧
        ReachesOther graph targets path) ∧
      (project.IsNamed tree →
        (∀ path : Path, path.IsProper →
          ((File.seenFrom project.root path).name ∈ names ↔ ReachesOther graph targets path)) ∧
        ∀ files dependent target forward,
          project.Gives tree project.sourceFiles files → dependent ∈ files →
          targets = [target] → target.path ≠ dependent.path →
          project.Gives tree (project.forwardGraph [dependent]) forward →
          (dependent.name ∈ names → target.path ∈ File.paths forward.nodes) ∧
          ((∀ source next, (source, next) ∈ ends forward.edges → source ∈ File.paths files) →
            target.path ∈ File.paths forward.nodes → dependent.name ∈ names)) := by
  obtain ⟨sources, listed, whole⟩ := isWhole_of_gives built
  refine ⟨dependentNames graph targets, gives_dependents expanded built,
    Text.pairwise_sortedSet _, rfl, rfl, fun name => mem_dependentNames whole.seen,
    fun named => ⟨fun path proper => seenFrom_mem_dependentNames whole named proper, ?_⟩⟩
  rintro files dependent target forward otherListed member rfl different gives
  rw [← listed.unique otherListed] at member ⊢
  have closure := isClosure_of_gives gives
  have proper := whole.sources.isProper named (File.mem_paths_of_mem member)
  have name : dependent.name = (File.seenFrom project.root dependent.path).name :=
    congrArg File.name (whole.sources.seen dependent member)
  rw [name, seenFrom_mem_dependentNames whole named proper]
  constructor
  · rintro ⟨found, foundMember, _, way⟩
    rw [List.mem_singleton] at foundMember
    subst foundMember
    exact mem_forward_of_way whole closure way
  · intro inside reached
    exact ⟨target, by simp, different, way_of_mem_forward whole closure inside different reached⟩

/-! ## A source file and the declarations that it imports -/

/-- A file tree with a source file that imports a file of declarations. -/
def declaredTree : FileTree :=
  ⟨.directory [("a.d.ts", .file .empty none), ("b.ts", importing "./a")], []⟩

/-- The graph with an edge from the source file to the declarations. -/
def declaredGraph : Graph := ⟨[(rootFile "b.ts", [rootFile "a.d.ts"]), (rootFile "a.d.ts", [])]⟩

theorem distinct_declaredGraph : declaredGraph.Distinct :=
  ⟨by decide, by decide⟩

theorem isNamed_declaredTree : rootProject.IsNamed declaredTree := by
  refine ⟨?_, ?_⟩
  · unfold FileTree.AreFree Text.IsFreeOf
    decide
  · unfold FileTree.AreFree Text.IsFreeOf
    decide

theorem declared_dependents :
    ∃ names, rootProject.Gives declaredTree (rootProject.dependents ["a.d.ts"]) names ∧
      names.Pairwise (· < ·) ∧ "b.ts" ∈ names := by
  have expanded : rootProject.Gives declaredTree (rootProject.expand ["a.d.ts"])
      [rootFile "a.d.ts"] :=
    gives_of_outcomeFrom (steady_expand _) (by decide +kernel)
  have built : rootProject.Gives declaredTree rootProject.wholeGraph (declaredGraph, []) :=
    gives_of_outcomeFrom (steady_wholeGraph _ _) (by decide +kernel)
  have listed : rootProject.Gives declaredTree rootProject.sourceFiles [rootFile "b.ts"] :=
    gives_of_outcomeFrom steady_sourceFiles (by decide +kernel)
  have forward : rootProject.Gives declaredTree (rootProject.forwardGraph [rootFile "b.ts"])
      declaredGraph :=
    gives_of_outcomeFrom (steady_forwardGraph _ _) (by decide +kernel)
  have inside : ∀ source next, (source, next) ∈ ends declaredGraph.edges →
      source ∈ File.paths [rootFile "b.ts"] := by
    intro source next member
    obtain ⟨entry, entryMember, rfl, target⟩ := (mem_ends_edges distinct_declaredGraph).mp member
    simp only [declaredGraph, List.mem_cons, List.not_mem_nil, or_false] at entryMember
    rcases entryMember with rfl | rfl
    · simp
    · cases target
  have reached : (rootFile "a.d.ts").path ∈ File.paths declaredGraph.nodes :=
    mem_paths_nodes.mpr (hasNode_iff.mpr ⟨(rootFile "a.d.ts", []), by simp [declaredGraph], rfl⟩)
  obtain ⟨names, gives, sorted, _, _, _, invert⟩ :=
    dependents_invert_closures rootProject declaredTree ["a.d.ts"] expanded built
  refine ⟨names, gives, sorted, ?_⟩
  exact ((invert isNamed_declaredTree).2 _ _ _ _ listed (by simp) rfl (by decide) forward).2
    inside reached

end Project
end ModuleAtlas
