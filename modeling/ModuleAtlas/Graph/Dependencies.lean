import ModuleAtlas.Project

/-!
# Dependencies

The traversal of a dependency relation from some files on, and the graphs of a project.
-/

namespace ModuleAtlas

namespace Graph

/-!
## Forward traversal

The part of a dependency relation that some files lead to, found depth first. Where the targets of a
file cannot be told, a file on the way stays a node without edges, and a seed is left out.
-/

/-- What a traversal asks and tells: the targets of a file, and what becomes of a seed or a file on
the way whose targets cannot be told. -/
structure Oracle (m : Type → Type) where
  targets : File → m (Except SourceFault (List File))
  seedFailed : File → SourceFault → m Unit
  fileFailed : File → SourceFault → m Unit

/-- What a traversal has found so far: a graph, and the files that it is done with. -/
structure Trace where
  graph : Graph
  visited : List File
deriving Inhabited

namespace Trace

/-- The trace at the start. -/
def start : Trace := ⟨.empty, []⟩

/-- The trace with a file taken up. -/
def visit (trace : Trace) (file : File) : Trace :=
  ⟨trace.graph.addNode file, file :: trace.visited⟩

/-- The trace with edges from a file. -/
def link (trace : Trace) (file : File) (targets : List File) : Trace :=
  { trace with graph := targets.foldl (fun graph target => graph.addEdge file target) trace.graph }

variable {m : Type → Type} [Monad m]

/-- Takes up the files of a stack and all that they lead to. The last target of a file comes first.
The fuel bounds the number of files taken up. -/
def walk (oracle : Oracle m) : Nat → Trace → List File → m Trace
  | 0, trace, _ => pure trace
  | fuel + 1, trace, stack =>
    match stack.dropWhile fun file => file.isIn trace.visited with
    | [] => pure trace
    | file :: rest => do
      let trace := trace.visit file
      match ← oracle.targets file with
      | .error fault =>
        oracle.fileFailed file fault
        walk oracle fuel trace rest
      | .ok targets =>
        let unseen := targets.filter fun target => !target.isIn trace.visited
        walk oracle fuel (trace.link file targets) (unseen.reverse ++ rest)

/-- Takes up a seed and all that it leads to. -/
def addSeed (oracle : Oracle m) (fuel : Nat) (trace : Trace) (seed : File) : m Trace := do
  if seed.isIn trace.visited then return trace
  else
    match ← oracle.targets seed with
    | .error fault =>
      oracle.seedFailed seed fault
      return trace
    | .ok targets => walk oracle fuel ((trace.visit seed).link seed targets) targets.reverse

end Trace

/-- The graph of what some files lead to. -/
def forward {m : Type → Type} [Monad m] (oracle : Oracle m) (fuel : Nat) (seeds : List File) :
    m Graph := do
  return (← seeds.foldlM (Trace.addSeed oracle fuel) Trace.start).graph

end Graph

/-!
## Dependencies in a project

The files that a file imports, the graph of what some files lead to, the graph of the whole project,
and the files that depend on given ones.
-/

namespace Project

/-- The admitted files that some specifiers of a file lead to. -/
def targetsOf (project : Project) (importer : Path) (specifiers : List String) :
    Task Session (List File) := do
  let resolutions ← specifiers.mapM fun specifier =>
    Session.resolving (Resolver.resolve specifier importer)
  let paths := (resolutions.filterMap (·.file)).filter project.admits
  return File.distinct (paths.map (File.seenFrom project.root))

/-- The files that a file imports, as far as the project admits them. What is no source file imports
nothing. -/
def dependencies (project : Project) (file : File) :
    Task Session (Except SourceFault (List File)) := do
  if !Session.isSource file.path then return .ok []
  else
    match ← Session.parse file.path with
    | .error fault => return .error fault
    | .ok source =>
      return .ok (← project.targetsOf file.path (source.root.imports.map (·.specifier)))

/-- The dependencies in a project as a traversal asks for them. -/
def oracle (project : Project) : Graph.Oracle (Task Session) where
  targets := project.dependencies
  seedFailed file fault := Task.note (.unreadableSeed file.name fault.message)
  fileFailed file fault := Task.note (.skippedImports file.name fault.message)

/-- A bound on the files that a traversal takes up: each file of the tree once. -/
def visitBound : Task σ Nat := do
  return (← Task.files).root.count

/-- The graph of what some files lead to. -/
def forwardGraph (project : Project) (seeds : List File) : Task Session Graph := do
  Graph.forward project.oracle (← visitBound) seeds

/-- The names of the files that patterns stand for and of all that these lead to. -/
def closure (project : Project) (patterns : List String) : Task Session (List String) := do
  let seeds ← project.expand patterns
  if seeds.isEmpty then
    Task.note (.noMatchingFiles patterns)
    return []
  else
    let graph ← project.forwardGraph seeds
    let names := Text.sortedSet (graph.nodes.map (·.name))
    if names.length ≤ (seeds.filter graph.contains).length then Task.note .noDependencies
    return names

/-- A graph with the dependencies of some files added, and the files whose dependencies cannot be
told. -/
def addFiles (project : Project) :
    Graph → List File → Task Session (Graph × List (File × SourceFault))
  | graph, [] => return (graph, [])
  | graph, file :: rest => do
    match ← project.dependencies file with
    | .error fault =>
      Task.note (.skippedImports file.name fault.message)
      let (graph, failures) ← addFiles project (graph.addNode file) rest
      return (graph, (file, fault) :: failures)
    | .ok targets =>
      let linked :=
        targets.foldl (fun graph target => graph.addEdge file target) (graph.addNode file)
      addFiles project linked rest

/-- The graph of all source files of the project, and the files whose dependencies cannot be told.
-/
def wholeGraph (project : Project) : Task Session (Graph × List (File × SourceFault)) := do
  project.addFiles .empty (← project.sourceFiles)

/-- The files of a graph that some targets can be reached from, each target's own self apart. -/
def dependentsIn (graph : Graph) (targets : List File) : List File :=
  let turned := graph.transpose
  File.distinct (targets.flatMap fun target =>
    (turned.reachable target).filter fun file => !file.same target)

/-- The names of the files that depend on the files that patterns stand for. -/
def dependents (project : Project) (patterns : List String) : Task Session (List String) := do
  let targets ← project.expand patterns
  if targets.isEmpty then
    Task.note (.noMatchingFiles patterns)
    return []
  else
    let (graph, _) ← project.wholeGraph
    return Text.sortedSet ((dependentsIn graph targets).map (·.name))

end Project

end ModuleAtlas
