import ModuleAtlas.Keyed
import ModuleAtlas.Path

/-!
# Dependency graphs

Directed graphs over files. A file is known by its canonical path; the name under which it is shown
is that of its first mention.
-/

namespace ModuleAtlas

/-- A file of a project: its canonical path, and the way to it from the root of the project. -/
structure File where
  path : Path
  name : String
deriving Repr, DecidableEq, Inhabited

namespace File

/-- The file of a canonical path, named by the way to it from a root. -/
def seenFrom (root path : Path) : File :=
  ⟨path, Path.relativeText (Path.normalNames root.names) (Path.normalNames path.names)⟩

/-- Whether two mentions are of the same file. -/
def same (a b : File) : Bool := a.path == b.path

/-- Files in the order of their names. -/
def sort (files : List File) : List File := files.mergeSort fun a b => decide (a.name ≤ b.name)

/-- Whether a file is mentioned in a list. -/
def isIn (file : File) (files : List File) : Bool := files.any fun other => file.same other

/-- Adds a file to a list unless it is mentioned there. -/
def addTo (file : File) (files : List File) : List File :=
  if file.isIn files then files else files ++ [file]

/-- The files of a list, each at its first mention. -/
def distinct (files : List File) : List File :=
  files.foldl (fun found file => file.addTo found) []

end File

/-- A graph: each node with the targets of its edges, in the order in which they came. -/
structure Graph where
  entries : List (File × List File)
deriving Repr, DecidableEq, Inhabited

namespace Graph

/-- The graph without nodes. -/
def empty : Graph := ⟨[]⟩

/-- Whether a file is a node. -/
def contains (graph : Graph) (file : File) : Bool :=
  graph.entries.any fun entry => file.same entry.1

/-- The number of nodes. -/
def size (graph : Graph) : Nat := graph.entries.length

/-- The graph with a file as a node. -/
def addNode (graph : Graph) (file : File) : Graph :=
  if graph.contains file then graph else ⟨graph.entries ++ [(file, [])]⟩

/-- The graph with an edge and both its ends. -/
def addEdge (graph : Graph) (source target : File) : Graph :=
  let graph := (graph.addNode source).addNode target
  ⟨graph.entries.map fun entry =>
    if source.same entry.1 then (entry.1, target.addTo entry.2) else entry⟩

/-- The targets of the edges of a node, in the order in which they came. -/
def targets (graph : Graph) (file : File) : List File :=
  match graph.entries.find? fun entry => file.same entry.1 with
  | some entry => entry.2
  | none => []

/-- The nodes by name. -/
def nodes (graph : Graph) : List File := File.sort (graph.entries.map (·.1))

/-- The targets of the edges of a node by name. -/
def successors (graph : Graph) (file : File) : List File := File.sort (graph.targets file)

/-- The edges by the names of their ends. -/
def edges (graph : Graph) : List (File × File) :=
  graph.nodes.flatMap fun source => (graph.successors source).map fun target => (source, target)

/-- The number of edges. -/
def edgeCount (graph : Graph) : Nat := total (graph.entries.map fun entry => entry.2.length)

/-- The graph with every edge turned round. -/
def transpose (graph : Graph) : Graph :=
  let nodes := graph.entries.foldl (fun turned entry => turned.addNode entry.1) empty
  graph.entries.foldl
    (fun turned entry =>
      entry.2.foldl (fun turned target => turned.addEdge target entry.1) turned)
    nodes

/-- Breadth-first search: the files seen, from a queue of files to visit. -/
def search (graph : Graph) : Nat → List File → List File → List File
  | 0, seen, _ => seen
  | _ + 1, seen, [] => seen
  | fuel + 1, seen, file :: queue =>
    if file.isIn seen then search graph fuel seen queue
    else
      let seen := seen ++ [file]
      search graph fuel seen (queue ++ (graph.targets file).filter fun next => !next.isIn seen)

/-- The files that a path of at least one edge leads to. Every file is expanded at most once, so
the edges bound the number of visits. -/
def reachable (graph : Graph) (start : File) : List File :=
  let first := graph.targets start
  graph.search (first.length + graph.edgeCount + 1) [] first

end Graph

end ModuleAtlas
