import ModuleAtlas.Resolve.Resolver
import ModuleAtlas.Types.Term
import ModuleAtlas.Graph.Basic

/-!
# Sessions

What an analysis keeps while it runs: the modules read so far, what the resolver has found out, and
the cells of the types met so far. A session reads each source file once.
-/

namespace ModuleAtlas

/-- What is known about an object type or a reference: the name of the declaration that it was
reached through, the type that it stands for, and its members. -/
structure Cell where
  name : Option String
  target : Option TypeTerm
  members : Option (Members TypeTerm)
deriving Inhabited

/-- The state of an analysis. -/
structure Session where
  /-- The modules read so far, by canonical path. -/
  modules : List (Path × SourceModule)
  resolver : Resolver
  cells : Array Cell
  /-- The values of type parameters in lists with defaults. -/
  parameterLists : Array (List (String × TypeTerm))
  /-- The declarations whose members are being collected, by file and position. -/
  expanding : List (Path × Nat)
deriving Inhabited

namespace Session

/-- A session for a project that has read nothing yet. -/
def fresh (root : Path) : Session := ⟨[], Resolver.fresh root, #[], #[], []⟩

/-- Runs a task of the resolver. -/
def resolving (task : Task Resolver α) : Task Session α :=
  Task.within Session.resolver (fun resolver session => { session with resolver := resolver }) task

/-- The file of a path: its canonical path, and the way to it from a root. -/
def fileAt (root path : Path) : Task σ File := do
  return File.seenFrom root (← Task.resolvePath path)

/-- Whether a path is that of a source file. -/
def isSource (path : Path) : Bool := (Language.ofPath? path).isSome

/-- The syntax tree of a file without text. -/
def emptyTree : Node := .mk "program" true none 0 1 "" []

/-- The module of a canonical path in a file tree. -/
def moduleAt (tree : FileTree) (canonical : Path) : Except SourceFault SourceModule :=
  match Language.ofPath? canonical with
  | none => .error (.unsupported canonical.name)
  | some language =>
    match tree.lookup canonical with
    | .ok (_, .file _ parsed) =>
      .ok (SourceModule.ofTree canonical language (parsed.getD emptyTree))
    | outcome => .error (.unreadable canonical (ReadFault.ofLookup outcome))

/-- Keeps a module. -/
def remember (canonical : Path) (indexed : SourceModule) : Task Session Unit :=
  Task.update fun session => { session with modules := (canonical, indexed) :: session.modules }

/-- The module of a canonical path, read at the first time. -/
def readModule (canonical : Path) : Task Session (Except SourceFault SourceModule) := do
  match Keyed.find? canonical (← Task.state).modules with
  | some known => return .ok known
  | none =>
    match moduleAt (← Task.files) canonical with
    | .error fault => return .error fault
    | .ok indexed =>
      remember canonical indexed
      return .ok indexed

/-- The module at a path. -/
def parse (path : Path) : Task Session (Except SourceFault SourceModule) := do
  readModule (← Task.resolvePath path)

/-- The module that a specifier of another module leads to. -/
def load (specifier : String) (importer : SourceModule) : Task Session (Option SourceModule) := do
  let resolution ← resolving (Resolver.resolve specifier importer.path)
  match resolution.file with
  | none => return none
  | some path =>
    if isSource path then return (← parse path).toOption else return none

/-- The number of syntax nodes, comments apart, of the file that stands at a canonical path. -/
def sizeAt (tree : FileTree) (canonical : Path) : Nat :=
  match tree.lookup canonical with
  | .ok (_, .file _ parsed) => (parsed.getD emptyTree).substance.length
  | _ => 0

/-- The number of syntax nodes that a module has more than the file that stands at its path by now.
-/
def excess (tree : FileTree) (entry : Path × SourceModule) : Nat :=
  entry.2.root.substance.length - sizeAt tree entry.1

/-- The number of syntax nodes that the session can meet, comments apart: those of the files, and of
modules read so far what the files do not have any more. It bounds every walk over modules and
declarations. -/
def sizeBound : Task Session Nat := do
  let tree ← Task.files
  let outdated := (← Task.state).modules.map (excess tree)
  return total (tree.root.trees.map fun parsed => parsed.substance.length) + total outdated
    + tree.root.count + 1

end Session

end ModuleAtlas
