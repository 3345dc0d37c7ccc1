import ModuleAtlas.Graph.Dependencies
import ModuleAtlas.Catalogue
import ModuleAtlas.Analysis

/-!
# Invocations

The four analyses of a project: what some files lead to, what depends on them, what they export and
what they declare. Each one starts from nothing: no ignore rule, manifest or module that one of them
has read is known to the next.
-/

namespace ModuleAtlas

/-- The declarations of a file, or the reason why it cannot be read. -/
structure FileAnalysis where
  file : String
  items : Except String (List Item)

namespace FileAnalysis

/-- The file and its declarations as a value of a report. -/
def report (analysis : FileAnalysis) : Json :=
  .object <|
    ("path", .string analysis.file) ::
      match analysis.items with
      | .ok items => [("items", .array (items.map Item.report))]
      | .error reason => [("items", .array []), ("error", .string reason)]

/-- The kinds of the declarations of a file. -/
def kinds (analysis : FileAnalysis) : List String :=
  match analysis.items with
  | .ok items => items.map (·.kind)
  | .error _ => []

/-- The analysis of a file. -/
def ofFile (file : File) : Task Session FileAnalysis := do
  match ← Session.parse file.path with
  | .ok source => return ⟨file.name, .ok (Item.catalogue source.root)⟩
  | .error fault =>
    Task.note (.skippedFile file.name fault.message)
    return ⟨file.name, .error fault.message⟩

/-- The analyses of files with the number of declarations of each kind, as a value of a report. -/
def reportAll (analyses : List FileAnalysis) : Json :=
  .object [("files", .array (analyses.map report)),
    ("summary", Item.summarize (analyses.flatMap kinds))]

end FileAnalysis

/-- What analyses start from: the root of the project and the settings. -/
structure Invocation where
  root : Path
  settings : Settings

namespace Invocation

/-- The project of patterns: the ignore files matter that lie on the way to where they search. -/
def project (invocation : Invocation) (root : Path) (patterns : List String) : Task σ Project := do
  let searched ← Ignore.searchDirectories patterns root
  let ignore ← Ignore.collect searched root invocation.settings.extraIgnores
  return ⟨root, ignore, invocation.settings.dependencyDirs⟩

/-- Runs a task with the project of patterns in a session of its own. -/
def inSession (invocation : Invocation) (root : Path) (patterns : List String)
    (task : Project → Task Session α) : Task σ α := do
  let base ← Task.resolvePath root
  Task.withState (Session.fresh base) do task (← invocation.project base patterns)

/-- The names of the files that patterns stand for and of all that these lead to. -/
def closure (invocation : Invocation) (patterns : List String) : Task σ (List String) :=
  invocation.inSession invocation.root patterns fun project => project.closure patterns

/-- The graph of what the files lead to that patterns stand for. -/
def graph (invocation : Invocation) (patterns : List String) : Task σ Graph :=
  invocation.inSession invocation.root patterns fun project => do
    let seeds ← project.expand patterns
    if seeds.isEmpty then
      Task.note (.noMatchingInputs patterns)
      return .empty
    else project.forwardGraph seeds

/-- The names of the files below a root that depend on the files that patterns stand for. -/
def dependents (invocation : Invocation) (patterns : List String) (root : Path) :
    Task σ (List String) :=
  invocation.inSession root patterns fun project => project.dependents patterns

/-- The exports of inputs seen from a directory, as far as they are wanted. -/
def extract (invocation : Invocation) (inputs : List String) (directory : Path)
    (names : List String) : Task σ (List FileExports) :=
  invocation.inSession invocation.root [] fun project => do
    let simplifier ← Simplifier.prepare invocation.settings
    Catalogue.extract simplifier project.root inputs directory names

/-- The declarations in the files that patterns stand for. Files that only declare are left out. -/
def analyze (invocation : Invocation) (patterns : List String) : Task σ (List FileAnalysis) :=
  invocation.inSession invocation.root patterns fun project => do
    let files := (← project.expand patterns).filter fun file =>
      !Text.endsWith Project.declarationEnding file.name
    if files.isEmpty then Task.note (.noMatchingInputs patterns)
    files.mapM FileAnalysis.ofFile

end Invocation

end ModuleAtlas
