import ModuleAtlas.Path
import ModuleAtlas.Regex.Match

/-!
# Notices

What an analysis reports beside its result: inputs that it skipped and settings that it did not
take. Each notice belongs to one part of the program and has a fixed form of words, in which the
placeholders stand for its data.
-/

namespace ModuleAtlas

/-- How much a notice matters. -/
inductive Severity where
  | warning
  | error
deriving Repr, DecidableEq

/-- Something worth telling that does not stop an analysis. -/
inductive Notice where
  | invalidWrapper (pattern : String) (fault : Regex.Fault)
  | unresolvedInput (input : String)
  | unreadableExports (file reason : String)
  | unreadableManifest (path : Path)
  | unreadableCompilerOptions (path : Path)
  | unreadableWorkspace (path : Path)
  | unreadableIgnoreFile (path : Path)
  | unreadableSeed (file reason : String)
  | skippedImports (file reason : String)
  | unlistedDirectory (path : Path)
  | noMatchingFiles (globs : List String)
  | noMatchingInputs (globs : List String)
  | noDependencies
  | skippedFile (file reason : String)
  | unreadableSettings (path : Path)
  | unwritableSettings (path : Path)
  | invalidLimit (key : String)
  | invalidWrapperList
  | malformedWrapper
  | invalidDependencyDirs
  | invalidIgnores
deriving Repr

namespace Notice

/-- How much the notice matters. -/
def severity : Notice → Severity
  | .unreadableSeed _ _ => .error
  | _ => .warning

/-- The part of the program that tells it. -/
def source : Notice → String
  | .invalidWrapper _ _ => "type_simplifier"
  | .unresolvedInput _ | .unreadableExports _ _ => "exports"
  | .unreadableManifest _ | .unreadableCompilerOptions _ | .unreadableWorkspace _ => "resolver"
  | .unreadableIgnoreFile _ => "ignore_rules"
  | .unreadableSeed _ _ | .skippedImports _ _ | .unlistedDirectory _ | .noMatchingFiles _
  | .noDependencies => "dependency_graph"
  | .noMatchingInputs _ => "orchestrator"
  | .skippedFile _ _ => "complexity"
  | .unreadableSettings _ | .unwritableSettings _ | .invalidLimit _ | .invalidWrapperList
  | .malformedWrapper | .invalidDependencyDirs | .invalidIgnores => "config_manager"

/-- Its form of words. -/
def template : Notice → String
  | .invalidWrapper _ _ => "Skipping invalid wrapper pattern %r: %s"
  | .unresolvedInput _ => "Could not resolve '%s' to a file or package"
  | .unreadableExports _ _ => "Cannot extract exports from %s: %s"
  | .unreadableManifest _ => "Ignoring unreadable manifest %s"
  | .unreadableCompilerOptions _ => "Ignoring unreadable tsconfig %s"
  | .unreadableWorkspace _ => "Cannot read workspace manifest %s: %s"
  | .unreadableIgnoreFile _ => "Error reading %s: %s"
  | .unreadableSeed _ _ => "Error processing dependencies for %s: %s"
  | .skippedImports _ _ => "Skipping imports of %s: %s"
  | .unlistedDirectory _ => "Cannot list %s: %s"
  | .noMatchingFiles _ | .noMatchingInputs _ =>
    "No files found matching the input glob patterns: %s"
  | .noDependencies =>
    "No dependencies found for the specified files (excluding dependency directories)."
  | .skippedFile _ _ => "Skipping %s: %s"
  | .unreadableSettings _ => "Ignoring unreadable config file %s: %s"
  | .unwritableSettings _ => "Could not write config file %s: %s"
  | .invalidLimit _ => "Config [simplifier].%s must be a positive integer, got %r"
  | .invalidWrapperList => "Config [simplifier].wrappers must be a list of tables"
  | .malformedWrapper => "Skipping malformed wrapper rule %r"
  | .invalidDependencyDirs => "Config [graph].dependency_dirs must be a list of strings"
  | .invalidIgnores => "Config [graph].ignore must be a list of strings"

/-- The data that its placeholders stand for, as far as they are texts. -/
def details : Notice → List String
  | .invalidWrapper pattern _ => [pattern]
  | .unresolvedInput input => [input]
  | .unreadableExports file reason | .unreadableSeed file reason | .skippedImports file reason
  | .skippedFile file reason => [file, reason]
  | .unreadableManifest path | .unreadableCompilerOptions path | .unreadableWorkspace path
  | .unreadableIgnoreFile path | .unlistedDirectory path | .unreadableSettings path
  | .unwritableSettings path => [path.text]
  | .noMatchingFiles globs | .noMatchingInputs globs => [Text.join ", " globs]
  | .invalidLimit key => [key]
  | .noDependencies | .invalidWrapperList | .malformedWrapper | .invalidDependencyDirs
  | .invalidIgnores => []

/-- A form of words with its placeholders filled by the given texts, one after the other; those left
over are dropped. -/
def fill : List String → List Char → List Char
  | _, [] => []
  | [], '%' :: _ :: rest => fill [] rest
  | text :: texts, '%' :: _ :: rest => text.toList ++ fill texts rest
  | texts, c :: rest => c :: fill texts rest

/-- The words of the notice. -/
def message (notice : Notice) : String :=
  String.ofList (fill notice.details notice.template.toList)

end Notice

end ModuleAtlas
