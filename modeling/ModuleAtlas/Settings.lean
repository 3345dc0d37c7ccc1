import ModuleAtlas.Json.Value

/-!
# Settings

The limits and rules of an analysis, with their defaults.
-/

namespace ModuleAtlas

/-- What an analysis goes by. -/
structure Settings where
  /-- The depth from which types are cut. -/
  maxDepth : Int
  /-- How many properties of an object are shown. -/
  maxProperties : Int
  /-- The number of properties beyond which a nested named object is shown by its name. -/
  collapseThreshold : Int
  /-- How many structured types are expanded for one export. -/
  maxNodes : Int
  /-- Patterns in the text of types with what replaces them. -/
  wrapperRules : List (String × String)
  /-- Names of directories that hold installed packages. -/
  dependencyDirs : List String
  /-- Ignore patterns beside those of ignore files. -/
  extraIgnores : List String
deriving Repr, DecidableEq, Inhabited

/-- The settings that replace others; what is not given stays. -/
structure Overrides where
  maxDepth : Option Int
  maxProperties : Option Int
  collapseThreshold : Option Int
  maxNodes : Option Int
  wrapperRules : Option (List (String × String))
  dependencyDirs : Option (List String)
  extraIgnores : Option (List String)
deriving Repr, DecidableEq, Inhabited

namespace Overrides

/-- Nothing to replace. -/
def none : Overrides := ⟨.none, .none, .none, .none, .none, .none, .none⟩

end Overrides

namespace Settings

/-- The wrapper rules that hold by default: generic types of common libraries whose arguments say
little. -/
def defaultWrapperRules : List (String × String) :=
  [("ZodObject<[^>]+>", "ZodObject"), ("ZodArray<[^>]+>", "ZodArray"),
    ("ZodOptional<[^>]+>", "ZodOptional"), ("ZodDefault<[^>]+>", "ZodDefault"),
    ("ZodType<[^>]+>", "ZodType"),
    ("Server<[^>]*ClientToServerEvents[^>]*>", "SocketIOServer"),
    ("Server<[^>]*DefaultEventsMap[^>]*>", "SocketIOServer"),
    ("Socket<[^>]*DefaultEventsMap[^>]*>", "SocketIOSocket"),
    ("TransactionSql<[^>]*PostgresType[^>]*>", "PostgresTransactionConnection"),
    ("(?<![A-Za-z])Sql<[^>]*PostgresType[^>]*>", "PostgresConnection")]

/-- The names of directories for installed packages that hold by default. -/
def defaultDependencyDirs : List String := ["bower_components", "jspm_packages", "node_modules"]

/-- The default settings. -/
def default : Settings where
  maxDepth := 10
  maxProperties := 20
  collapseThreshold := 10
  maxNodes := 1000
  wrapperRules := defaultWrapperRules
  dependencyDirs := defaultDependencyDirs
  extraIgnores := []

/-- The settings with some of them replaced. -/
def override (settings : Settings) (overrides : Overrides) : Settings where
  maxDepth := overrides.maxDepth.getD settings.maxDepth
  maxProperties := overrides.maxProperties.getD settings.maxProperties
  collapseThreshold := overrides.collapseThreshold.getD settings.collapseThreshold
  maxNodes := overrides.maxNodes.getD settings.maxNodes
  wrapperRules := overrides.wrapperRules.getD settings.wrapperRules
  dependencyDirs := overrides.dependencyDirs.getD settings.dependencyDirs
  extraIgnores := overrides.extraIgnores.getD settings.extraIgnores

/-- The settings as a value of a report. -/
def report (settings : Settings) : Json :=
  .object [
    ("max_depth", .int settings.maxDepth),
    ("max_properties", .int settings.maxProperties),
    ("collapse_threshold", .int settings.collapseThreshold),
    ("max_nodes", .int settings.maxNodes),
    ("wrapper_rules", .array (settings.wrapperRules.map fun rule =>
      .array [.string rule.1, .string rule.2])),
    ("dependency_dirs", .array (settings.dependencyDirs.map .string)),
    ("extra_ignores", .array (settings.extraIgnores.map .string))]

end Settings

end ModuleAtlas
