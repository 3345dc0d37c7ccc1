import ModuleAtlas.Settings
import ModuleAtlas.Task
import ModuleAtlas.Toml.Document
import ModuleAtlas.Toml.Printer

/-!
# Stored settings

Settings are kept in two sections of a TOML document, which may hold other things too. Reading takes
what has the right form and tells a notice of what has not. Saving replaces the two sections and
keeps the rest of the document.
-/

namespace ModuleAtlas.Settings

/-- The entries of a settings file. -/
abbrev Document := List (String × Toml)

/-- The name of the section that holds the limits and the wrapper rules. -/
def simplifierSection : String := "simplifier"

/-- The name of the section that holds the settings of graphs. -/
def graphSection : String := "graph"

/-! ## Reading -/

/-- A section of a document. One that is missing or empty counts as an empty table. -/
def sectionOf (document : Document) (name : String) : Toml :=
  match Keyed.find? name document with
  | some content => if content.isGiven then content else .table []
  | none => .table []

/-- Whether a section holds a name, if it can hold names at all: as a key, as an item or as a part.
-/
def holds? (name : String) : Toml → Option Bool
  | .table entries => some (Keyed.has name entries)
  | .array items => some (items.any fun item => item.text? == some name)
  | .string text => some (Text.contains name text)
  | _ => none

/-- The value of a positive integer. -/
def limit? : Toml → Option Int
  | .integer value => if 0 < value then some value else none
  | _ => none

/-- A limit of a section. -/
def readLimit (part : Toml) (name : String) : Task σ (Option Int) := do
  match holds? name part with
  | none => Task.fail .limitNotHeld
  | some false => return none
  | some true =>
    match part.get? name with
    | none => Task.fail .limitNotHeld
    | some value =>
      let limit := limit? value
      if limit.isNone then Task.note (.invalidLimit name)
      return limit

/-- The entry of a name in a section, which has to be a table. -/
def readEntry (part : Toml) (name : String) : Task σ (Option Toml) :=
  match part with
  | .table entries => return Keyed.find? name entries
  | _ => Task.fail .sectionNotTable

/-- The pattern and the replacement of a table. -/
def wrapperRule? (entry : Toml) : Option (String × String) := do
  let pattern ← (← entry.get? "pattern").text?
  let replacement ← (← entry.get? "replace").text?
  return (pattern, replacement)

/-- The wrapper rules that a value lists. -/
def readWrapperRules (value : Toml) : Task σ (Option (List (String × String))) := do
  match value with
  | .array items =>
    let rules ← items.mapM fun item => do
      let rule := wrapperRule? item
      if rule.isNone then Task.note .malformedWrapper
      return rule
    return some (rules.filterMap id)
  | _ =>
    Task.note .invalidWrapperList
    return none

/-- The texts that a value lists, or a notice. -/
def readTexts (value : Toml) (notice : Notice) : Task σ (Option (List String)) := do
  if value.textList?.isNone then Task.note notice
  return value.textList?

/-- What is read of an entry that is there. -/
def readGiven (entry : Option Toml) (read : Toml → Task σ (Option α)) : Task σ (Option α) :=
  match entry with
  | some value => read value
  | none => return none

/-- What a document sets. -/
def readOverrides (document : Document) : Task σ Overrides := do
  let simplifier := sectionOf document simplifierSection
  let graph := sectionOf document graphSection
  let maxDepth ← readLimit simplifier "max_depth"
  let maxProperties ← readLimit simplifier "max_properties"
  let collapseThreshold ← readLimit simplifier "collapse_threshold"
  let maxNodes ← readLimit simplifier "max_nodes"
  let rules ← readGiven (← readEntry simplifier "wrappers") readWrapperRules
  let directories ← readGiven (← readEntry graph "dependency_dirs") fun value =>
    readTexts value .invalidDependencyDirs
  let ignores ← readGiven (← readEntry graph "ignore") fun value => readTexts value .invalidIgnores
  return ⟨maxDepth, maxProperties, collapseThreshold, maxNodes, rules,
    directories.map Text.sortedSet, ignores⟩

/-- The entries of the settings file at a path. A file that is missing, unreadable or malformed
counts as empty. -/
def readDocument (path : Path) : Task σ Document := do
  let files ← Task.files
  if !(← Task.isPresent path) then return []
  else if !files.isFile path then unreadable
  else
    match files.text? path with
    | none => Task.fail (.notText path)
    | some text =>
      match Toml.parse text with
      | .ok (.table entries) => return entries
      | .ok _ => return []
      | .error .malformed => unreadable
      | .error fault => Task.fail (.settingsFormat fault)
where
  /-- The entries of a file that cannot be used. -/
  unreadable : Task σ Document := do
    Task.note (.unreadableSettings path)
    return []

/-- The settings that the file at a path holds. -/
def load (path : Path) : Task σ Settings := do
  return Settings.default.override (← readOverrides (← readDocument path))

/-! ## Saving -/

/-- A wrapper rule as a table. -/
def ruleTable (rule : String × String) : Toml :=
  .table [("pattern", .string rule.1), ("replace", .string rule.2)]

/-- The section with the limits and the wrapper rules. -/
def simplifierTable (settings : Settings) : Toml :=
  .table [
    ("max_depth", .integer settings.maxDepth),
    ("max_properties", .integer settings.maxProperties),
    ("collapse_threshold", .integer settings.collapseThreshold),
    ("max_nodes", .integer settings.maxNodes),
    ("wrappers", .array (settings.wrapperRules.map ruleTable))]

/-- The section with the settings of graphs. -/
def graphTable (settings : Settings) : Toml :=
  .table [
    ("dependency_dirs", .array (settings.dependencyDirs.map .string)),
    ("ignore", .array (settings.extraIgnores.map .string))]

/-- A document with its two sections replaced by settings. -/
def store (settings : Settings) (document : Document) : Document :=
  Keyed.put graphSection settings.graphTable
    (Keyed.put simplifierSection settings.simplifierTable document)

/-- What saving leaves: the file tree, and whether the settings are in it. -/
structure Saved where
  files : FileTree
  outcome : Except Failure Bool

/-- Writes a document over the file at a path. A document without a written form leaves an empty
file. -/
def writeDocument (files : FileTree) (path : Path) (document : Document) :
    Except FileTree.WriteFault Saved :=
  match Toml.render document with
  | .ok text => return ⟨← files.write path text.toUTF8, .ok true⟩
  | .error fault => return ⟨← files.write path ByteArray.empty, .error (.settingsFormat fault)⟩

/-- Saves settings in the file at a path, whose directory is made when it is missing. -/
def save (settings : Settings) (path : Path) : Task σ Saved := do
  let document ← readDocument path
  let files ← Task.files
  let made := files.makeDirectories? path.parent
  match made.map fun files => writeDocument files path (settings.store document) with
  | some (.ok saved) => return saved
  | _ =>
    Task.note (.unwritableSettings path)
    return ⟨made.getD files, .ok false⟩

end ModuleAtlas.Settings
