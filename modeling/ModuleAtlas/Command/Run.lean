import ModuleAtlas.Terminal.Table
import ModuleAtlas.Command.Reading
import ModuleAtlas.Graph.Dot
import ModuleAtlas.Invocation
import ModuleAtlas.Settings.Stored
import ModuleAtlas.Yaml.Printer

/-!
# Running commands

The table that shows the settings in use, and what each command does and prints.
-/

namespace ModuleAtlas

namespace Settings

/-!
## The table of settings

What is shown of the settings in use: the limits, the lists as texts, and the number of wrapper
rules.
-/

/-- The number of columns of the terminal. -/
def terminalColumns : Nat := 80

/-- The texts of a list in one line. -/
def listed (texts : List String) : String := Text.join ", " texts

/-- The ignore patterns in one line, or that there are none. -/
def listedIgnores (settings : Settings) : String :=
  let text := listed settings.extraIgnores
  if text.isEmpty then "[dim](none)[/dim]" else text

/-- The settings as a table. -/
def table (settings : Settings) : Terminal.Table where
  title := "tsgraph settings"
  header := ("Setting", "Value")
  rows := [
    ("max_depth", toString settings.maxDepth),
    ("max_properties", toString settings.maxProperties),
    ("collapse_threshold", toString settings.collapseThreshold),
    ("max_nodes", toString settings.maxNodes),
    ("dependency_dirs", listed settings.dependencyDirs),
    ("ignore", settings.listedIgnores),
    ("wrappers", toString settings.wrapperRules.length)]

/-- The written table of settings. -/
def tableText (settings : Settings) : Except Terminal.Markup.Fault String :=
  settings.table.render terminalColumns

/-- The line that names the settings file, and tells when there is none yet. -/
def fileLine (path : Path) (isPresent : Bool) : String :=
  let status := if isPresent then "" else " (not created yet, defaults in use)"
  "  Config  " ++ path.text ++ status ++ "\n"

end Settings

/-!
## Running commands

A run of the program answers a command line with an exit code and a text. A command line that cannot
be understood has the exit code two and no text, and so has an argument that no analysis takes. A
cause that ends an analysis otherwise has the exit code one.
-/

/-- What a run of the program leaves: its exit code, its text, the file tree with the paths that
have been written in it, and the cause that ended the run before its end. -/
structure Reply where
  exitCode : Nat
  output : String
  files : FileTree
  written : List Path
  failure : Option Failure

namespace Command

/-- The exit code of a command line that cannot be understood. -/
def usageExit : Nat := 2

/-- The exit code of a run that fails. -/
def failureExit : Nat := 1

/-- The words for the version of the program. -/
def versionText : String := "tsgraph v0.3.0\n"

/-- The words that help. -/
def helpText : String :=
  Text.join "\n" [
    "Usage: tsg [OPTIONS] COMMAND [ARGS]...",
    "",
    "Commands:",
    "  deps          the files that the given ones lead to",
    "  inverse-deps  the files that depend on the given ones",
    "  types         the exports of files and packages",
    "  analyze       the declarations in files",
    "  config show   the settings in use",
    "  config set    a change of the stored settings",
    ""]

/-- A text as the answer of a run. -/
def answer (output : String) : Task σ Reply := do
  if output.toList.any Text.isHalfChar then Task.fail .halfPair
  else return ⟨0, output, ← Task.files, [], none⟩

/-- An exit code as the answer of a run. -/
def leave (exitCode : Nat) : Task σ Reply := do return ⟨exitCode, "", ← Task.files, [], none⟩

/-- Texts with a line for each. -/
def linesText (lines : List String) : String := String.join (lines.map (· ++ "\n"))

/-- A value as JSON that ends its line. -/
def jsonText (value : Json) : String := Json.render value ++ "\n"

/-- A report in a format. -/
def reportText (format : ReportFormat) (value : Json) : String :=
  match format with
  | .json => jsonText value
  | .yaml => Yaml.render value

/-- Names of files in a format. -/
def namesText (format : ListFormat) (names : List String) (report : Json) : String :=
  match format with
  | .list => linesText names
  | .json => jsonText report

/-- Texts as a value of a report. -/
def textsReport (texts : List String) : Json := .array (texts.map .string)

/-- Writes the text of a graph to a file. -/
def exportGraph (text output : String) : Task σ Reply := do
  let path := Path.ofText output
  match (← Task.files).write path text.toUTF8 with
  | .ok files => return ⟨0, "Exported graph to " ++ path.text ++ "\n", files, [path], none⟩
  | .error fault => Task.fail (.unwritable path fault)

/-- Answers with dependencies. -/
def runDependencies (invocation : Invocation) (patterns : List String) (format : GraphFormat)
    (output : Option String) (focus : String) : Task σ Reply := do
  match format with
  | .dot =>
    let text := (← invocation.graph patterns).dot focus
    match output with
    | none => answer text
    | some output => exportGraph text output
  | .list => answer (linesText (← invocation.closure patterns))
  | .json => answer (jsonText (textsReport (← invocation.closure patterns)))

/-- The report of dependents by name, with their number. -/
def dependentsReport (names : List String) : Json :=
  .object [("files", textsReport names), ("count", .int names.length)]

/-- Answers with dependents. -/
def runDependents (invocation : Invocation) (patterns : List String) (root : Path)
    (format : ListFormat) : Task σ Reply := do
  let names ← invocation.dependents patterns root
  answer (namesText format names (dependentsReport names))

/-- Changes the stored settings. -/
def runChange (settingsFile : Path) (overrides : Overrides) : Task σ Reply := do
  let current ← Settings.load settingsFile
  let updated := current.override overrides
  if updated = current then answer "Nothing to change.\n"
  else
    let saved ← updated.save settingsFile
    match saved.outcome with
    | .ok true =>
      let output := "✓ Saved settings to " ++ settingsFile.text ++ "\n"
      return ⟨0, output, saved.files, [settingsFile], none⟩
    | .ok false => return ⟨failureExit, "", saved.files, [], none⟩
    | .error failure => return ⟨failureExit, "", saved.files, [settingsFile], some failure⟩

/-- Shows settings. -/
def runShow (settingsFile : Path) (settings : Settings) : Task σ Reply := do
  match settings.tableText with
  | .ok text => answer (text ++ Settings.fileLine settingsFile (← Task.isPresent settingsFile))
  | .error fault => Task.fail (.markup fault)

/-- Answers a command, with settings and the file that they are stored in. -/
def execute (settingsFile : Path) (settings : Settings) (command : Command) : Task σ Reply := do
  let here := Path.ofRoot (← Task.files).workingDirectory
  let invocation : Invocation := ⟨here, settings⟩
  let seen := fun (directory : Option String) => (directory.map here.child).getD here
  match command with
  | .dependencies patterns format output focus =>
    runDependencies invocation patterns format output focus
  | .dependents patterns root format => runDependents invocation patterns (seen root) format
  | .exports inputs directory names format =>
    let found ← invocation.extract inputs (seen directory) names
    answer (reportText format (.array (found.map FileExports.report)))
  | .declarations patterns format =>
    answer (reportText format (FileAnalysis.reportAll (← invocation.analyze patterns)))
  | .showSettings => runShow settingsFile settings
  | .changeSettings overrides => runChange settingsFile overrides

/-- Whether a text names a directory. -/
def isDirectory (files : FileTree) (text : String) : Bool :=
  !text.isEmpty && files.isDirectory (Path.ofText text)

/-- Answers a command line whose start has been read. -/
def continueWith (settingsFile : Path) (overrides : Overrides) (name : CommandName)
    (arguments : List String) : Task σ Reply := do
  let settings := (← Settings.load settingsFile).override overrides
  match readRest (isDirectory (← Task.files)) name arguments with
  | .error (.nullCharacter text) => Task.fail (.nullCharacter (Path.ofText text))
  | .error _ => leave usageExit
  | .ok none => answer helpText
  | .ok (some command) => command.execute settingsFile settings

/-- Answers a command line. -/
def run (settingsFile : Path) (arguments : List String) : Task σ Reply := do
  match readStart arguments with
  | .error _ => leave usageExit
  | .ok .help => answer helpText
  | .ok .version => answer versionText
  | .ok (.command overrides name rest) => continueWith settingsFile overrides name rest

/-- The exit code of a run that a failure ended. -/
def exitCodeOf : Failure → Nat
  | .argument _ _ => usageExit
  | _ => failureExit

/-- The failure of a run that is not told as a wrong argument. -/
def unexpected? : Failure → Option Failure
  | .argument _ _ => none
  | failure => some failure

/-- The answer to a command line in a file tree, and the notices told on the way. -/
def respond (settingsFile : Path) (files : FileTree) (arguments : List String) :
    Reply × List Notice :=
  let task : Task Unit Reply := run settingsFile arguments
  match task.runIn files () with
  | (.ok reply, notices, _) => (reply, notices)
  | (.error failure, notices, _) =>
    (⟨exitCodeOf failure, "", files, [], unexpected? failure⟩, notices)

end Command

end ModuleAtlas
