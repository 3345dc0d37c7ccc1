import ModuleAtlas.Settings
import ModuleAtlas.Text.Integer

/-!
# Commands

What the program can be asked to do, the forms that options have on a command line, and how the
arguments of a command line are read as a command.
-/

namespace ModuleAtlas

/-!
## Commands

What the program can be asked to do.
-/

/-- How dependencies are written. -/
inductive GraphFormat where
  | list
  | json
  | dot
deriving Repr, DecidableEq

/-- How names of files are written. -/
inductive ListFormat where
  | list
  | json
deriving Repr, DecidableEq

/-- How reports are written. -/
inductive ReportFormat where
  | json
  | yaml
deriving Repr, DecidableEq

/-- A request to the program. -/
inductive Command where
  /-- What the files lead to that patterns stand for; a graph may be written to a file, and be
  narrowed to the edges at some files. -/
  | dependencies (patterns : List String) (format : GraphFormat) (output : Option String)
      (focus : String)
  /-- What depends on the files below a directory that patterns stand for. -/
  | dependents (patterns : List String) (root : Option String) (format : ListFormat)
  /-- The exports of inputs seen from a directory; only those of some names, if there are any. -/
  | exports (inputs : List String) (directory : Option String) (names : List String)
      (format : ReportFormat)
  /-- The declarations in the files that patterns stand for. -/
  | declarations (patterns : List String) (format : ReportFormat)
  /-- The settings in use. -/
  | showSettings
  /-- A change of the stored settings. -/
  | changeSettings (overrides : Overrides)
deriving Repr

namespace Command

/-- The name of a format in small letters, as far as it is one of the given ones. -/
def formatOf? (formats : List (String × α)) (name : String) : Option α :=
  formats.lookup (Text.lower name)

/-- The formats of dependencies. -/
def graphFormats : List (String × GraphFormat) :=
  [("list", .list), ("json", .json), ("dot", .dot)]

/-- The formats of names of files. -/
def listFormats : List (String × ListFormat) := [("list", .list), ("json", .json)]

/-- The formats of reports. -/
def reportFormats : List (String × ReportFormat) := [("json", .json), ("yaml", .yaml)]

end Command

/-!
## Options

The options at the start of a command line or anywhere in it. A long option starts with two hyphens
and has its value after an equals sign or in the next argument. Short options of one letter may
stand together after one hyphen, and what follows the letter of one that has a value is its value.
Two hyphens alone end the options, and one hyphen alone is an ordinary argument.
-/

namespace Command

/-- An option that a command knows: its names with their hyphens, and whether it has a value. -/
structure OptionForm (ι : Type) where
  id : ι
  names : List String
  hasValue : Bool

/-- An option that has been given; one without a value has an empty one. -/
structure GivenOption (ι : Type) where
  id : ι
  value : String

/-- What is wrong with the options of a command line. -/
inductive OptionFault where
  | unknown (name : String)
  | valueMissing (name : String)
  | valueUnexpected (name : String)
deriving Repr, DecidableEq

/-- A command line with its options taken out. -/
structure Arguments (ι : Type) where
  options : List (GivenOption ι)
  others : List String

namespace Arguments

/-- The values that an option has been given, in order. -/
def values [BEq ι] (arguments : Arguments ι) (id : ι) : List String :=
  (arguments.options.filter fun given => given.id == id).map (·.value)

/-- The last value that an option has been given. -/
def value? [BEq ι] (arguments : Arguments ι) (id : ι) : Option String :=
  (arguments.values id).getLast?

/-- The first of some options that has been given. -/
def first? [BEq ι] (arguments : Arguments ι) (ids : List ι) : Option ι :=
  (arguments.options.find? fun given => ids.contains given.id).map (·.id)

/-- The arguments with another option before them. -/
def addOption (given : GivenOption ι) (arguments : Arguments ι) : Arguments ι :=
  { arguments with options := given :: arguments.options }

/-- The arguments with another one before them that belongs to no option. -/
def addOther (other : String) (arguments : Arguments ι) : Arguments ι :=
  { arguments with others := other :: arguments.others }

end Arguments

namespace OptionForm

/-- The option of a name. -/
def find? (forms : List (OptionForm ι)) (name : String) : Option (OptionForm ι) :=
  forms.find? fun form => form.names.contains name

/-- A long option with the arguments after it: the option and the arguments left. -/
def readLong (forms : List (OptionForm ι)) (argument : String) (rest : List String) :
    Except OptionFault (List (GivenOption ι) × List String) :=
  let (name, attached) :=
    match Text.cutFirst? '=' argument.toList with
    | some (before, after) => (String.ofList before, some (String.ofList after))
    | none => (argument, none)
  match find? forms name with
  | none => .error (.unknown name)
  | some form =>
    if form.hasValue then
      match attached, rest with
      | some value, _ => .ok ([⟨form.id, value⟩], rest)
      | none, value :: rest => .ok ([⟨form.id, value⟩], rest)
      | none, [] => .error (.valueMissing name)
    else if attached.isSome then .error (.valueUnexpected name)
    else .ok ([⟨form.id, ""⟩], rest)

/-- The short options of some letters with the arguments after them: the options and the arguments
left. -/
def readShort (forms : List (OptionForm ι)) :
    List Char → List String → Except OptionFault (List (GivenOption ι) × List String)
  | [], rest => .ok ([], rest)
  | letter :: letters, rest =>
    let name := String.ofList ['-', letter]
    match find? forms name with
    | none => .error (.unknown name)
    | some form =>
      if form.hasValue then
        match letters, rest with
        | [], value :: rest => .ok ([⟨form.id, value⟩], rest)
        | [], [] => .error (.valueMissing name)
        | letters, rest => .ok ([⟨form.id, String.ofList letters⟩], rest)
      else do
        let (given, rest) ← readShort forms letters rest
        return (⟨form.id, ""⟩ :: given, rest)

/-- The options that an argument starts, and the arguments left; there are none when it belongs to
no option. -/
def read? (forms : List (OptionForm ι)) (argument : String) (rest : List String) :
    Option (Except OptionFault (List (GivenOption ι) × List String)) :=
  match argument.toList with
  | '-' :: '-' :: _ => some (readLong forms argument rest)
  | '-' :: letter :: letters => some (readShort forms (letter :: letters) rest)
  | _ => none

/-- Takes the options out of a command line of at most `fuel` arguments. Where options may not come
later, the first other argument ends them. -/
def parseFrom (forms : List (OptionForm ι)) (anywhere : Bool) :
    Nat → List String → Except OptionFault (Arguments ι)
  | 0, rest => .ok ⟨[], rest⟩
  | _ + 1, [] => .ok ⟨[], []⟩
  | fuel + 1, argument :: rest =>
    if argument == "--" then .ok ⟨[], rest⟩
    else
      match read? forms argument rest with
      | some (.ok (given, rest)) => do
        return given.foldr Arguments.addOption (← parseFrom forms anywhere fuel rest)
      | some (.error fault) => .error fault
      | none =>
        if anywhere then do
          return (← parseFrom forms anywhere fuel rest).addOther argument
        else .ok ⟨[], argument :: rest⟩

/-- Takes the options out of a command line. -/
def parse (forms : List (OptionForm ι)) (anywhere : Bool) (arguments : List String) :
    Except OptionFault (Arguments ι) :=
  parseFrom forms anywhere (arguments.length + 1) arguments

end OptionForm

/-!
## Reading command lines

A command line has options for the whole program, the name of a command, and the options and
arguments of that command. It is read in two steps, since the settings are loaded between them: the
start up to the name of the command, and the rest. Requests for help and for the version come before
anything that is wrong with the value of an option.
-/

/-- The options of the program and its commands. -/
inductive OptionId where
  | help
  | version
  | verbose
  | maxDepth
  | maxProperties
  | collapseThreshold
  | maxNodes
  | ignore
  | format
  | output
  | focus
  | root
  | directory
  | name
deriving Repr, DecidableEq

/-- What is wrong with a command line. -/
inductive UsageFault where
  | badOption (fault : OptionFault)
  | noCommand
  | unknownCommand (name : String)
  | noArguments
  | unexpectedArgument (text : String)
  | badLimit (text : String)
  | badFormat (text : String)
  | noDirectory (text : String)
  | nullCharacter (text : String)
deriving Repr, DecidableEq

/-- The commands by name. -/
inductive CommandName where
  | dependencies
  | dependents
  | exports
  | declarations
  | settings
deriving Repr, DecidableEq

/-- What the start of a command line asks for. -/
inductive Start where
  | help
  | version
  | command (overrides : Overrides) (name : CommandName) (arguments : List String)

/-! ### Options -/

/-- The option that asks for help. -/
def helpForm : OptionForm OptionId := ⟨.help, ["--help"], false⟩

/-- The option that sets the depth limit. -/
def maxDepthForm : OptionForm OptionId := ⟨.maxDepth, ["--max-depth"], true⟩

/-- The option that sets the limit for properties. -/
def maxPropertiesForm : OptionForm OptionId := ⟨.maxProperties, ["--max-properties"], true⟩

/-- The option that chooses a format. -/
def formatForm : OptionForm OptionId := ⟨.format, ["--format", "-f"], true⟩

/-- The options of the whole program. -/
def programForms : List (OptionForm OptionId) := [
  helpForm, ⟨.version, ["--version", "-v"], false⟩, ⟨.verbose, ["--verbose", "-V"], false⟩,
  maxDepthForm, maxPropertiesForm]

/-- The options of the command for dependencies. -/
def dependenciesForms : List (OptionForm OptionId) := [
  helpForm, formatForm, ⟨.output, ["--output", "-o"], true⟩, ⟨.focus, ["--focus"], true⟩]

/-- The options of the command for dependents. -/
def dependentsForms : List (OptionForm OptionId) := [
  helpForm, formatForm, ⟨.root, ["--root", "-r"], true⟩]

/-- The options of the command for exports. -/
def exportsForms : List (OptionForm OptionId) := [
  helpForm, formatForm, ⟨.directory, ["--pwd"], true⟩, ⟨.name, ["--filter", "-t"], true⟩]

/-- The options of the command for declarations. -/
def declarationsForms : List (OptionForm OptionId) := [helpForm, formatForm]

/-- The options of the command that changes settings. -/
def changeForms : List (OptionForm OptionId) := [
  helpForm, maxDepthForm, maxPropertiesForm,
  ⟨.collapseThreshold, ["--collapse-threshold"], true⟩, ⟨.maxNodes, ["--max-nodes"], true⟩,
  ⟨.ignore, ["--ignore"], true⟩]

/-- Takes the options out of arguments. -/
def parseOptions (forms : List (OptionForm OptionId)) (anywhere : Bool) (arguments : List String) :
    Except UsageFault (Arguments OptionId) :=
  (OptionForm.parse forms anywhere arguments).mapError .badOption

/-! ### Values of options -/

/-- The positive integer that a text stands for. Only the first 128 characters may stand in it. -/
def limit? (text : String) : Option Int :=
  if text.toList.all fun c => c.toNat < 128 then
    (Text.integer? text.toList).filter fun value => 0 < value
  else none

/-- The limit that an option sets when it is given for the last time. -/
def limitOf (arguments : Arguments OptionId) (id : OptionId) : Except UsageFault (Option Int) :=
  match arguments.value? id with
  | none => .ok none
  | some text =>
    match limit? text with
    | some value => .ok (some value)
    | none => .error (.badLimit text)

/-- The format that is chosen, or the usual one. -/
def chosenFormat (arguments : Arguments OptionId) (formats : List (String × α)) (usual : α) :
    Except UsageFault α :=
  match arguments.value? .format with
  | none => .ok usual
  | some text =>
    match formatOf? formats text with
    | some format => .ok format
    | none => .error (.badFormat text)

/-- The arguments of a command that needs some. -/
def someArguments (arguments : Arguments OptionId) : Except UsageFault (List String) :=
  if arguments.others.isEmpty then .error .noArguments else .ok arguments.others

/-- Refuses arguments. -/
def noMoreArguments (arguments : Arguments OptionId) : Except UsageFault Unit :=
  match arguments.others with
  | [] => .ok ()
  | text :: _ => .error (.unexpectedArgument text)

/-! ### The start -/

/-- The command of a name. -/
def commandName? : String → Option CommandName
  | "deps" => some .dependencies
  | "inverse-deps" => some .dependents
  | "types" => some .exports
  | "analyze" => some .declarations
  | "config" => some .settings
  | _ => none

/-- What the program is asked for before any command. -/
def startOption? (arguments : Arguments OptionId) : Option Start :=
  match arguments.first? [.help, .version] with
  | some .help => some .help
  | some _ => some .version
  | none => none

/-- The answer to the name of no command. What looks like an option is still taken for one. -/
def unknownStart (name : String) (rest : List String) : Except UsageFault Start :=
  if Text.startsWith "-" name then do
    match startOption? (← parseOptions programForms false (name :: rest)) with
    | some start => return start
    | none => throw (.unknownCommand name)
  else .error (.unknownCommand name)

/-- Reads a command line up to the name of the command. -/
def readStart (arguments : List String) : Except UsageFault Start := do
  let parsed ← parseOptions programForms false arguments
  match startOption? parsed with
  | some start => return start
  | none =>
    let maxDepth ← limitOf parsed .maxDepth
    let maxProperties ← limitOf parsed .maxProperties
    let overrides := { Overrides.none with maxDepth := maxDepth, maxProperties := maxProperties }
    match parsed.others with
    | [] => throw .noCommand
    | name :: rest =>
      match commandName? name with
      | some command => return .command overrides command rest
      | none => unknownStart name rest

/-! ### The rest -/

/-- The path that an option names. -/
def pathOption (arguments : Arguments OptionId) (id : OptionId) :
    Except UsageFault (Option String) :=
  match arguments.value? id with
  | some text =>
    if text.toList.contains '\x00' then .error (.nullCharacter text) else .ok (some text)
  | none => .ok none

/-- The command for dependencies. -/
def readDependencies (arguments : Arguments OptionId) : Except UsageFault Command := do
  let output ← pathOption arguments .output
  let patterns ← someArguments arguments
  let format ← chosenFormat arguments graphFormats .list
  return .dependencies patterns format output ((arguments.value? .focus).getD "")

/-- The command for dependents. The directory that it names has to be there. -/
def readDependents (isDirectory : String → Bool) (arguments : Arguments OptionId) :
    Except UsageFault Command := do
  let root ← pathOption arguments .root
  let patterns ← someArguments arguments
  match root.filter fun text => !isDirectory text with
  | some text => throw (.noDirectory text)
  | none => return .dependents patterns root (← chosenFormat arguments listFormats .list)

/-- The command for exports. -/
def readExports (arguments : Arguments OptionId) : Except UsageFault Command := do
  let directory ← pathOption arguments .directory
  let inputs ← someArguments arguments
  let format ← chosenFormat arguments reportFormats .json
  return .exports inputs directory (arguments.values .name) format

/-- The command for declarations. -/
def readDeclarations (arguments : Arguments OptionId) : Except UsageFault Command := do
  let patterns ← someArguments arguments
  return .declarations patterns (← chosenFormat arguments reportFormats .yaml)

/-- The command that changes settings. -/
def readChange (arguments : Arguments OptionId) : Except UsageFault Command := do
  let maxDepth ← limitOf arguments .maxDepth
  let maxProperties ← limitOf arguments .maxProperties
  let collapseThreshold ← limitOf arguments .collapseThreshold
  let maxNodes ← limitOf arguments .maxNodes
  noMoreArguments arguments
  let ignores := arguments.values .ignore
  return .changeSettings
    ⟨maxDepth, maxProperties, collapseThreshold, maxNodes, none, none,
      if ignores.isEmpty then none else some ignores⟩

/-- The command that shows settings. -/
def readShow (arguments : Arguments OptionId) : Except UsageFault Command := do
  noMoreArguments arguments
  return .showSettings

/-- Reads a command from its options and arguments; there is none when help is asked for. -/
def readWith (forms : List (OptionForm OptionId))
    (read : Arguments OptionId → Except UsageFault Command) (arguments : List String) :
    Except UsageFault (Option Command) := do
  let parsed ← parseOptions forms true arguments
  if (parsed.first? [.help]).isSome then return none
  else return some (← read parsed)

/-- Reads a command for settings. -/
def readSettings (arguments : List String) : Except UsageFault (Option Command) := do
  let parsed ← parseOptions [helpForm] false arguments
  if (parsed.first? [.help]).isSome then return none
  else
    match parsed.others with
    | [] => throw .noCommand
    | "show" :: rest => readWith [helpForm] readShow rest
    | "set" :: rest => readWith changeForms readChange rest
    | name :: _ => throw (.unknownCommand name)

/-- Reads the arguments of a command; there is none when help is asked for. -/
def readRest (isDirectory : String → Bool) (name : CommandName) (arguments : List String) :
    Except UsageFault (Option Command) :=
  match name with
  | .dependencies => readWith dependenciesForms readDependencies arguments
  | .dependents => readWith dependentsForms (readDependents isDirectory) arguments
  | .exports => readWith exportsForms readExports arguments
  | .declarations => readWith declarationsForms readDeclarations arguments
  | .settings => readSettings arguments

end Command

end ModuleAtlas
