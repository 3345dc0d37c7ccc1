import ModuleAtlas.Glob.Expand
import ModuleAtlas.Ignore.Pattern
import ModuleAtlas.Terminal.Markup
import ModuleAtlas.Toml.Value
import ModuleAtlas.Yaml.Cursor

/-!
# Failures

The causes that end an analysis or the treatment of one file, and the words in which those that
reach a user are told. Files and directories are taken to grant all access, so that there is no
failure for want of it. The number of calls that may be open at a time is a bound of the machine
that is left out, but for manifests, whose nesting is that of a file, and for descriptions of
exports, which tell it as their reason.
-/

namespace ModuleAtlas

/-- The kind of a value that stands where a list of texts belongs. -/
inductive ValueKind where
  | text
  | mapping
  | integer
  | decimal
  | truth
deriving Repr, DecidableEq

/-- The name of a kind of values. -/
def ValueKind.name : ValueKind → String
  | .text => "str"
  | .mapping => "dict"
  | .integer => "int"
  | .decimal => "float"
  | .truth => "bool"

/-- What is wrong with an argument that has to be a list of texts. -/
inductive ArgumentFault where
  | missing
  | notList (found : ValueKind)
  | notTexts
deriving Repr, DecidableEq

/-- What is wrong with a manifest. -/
inductive ManifestFault where
  | unreadable
  | noObject
  | noOptions
  | failedBefore
deriving Repr, DecidableEq

/-- The words for what is wrong with a manifest. -/
def ManifestFault.message : ManifestFault → String
  | .unreadable => "unreadable"
  | .noObject => "manifest is not a JSON object"
  | .noOptions => "tsconfig is not a JSON object"
  | .failedBefore => "previously failed to load"

/-- Why a file cannot be read. -/
inductive ReadFault where
  | missing
  | notDirectory
  | isDirectory
  | tooManyLinks
  | tooLong
deriving Repr, DecidableEq

/-- The words of the operating system for why a file cannot be read, with their number. -/
def ReadFault.message : ReadFault → String
  | .missing => "[Errno 2] No such file or directory"
  | .notDirectory => "[Errno 20] Not a directory"
  | .isDirectory => "[Errno 21] Is a directory"
  | .tooLong => "[Errno 36] File name too long"
  | .tooManyLinks => "[Errno 40] Too many levels of symbolic links"

/-- Why there is nothing to read where a path leads that does not lead to a file. -/
def ReadFault.ofLookup : Except FileTree.LookupFault FileTree.Located → ReadFault
  | .ok _ => .isDirectory
  | .error .notDirectory => .notDirectory
  | .error .tooManyLinks => .tooManyLinks
  | .error .tooLong => .tooLong
  | .error .missing | .error .nullCharacter => .missing

/-- Why a source file has no syntax tree. -/
inductive SourceFault where
  | unsupported (name : String)
  | unreadable (path : Path) (fault : ReadFault)
deriving Repr, DecidableEq

/-- The words for why a source file has no syntax tree. -/
def SourceFault.message : SourceFault → String
  | .unsupported name => "Unsupported file type: " ++ name
  | .unreadable path fault =>
    "Cannot read " ++ path.text ++ ": " ++ fault.message ++ ": '" ++ path.text ++ "'"

/-- What there is no room for when too many calls are open: one more array or object of a manifest
inside the others, or any other call, with what the words for it end in. -/
inductive Overflow where
  | array
  | object
  | call (detail : String)
deriving Repr, DecidableEq

/-- The words for what there is no room for. -/
def Overflow.message : Overflow → String
  | .array => "maximum recursion depth exceeded while decoding a JSON array from a unicode string"
  | .object => "maximum recursion depth exceeded while decoding a JSON object from a unicode string"
  | .call detail => "maximum recursion depth exceeded" ++ detail

/-- A cause that ends an analysis. -/
inductive Failure where
  /-- An argument is not a list of texts. -/
  | argument (name : String) (fault : ArgumentFault)
  /-- A source file has no syntax tree. -/
  | source (fault : SourceFault)
  /-- A manifest cannot be used. -/
  | manifest (path : Path) (fault : ManifestFault)
  /-- A whole number in a manifest has more digits than can be read. -/
  | longNumber (path : Path)
  /-- A path without a last name stands where a file is looked for. -/
  | unnamedPath
  /-- A pattern for workspace members is none. -/
  | memberPattern (fault : Glob.MemberFault)
  /-- A workspace file holds a value that there is not. -/
  | workspaceFormat (fault : Yaml.Fault)
  /-- The exports of a package are a number or a truth value. -/
  | exportsNotTable
  /-- Entries are looked up in a section of the settings that is no table. -/
  | sectionNotTable
  /-- A limit is looked up in a section of the settings that cannot hold it. -/
  | limitNotHeld
  /-- The bytes of a file are not text. -/
  | notText (path : Path)
  /-- The settings file breaks off, or asks for a table where there is none. -/
  | settingsFormat (fault : Toml.Fault)
  /-- A line of an ignore file is no pattern. -/
  | ignorePattern (fault : Ignore.PatternFault)
  /-- A replacement text is no template. -/
  | replacement (fault : Regex.Fault)
  /-- The links on a path form a loop. -/
  | linkLoop (path : Path)
  /-- A path or a name in it is longer than any file system allows. -/
  | tooLong (path : Path)
  /-- A path holds a null character. -/
  | nullCharacter (path : Path)
  /-- A file that has to be there cannot be read. -/
  | unreadable (path : Path) (fault : ReadFault)
  /-- A file cannot be written. -/
  | unwritable (path : Path) (fault : FileTree.WriteFault)
  /-- A text with style tags is not well-formed. -/
  | markup (fault : Terminal.Markup.Fault)
  /-- A text holds half of a pair and has no bytes. -/
  | halfPair
  /-- There is no room for one more call. -/
  | overflow (what : Overflow)
deriving Repr

namespace Failure

/-- The words for an argument that is not a list of texts. -/
def argumentMessage (name : String) : ArgumentFault → String
  | .missing => "'" ++ name ++ "' is required"
  | .notList found => "'" ++ name ++ "' must be a list, got " ++ found.name
  | .notTexts => "'" ++ name ++ "' must contain only strings"

/-- The failures that are told as such to a user, with their words. The others are faults of the
inputs that no analysis is prepared for. -/
def message? : Failure → Option String
  | .argument name fault => some (argumentMessage name fault)
  | .source fault => some fault.message
  | .manifest path fault => some (path.text ++ ": " ++ fault.message)
  | _ => none

/-- The failures that are told in place of a description, with their words: those that a user is
told, and that there is no room for one more call. -/
def reason? : Failure → Option String
  | .overflow what => some what.message
  | failure => failure.message?

end Failure

end ModuleAtlas
