import ModuleAtlas.Json.Value

/-!
# TOML values

Values of settings files. A number with a fraction is kept as its shortest text, and a moment as its
standard text, which a date with an offset of a day or more has not. Tables keep the order of their
keys.
-/

namespace ModuleAtlas

/-- A TOML value. -/
inductive Toml where
  | boolean (value : Bool)
  | integer (value : Int)
  | decimal (text : String)
  | string (value : String)
  | date (text : Option String)
  | time (text : String)
  | array (items : List Toml)
  | table (entries : List (String × Toml))
deriving Repr, Inhabited, BEq

namespace Toml

/-- What is wrong with a document. -/
inductive Fault where
  /-- A rule of the format is broken. -/
  | malformed
  /-- Something ends where more has to come. -/
  | cutShort
  /-- A table is looked for in a value of another kind. -/
  | misplaced
  /-- A table is added to a value that is no array. -/
  | notArray
  /-- A string of several lines is opened under an empty key. -/
  | unnamedText
  /-- A number is too large for what it stands for. -/
  | tooLarge
  /-- A moment has no standard text. -/
  | unwritableMoment
deriving Repr, DecidableEq

/-- The kinds of values that an array may hold. -/
inductive Kind where
  | boolean
  | integer
  | decimal
  | string
  | date
  | time
  | array
  | table
deriving Repr, DecidableEq

/-- The kind of a value. -/
def kind : Toml → Kind
  | .boolean _ => .boolean
  | .integer _ => .integer
  | .decimal _ => .decimal
  | .string _ => .string
  | .date _ => .date
  | .time _ => .time
  | .array _ => .array
  | .table _ => .table

/-- The value under a key of a table. -/
def get? (key : String) : Toml → Option Toml
  | .table entries => Keyed.find? key entries
  | _ => none

/-- The text of a string value. -/
def text? : Toml → Option String
  | .string value => some value
  | _ => none

/-- The strings of an array that holds nothing else. -/
def textList? : Toml → Option (List String)
  | .array items => items.mapM text?
  | _ => none

/-- Whether a value counts as given: it is neither empty nor zero nor false. -/
def isGiven : Toml → Bool
  | .boolean value => value
  | .integer value => value != 0
  | .decimal text => text != "0.0" && text != "-0.0"
  | .string value => !value.isEmpty
  | .date _ | .time _ => true
  | .array items => !items.isEmpty
  | .table entries => !entries.isEmpty

/-- The words of a report for the numbers that have no digits; others keep their text. -/
def reportNumber (text : String) : String :=
  (([("inf", "Infinity"), ("-inf", "-Infinity"), ("nan", "NaN")] : List (String × String)).lookup
    text).getD text

mutual

/-- The value as a value of a report. -/
def report : Toml → Json
  | .boolean value => .bool value
  | .integer value => .int value
  | .decimal text => .decimal (reportNumber text)
  | .string value | .time value => .string value
  | .date text => .string (text.getD "")
  | .array items => .array (reports items)
  | .table entries => .object (namedReports entries)

/-- The values as values of a report. -/
def reports : List Toml → List Json
  | [] => []
  | value :: rest => report value :: reports rest

/-- Named values as named values of a report. -/
def namedReports : List (String × Toml) → List (String × Json)
  | [] => []
  | (key, value) :: rest => (key, report value) :: namedReports rest

end

end Toml

end ModuleAtlas
