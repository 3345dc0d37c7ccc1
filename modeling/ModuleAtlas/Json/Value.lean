import ModuleAtlas.Keyed

/-!
# JSON values

Values of manifests and reports. Objects keep the order of their keys. A number with a fraction or
an exponent is kept as it was written: no operation of this library calculates with it.
-/

namespace ModuleAtlas

/-- A JSON value. -/
inductive Json where
  | null
  | bool (value : Bool)
  | int (value : Int)
  | decimal (literal : String)
  | string (value : String)
  | array (items : List Json)
  | object (entries : List (String × Json))
deriving Repr, Inhabited, BEq

namespace Json

/-- The value under a key of an object. -/
def get? (key : String) : Json → Option Json
  | .object entries => Keyed.find? key entries
  | _ => none

/-- The text of a string value. -/
def text? : Json → Option String
  | .string value => some value
  | _ => none

/-- The items of an array. -/
def items? : Json → Option (List Json)
  | .array items => some items
  | _ => none

/-- The strings among the items of an array. -/
def texts (items : List Json) : List String := items.filterMap text?

/-- The strings of an array that holds nothing else. -/
def textList? : Json → Option (List String)
  | .array items => items.mapM text?
  | _ => none

/-- The number that the digits of a text write, all other characters left out. -/
def digitsValue (text : List Char) : Nat :=
  (text.filter Char.isDigit).foldl (fun value c => value * 10 + (c.toNat - '0'.toNat)) 0

/-- Whether a number of so many units in a decimal place after the point is nearer to zero than to
any other double, or as near: half of the least one is two to the power of minus 1075. -/
def roundsToZero (units place : Nat) : Bool :=
  units * Nat.pow 2 1075 ≤ Nat.pow 10 (min place (units.log2 + 1100))

/-- Whether the written number is zero as a double. -/
def isZeroLiteral (literal : String) : Bool :=
  let chars := literal.toList
  let mantissa := chars.takeWhile fun c => c != 'e' && c != 'E'
  let exponent := (chars.dropWhile fun c => c != 'e' && c != 'E').drop 1
  let places := ((mantissa.dropWhile (· != '.')).drop 1).length
  let units := digitsValue mantissa
  let power := digitsValue exponent
  if !mantissa.any Char.isDigit then false
  else if exponent.head? == some '-' then roundsToZero units (places + power)
  else units == 0 || power < places && roundsToZero units (places - power)

/-- Whether a value counts as present: null, false, zero and anything empty do not. -/
def isTruthy : Json → Bool
  | .null => false
  | .bool value => value
  | .int value => value != 0
  | .decimal literal => !isZeroLiteral literal
  | .string value => !value.isEmpty
  | .array items => !items.isEmpty
  | .object entries => !entries.isEmpty

end Json

end ModuleAtlas
