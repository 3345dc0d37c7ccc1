import ModuleAtlas.Text.Basic
import ModuleAtlas.Text.Classes

/-!
# Integers and numerals

The integers that texts stand for: digits of any script, a sign before them, low lines between them,
and blanks around all of it; and the numbers that digits of the Latin block stand for.
-/

namespace ModuleAtlas.Text

/-- The value of a digit in a base. -/
def digitIn? (base : Nat) (c : Char) : Option Nat :=
  let value? :=
    match digitValue? c with
    | some value => some value
    | none =>
      let low := c.toLower
      if 'a' ≤ low && low ≤ 'z' then some (low.toNat - 'a'.toNat + 10) else none
  value?.filter (· < base)

/-- The number that digits stand for, the digits so far included. -/
def digitsFrom? (base : Nat) : Nat → List Char → Option Nat
  | value, [] => some value
  | value, c :: rest =>
    match digitIn? base c with
    | some digit => digitsFrom? base (value * base + digit) rest
    | none => none

/-- The number that one or more digits stand for. -/
def digits? (base : Nat) (text : List Char) : Option Nat :=
  if text.isEmpty then none else digitsFrom? base 0 text

/-- The sign at the start of a text, and the text after it. -/
def splitSign : List Char → Bool × List Char
  | '-' :: rest => (true, rest)
  | '+' :: rest => (false, rest)
  | rest => (false, rest)

/-- The most digits that a number without a base may have. -/
def digitLimit : Nat := 4300

/-- The text without the low lines between digits; there is none when one stands elsewhere. -/
def withoutGaps? : List Char → Option (List Char)
  | [] => some []
  | c :: rest =>
    match c, rest with
    | '_', _ => none
    | c, '_' :: d :: more =>
      if isDigit c && isDigit d then (withoutGaps? (d :: more)).map (c :: ·) else none
    | c, rest => (withoutGaps? rest).map (c :: ·)

/-- The integer that a text in the usual base stands for; low lines between digits do not count. -/
def integer? (text : List Char) : Option Int := do
  let (negative, rest) := splitSign (trimChars isMargin text)
  let digits ← withoutGaps? rest
  let value ← digits? 10 digits
  if digitLimit < digits.length then none
  else some (if negative then -(value : Int) else value)

/-!
## Numerals

The numbers that digits of the Latin block stand for, in base ten and in base sixteen.
-/

/-- The number that decimal digits stand for. -/
def natOf (digits : List Char) : Nat :=
  digits.foldl (fun value c => value * 10 + (c.toNat - '0'.toNat)) 0

/-- The value of a hexadecimal digit, in a small or a capital letter. -/
def hexDigit? (c : Char) : Option Nat :=
  if '0' ≤ c ∧ c ≤ '9' then some (c.toNat - '0'.toNat)
  else if 'a' ≤ c ∧ c ≤ 'f' then some (c.toNat - 'a'.toNat + 10)
  else if 'A' ≤ c ∧ c ≤ 'F' then some (c.toNat - 'A'.toNat + 10)
  else none

/-- The number that hexadecimal digits stand for. -/
def hexValue? (digits : List Char) : Option Nat :=
  digits.foldlM (fun value c => (hexDigit? c).map (value * 16 + ·)) 0

end ModuleAtlas.Text
