import ModuleAtlas.Calendar
import ModuleAtlas.Text.Integer
import ModuleAtlas.Text.Utf8
import ModuleAtlas.Toml.Value

/-!
# Scalars in TOML documents

Numbers, moments and quoted strings, each read from its text.
-/

namespace ModuleAtlas

namespace Decimal

/-!
## Shortest decimals

Binary numbers of 53 bits and the shortest decimal that stands for one. A decimal stands for the
nearest binary number; of two that are equally near, for the even one. All arithmetic is exact.
-/

/-- The number `mantissa * 2 ^ exponent`. -/
structure Binary where
  mantissa : Nat
  exponent : Int
deriving Repr, DecidableEq

/-- A quotient rounded to the nearest number; a half goes to the even neighbour. -/
def roundQuotient (numerator denominator : Nat) : Nat :=
  let whole := numerator / denominator
  let rest := 2 * (numerator % denominator)
  if rest < denominator then whole
  else if denominator < rest then whole + 1
  else if whole % 2 = 0 then whole
  else whole + 1

/-- A quotient divided by a power of two and rounded. -/
def roundScaled (numerator denominator : Nat) (exponent : Int) : Nat :=
  roundQuotient (numerator * Nat.pow 2 (-exponent).toNat) (denominator * Nat.pow 2 exponent.toNat)

/-- The least exponent of a binary number. -/
def leastExponent : Int := -1074

/-- The greatest exponent of a binary number. -/
def greatestExponent : Int := 971

/-- Whether a quotient is at least a power of two. -/
def reaches (numerator denominator : Nat) (exponent : Int) : Bool :=
  denominator * Nat.pow 2 exponent.toNat ≤ numerator * Nat.pow 2 (-exponent).toNat

/-- The binary number nearest to a quotient, or `none` when that is too large. -/
def Binary.ofQuotient? (numerator denominator : Nat) : Option Binary :=
  if numerator = 0 then some ⟨0, leastExponent⟩
  else
    let guess : Int := (numerator.log2 : Int) - denominator.log2
    let scale := if reaches numerator denominator guess then guess else guess - 1
    let exponent := max (scale - 52) leastExponent
    let mantissa := roundScaled numerator denominator exponent
    let (mantissa, exponent) :=
      if mantissa = Nat.pow 2 53 then (Nat.pow 2 52, exponent + 1) else (mantissa, exponent)
    if greatestExponent < exponent then none else some ⟨mantissa, exponent⟩

/-- The binary number nearest to `digits * 10 ^ power`. -/
def Binary.ofDecimal? (digits : Nat) (power : Int) : Option Binary :=
  if digits = 0 then some ⟨0, leastExponent⟩
  else if 400 < power then none
  else if power + digits.log2 < -1200 then some ⟨0, leastExponent⟩
  else Binary.ofQuotient? (digits * Nat.pow 10 power.toNat) (Nat.pow 10 (-power).toNat)

/-- The numerator and the denominator of a binary number. -/
def Binary.quotient (number : Binary) : Nat × Nat :=
  (number.mantissa * Nat.pow 2 number.exponent.toNat, Nat.pow 2 (-number.exponent).toNat)

/-- The least power of ten above a number that is not zero, from a guess that is too small. -/
def powerAbove (numerator denominator : Nat) : Nat → Int → Int
  | 0, power => power
  | steps + 1, power =>
    if numerator * Nat.pow 10 (-power).toNat < denominator * Nat.pow 10 power.toNat then power
    else powerAbove numerator denominator steps (power + 1)

/-- The neighbours of a number among the multiples of a power of ten that stand for it. -/
def neighbour? (number : Binary) (power : Int) : Option Nat :=
  let (numerator, denominator) := number.quotient
  let below := numerator * Nat.pow 10 (-power).toNat / (denominator * Nat.pow 10 power.toNat)
  let stands := fun digits => Binary.ofDecimal? digits power == some number
  let twice := 2 * (numerator * Nat.pow 10 (-power).toNat)
  let middle := (2 * below + 1) * (denominator * Nat.pow 10 power.toNat)
  match stands below, stands (below + 1) with
  | true, true =>
    if twice < middle || (twice = middle && below % 2 = 0) then some below else some (below + 1)
  | true, false => some below
  | false, true => some (below + 1)
  | false, false => none

/-- The digits of a number that is not zero, and the power of ten that they are multiplied by. -/
def shortest (number : Binary) : Nat × Int :=
  let (numerator, denominator) := number.quotient
  let guess := ((numerator.log2 : Int) - denominator.log2) * 3 / 10 - 2
  let above := powerAbove numerator denominator 60 guess
  let found := (List.range 17).findSome? fun (count : Nat) =>
    let power := above - (count + 1)
    (neighbour? number power).map fun digits => (digits, power)
  found.getD (numerator, 0)

/-- Digits without zeros at their end, and the power of ten to go with them. -/
def trimZeros : Nat → Nat → Int → Nat × Int
  | 0, digits, power => (digits, power)
  | steps + 1, digits, power =>
    if digits % 10 = 0 && digits != 0 then trimZeros steps (digits / 10) (power + 1)
    else (digits, power)

/-- Where the written point may stand: a number is written without an exponent when the number of
digits before its point is in this range. -/
def isPositional (point : Int) : Bool := -4 < point && point ≤ 16

/-- Digits written with a point after the given number of them. -/
def positional (digits : List Char) (point : Int) : String :=
  if point ≤ 0 then
    "0." ++ Text.repeated (-point).toNat '0' ++ String.ofList digits
  else
    let whole := digits.take point.toNat
    let rest := digits.drop point.toNat
    String.ofList whole ++ Text.repeated (point.toNat - whole.length) '0' ++ "."
      ++ (if rest.isEmpty then "0" else String.ofList rest)

/-- Digits written with an exponent that always has a sign. -/
def scientific (digits : List Char) (point : Int) : String :=
  let rest := digits.drop 1
  let exponent := point - 1
  String.ofList (digits.take 1) ++ (if rest.isEmpty then "" else "." ++ String.ofList rest) ++ "e"
    ++ (if exponent < 0 then "-" else "+") ++ toString exponent.natAbs

/-- The shortest text of a binary number. -/
def Binary.text (number : Binary) : String :=
  if number.mantissa = 0 then "0.0"
  else
    let (digits, power) := shortest number
    let (digits, power) := trimZeros 40 digits power
    let digits := (toString digits).toList
    let point := power + digits.length
    if isPositional point then positional digits point else scientific digits point

end Decimal

/-!
## Numbers in TOML documents

Integers in four bases and numbers with a fraction or an exponent. Digits of all scripts count.
-/

namespace Toml

/-- The text with each digit of another script replaced by the usual one of its value. -/
def usualDigits (text : List Char) : List Char :=
  text.map fun c =>
    match Text.digitValue? c with
    | some value => Char.ofNat ('0'.toNat + value)
    | none => c

/-- The number that a text without a sign stands for, with the base that its start names. A number
without a base has no zeros before its first other digit. -/
def natural? (text : List Char) : Option Nat :=
  match usualDigits text with
  | '0' :: c :: rest =>
    match c.toLower with
    | 'x' => Text.digits? 16 rest
    | 'o' => Text.digits? 8 rest
    | 'b' => Text.digits? 2 rest
    | _ => (Text.digits? 10 text).filter fun value => value = 0 && text.length ≤ Text.digitLimit
  | _ => (Text.digits? 10 text).filter fun _ => text.length ≤ Text.digitLimit

/-- The integer that a text stands for. -/
def integer? (text : List Char) : Option Int :=
  let (negative, rest) := Text.splitSign (Text.trimChars Text.isMargin text)
  (natural? rest).map fun value => if negative then -(value : Int) else value

/-- A number with a fraction or an exponent. -/
inductive Real where
  | finite (number : Decimal.Binary)
  | infinite
  | undefined
deriving Repr, DecidableEq

/-- The text of a number, given whether it is negative. -/
def Real.text (negative : Bool) : Real → String
  | .finite number => (if negative then "-" else "") ++ number.text
  | .infinite => if negative then "-inf" else "inf"
  | .undefined => "nan"

/-- The power of ten that an exponent stands for. -/
def exponent? (text : List Char) : Option Int := do
  let (negative, digits) := Text.splitSign text
  let value ← Text.digits? 10 digits
  return if negative then -(value : Int) else value

/-- The number that a text without a sign stands for. -/
def unsignedReal? (text : List Char) : Option Real := do
  let low := Text.lower (String.ofList text)
  if low == "inf" || low == "infinity" then return .infinite
  if low == "nan" then return .undefined
  let isMark := fun (c : Char) => c == 'e' || c == 'E'
  let mantissa := text.takeWhile fun c => !isMark c
  let power ←
    match text.dropWhile fun c => !isMark c with
    | [] => pure 0
    | _ :: written => exponent? written
  let (whole, places) := (Text.cutFirst? '.' mantissa).getD (mantissa, [])
  let digits ← Text.digits? 10 (whole ++ places)
  return ((Decimal.Binary.ofDecimal? digits (power - places.length)).map Real.finite).getD .infinite

/-- Whether a number is negative and what it is without its sign. -/
def real? (text : List Char) : Option (Bool × Real) := do
  let (negative, rest) := Text.splitSign (← Text.withoutGaps? (Text.trimChars Text.isMargin text))
  return (negative, ← unsignedReal? rest)

/-- Whether low lines and zeros in a number stand where they may. -/
def isStrict (text : List Char) : Bool :=
  let text := Text.trimChars Text.isBlank text
  match text with
  | [] => false
  | first :: rest =>
    if first == '_' || text.getLast? == some '_' then false
    else if Text.containsChars ['_', '.'] text || Text.containsChars ['.', '_'] text then false
    else
      match rest with
      | [] => true
      | second :: more =>
        if first == '0' && !(['.', 'o', 'b', 'x'].contains second) then false
        else if first == '+' || first == '-' then
          if second == '0' && !more.isEmpty && more.head? != some '.' then false
          else !Text.containsChars ['_', '_'] rest
        else !Text.containsChars ['_', '_'] text

/-!
## Moments in TOML documents

Dates, times of day, and dates with times, possibly with an offset. Each is kept as its standard
text; the characters between the numbers are not looked at when a moment is read.
-/

/-- A number with zeros before it up to a width. -/
def padded (width number : Nat) : String :=
  let digits := toString number
  Text.repeated (width - digits.length) '0' ++ digits

/-- The text of a date, if there is such a day. -/
def dateText? (year month day : Int) : Option String :=
  if Calendar.isDay year month day then
    some (padded 4 year.toNat ++ "-" ++ padded 2 month.toNat ++ "-" ++ padded 2 day.toNat)
  else none

/-- The text of a time of day, if there is such a time. -/
def timeText? (hour minute second micro : Int) : Option String :=
  if Calendar.isTime hour minute second && 0 ≤ micro && micro < 1000000 then
    some (padded 2 hour.toNat ++ ":" ++ padded 2 minute.toNat ++ ":" ++ padded 2 second.toNat
      ++ (if micro = 0 then "" else "." ++ padded 6 micro.toNat))
  else none

/-- The time of day at the start of a text: two digits each for hours, minutes and seconds, and
possibly three to six digits after a point. -/
def leadingTime? : List Char → Option (Int × Int × Int × Int)
  | h :: i :: ':' :: m :: n :: ':' :: s :: t :: rest => do
    let two := fun (a b : Char) =>
      if a.isDigit && b.isDigit then Text.digits? 10 [a, b] else none
    let micro :=
      match rest with
      | '.' :: places =>
        let digits := (places.takeWhile Char.isDigit).take 6
        if digits.length < 3 then 0 else (Text.digits? 10 digits).getD 0
      | _ => 0
    return (← two h i, ← two m n, ← two s t, micro)
  | _ => none

/-- The minutes of a day. -/
def dayMinutes : Nat := 24 * 60

/-- The text of an offset of less than a day, given in minutes. -/
def offsetText? (minutes : Int) : Option String :=
  if minutes = 0 then some "Z"
  else if dayMinutes ≤ minutes.natAbs then none
  else
    some ((if minutes < 0 then "-" else "+") ++ padded 2 (minutes.natAbs / 60) ++ ":"
      ++ padded 2 (minutes.natAbs % 60))

/-- The minutes of the offset that a text stands for. -/
def offset? (text : List Char) : Option Int :=
  if text == ['Z'] then some 0
  else do
    let hours ← Text.integer? ((text.drop 1).take 2)
    let minutes ← Text.integer? ((text.drop 4).take 2)
    let total := hours * 60 + minutes
    return if text.head? == some '-' then -total else total

/-- The whole part of a number. -/
def wholePart (number : Decimal.Binary) : Nat :=
  number.mantissa * Nat.pow 2 number.exponent.toNat / Nat.pow 2 (-number.exponent).toNat

/-- The product of two numbers, rounded; the second one is at most one. -/
def scaledBy (number scale : Decimal.Binary) : Decimal.Binary :=
  let (a, b) := number.quotient
  let (c, d) := scale.quotient
  (Decimal.Binary.ofQuotient? (a * c) (b * d)).getD number

/-- The millionths that digits after a point stand for. More than six digits are scaled by a rounded
power of ten, and the rounded product loses its fraction. -/
def scaledMicros (digits : Nat) (excess : Nat) : Except Fault Nat :=
  match Decimal.Binary.ofQuotient? digits 1, Decimal.Binary.ofDecimal? 1 (-excess) with
  | some value, some scale => .ok (wholePart (scaledBy value scale))
  | _, _ => .error .tooLarge

/-- The millionths that the text after a point stands for. What is no number stands for none. -/
def micros? (places : List Char) : Except Fault (Option Int) :=
  match Text.integer? places with
  | none => .ok none
  | some value =>
    if places.length ≤ 6 then .ok (some (value * Nat.pow 10 (6 - places.length)))
    else do
      let size ← scaledMicros value.natAbs (places.length - 6)
      return some (if value < 0 then -(size : Int) else size)

/-- The digits after the point, and the offset after them. -/
def splitOffset (text : List Char) : List Char × List Char :=
  if text.getLast?.map Char.toUpper == some 'Z' then (text.dropLast, ['Z'])
  else
    let mark := if text.contains '+' then '+' else '-'
    (text.takeWhile (· != mark), text.dropWhile (· != mark))

/-- The millionths and the offset after the seconds of a date with a time. What cannot be read does
not count. -/
def fraction (text : List Char) : Except Fault (Int × Option Int) :=
  match text with
  | [] => .ok (0, none)
  | '.' :: rest => do
    let (places, offset) := splitOffset rest
    if offset.isEmpty then return ((← micros? places).getD 0, none)
    else
      match offset? offset with
      | none => return (0, none)
      | some minutes =>
        match ← micros? places with
        | some micro => return (micro, some minutes)
        | none => return (0, none)
  | offset => .ok (0, offset? offset)

/-- The date, possibly with a time, that a text stands for, given what comes after the seconds. -/
def momentOf? (text : List Char) (micro : Int) (offset : Option Int) : Option Toml := do
  if !text.tail.contains '-' then failure
  let number := fun (start stop : Nat) => Text.integer? ((text.drop start).take (stop - start))
  let date ← dateText? (← number 0 4) (← number 5 7) (← number 8 10)
  if text.length = 10 then return .date date
  else
    let time ← timeText? (← number 11 13) (← number 14 16) (← number 17 19) micro
    let zone := (offset.map offsetText?).getD (some "")
    return .date (zone.map fun zone => date ++ "T" ++ time ++ zone)

/-- The date, possibly with a time, that a text stands for. -/
def dateOf? (text : List Char) : Except Fault (Option Toml) := do
  let (micro, offset) ← fraction (text.drop 19)
  return momentOf? text micro offset

/-- The text of the time of day that a text starts with, if it starts with one. -/
def timeOf? (text : List Char) : Option (Option String) :=
  (leadingTime? text).map fun (hour, minute, second, micro) => timeText? hour minute second micro

/-!
## Quoted strings in TOML documents

Strings in single quotes hold what is written; in those in double quotes a backslash starts an
escape. Three quotes at either end do the work of one.
-/

/-- The characters that escapes of two characters stand for. -/
def escapes : List (Char × Char) :=
  [('0', Char.ofNat 0), ('b', Char.ofNat 8), ('f', Char.ofNat 12), ('n', '\n'), ('r', '\r'),
    ('t', '\t'), ('"', '"')]

/-- Whether a text ends with an odd number of backslashes. -/
def endsOpen (text : List Char) : Bool := (text.reverse.takeWhile (· == '\\')).length % 2 = 1

/-- Checks the pieces between the quotes of a string: nothing may follow after the quotes that close
it. Counts the empty pieces of a string with three quotes. -/
def checkClosed (triple : Bool) : Nat → Bool → List (List Char) → Except Fault Unit
  | _, _, [] => .ok ()
  | count, closed, piece :: rest =>
    if piece.isEmpty then
      if triple then checkClosed triple (count + 1) closed rest
      else checkClosed triple count true rest
    else if endsOpen piece then checkClosed triple count closed rest
    else if closed then .error .malformed
    else if !triple || 1 < count then checkClosed triple count true rest
    else checkClosed triple 0 closed rest

/-- Checks the pieces after backslashes: each has to start with the letter of an escape. -/
def checkEscapes : Bool → List (List Char) → Except Fault Unit
  | _, [] => .ok ()
  | paired, [] :: rest => checkEscapes (!paired) rest
  | paired, (c :: _) :: rest =>
    if paired || c == 'u' || c == 'U' || (escapes.lookup c).isSome then checkEscapes false rest
    else .error .malformed

/-- The largest number that is looked up as a character. -/
def greatestCode : Nat := 0x7FFFFFFF

/-- The character with a number. -/
def charOf (number : Nat) : Except Fault Char :=
  if greatestCode < number then .error .tooLarge
  else if 0x10FFFF < number then .error .malformed
  else .ok (Text.ofCode number)

/-- The character that a numbered escape stands for. Digits that start like half of a pair stand
for none. -/
def numbered (digits : List Char) : Except Fault Char :=
  match Text.hexValue? digits, digits with
  | none, _ => .error .malformed
  | some _, [] => .error .cutShort
  | some number, first :: rest =>
    if Text.hexDigit? first = some 0xD then
      match rest with
      | [] => .error .cutShort
      | second :: _ =>
        if (Text.hexDigit? second).any (8 ≤ ·) then .error .malformed else charOf number
    else charOf number

/-- The text before some pieces with the numbered escapes at their starts decoded. An escape after
an odd number of backslashes stays. -/
def decodePieces (marker : List Char) (width : Nat) :
    List Char → Bool → List (List Char) → Except Fault (List Char)
  | text, _, [] => .ok text
  | text, true, piece :: rest =>
    decodePieces marker width (text ++ marker ++ piece) (endsOpen piece) rest
  | text, false, piece :: rest => do
    let digits := piece.take width
    let c ← numbered digits
    decodePieces marker width (text ++ c :: piece.drop digits.length) false rest

/-- The text with numbered escapes decoded. -/
def decodeNumbered (marker : List Char) (width : Nat) (text : List Char) :
    Except Fault (List Char) :=
  match Text.pieces marker text with
  | first :: second :: rest => decodePieces marker width first (endsOpen first) (second :: rest)
  | _ => .ok text

/-- The text with escapes of two characters decoded. -/
def unescape : List Char → Except Fault (List Char)
  | [] => .ok []
  | '\\' :: c :: rest => do
    let more ← unescape rest
    if c == '\\' then return '\\' :: more
    else if c == 'u' || c == 'U' then return '\\' :: c :: more
    else
      match escapes.lookup c with
      | some decoded => return decoded :: more
      | none => throw .malformed
  | c :: rest => do return c :: (← unescape rest)

/-- The text of a double-quoted string with all escapes decoded. -/
def decodeEscapes (text : List Char) : Except Fault (List Char) := do
  checkEscapes false (Text.splitChars '\\' text).tail
  unescape (← decodeNumbered ['\\', 'U'] 8 (← decodeNumbered ['\\', 'u'] 4 text))

/-- The content of a string that starts with a quote. -/
def unquote (quote : Char) (text : List Char) : Except Fault String := do
  let pieces := Text.splitChars quote text.tail
  match pieces with
  | [] :: [] :: rest => checkClosed true 0 false rest
  | _ => checkClosed false 0 false pieces
  let text ← if quote == '"' then decodeEscapes text else .ok text
  let isTriple := text[1]? == some quote && (text.length < 3 || text[2]? == some quote)
  let text := if isTriple then Text.cut 2 2 text else text
  return String.ofList (Text.cut 1 1 text)

end Toml

end ModuleAtlas
