import ModuleAtlas.Calendar
import ModuleAtlas.Json.Parser
import ModuleAtlas.Yaml.Cursor

/-!
# Numbers and dates of a document

Which texts write a number or a date. The values themselves are of no use to this library, but a
text that writes none is a fault.
-/

namespace ModuleAtlas.Yaml.Number

/-- The text after a sign. -/
def afterSign : List Char → List Char
  | '+' :: rest | '-' :: rest => rest
  | rest => rest

/-- Whether a character is a digit in a base. -/
def isDigitIn (base : Nat) (c : Char) : Bool :=
  match Text.digitValue? c with
  | some value => value < base
  | none => base = 16 && 'a' ≤ c.toLower && c.toLower ≤ 'f'

/-- The letter that may stand after a zero at the start of a number in a base. -/
def baseLetter? : Nat → Option Char
  | 2 => some 'b'
  | 8 => some 'o'
  | 16 => some 'x'
  | _ => none

/-- The text after the mark of a base. -/
def afterBase (base : Nat) (text : List Char) : List Char :=
  match text with
  | '0' :: c :: rest => if baseLetter? base = some c.toLower then rest else text
  | _ => text

/-- The most digits that a decimal number may have. -/
def digitLimit : Nat := 4300

/-- Whether a text writes a whole number in a base. -/
def isWhole (base : Nat) (text : List Char) : Bool :=
  let digits := afterBase base (afterSign (Text.trimChars Text.isMargin text))
  !digits.isEmpty && digits.all (isDigitIn base) && (base ≠ 10 || digits.length ≤ digitLimit)

/-- Whether a text writes an exponent. -/
def isExponent (text : List Char) : Bool :=
  let digits := afterSign text
  !digits.isEmpty && digits.all Text.isDigit

/-- Whether a text writes a number with a fraction or an exponent. -/
def isReal (text : List Char) : Bool :=
  let text := afterSign (Text.trimChars Text.isMargin text)
  if ["inf", "infinity", "nan"].contains (Text.lower (String.ofList text)) then true
  else
    let isMark := fun (c : Char) => c == 'e' || c == 'E'
    let mantissa := text.takeWhile fun c => !isMark c
    let (whole, places) := (Text.cutFirst? '.' mantissa).getD (mantissa, [])
    let digits := whole ++ places
    !digits.isEmpty && digits.all Text.isDigit
      && match text.dropWhile fun c => !isMark c with
        | [] => true
        | _ :: written => isExponent written

/-- The outcome of a test of a number. -/
def demand (holds : Bool) : Except Fault Unit := if holds then .ok () else .error .noSuchValue

/-- A text without low lines. -/
def withoutGaps (text : List Char) : List Char := text.filter (· != '_')

/-- Checks a whole number: in base two, eight, ten or sixteen, or in base sixty with colons. -/
def checkInteger (text : List Char) : Except Fault Unit :=
  let text := withoutGaps text
  let digits := afterSign text
  if text.isEmpty then .error .emptyNumber
  else if digits = ['0'] then .ok ()
  else
    match digits with
    | [] => .error .emptyNumber
    | '0' :: 'b' :: rest => demand (isWhole 2 rest)
    | '0' :: 'x' :: rest => demand (isWhole 16 rest)
    | '0' :: _ => demand (isWhole 8 digits)
    | digits => demand ((Text.splitChars ':' digits).all (isWhole 10))

/-- Checks a number with a fraction, which may be written in base sixty with colons. -/
def checkDecimal (text : List Char) : Except Fault Unit :=
  let text := withoutGaps text
  let digits := afterSign text
  if text.isEmpty then .error .emptyNumber
  else if [".inf", ".nan"].contains (Text.lower (String.ofList digits)) then .ok ()
  else demand ((Text.splitChars ':' digits).all isReal)

/-! ## Dates -/

/-- The number that digits write, and the text after them: at least and at most so many. -/
def takeDigits? (least most : Nat) (text : List Char) : Option (Nat × List Char) :=
  let digits := (text.takeWhile Char.isDigit).take most
  if digits.length < least then none
  else some (Text.natOf digits, text.drop digits.length)

/-- The text after a character. -/
def after? (c : Char) : List Char → Option (List Char)
  | d :: rest => if d = c then some rest else none
  | [] => none

/-- The numbers of a day: year, month and day of the month. -/
def takeDay? (text : List Char) : Option ((Nat × Nat × Nat) × List Char) := do
  let (year, rest) ← takeDigits? 4 4 text
  let (month, rest) ← takeDigits? 1 2 (← after? '-' rest)
  let (day, rest) ← takeDigits? 1 2 (← after? '-' rest)
  return ((year, month, day), rest)

/-- The numbers of a time of day: hour, minute and second. -/
def takeTime? (text : List Char) : Option ((Nat × Nat × Nat) × List Char) := do
  let (hour, rest) ← takeDigits? 1 2 text
  let (minute, rest) ← takeDigits? 2 2 (← after? ':' rest)
  let (second, rest) ← takeDigits? 2 2 (← after? ':' rest)
  return ((hour, minute, second), rest)

/-- The text after the space between a day and a time of day. -/
def afterDay? (text : List Char) : Option (List Char) :=
  match text with
  | 'T' :: rest | 't' :: rest => some rest
  | ' ' :: _ | '\t' :: _ => some (text.dropWhile fun c => c == ' ' || c == '\t')
  | _ => none

/-- The text after the parts of a second. -/
def afterParts : List Char → List Char
  | '.' :: rest => rest.dropWhile Char.isDigit
  | rest => rest

/-- The minutes of the offset that a text writes. -/
def offset? (text : List Char) : Option Nat :=
  match text.dropWhile fun c => c == ' ' || c == '\t' with
  | ['Z'] => some 0
  | '+' :: rest | '-' :: rest => do
    let (hours, rest) ← takeDigits? 1 2 rest
    match rest with
    | [] => return hours * 60
    | _ => do
      let (minutes, rest) ← takeDigits? 2 2 (← after? ':' rest)
      if rest.isEmpty then return hours * 60 + minutes else failure
  | _ => none

/-- Whether the date that a text writes exists, if it writes one. -/
def date? (text : List Char) : Option Bool := do
  let text := if text.getLast? = some '\n' then text.dropLast else text
  let ((year, month, day), rest) ← takeDay? text
  let isDay := Calendar.isDay year month day
  if rest.isEmpty then return isDay
  else
    let ((hour, minute, second), rest) ← takeTime? (← afterDay? rest)
    let rest := afterParts rest
    let minutes ← if rest.isEmpty then pure 0 else offset? rest
    return isDay && Calendar.isTime hour minute second && Calendar.isOffset minutes

/-- Checks a date. -/
def checkDate (text : List Char) : Except Fault Unit :=
  match date? text with
  | some found => demand found
  | none => .error .noDate

end ModuleAtlas.Yaml.Number
