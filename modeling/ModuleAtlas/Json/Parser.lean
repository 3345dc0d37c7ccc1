import ModuleAtlas.Json.Value
import ModuleAtlas.Text.Utf8
import ModuleAtlas.Text.Integer

/-!
# Reading JSON

A strict reader. The names of the three non-finite numbers are accepted where a number may stand,
control characters inside strings are not, and of equal keys in one object the last one gives the
value and the first one the place. A byte order mark is no white space. Whole numbers have a
greatest number of digits, and only so many arrays and objects may stand inside each other.
-/

namespace ModuleAtlas.Json

/-- Why a text is no JSON document that can be read. -/
inductive Fault where
  | malformed
  | longNumber
  /-- There is no room for one more object or array inside the others. -/
  | tooDeep (isObject : Bool)
deriving Repr, DecidableEq

/-- The greatest number of digits in a whole number. -/
def digitLimit : Nat := 4300

/-- The greatest number of arrays and objects inside each other. Each of them takes one of the
thousand calls that may be open at a time, and this is what other calls leave of them; the exact
number matters nowhere. -/
def nestingLimit : Nat := 960

namespace Parser

/-- White space between tokens. -/
def isSpace (c : Char) : Bool := c == ' ' || c == '\t' || c == '\n' || c == '\r'

/-- The text from the next token on. -/
def skip (text : List Char) : List Char := text.dropWhile isSpace

/-- The character that a letter after a backslash stands for. -/
def escaped? : Char → Option Char
  | '"' => some '"'
  | '\\' => some '\\'
  | '/' => some '/'
  | 'b' => some '\x08'
  | 'f' => some '\x0c'
  | 'n' => some '\n'
  | 'r' => some '\r'
  | 't' => some '\t'
  | _ => none

/-- Reads the characters of a string up to its closing quote. -/
def stringChars : List Char → List Char → Option (List Char × List Char)
  | _, [] => none
  | found, '"' :: rest => some (found.reverse, rest)
  | found, '\\' :: 'u' :: a :: b :: c :: d :: '\\' :: 'u' :: e :: f :: g :: h :: rest => do
    let first ← Text.hexValue? [a, b, c, d]
    if Text.isHighHalf first then
      match Text.hexValue? [e, f, g, h] with
      | none => none
      | some second =>
        if Text.isLowHalf second then
          let code := 0x10000 + (first - 0xD800) * 0x400 + (second - 0xDC00)
          stringChars (Char.ofNat code :: found) rest
        else stringChars (Text.ofCode first :: found) ('\\' :: 'u' :: e :: f :: g :: h :: rest)
    else stringChars (Text.ofCode first :: found) ('\\' :: 'u' :: e :: f :: g :: h :: rest)
  | found, '\\' :: 'u' :: a :: b :: c :: d :: rest => do
    let unit ← Text.hexValue? [a, b, c, d]
    stringChars (Text.ofCode unit :: found) rest
  | found, '\\' :: c :: rest => do
    let character ← escaped? c
    stringChars (character :: found) rest
  | found, c :: rest => if c.toNat < 0x20 then none else stringChars (c :: found) rest
termination_by _ text => text.length

/-- Reads the digits after a point, with the point, if there are any. -/
def fraction : List Char → List Char × List Char
  | '.' :: rest =>
    let digits := rest.takeWhile Char.isDigit
    if digits.isEmpty then ([], '.' :: rest) else ('.' :: digits, rest.dropWhile Char.isDigit)
  | rest => ([], rest)

/-- Reads an exponent, if there is one. -/
def exponent (text : List Char) : List Char × List Char :=
  match text with
  | e :: rest =>
    if e = 'e' ∨ e = 'E' then
      let (sign, rest) :=
        match rest with
        | '+' :: rest => (['+'], rest)
        | '-' :: rest => (['-'], rest)
        | rest => ([], rest)
      let digits := rest.takeWhile Char.isDigit
      if digits.isEmpty then ([], text) else (e :: sign ++ digits, rest.dropWhile Char.isDigit)
    else ([], text)
  | [] => ([], [])

/-- Reads a number without its sign. -/
def number (negative : Bool) (text : List Char) : Except Fault (Json × List Char) :=
  let digits := text.takeWhile Char.isDigit
  let (whole, rest) :=
    match digits with
    | '0' :: _ => (['0'], text.drop 1)
    | digits => (digits, text.dropWhile Char.isDigit)
  if whole.isEmpty then .error .malformed
  else
    let (places, rest) := fraction rest
    let (power, rest) := exponent rest
    if places.isEmpty && power.isEmpty then
      if digitLimit < whole.length then .error .longNumber
      else
        let value : Int := Text.natOf whole
        .ok (.int (if negative then -value else value), rest)
    else
      let sign := if negative then ['-'] else []
      .ok (.decimal (String.ofList (sign ++ whole ++ places ++ power)), rest)

/-- The words that are values. -/
def words : List (String × Json) :=
  [("null", .null), ("true", .bool true), ("false", .bool false), ("NaN", .decimal "NaN"),
    ("Infinity", .decimal "Infinity"), ("-Infinity", .decimal "-Infinity")]

/-- Reads one of the words that are values. -/
def word? (text : List Char) : Option (Json × List Char) :=
  words.findSome? fun (word, value) =>
    if word.toList.isPrefixOf text then some (value, text.drop word.toList.length) else none

/-- Reads a string after its opening quote. -/
def quoted (text : List Char) : Except Fault (String × List Char) :=
  match stringChars [] text with
  | some (chars, rest) => .ok (String.ofList chars, rest)
  | none => .error .malformed

/-- Goes on inside an array or an object, if there is room for it. -/
def enter (isObject : Bool) (room : Nat) (inside : Nat → Except Fault α) : Except Fault α :=
  match room with
  | 0 => .error (.tooDeep isObject)
  | room + 1 => inside room

mutual

/-- Reads a value at the start of a text, with room for so many arrays and objects inside each
other. -/
def value : Nat → Nat → List Char → Except Fault (Json × List Char)
  | 0, _, _ => .error .malformed
  | fuel + 1, room, text =>
    match text with
    | '"' :: rest => do
      let (chars, rest) ← quoted rest
      return (.string chars, rest)
    | '[' :: rest =>
      enter false room fun room =>
        match skip rest with
        | ']' :: rest => .ok (.array [], rest)
        | rest => do
          let (items, rest) ← items fuel room [] rest
          return (.array items, rest)
    | '{' :: rest =>
      enter true room fun room =>
        match skip rest with
        | '}' :: rest => .ok (.object [], rest)
        | rest => do
          let (entries, rest) ← entries fuel room [] rest
          return (.object (Keyed.ofPairs entries), rest)
    | text =>
      match word? text with
      | some found => .ok found
      | none =>
        match text with
        | '-' :: rest => number true rest
        | text => number false text

/-- Reads the items of an array up to its closing bracket. -/
def items : Nat → Nat → List Json → List Char → Except Fault (List Json × List Char)
  | 0, _, _, _ => .error .malformed
  | fuel + 1, room, found, text => do
    let (item, rest) ← value fuel room text
    match skip rest with
    | ',' :: rest => items fuel room (item :: found) (skip rest)
    | ']' :: rest => return ((item :: found).reverse, rest)
    | _ => throw .malformed

/-- Reads the entries of an object up to its closing brace. -/
def entries : Nat → Nat → List (String × Json) → List Char →
    Except Fault (List (String × Json) × List Char)
  | 0, _, _, _ => .error .malformed
  | fuel + 1, room, found, text =>
    match text with
    | '"' :: rest => do
      let (key, rest) ← quoted rest
      match skip rest with
      | ':' :: rest =>
        let (value, rest) ← value fuel room (skip rest)
        let found := (key, value) :: found
        match skip rest with
        | ',' :: rest => entries fuel room found (skip rest)
        | '}' :: rest => return (found.reverse, rest)
        | _ => throw .malformed
      | _ => throw .malformed
    | _ => .error .malformed

end

end Parser

/-- The value of a JSON document. -/
def parse (text : List Char) : Except Fault Json := do
  let (value, rest) ← Parser.value (2 * text.length + 2) nestingLimit (Parser.skip text)
  if (Parser.skip rest).isEmpty then return value else throw .malformed

/-- The value of a JSON document, or `none` when the text is none. -/
def parse? (text : List Char) : Option Json := (parse text).toOption

end ModuleAtlas.Json
