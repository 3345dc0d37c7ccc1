import ModuleAtlas.Regex.Parser

/-!
# Characters and places in YAML texts

Which texts are plain scalars, and a place in a text that is being read.
-/

namespace ModuleAtlas.Yaml

/-!
## Plain scalars

What an unquoted scalar means: a truth value, a number, nothing, a date, a merge key or, failing all
of these, a text.
-/

/-- The meaning of an unquoted scalar. -/
inductive Meaning where
  | nothing
  | truth
  | integer
  | decimal
  | date
  | merge
  | default
  | indicator
  | text
deriving Repr, DecidableEq

/-- Truth values. -/
def truthPattern : Regex.Pattern := Regex.Pattern.ofText
  "^(?:yes|Yes|YES|no|No|NO|true|True|TRUE|false|False|FALSE|on|On|ON|off|Off|OFF)$"

/-- Numbers with a fraction. -/
def decimalPattern : Regex.Pattern := Regex.Pattern.ofText <|
  "^(?:[-+]?(?:[0-9][0-9_]*)\\.[0-9_]*(?:[eE][-+][0-9]+)?|\\.[0-9][0-9_]*(?:[eE][-+][0-9]+)?"
    ++ "|[-+]?[0-9][0-9_]*(?::[0-5]?[0-9])+\\.[0-9_]*|[-+]?\\.(?:inf|Inf|INF)|\\.(?:nan|NaN|NAN))$"

/-- Whole numbers in four bases, and in base sixty. -/
def integerPattern : Regex.Pattern := Regex.Pattern.ofText <|
  "^(?:[-+]?0b[0-1_]+|[-+]?0[0-7_]+|[-+]?(?:0|[1-9][0-9_]*)|[-+]?0x[0-9a-fA-F_]+"
    ++ "|[-+]?[1-9][0-9_]*(?::[0-5]?[0-9])+)$"

/-- Nothing. A line break alone is no way to write it. -/
def nothingPattern : Regex.Pattern := Regex.Pattern.ofText "^(?!\\n)(?:~|null|Null|NULL|)$"

/-- Dates, with a time or without. -/
def datePattern : Regex.Pattern := Regex.Pattern.ofText <|
  "^(?:[0-9][0-9][0-9][0-9]-[0-9][0-9]-[0-9][0-9]|[0-9][0-9][0-9][0-9]-[0-9][0-9]?-[0-9][0-9]?"
    ++ "(?:[Tt]|[ \\t]+)[0-9][0-9]?:[0-9][0-9]:[0-9][0-9](?:\\.[0-9]*)?"
    ++ "(?:[ \\t]*(?:Z|[-+][0-9][0-9]?(?::[0-9][0-9])?))?)$"

/-- The key under which mappings are merged. -/
def mergePattern : Regex.Pattern := Regex.Pattern.ofText "^(?:<<)$"

/-- The key of the value that stands for a whole mapping. -/
def defaultPattern : Regex.Pattern := Regex.Pattern.ofText "^(?:=)$"

/-- Lone indicators. -/
def indicatorPattern : Regex.Pattern := Regex.Pattern.ofText "^(?:!|&|\\*)$"

/-- The meaning of an unquoted scalar. -/
def meaning (text : String) : Meaning :=
  if truthPattern.startsText text then .truth
  else if decimalPattern.startsText text then .decimal
  else if integerPattern.startsText text then .integer
  else if nothingPattern.startsText text then .nothing
  else if datePattern.startsText text then .date
  else if mergePattern.startsText text then .merge
  else if defaultPattern.startsText text then .default
  else if indicatorPattern.startsText text then .indicator
  else .text

/-- A line break inside a scalar. -/
def isBreak (c : Char) : Bool :=
  c == '\n' || c.toNat == 0x85 || c.toNat == 0x2028 || c.toNat == 0x2029

/-- The end of a word in a scalar: a blank, a break or the null character. -/
def isSeparator (c : Char) : Bool :=
  c.toNat == 0 || c == ' ' || c == '\t' || c == '\r' || isBreak c

/-!
## Places in a document

What is left of a document from a place on, with the line and the column of the place. The null
character stands for the end: no document holds one. A byte order mark takes no column.
-/

/-- Why a text cannot be read as a document. -/
inductive Fault where
  /-- The text is no document. -/
  | malformed
  /-- There is no such number, date or character. -/
  | noSuchValue
  /-- The code of a character is larger than any machine word. -/
  | codeTooLarge
  /-- A number has no digits at all. -/
  | emptyNumber
  /-- A truth value is none of the known words. -/
  | noTruthValue
  /-- A date has not the form of one. -/
  | noDate
  /-- A date is a mapping. -/
  | dateNotScalar
  /-- There is no room for one more collection inside the others. -/
  | tooDeep
deriving Repr, DecidableEq

/-- A place in a document. -/
structure Cursor where
  rest : List Char
  index : Nat
  line : Nat
  column : Nat
deriving Repr, Inhabited

namespace Cursor

/-- The character that stands for the end of a document. -/
def endMark : Char := '\x00'

/-- The byte order mark. -/
def orderMark : Char := '\uFEFF'

/-- The start of a document. -/
def start (text : List Char) : Cursor := ⟨text, 0, 0, 0⟩

/-- The character at a place. -/
def peek (cursor : Cursor) : Char := cursor.rest.headD endMark

/-- The character a number of places further on. -/
def peekAt (cursor : Cursor) (offset : Nat) : Char := cursor.rest.getD offset endMark

/-- Whether nothing is left. -/
def atEnd (cursor : Cursor) : Bool := cursor.rest.isEmpty

/-- The next place. -/
def step (cursor : Cursor) : Cursor :=
  match cursor.rest with
  | [] => cursor
  | c :: rest =>
    if isBreak c then ⟨rest, cursor.index + 1, cursor.line + 1, 0⟩
    else if c = orderMark then ⟨rest, cursor.index + 1, cursor.line, cursor.column⟩
    else ⟨rest, cursor.index + 1, cursor.line, cursor.column + 1⟩

/-- The place after a number of characters. -/
def forward (cursor : Cursor) (count : Nat) : Cursor := count.repeat step cursor

/-- The characters from a place on that pass a test, and the place after them. -/
def takeWhile (cursor : Cursor) (test : Char → Bool) : List Char × Cursor :=
  let found := cursor.rest.takeWhile test
  (found, cursor.forward found.length)

/-- The place after the characters that pass a test. -/
def skipWhile (cursor : Cursor) (test : Char → Bool) : Cursor := (cursor.takeWhile test).2

/-- The place after the blanks. -/
def skipBlanks (cursor : Cursor) : Cursor := cursor.skipWhile (· == ' ')

/-- The place after a byte order mark. -/
def skipOrderMark (cursor : Cursor) : Cursor :=
  if cursor.peek = orderMark then cursor.step else cursor

/-- The place at the end of the line. -/
def skipLine (cursor : Cursor) : Cursor := cursor.skipWhile fun c => !isBreak c

/-- The place after a comment, if one starts here. -/
def skipComment (cursor : Cursor) : Cursor := if cursor.peek = '#' then cursor.skipLine else cursor

/-- Whether the line or the document ends here. -/
def atLineEnd (cursor : Cursor) : Bool := cursor.atEnd || isBreak cursor.peek

/-- Whether a word ends here. -/
def atWordEnd (cursor : Cursor) : Bool := cursor.atEnd || isSeparator cursor.peek

/-- Whether a word with the character at this place ends after that one. -/
def standsAlone (cursor : Cursor) : Bool := isSeparator (cursor.peekAt 1)

/-- The line break at a place, which counts as the usual one unless it is a separator of lines or of
paragraphs, and the place after it. -/
def lineBreak (cursor : Cursor) : List Char × Cursor :=
  if cursor.atEnd then ([], cursor)
  else if cursor.peek = '\n' || cursor.peek.toNat = 0x85 then (['\n'], cursor.step)
  else if isBreak cursor.peek then ([cursor.peek], cursor.step)
  else ([], cursor)

/-- Whether a word of three characters stands here alone. -/
def atWord (cursor : Cursor) (word : List Char) : Bool :=
  word.isPrefixOf cursor.rest && isSeparator (cursor.peekAt word.length)

/-- Whether the mark at the start of a document stands here. -/
def atStartMark (cursor : Cursor) : Bool := cursor.atWord ['-', '-', '-']

/-- Whether the mark at the end of a document stands here. -/
def atEndMark (cursor : Cursor) : Bool := cursor.atWord ['.', '.', '.']

/-- Whether a mark at the start or the end of a document stands here. -/
def atMark (cursor : Cursor) : Bool := cursor.atStartMark || cursor.atEndMark

end Cursor

/-- The characters that a document may hold. -/
def isAdmitted (c : Char) : Bool :=
  let n := c.toNat
  n == 9 || n == 10 || n == 13 || (0x20 ≤ n && n ≤ 0x7E) || n == 0x85 || (0xA0 ≤ n && n ≤ 0xD7FF)
    || (0xE000 ≤ n && n ≤ 0xFFFD) || 0x10000 ≤ n

end ModuleAtlas.Yaml
