import ModuleAtlas.Yaml.Cursor
import ModuleAtlas.Json.Printer

/-!
# Writing YAML

Values in block style: one item or entry to a line, lists flush with the key that holds them. A text
is written plainly where that reads back as the same text, in single quotes where these suffice, and
otherwise in double quotes. Lines are folded at blanks beyond column eighty.
-/

namespace ModuleAtlas.Yaml

/-- How a text is written. -/
inductive Style where
  | plain
  | singleQuoted
  | doubleQuoted
deriving Repr, DecidableEq

/-- A character that is written as it is, in any style. Half of a pair is none. -/
def isPrintable (c : Char) : Bool :=
  let n := Text.codeOf c
  c == '\n' || (0x20 ≤ n && n ≤ 0x7E)
    || ((n == 0x85 || (0xA0 ≤ n && n ≤ 0xD7FF) || (0xE000 ≤ n && n ≤ 0xFFFD)
      || (0x10000 ≤ n && n < 0x10FFFF)) && n != 0xFEFF)

/-- Whether a character in the first place has a meaning of its own. -/
def isLeadingIndicator (c : Char) (atWordEnd : Bool) : Bool :=
  "#,[]\x7b\x7d&*!|>'\"%@\x60".toList.contains c
    || ((c == '?' || c == ':' || c == '-') && atWordEnd)

/-- Whether the text from some place on has an indicator; the character before it is given. -/
def hasInnerIndicator : Char → List Char → Bool
  | _, [] => false
  | before, c :: rest =>
    let atWordEnd :=
      match rest with
      | [] => true
      | next :: _ => isSeparator next
    (c == ':' && atWordEnd) || (c == '#' && isSeparator before) || hasInnerIndicator c rest

/-- Whether a text has a part that cannot be written plainly in a block. -/
def hasIndicator : List Char → Bool
  | [] => false
  | c :: rest =>
    let atWordEnd :=
      match rest with
      | [] => true
      | next :: _ => isSeparator next
    ['-', '-', '-'].isPrefixOf (c :: rest) || ['.', '.', '.'].isPrefixOf (c :: rest)
      || isLeadingIndicator c atWordEnd || hasInnerIndicator c rest

/-- Whether a text has a character of the first kind right before one of the second kind. -/
def hasPair (first second : Char → Bool) : List Char → Bool
  | a :: b :: rest => (first a && second b) || hasPair first second (b :: rest)
  | _ => false

/-- The style of a text, as a key of a mapping or elsewhere. -/
def styleOf (isKey : Bool) (text : String) : Style :=
  let chars := text.toList
  let isSpace := fun (c : Char) => c == ' '
  let atEdge := fun (c : Option Char) => (c.map fun c => isSpace c || isBreak c).getD false
  let breaks := chars.any isBreak
  let special := !chars.all isPrintable || hasPair isSpace isBreak chars
  let plain := !chars.isEmpty && meaning text == .text && !special && !breaks
    && !atEdge chars.head? && !atEdge chars.getLast? && !hasIndicator chars
  if plain then .plain
  else if !special && !hasPair isBreak isSpace chars && !(isKey && breaks) then .singleQuoted
  else .doubleQuoted

/-- The text written so far in reverse, the column, whether the last thing written counts as blank,
whether the line has nothing but indentation and list marks, and whether a document end has to be
written out. -/
structure Writer where
  output : List Char
  column : Nat
  blank : Bool
  indented : Bool
  openEnded : Bool

namespace Writer

/-- The writer at the start of a document. -/
def start : Writer := ⟨[], 0, true, true, false⟩

/-- The column beyond which lines are folded. -/
def width : Nat := 80

/-- Writes characters. -/
def put (writer : Writer) (text : List Char) : Writer :=
  { writer with
    output := text.reverse ++ writer.output
    column := writer.column + text.length }

/-- Ends the line with a break. -/
def lineBreak (writer : Writer) (mark : Char) : Writer :=
  { writer with output := mark :: writer.output, column := 0, blank := true, indented := true }

/-- Goes to a fresh place at an indentation. -/
def indent (writer : Writer) (indentation : Nat) : Writer :=
  let writer :=
    if !writer.indented || writer.column > indentation
        || (writer.column == indentation && !writer.blank) then
      writer.lineBreak '\n'
    else writer
  if writer.column < indentation then
    { writer.put (List.replicate (indentation - writer.column) ' ') with blank := true }
  else writer

/-- Writes a mark, after a blank if one is needed. -/
def mark (writer : Writer) (text : List Char) (needsBlank blankAfter keepsIndent : Bool) : Writer :=
  let text := if writer.blank || !needsBlank then text else ' ' :: text
  { writer.put text with
    blank := blankAfter
    indented := writer.indented && keepsIndent
    openEnded := false }

/-- Goes to the next line inside a scalar. -/
def fold (writer : Writer) (indentation : Nat) : Writer :=
  { writer.indent indentation with blank := false, indented := false }

end Writer

/-- The class of a character for folding. -/
def foldClass (c : Char) : Nat := if c == ' ' then 0 else if isBreak c then 1 else 2

/-- The runs of blanks, breaks and other characters of a text. -/
def runs (text : List Char) : List (List Char) := text.splitBy fun a b => foldClass a == foldClass b

/-- Writes the runs of a plain text. A single blank beyond the width becomes a line end. -/
def writePlainRuns (indentation : Nat) (split : Bool) (writer : Writer) (texts : List (List Char)) :
    Writer :=
  texts.foldl
    (fun writer run =>
      if run == [' '] && split && writer.column > Writer.width then writer.fold indentation
      else writer.put run)
    writer

/-- Writes the runs of a text in single quotes. -/
def writeSingleRuns (indentation : Nat) (split : Bool) : Bool → Writer → List (List Char) → Writer
  | _, writer, [] => writer
  | first, writer, run :: rest =>
    let writer :=
      match run with
      | c :: _ =>
        if c == ' ' then
          if run.length == 1 && split && !first && !rest.isEmpty
              && writer.column > Writer.width then
            writer.indent indentation
          else writer.put run
        else if isBreak c then
          let writer := if c == '\n' then writer.lineBreak '\n' else writer
          (run.foldl (fun writer mark => writer.lineBreak mark) writer).indent indentation
        else writer.put (run.flatMap fun c => if c == '\'' then ['\'', '\''] else [c])
      | [] => writer
    writeSingleRuns indentation split false writer rest

/-- A hexadecimal number in capital letters with leading zeros. -/
def hexText (digits value : Nat) : List Char :=
  let all := (Nat.toDigits 16 value).map Char.toUpper
  List.replicate (digits - all.length) '0' ++ all

/-- A character as it stands in double quotes when it cannot be written as it is. -/
def escape? (c : Char) : Option (List Char) :=
  let n := Text.codeOf c
  let short :=
    [(0, '0'), (7, 'a'), (8, 'b'), (9, 't'), (10, 'n'), (11, 'v'), (12, 'f'), (13, 'r'), (27, 'e'),
      (34, '"'), (92, '\\'), (0x85, 'N'), (0x2028, 'L'), (0x2029, 'P')]
  match short.lookup n with
  | some letter => some ['\\', letter]
  | none =>
    if (0x20 ≤ n ∧ n ≤ 0x7E) ∨ (0xA0 ≤ n ∧ n ≤ 0xFFFD ∧ n ≠ 0xFEFF ∧ !Text.isHalf n) then none
    else if n ≤ 0xFF then some ('\\' :: 'x' :: hexText 2 n)
    else if n ≤ 0xFFFF then some ('\\' :: 'u' :: hexText 4 n)
    else some ('\\' :: 'U' :: hexText 8 n)

/-- Writes a text in double quotes; `pending` holds in reverse what has not been written yet. -/
def writeDoubleFrom (indentation : Nat) (split : Bool) :
    Bool → List Char → Writer → List Char → Writer
  | _, pending, writer, [] => writer.put pending.reverse
  | first, pending, writer, c :: rest =>
    let mayFold := !first && !rest.isEmpty && split
    match escape? c with
    | some escaped =>
      let writer := (writer.put pending.reverse).put escaped
      let writer :=
        if mayFold && writer.column > Writer.width + 1 then
          let writer := (writer.put ['\\']).fold indentation
          if rest.head? == some ' ' then writer.put ['\\'] else writer
        else writer
      writeDoubleFrom indentation split false [] writer rest
    | none =>
      if mayFold && (c == ' ' || pending.isEmpty)
          && writer.column + pending.length > Writer.width then
        let writer := (writer.put (pending.reverse ++ ['\\'])).fold indentation
        let writer := if c == ' ' then writer.put ['\\'] else writer
        writeDoubleFrom indentation split false [c] writer rest
      else writeDoubleFrom indentation split false (c :: pending) writer rest

/-- Writes a text in a style. -/
def writeText (writer : Writer) (indentation : Nat) (isKey isRoot : Bool) (style : Style)
    (text : List Char) : Writer :=
  match style with
  | .plain =>
    let writer := { writer with openEnded := writer.openEnded || isRoot }
    let writer := if writer.blank then writer else writer.put [' ']
    writePlainRuns indentation (!isKey) { writer with blank := false, indented := false }
      (runs text)
  | .singleQuoted =>
    let writer := writer.mark ['\''] true false false
    (writeSingleRuns indentation (!isKey) true writer (runs text)).mark ['\''] false false false
  | .doubleQuoted =>
    let writer := writer.mark ['"'] true false false
    (writeDoubleFrom indentation (!isKey) true [] writer text).mark ['"'] false false false

/-- The longest key that stands in front of its value without a mark of its own. -/
def simpleKeyLimit : Nat := 122

/-- Whether a key stands in front of its value without a mark of its own. -/
def isSimpleKey (key : String) : Bool :=
  let chars := key.toList
  !chars.isEmpty && !chars.any isBreak && chars.length ≤ simpleKeyLimit

/-- The text of a value that is neither a text nor a collection. -/
def plainText : Json → String
  | .null => "null"
  | .bool true => "true"
  | .bool false => "false"
  | .int value => toString value
  | .decimal literal => literal
  | _ => ""

/-- The indentation inside a node. -/
def deeper (indentation : Option Nat) : Nat :=
  match indentation with
  | none => 0
  | some indentation => indentation + 2

/-- The indentation of the further lines of a scalar. -/
def scalarIndent (indentation : Option Nat) : Nat := (indentation.getD 0) + 2

mutual

/-- Writes a value inside a node with an indentation; the root of the document has none. -/
def writeValue (writer : Writer) (indentation : Option Nat) (ofKey : Bool) : Json → Writer
  | .string text =>
    writeText writer (scalarIndent indentation) false indentation.isNone (styleOf false text)
      text.toList
  | .array [] => (writer.mark ['['] true true false).mark [']'] false false false
  | .object [] => (writer.mark ['{'] true true false).mark ['}'] false false false
  | .array (item :: rest) =>
    let inner := if ofKey && !writer.indented then indentation.getD 0 else deeper indentation
    writeItems writer inner (item :: rest)
  | .object (entry :: rest) => writeEntries writer (deeper indentation) (entry :: rest)
  | other =>
    writeText writer (scalarIndent indentation) false indentation.isNone .plain
      (plainText other).toList

/-- Writes the items of a list. -/
def writeItems (writer : Writer) (indentation : Nat) : List Json → Writer
  | [] => writer
  | item :: rest =>
    let writer := (writer.indent indentation).mark ['-'] true false true
    writeItems (writeValue writer (some indentation) false item) indentation rest

/-- Writes the entries of a mapping. -/
def writeEntries (writer : Writer) (indentation : Nat) : List (String × Json) → Writer
  | [] => writer
  | (key, value) :: rest =>
    let writer := writer.indent indentation
    let writer :=
      if isSimpleKey key then
        let writer := writeText writer (indentation + 2) true false (styleOf true key) key.toList
        writer.mark [':'] false false false
      else
        let writer := writer.mark ['?'] true false true
        let style := styleOf false key
        let writer := writeText writer (indentation + 2) false false style key.toList
        (writer.indent indentation).mark [':'] true false true
    writeEntries (writeValue writer (some indentation) true value) indentation rest

end

/-- The document of a value. -/
def render (value : Json) : String :=
  let writer := (writeValue Writer.start none false value).indent 0
  let writer := if writer.openEnded then (writer.mark ['.', '.', '.'] true false false).indent 0
    else writer
  String.ofList writer.output.reverse

end ModuleAtlas.Yaml
