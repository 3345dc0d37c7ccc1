import ModuleAtlas.Yaml.Cursor

/-!
# Scalars in a document

The three ways to write a scalar: plain, in quotes, and as a block of lines.
-/

namespace ModuleAtlas

namespace Yaml.Plain

/-!
## Plain scalars over several lines

A plain scalar ends before a colon or a hash sign that starts a new word, before a line that is
indented too little, and inside brackets before the characters that have a meaning there.
-/

/-- The characters that end a plain scalar inside brackets. -/
def isFlowEnd (c : Char) : Bool := [',', '?', '[', ']', '{', '}'].contains c

/-- Whether what follows a colon makes it the end of a plain scalar. -/
def endsKey (inFlow : Bool) (rest : List Char) : Bool :=
  match rest with
  | [] => true
  | c :: _ => isSeparator c || (inFlow && [',', '[', ']', '{', '}'].contains c)

/-- The characters of one word of a plain scalar. -/
def word (inFlow : Bool) : List Char → List Char
  | [] => []
  | c :: rest =>
    if isSeparator c || (c == ':' && endsKey inFlow rest) || (inFlow && isFlowEnd c) then []
    else c :: word inFlow rest

/-- The line breaks after a line break, without the blanks around them; there are none to go on with
when a mark between documents starts a line. -/
def moreBreaks : Nat → Cursor → Option (List Char) × Cursor
  | 0, cursor => (none, cursor)
  | fuel + 1, cursor =>
    if cursor.atMark then (none, cursor)
    else
      let next := cursor.skipBlanks
      match next.lineBreak with
      | ([], _) => (some [], next)
      | (found, after) =>
        let (more, after) := moreBreaks fuel after
        (more.map (found ++ ·), after)

/-- What stands between two words of a plain scalar: the text that it counts as, if the scalar may
go on, the place after it and whether a line ended. -/
def gap (cursor : Cursor) : Option (List Char) × Cursor × Bool :=
  let (blanks, next) := cursor.takeWhile (· == ' ')
  match next.lineBreak with
  | ([], _) => (if blanks.isEmpty then none else some blanks, next, false)
  | (found, after) =>
    let (more, after) := moreBreaks (after.rest.length + 1) after
    let text := more.map fun more =>
      if found ≠ ['\n'] then found ++ more else if more.isEmpty then [' '] else more
    (text, after, true)

/-- What has been read of a plain scalar: its text, the place after it, and whether a line has ended
after the last word. -/
structure Reading where
  text : List Char
  cursor : Cursor
  crossed : Bool

/-- Reads the words of a plain scalar, given what stands before the next one. -/
def scanFrom (inFlow : Bool) (indent : Int) : Nat → Reading → List Char → Reading
  | 0, reading, _ => reading
  | fuel + 1, reading, blanks =>
    if reading.cursor.peek = '#' then reading
    else
      match word inFlow reading.cursor.rest with
      | [] => reading
      | found =>
        let text := reading.text ++ blanks ++ found
        match gap (reading.cursor.forward found.length) with
        | (none, next, crossed) => ⟨text, next, crossed⟩
        | (some blanks, next, crossed) =>
          let reading : Reading := ⟨text, next, crossed⟩
          if !inFlow && (next.column : Int) < indent then reading
          else scanFrom inFlow indent fuel reading blanks

/-- Reads a plain scalar. -/
def scan (inFlow : Bool) (indent : Int) (cursor : Cursor) : Reading :=
  scanFrom inFlow indent (cursor.rest.length + 1) ⟨[], cursor, false⟩ []

end Yaml.Plain

/-!
## Quoted scalars

Scalars in single quotes, where a quote is written twice, and in double quotes, where a backslash
starts an escape. A line break between words counts as a blank, and of several the first one is
dropped. The marks between documents may not start a line.
-/

namespace Yaml.Quoted

/-- A blank or a tab. -/
def isGap (c : Char) : Bool := c == ' ' || c == '\t'

/-- The line breaks after a line break, without the gaps around them. -/
def moreBreaks : Nat → Cursor → Except Fault (List Char × Cursor)
  | 0, _ => .error .malformed
  | fuel + 1, cursor =>
    if cursor.atMark then .error .malformed
    else do
      let next := cursor.skipWhile isGap
      match next.lineBreak with
      | ([], _) => return ([], next)
      | (found, after) =>
        let (more, after) ← moreBreaks fuel after
        return (found ++ more, after)

/-- What a line break and those after it count as. -/
def folded (found more : List Char) : List Char :=
  if found ≠ ['\n'] then found ++ more else if more.isEmpty then [' '] else more

/-- What the gap or the line breaks between two words count as. -/
def gap (cursor : Cursor) : Except Fault (List Char × Cursor) := do
  let (blanks, next) := cursor.takeWhile isGap
  if next.atEnd then throw .malformed
  else
    match next.lineBreak with
    | ([], _) => return (blanks, next)
    | (found, after) =>
      let (more, after) ← moreBreaks (after.rest.length + 1) after
      return (folded found more, after)

/-- The codes of the characters that a letter after a backslash stands for. -/
def letterCodes : List (Char × Nat) :=
  [('0', 0), ('a', 7), ('b', 8), ('t', 9), ('\t', 9), ('n', 10), ('v', 11), ('f', 12), ('r', 13),
    ('e', 27), (' ', 32), ('"', 34), ('\\', 92), ('/', 47), ('N', 0x85), ('_', 0xA0), ('L', 0x2028),
    ('P', 0x2029)]

/-- The number of hexadecimal digits after a letter. -/
def digitCount : Char → Nat
  | 'x' => 2
  | 'u' => 4
  | 'U' => 8
  | _ => 0

/-- The greatest code that a machine word holds. -/
def wordLimit : Nat := 0x7FFFFFFF

/-- The character of a code. -/
def character (code : Nat) : Except Fault Char :=
  if code ≤ 0x10FFFF then .ok (Text.ofCode code)
  else if code ≤ wordLimit then .error .noSuchValue
  else .error .codeTooLarge

/-- What an escape stands for, from the character after the backslash on. -/
def escape (cursor : Cursor) : Except Fault (List Char × Cursor) := do
  match letterCodes.lookup cursor.peek, digitCount cursor.peek with
  | some code, _ => return ([Char.ofNat code], cursor.step)
  | none, 0 =>
    match cursor.lineBreak with
    | ([], _) => throw .malformed
    | (_, after) => moreBreaks (after.rest.length + 1) after
  | none, count =>
    let digits := cursor.step.rest.take count
    match Text.hexValue? digits with
    | some code =>
      if digits.length = count then
        return ([← character code], cursor.step.forward count)
      else throw .malformed
    | none => throw .malformed

/-- Reads a quoted scalar after its opening quote, given what has been found in reverse. -/
def scanFrom (quote : Char) : Nat → List Char → Cursor → Except Fault (List Char × Cursor)
  | 0, _, _ => .error .malformed
  | fuel + 1, found, cursor =>
    let c := cursor.peek
    if cursor.atEnd then .error .malformed
    else if c = quote then
      if quote = '\'' && cursor.peekAt 1 = '\'' then
        scanFrom quote fuel ('\'' :: found) (cursor.forward 2)
      else .ok (found.reverse, cursor.step)
    else if quote = '"' && c = '\\' then do
      let (added, next) ← escape cursor.step
      scanFrom quote fuel (added.reverse ++ found) next
    else if isGap c || isBreak c then do
      let (added, next) ← gap cursor
      scanFrom quote fuel (added.reverse ++ found) next
    else scanFrom quote fuel (c :: found) cursor.step

/-- Reads a quoted scalar from its opening quote on. -/
def scan (cursor : Cursor) : Except Fault (List Char × Cursor) :=
  scanFrom cursor.peek (cursor.rest.length + 1) [] cursor.step

end Yaml.Quoted

/-!
## Block scalars

Scalars of whole lines below a header. The header may fix the indentation and tell what becomes of
the line breaks at the end. In a folded scalar a single line break between two lines that start with
a word counts as a blank.
-/

namespace Yaml.Block

/-- What becomes of the line breaks at the end of a block scalar. -/
inductive Ending where
  | strip
  | clip
  | keep
deriving Repr, DecidableEq

/-- The header of a block scalar: the indentation beyond that of its parent, if it is fixed, and
what becomes of its end. -/
structure Header where
  increment : Option Nat
  ending : Ending
deriving Repr, DecidableEq

/-- The ending that a sign stands for. -/
def endingOf? : Char → Option Ending
  | '+' => some .keep
  | '-' => some .strip
  | _ => none

/-- The indentation that a digit fixes, which is not zero, and the place after it. -/
def increment (cursor : Cursor) : Except Fault (Option Nat × Cursor) :=
  if cursor.peek = '0' then .error .malformed
  else if cursor.peek.isDigit then .ok (some (cursor.peek.toNat - '0'.toNat), cursor.step)
  else .ok (none, cursor)

/-- Reads the two parts of a header in either order. -/
def indicators (cursor : Cursor) : Except Fault (Header × Cursor) := do
  match endingOf? cursor.peek with
  | some ending =>
    let (width, next) ← increment cursor.step
    return (⟨width, ending⟩, next)
  | none =>
    let (width, next) ← increment cursor
    match width, endingOf? next.peek with
    | some _, some ending => return (⟨width, ending⟩, next.step)
    | _, _ => return (⟨width, .clip⟩, next)

/-- Reads a header up to the end of its line. -/
def header (cursor : Cursor) : Except Fault (Header × Cursor) := do
  let (found, next) ← indicators cursor
  if !(next.atLineEnd || next.peek = ' ') then throw .malformed
  let next := next.skipBlanks.skipComment
  if next.atLineEnd then return (found, next.lineBreak.2) else throw .malformed

/-- The line breaks before the first line, the greatest indentation among them, and the place after
them. -/
def leading : Nat → Nat → Cursor → List Char × Nat × Cursor
  | 0, width, cursor => ([], width, cursor)
  | fuel + 1, width, cursor =>
    let next := cursor.skipBlanks
    let width := max width next.column
    match next.lineBreak with
    | ([], _) => ([], width, next)
    | (found, after) =>
      let (more, width, after) := leading fuel width after
      (found ++ more, width, after)

/-- The place after the blanks up to an indentation. -/
def indentTo (indent : Nat) (cursor : Cursor) : Cursor :=
  let blanks := (cursor.rest.takeWhile (· == ' ')).length
  cursor.forward (min blanks (indent - cursor.column))

/-- The line breaks from a place on, and the place after the blanks of the next line up to an
indentation. -/
def breaks (indent : Nat) : Nat → Cursor → List Char × Cursor
  | 0, cursor => ([], cursor)
  | fuel + 1, cursor =>
    let next := indentTo indent cursor
    match next.lineBreak with
    | ([], _) => ([], next)
    | (found, after) =>
      let (more, after) := breaks indent fuel after
      (found ++ more, after)

/-- The text of the lines of a block scalar, the line break after the last one, and the line breaks
after that one. -/
structure Lines where
  text : List Char
  last : List Char
  trailing : List Char
  cursor : Cursor

/-- Whether the first character of a line is neither a blank nor a tab. -/
def startsWord (cursor : Cursor) : Bool := cursor.peek != ' ' && cursor.peek != '\t'

/-- What the line break between two lines counts as. -/
def between (folded startedWord : Bool) (found more : List Char) (next : Cursor) : List Char :=
  if folded && found = ['\n'] && startedWord && startsWord next then
    if more.isEmpty then [' '] else []
  else found

/-- Reads the lines with an indentation; `pending` are the line breaks before the first one. -/
def lines (folded : Bool) (indent : Nat) : Nat → List Char → List Char → Cursor → Lines
  | 0, pending, last, cursor => ⟨[], last, pending, cursor⟩
  | fuel + 1, pending, last, cursor =>
    if cursor.column ≠ indent || cursor.atEnd then ⟨[], last, pending, cursor⟩
    else
      let (line, next) := cursor.takeWhile fun c => !isBreak c
      let (found, next) := next.lineBreak
      let (more, next) := breaks indent (next.rest.length + 1) next
      let text := pending ++ line
      if next.column = indent && !next.atEnd then
        let joined := between folded (startsWord cursor) found more next
        let rest := lines folded indent fuel more found next
        { rest with text := text ++ joined ++ rest.text }
      else ⟨text, found, more, next⟩

/-- Reads a block scalar after the character that starts it, inside a block with an indentation. -/
def scan (folded : Bool) (parent : Int) (cursor : Cursor) : Except Fault (List Char × Cursor) := do
  let (header, cursor) ← header cursor
  let least := max (parent + 1) 1
  let length := cursor.rest.length + 1
  let (pending, indent, cursor) :=
    match header.increment with
    | some width =>
      let indent := (least + width - 1).toNat
      let (pending, next) := breaks indent length cursor
      (pending, indent, next)
    | none =>
      let (pending, width, next) := leading length 0 cursor
      (pending, max least.toNat width, next)
  let found := lines folded indent length pending [] cursor
  let ending :=
    match header.ending with
    | .strip => []
    | .clip => found.last
    | .keep => found.last ++ found.trailing
  return (found.text ++ ending, found.cursor)

end Yaml.Block

end ModuleAtlas
