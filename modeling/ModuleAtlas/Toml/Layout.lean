import ModuleAtlas.Toml.Value
import ModuleAtlas.Text.Basic
import ModuleAtlas.Text.Classes

/-!
# The layout of TOML documents

A document is brought into lines before its lines are read one by one: comments are blanked, the
line ends inside arrays become blanks, and so does the line end right after the quotes that open a
string of several lines. Names at the start of lines are checked on the way. To look back beyond the
start of the text is to look at its end.
-/

namespace ModuleAtlas.Toml

/-- Where a name at the start of a line has got to. -/
inductive NamePhase where
  | outside
  | inside
  | after
deriving Repr, DecidableEq

/-- A document on the way to its lines. -/
structure Layout where
  chars : Array Char
  phase : NamePhase
  /-- The name at the start of the line has a dot. -/
  dotted : Bool
  /-- The quote of the string that is open. -/
  quote : Option Char
  /-- A string of several lines is open. -/
  multiline : Bool
  /-- The header of a table is open. -/
  inHeader : Bool
  /-- The header of an array of tables is open. -/
  inArrayHeader : Bool
  /-- The number of arrays that are open. -/
  depth : Int
  lineStart : Bool

namespace Layout

/-- The layout at the start of a text. -/
def start (text : List Char) : Layout where
  chars := text.toArray
  phase := .outside
  dotted := false
  quote := none
  multiline := false
  inHeader := false
  inArrayHeader := false
  depth := 0
  lineStart := true

/-- The character some steps before a position. -/
def back? (layout : Layout) (position steps : Nat) : Option Char :=
  if steps ≤ position then layout.chars[position - steps]?
  else
    let beyond := steps - position
    if beyond ≤ layout.chars.size then layout.chars[layout.chars.size - beyond]? else none

/-- The number of equal characters right before a place that is some steps back, at most so many. -/
def runBack (layout : Layout) (position : Nat) (c : Char) : Nat → Nat → Nat
  | 0, _ => 0
  | limit + 1, steps =>
    if layout.back? position steps == some c then runBack layout position c limit (steps + 1) + 1
    else 0

/-- Whether no header is open. -/
def inBody (layout : Layout) : Bool := !layout.inHeader && !layout.inArrayHeader

/-! ## Names -/

/-- The layout after a dot or a blank in a dotted name: the next part follows at once or later. -/
def nextPart (layout : Layout) (position : Nat) : Except Fault Layout :=
  match layout.chars[position + 1]? with
  | none => .error .cutShort
  | some next =>
    if Text.isBlank next || next == '.' then .ok layout
    else .ok { layout with phase := .inside }

/-- The layout after the character that ends a name, which must be an equals sign. -/
def endName (layout : Layout) (c : Char) : Except Fault (Layout × Bool) :=
  if c == '=' then .ok ({ layout with phase := .outside, dotted := false }, false)
  else .error .malformed

/-- Takes up a character after the start of a name, and tells whether that was all about it. -/
def nameStep (layout : Layout) (position : Nat) (c : Char) : Except Fault (Layout × Bool) :=
  if c == '\n' then .error .malformed
  else
    match layout.quote with
    | some quote =>
      let escaped := layout.runBack position '\\' position 1 % 2 = 1
      if c == quote && !escaped then .ok ({ layout with phase := .after, quote := none }, true)
      else .ok (layout, true)
    | none =>
      if layout.phase = .inside then
        if Text.isBlank c then .ok ({ layout with phase := .after }, true)
        else if c == '.' then .ok ({ layout with dotted := true }, true)
        else if Text.isWord c || c == '-' then .ok (layout, true)
        else if layout.dotted && layout.back? position 1 == some '.'
            && (c == '"' || c == '\'') then
          .ok ({ layout with quote := some c }, true)
        else layout.endName c
      else if Text.isBlank c then
        if layout.dotted then do return (← layout.nextPart position, true)
        else .ok (layout, true)
      else if c == '.' then do
        return (← { layout with dotted := true }.nextPart position, true)
      else layout.endName c

/-! ## Strings, comments and brackets -/

/-- The layout after a quote that is not escaped. Three quotes open or close a string of several
lines. -/
def toggle (layout : Layout) (c : Char) (isThird : Bool) : Layout :=
  let multiline := if isThird then !layout.multiline else layout.multiline
  let isOpen := if isThird then multiline else layout.quote.isNone
  { layout with multiline := multiline, quote := if isOpen then some c else none }

/-- Takes up a character that may be a quote. A quote inside a string with the other quotes is no
quote. -/
def quoteStep (layout : Layout) (position : Nat) (c : Char) : Layout :=
  if c == '\'' && layout.quote != some '"' then
    layout.toggle c (layout.runBack position c 2 1 = 2)
  else if c == '"' && layout.quote != some '\'' then
    let before := layout.runBack position c 2 1
    let escapes :=
      if before = 1 then 0
      else layout.runBack position '\\' (2 * layout.chars.size) (before + 1)
    if escapes % 2 = 1 then layout else layout.toggle c (before = 2)
  else layout

/-- The characters with everything from a position to the end of the line blanked, and whether the
line has an end. -/
def blankLine : Nat → Nat → Array Char → Array Char × Bool
  | 0, _, chars => (chars, false)
  | steps + 1, position, chars =>
    match chars[position]? with
    | none => (chars, false)
    | some c =>
      if c == '\n' then (chars, true)
      else blankLine steps (position + 1) (chars.setIfInBounds position ' ')

/-- Takes up a character that may start a comment, and tells whether the text goes on after it. -/
def commentStep (layout : Layout) (position : Nat) (c : Char) : Layout × Bool :=
  if c == '#' && layout.quote.isNone && layout.inBody then
    let (chars, ended) := blankLine (layout.chars.size + 1) position layout.chars
    ({ layout with chars := chars }, ended)
  else (layout, true)

/-- Takes up a character that may be a bracket. -/
def bracketStep (layout : Layout) (position : Nat) (c : Char) : Layout :=
  if layout.quote.isSome then layout
  else if c == '[' && layout.inBody then
    if !layout.lineStart then { layout with depth := layout.depth + 1 }
    else if layout.chars[position + 1]? == some '[' then { layout with inArrayHeader := true }
    else { layout with inHeader := true }
  else if c == ']' then
    if layout.inHeader then { layout with inHeader := false }
    else if layout.inArrayHeader then
      if layout.back? position 1 == some ']' then { layout with inArrayHeader := false } else layout
    else { layout with depth := layout.depth - 1 }
  else layout

/-! ## Lines -/

/-- Takes up the end of a line inside a string of several lines. After two equal quotes it becomes a
third one, and one that stood before them is blanked. -/
def endStringLine (layout : Layout) (position : Nat) : Except Fault Layout :=
  match layout.back? position 1, layout.back? position 2 with
  | some last, some second =>
    if (last == '\'' || last == '"') && second == last then
      let chars := layout.chars.setIfInBounds position last
      let third := { layout with chars := chars }.back? position 3
      match third with
      | none => .error .cutShort
      | some third =>
        let place :=
          if 3 ≤ position then position - 3 else layout.chars.size + position - 3
        .ok { layout with
          chars := if third == last then chars.setIfInBounds place ' ' else chars }
    else .ok layout
  | _, _ => .error .cutShort

/-- Takes up the end of a line, or a character that may be the first of a line. -/
def lineStep (layout : Layout) (position : Nat) (c : Char) : Except Fault Layout :=
  if c == '\n' then
    if layout.multiline then layout.endStringLine position
    else if layout.quote.isSome then .error .malformed
    else if layout.depth != 0 then
      .ok { layout with chars := layout.chars.setIfInBounds position ' ' }
    else .ok { layout with lineStart := true }
  else
    let written := layout.chars.getD position c
    if layout.lineStart && written != ' ' && written != '\t' then
      if !layout.inBody then .ok { layout with lineStart := false }
      else if written == '=' then .error .malformed
      else .ok { layout with lineStart := false, phase := .inside }
    else .ok layout

/-- Takes up the characters from a position on. -/
def scan : Nat → Nat → Layout → Except Fault Layout
  | 0, _, layout => .ok layout
  | steps + 1, position, layout =>
    match layout.chars[position]? with
    | none => .ok layout
    | some c => do
      let (layout, done) ←
        if layout.phase = .outside then .ok (layout, false) else layout.nameStep position c
      if done then scan steps (position + 1) layout
      else
        let (layout, goesOn) := (layout.quoteStep position c).commentStep position c
        if goesOn then
          scan steps (position + 1) (← (layout.bracketStep position c).lineStep position c)
        else return layout

end Layout

/-- The lines of a document. -/
def lines (text : List Char) : Except Fault (List (List Char)) := do
  let layout ← Layout.scan (text.length + 1) 0 (Layout.start text)
  if layout.phase != .outside || layout.quote.isSome then throw .malformed
  else return Text.splitChars '\n' layout.chars.toList

end ModuleAtlas.Toml
