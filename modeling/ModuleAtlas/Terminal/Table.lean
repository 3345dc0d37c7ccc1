import ModuleAtlas.Terminal.Markup

/-!
# Tables in a terminal

Texts broken into lines, and tables of two columns with such texts in their cells.
-/

namespace ModuleAtlas.Terminal

/-!
## Wrapping

A text is broken into lines of a width between its words; a word carries the blanks after it. A word
that is wider than a line is cut, and an ellipsis marks the cut.
-/

/-- A line with blanks up to some columns. -/
def pad (columns : Nat) (line : List Char) : List Char :=
  line ++ List.replicate (columns - width line) ' '

/-- A line in columns: one that is too wide is cut before an ellipsis. A joiner at the end of a line
takes up a blank, so that another one is needed. -/
def fitLine (columns : Nat) (line : List Char) : List Char :=
  pad columns (if width line ≤ columns then pad columns line else cut (columns - 1) line ++ ['…'])

/-- The words of a text, each with the blanks after it; the first one also has the blanks before it.
-/
def wordsFrom : Nat → List Char → List (List Char)
  | 0, _ => []
  | fuel + 1, text =>
    let before := text.takeWhile Text.isBlank
    let rest := text.drop before.length
    let word := rest.takeWhile fun c => !Text.isBlank c
    if word.isEmpty then []
    else
      let rest := rest.drop word.length
      let after := rest.takeWhile Text.isBlank
      (before ++ word ++ after) :: wordsFrom fuel (rest.drop after.length)

/-- The width of a word without the blanks after it. -/
def wordWidth (word : List Char) : Nat := width (Text.trimEnd Text.isBlank word)

/-- Puts words on lines of a width, given the words of the current line in reverse and its width. -/
def fillLines (columns : Nat) : List (List Char) → Nat → List (List Char) → List (List Char)
  | current, _, [] => if current.isEmpty then [] else [current.reverse.flatten]
  | current, used, word :: rest =>
    if used + wordWidth word ≤ columns || current.isEmpty then
      fillLines columns (word :: current) (used + width word) rest
    else current.reverse.flatten :: fillLines columns [word] (width word) rest

/-- A line without the blanks at its end that reach beyond the width. -/
def dropExcess (columns : Nat) (line : List Char) : List Char :=
  let blanks := (line.reverse.takeWhile Text.isBlank).length
  line.take (line.length - min blanks (line.length - columns))

/-- The blanks from the end of a tab to the next eighth column. -/
def tabFill (column : Nat) : Nat := (8 - column % 8) % 8

/-- A line with its tabs as blanks up to the next eighth column, from the pieces between tabs and
the column that the first one starts at. -/
def expandTabs (column : Nat) : List (List Char) → List Char
  | [] => []
  | [piece] => piece
  | piece :: rest =>
    let piece := piece ++ [' ']
    let reached := column + width piece
    piece ++ List.replicate (tabFill reached) ' ' ++ expandTabs (reached + tabFill reached) rest

/-- The lines of a paragraph in columns. -/
def wrapLine (columns : Nat) (line : List Char) : List (List Char) :=
  let line := expandTabs 0 (Text.splitChars '\t' line)
  let filled := fillLines columns [] 0 (wordsFrom (line.length + 1) line)
  let lines := if filled.isEmpty then [line] else filled
  lines.map fun line => fitLine columns (dropExcess columns line)

/-- The lines of a text in columns. -/
def wrap (columns : Nat) (text : List Char) : List (List Char) :=
  (Text.splitChars '\n' text).flatMap (wrapLine columns)

/-!
## Tables

A table of two columns in a box, under a title. The columns are as wide as their widest line unless
the table would not fit: then the wider column gets less, and its cells are wrapped.
-/

/-- A row of a table of two columns, or its header. -/
abbrev Row := String × String

/-- A table with a title. -/
structure Table where
  title : String
  header : Row
  rows : List Row

namespace Table

/-- The blanks around the content of a cell. -/
def cellPadding : Nat := 2

/-- The columns that the lines of the box take. -/
def boxWidth : Nat := 3

/-- The width of the widest line of a text. -/
def lineWidth (text : List Char) : Nat :=
  ((Text.linesFrom [] text).map width).foldl max 0

/-- The width of a column with cells, at most the given one. -/
def columnWidth (most : Nat) (cells : List (List Char)) : Nat :=
  min most ((cells.map lineWidth).foldl max 0 + cellPadding)

/-- The widths of two columns that have the given sum at most. What is too much is taken from the
wider column down to the width of the other, then from both. -/
def shrink (most first second : Nat) : Nat × Nat :=
  let excess := first + second - most
  let narrow := min first second
  let spare := max first second - narrow
  if excess ≤ spare then
    if first < second then (first, second - excess) else (first - excess, second)
  else (most / 2, most - most / 2)

/-- A cell in columns, with a blank on either side of each line. -/
def cellLines (columns : Nat) (text : List Char) : List (List Char) :=
  (wrap (columns - cellPadding) text).map fun line => ' ' :: line ++ [' ']

/-- A line across the box. -/
def rule (left line middle right : Char) (widths : Nat × Nat) : List Char :=
  left :: List.replicate widths.1 line ++ middle :: List.replicate widths.2 line ++ [right]

/-- The lines of a row between the sides of the box. -/
def rowLines (side : Char) (widths : Nat × Nat) (row : List Char × List Char) : List (List Char) :=
  let first := cellLines widths.1 row.1
  let second := cellLines widths.2 row.2
  let line := fun (index : Nat) =>
    side :: first.getD index (List.replicate widths.1 ' ')
      ++ side :: second.getD index (List.replicate widths.2 ' ') ++ [side]
  (List.range (max first.length second.length)).map line

/-- A text in the middle of a line. -/
def centred (columns : Nat) (text : List Char) : List Char :=
  fitLine columns (List.replicate ((columns - width text) / 2) ' ' ++ text)

/-- The lines of a table whose tags are resolved, on a terminal of some columns. -/
def lines (columns : Nat) (title : List Char) (header : List Char × List Char)
    (rows : List (List Char × List Char)) : List (List Char) :=
  let inner := columns - boxWidth
  let all := header :: rows
  let natural := (columnWidth inner (all.map (·.1)), columnWidth inner (all.map (·.2)))
  let widths := shrink inner natural.1 natural.2
  let total := widths.1 + widths.2 + boxWidth
  [centred total title, rule '┏' '━' '┳' '┓' widths] ++ rowLines '┃' widths header
    ++ [rule '┡' '━' '╇' '┩' widths] ++ rows.flatMap (rowLines '│' widths)
    ++ [rule '└' '─' '┴' '┘' widths]

/-- What the cells of a row show. -/
def showRow (row : Row) : Except Markup.Fault (Markup.Shown × Markup.Shown) := do
  return (← Markup.resolve row.1, ← Markup.resolve row.2)

/-- The texts of the cells of a row. -/
def texts (row : Markup.Shown × Markup.Shown) : List Char × List Char := (row.1.text, row.2.text)

/-- The text of a table on a terminal of some columns. -/
def render (columns : Nat) (table : Table) : Except Markup.Fault String := do
  let title ← Markup.resolve table.title
  let header ← showRow table.header
  let rows ← table.rows.mapM showRow
  (header :: rows).forM fun row => do
    row.1.check
    row.2.check
  let shown := lines columns title.text (texts header) (rows.map texts)
  return String.join (shown.map fun line => String.ofList line ++ "\n")

end Table

end ModuleAtlas.Terminal
