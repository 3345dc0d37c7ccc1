import ModuleAtlas.Json.Printer
import ModuleAtlas.Text.Utf8
import ModuleAtlas.Text.Classes
import ModuleAtlas.Toml.Value

/-!
# Writing TOML

A document is written table by table, level by level: the entries of a table that are no tables
first, then its arrays of tables, and under headers of their own the tables in it. A character that
does not show is written by its code point. The code points of two hexadecimal digits are spelled in
two ways, by the backslashes before them; a text that begins with one has no written form.
-/

namespace ModuleAtlas.Toml

/-- A table as it is written: its lines, and the tables in it that get headers of their own. -/
structure Section where
  lines : String
  tables : List (String × List (String × Toml))
deriving Inhabited

namespace Printer

/-! ## Strings -/

/-- A number in the given count of hexadecimal digits. -/
def hexDigits : Nat → Nat → List Char
  | 0, _ => []
  | count + 1, value => hexDigits count (value / 16) ++ [Json.Printer.hexDigit (value % 16)]

/-- A character as it stands in a string, before the spelling of short code points is chosen. -/
def escape (c : Char) : List Char :=
  match c with
  | '"' => ['\\', '"']
  | '\\' => ['\\', '\\']
  | '\n' => ['\\', 'n']
  | '\r' => ['\\', 'r']
  | '\t' => ['\\', 't']
  | c =>
    let code := Text.codeOf c
    if Text.isPrintable c && !Text.isHalfChar c then [c]
    else if code < 0x100 then '\\' :: 'x' :: hexDigits 2 code
    else if code < 0x10000 then '\\' :: 'u' :: hexDigits 4 code
    else '\\' :: 'U' :: hexDigits 8 code

/-- The mark of a short code point. -/
def shortMark : List Char := ['\\', 'x']

/-- Whether the mark after a text, whose backslash is already gone, is no code point: the backslash
belonged to a pair. -/
def isPlainMark (before : List Char) : Bool :=
  let slashes := (before.reverse.takeWhile (· == '\\')).length
  let turns := if slashes < before.length then slashes else slashes - 1
  (slashes == 0) != (turns % 2 == 1)

/-- Joins two pieces with the mark between them. The join undoes the pairs of backslashes before it.
-/
def joinTwo (first second : List Char) : Except Fault (List Char) :=
  let before := Text.replaceChars ['\\', '\\'] ['\\'] none (first.length + 1) first
  if before.isEmpty then .error .cutShort
  else
    let mark := if isPlainMark before then ['x'] else ['u', '0', '0']
    .ok (before ++ mark ++ second)

/-- Joins the pieces of a text between the marks of short code points. An empty piece at the start
is dropped. -/
def joinMarks : List Char → List (List Char) → Except Fault (List Char)
  | first, [] => .ok first
  | first, second :: rest =>
    if first.isEmpty then
      match rest with
      | [] => .error .cutShort
      | third :: rest => do joinMarks (← joinTwo second third) rest
    else do joinMarks (← joinTwo first second) rest

/-- A string with its quotes. -/
def quote (text : String) : Except Fault String := do
  match Text.pieces shortMark (text.toList.flatMap escape) with
  | [] => return "\"\""
  | first :: rest => return "\"" ++ String.ofList (← joinMarks first rest) ++ "\""

/-- A key, in quotes unless it has only letters, digits, hyphens and low lines. A line end after
these needs no quotes. -/
def key (name : String) : Except Fault String :=
  let chars := name.toList
  let bare := if chars.getLast? == some '\n' then chars.dropLast else chars
  if !bare.isEmpty && bare.all fun c => c.isAlphanum || c == '_' || c == '-' then .ok name
  else quote name

/-! ## Values -/

mutual

/-- A value in a line. A table is written as the list of its keys there. -/
def value : Toml → Except Fault String
  | .boolean true => .ok "true"
  | .boolean false => .ok "false"
  | .integer value => .ok (toString value)
  | .decimal text | .time text => .ok text
  | .date (some text) => .ok text
  | .date none => .error .unwritableMoment
  | .string text => quote text
  | .array items => return "[" ++ (← values items) ++ "]"
  | .table entries => return "[" ++ (← keys entries) ++ "]"

/-- The items of a list, each with a comma after it. -/
def values : List Toml → Except Fault String
  | [] => .ok ""
  | item :: rest => return " " ++ (← value item) ++ "," ++ (← values rest)

/-- The keys of a table, each with a comma after it. -/
def keys : List (String × Toml) → Except Fault String
  | [] => .ok ""
  | (name, _) :: rest => return " " ++ (← quote name) ++ "," ++ (← keys rest)

end

/-! ## Tables -/

/-- Whether a value is a table. -/
def isTable : Toml → Bool
  | .table _ => true
  | _ => false

/-- The name of a table within another. -/
def nested (outer name : String) : String := if outer.isEmpty then name else outer ++ "." ++ name

/-- What a value lists when it is taken for a table: an empty list and an empty text list nothing.
-/
def entriesOf : Toml → Except Fault (List (String × Toml))
  | .table entries => .ok entries
  | .array [] | .string "" => .ok []
  | _ => .error .misplaced

/-- Tables with headers of their own, by name. -/
abbrev Tables := List (String × List (String × Toml))

/-- The tables within tables, named from the outermost on. -/
def inner (tables : List (String × Section)) : Tables :=
  Keyed.ofPairs (tables.flatMap fun (name, part) =>
    part.tables.map fun (innerName, entries) => (name ++ "." ++ innerName, entries))

/-- The lines of an item of an array of tables: those of its own entries, which follow its header,
and those of the tables in it, which come after an empty line. -/
structure ItemLines where
  own : String
  below : String

/-- The lines of tables, level by level, given how one is laid out. Tables without lines of their
own have no header here. -/
def levels (layOut : String → List (String × Toml) → Except Fault Section) (outer : String) :
    Nat → Tables → Except Fault String
  | 0, _ => .ok ""
  | _ + 1, [] => .ok ""
  | fuel + 1, tables => do
    let parts ← tables.mapM fun (name, entries) =>
      return (name, ← layOut (nested outer name) entries)
    let lines := parts.map fun (name, part) =>
      if part.lines.isEmpty then ""
      else "[" ++ nested outer name ++ "]\n" ++ part.lines
    return String.join lines ++ (← levels layOut outer fuel (inner parts))

/-- The lines of an item of the array of tables of a name, given how a table is laid out. -/
def item (layOut : String → List (String × Toml) → Except Fault Section) (fuel : Nat)
    (name : String) (content : Toml) : Except Fault String := do
  let part ← layOut name (← entriesOf content)
  let lines : ItemLines :=
    if Text.startsWith "[" part.lines then ⟨"", part.lines⟩ else ⟨part.lines, ""⟩
  let below ← levels layOut name fuel part.tables
  return "[[" ++ name ++ "]]\n" ++ lines.own ++ "\n" ++ lines.below ++ below

/-- Lays out a table of a name; tables nest at most `fuel` deep. -/
def layOut : Nat → String → List (String × Toml) → Except Fault Section
  | 0, _, _ => .ok ⟨"", []⟩
  | fuel + 1, outer, entries => do
    let parts ← entries.mapM fun (name, content) => do
      let shown ← key name
      match content with
      | .table inside => return ("", "", [(shown, inside)])
      | .array items =>
        if items.any isTable then
          let lines ← items.mapM (item (layOut fuel) fuel (nested outer shown))
          return ("", String.join lines, [])
        else return (shown ++ " = " ++ (← value content) ++ "\n", "", [])
      | _ => return (shown ++ " = " ++ (← value content) ++ "\n", "", [])
    return ⟨String.join (parts.map (·.1)) ++ String.join (parts.map (·.2.1)),
      Keyed.ofPairs (parts.flatMap (·.2.2))⟩

/-- The written document with a table added under its header, after an empty line. A table that only
holds tables has no header. -/
def addTable (written : String) (name : String) (part : Section) : String :=
  if part.lines.isEmpty && !part.tables.isEmpty then written
  else
    let gap := if written.isEmpty || Text.endsWith "\n\n" written then "" else "\n"
    written ++ gap ++ "[" ++ name ++ "]\n" ++ part.lines

/-- The written document with the tables of a level and of the levels below added. -/
def addLevels (depth : Nat) : Nat → Tables → String → Except Fault String
  | 0, _, written => .ok written
  | _ + 1, [], written => .ok written
  | fuel + 1, tables, written => do
    let parts ← tables.mapM fun (name, entries) => return (name, ← layOut depth name entries)
    addLevels depth fuel (inner parts)
      (parts.foldl (fun written (name, part) => addTable written name part) written)

end Printer

mutual

/-- How deep values nest. -/
def depth : Toml → Nat
  | .array items => itemsDepth items + 1
  | .table entries => entriesDepth entries + 1
  | _ => 1

/-- How deep the items of a list nest. -/
def itemsDepth : List Toml → Nat
  | [] => 0
  | item :: rest => max (depth item) (itemsDepth rest)

/-- How deep the values of a table nest. -/
def entriesDepth : List (String × Toml) → Nat
  | [] => 0
  | (_, content) :: rest => max (depth content) (entriesDepth rest)

end

/-- The text of a document. -/
def render (document : List (String × Toml)) : Except Fault String := do
  let depth := entriesDepth document + 1
  let top ← Printer.layOut depth "" document
  Printer.addLevels depth depth top.tables top.lines

end ModuleAtlas.Toml
