import ModuleAtlas.Toml.Scalar

/-!
# Reading TOML values

The values and the lines of a document. A line gives a key a value; the value of a string of several
lines goes on in the lines after it.
-/

namespace ModuleAtlas.Toml

/-- The text without the blanks at both ends. -/
def strip (text : List Char) : List Char := Text.trimChars Text.isBlank text

/-- The pieces of a line between quotes, so that every second one stands inside quotes. -/
def quotePieces (line : List Char) : List (List Char) :=
  match Text.splitChars '"' line with
  | first :: second :: rest =>
    if first.contains '\'' then
      let (singles, rest) :=
        closeSingles (line.length + 1) (Text.splitChars '\'' first) (second :: rest)
      singles ++ after rest
    else after (first :: second :: rest)
  | pieces => after pieces
where
  /-- Joins pieces until the single quotes are closed. -/
  closeSingles : Nat → List (List Char) → List (List Char) →
      List (List Char) × List (List Char)
    | 0, singles, rest => (singles, rest)
    | _ + 1, singles, [] => (singles, [])
    | fuel + 1, singles, next :: rest =>
      if singles.length % 2 = 0 then
        let last := singles.getLastD [] ++ '"' :: next
        closeSingles fuel (singles.dropLast ++ Text.splitChars '\'' last) rest
      else (singles, next :: rest)
  /-- The pieces that double quotes make, the first one split at single quotes. -/
  after : List (List Char) → List (List Char)
    | [] => []
    | first :: rest => Text.splitChars '\'' first ++ rest

/-- The number of occurrences of a text before the first one outside quotes, and one more. -/
def splitsBefore (mark : List Char) : Bool → List (List Char) → Nat
  | _, [] => 1
  | quoted, piece :: rest =>
    if !quoted && Text.containsChars mark piece then 1
    else Text.countOf mark piece + splitsBefore mark (!quoted) rest

/-! ## Scalars -/

/-- The number that a text stands for. -/
def numberOf (text : List Char) (strict : Bool) : Except Fault Toml :=
  if !strict then .error .malformed
  else
    let negative := text.head? == some '-'
    let unsigned := if negative || text.head? == some '+' then text.tail else text
    let digits := unsigned.filter (· != '_')
    let hasPoint := digits.contains '.'
    let hasMark := !digits.contains 'x' && (digits.contains 'e' || digits.contains 'E')
    let low := Text.lower (String.ofList digits)
    if hasPoint || hasMark then
      if hasPoint && (digits.dropWhile (· != '.')).length = 1 then .error .malformed
      else if !(digits.head?.map Char.isDigit).getD false then .error .malformed
      else decimal negative digits
    else if low == "inf" || low == "nan" then decimal negative digits
    else
      match integer? digits with
      | some value => .ok (.integer (if negative then -value else value))
      | none => .error .malformed
where
  /-- The value of a number with a fraction. Zero has no sign. -/
  decimal (negative : Bool) (digits : List Char) : Except Fault Toml :=
    match real? digits with
    | some (_, value) =>
      let text := value.text false
      .ok (.decimal (if text == "0.0" then text else value.text negative))
    | none => .error .malformed

/-- The value of a text that is neither an array nor a table. -/
def scalarOf (text : List Char) (strict : Bool) : Except Fault Toml :=
  match text with
  | [] => .error .malformed
  | first :: _ =>
    let written := String.ofList text
    if written == "true" then .ok (.boolean true)
    else if written == "false" then .ok (.boolean false)
    else if ["true", "false"].contains (Text.lower written) then .error .malformed
    else if first == '"' || first == '\'' then (unquote first text).map .string
    else
      match timeOf? text with
      | some (some clock) => .ok (.time clock)
      | some none => .error .malformed
      | none => do
        match ← dateOf? text with
        | some moment => return moment
        | none => numberOf text strict

/-! ## Arrays -/

/-- Whether the first item of an array is a string. -/
def isStringArray (text : List Char) : Bool :=
  match strip (Text.cut 1 1 text) with
  | first :: _ => first == '"' || first == '\''
  | [] => false

/-- Whether a text has the quote at its start also at its end, with no open escape before it. -/
def isBounded (text : List Char) : Bool :=
  match text with
  | [] => true
  | first :: rest => text.getLast? == some first && !endsOpen rest.dropLast

/-- Whether an item of an array of strings goes on after the comma that was taken for its end. -/
def goesOn (item : List Char) : Bool :=
  let item := strip item
  !isBounded item ||
    match item with
    | a :: b :: c :: _ =>
      a == b && b == c && item.reverse[1]? != some a && item.reverse[2]? != some a
    | _ => false

/-- The items of an array of strings, from the pieces between commas. The last piece is not looked
at on its own. -/
def joinStrings : Nat → List (List Char) → Except Fault (List (List Char))
  | 0, pieces => .ok pieces
  | _ + 1, [] => .ok []
  | _ + 1, [piece] => .ok [piece]
  | fuel + 1, piece :: next :: rest =>
    if goesOn piece then
      let joined := piece ++ ',' :: next
      if rest.isEmpty then if goesOn joined then .error .cutShort else .ok [joined]
      else joinStrings fuel (joined :: rest)
    else do return piece :: (← joinStrings fuel (next :: rest))

/-- A scan for the inline tables of an array: the position, where the table started, the number of
braces that are open and whether a string is open. -/
structure TableScan where
  position : Nat
  start : Nat
  depth : Nat
  inString : Bool

/-- Whether a string is open after a quote at a position: each backslash right before it turns the
answer, provided that one was open. -/
def quoteTurns (chars : Array Char) (position : Nat) (inString : Bool) : Bool :=
  let before := (chars.toList.take position).reverse.takeWhile (· == '\\')
  let inString := if inString && before.length % 2 = 1 then !inString else inString
  !inString

/-- The texts of the inline tables of an array. -/
def tableTexts (chars : Array Char) : Nat → TableScan → List (List Char)
  | 0, _ => []
  | fuel + 1, scan =>
    if scan.position + 1 < chars.size then
      let c := chars.getD scan.position ' '
      let inString :=
        if c == '"' || c == '\'' then quoteTurns chars scan.position scan.inString
        else scan.inString
      let depth := if !inString && c == '\x7b' then scan.depth + 1 else scan.depth
      let next := scan.position + 1
      if inString || c != '\x7d' then tableTexts chars fuel ⟨next, scan.start, depth, inString⟩
      else if 1 < depth then tableTexts chars fuel ⟨next, scan.start, depth - 1, inString⟩
      else
        let skipped := (chars.toList.drop (next + 1)).takeWhile (· != '\x7b')
        let start := next + 1 + min skipped.length (chars.size - 1 - (next + 1))
        (chars.toList.drop scan.start).take (next - scan.start)
          :: tableTexts chars fuel ⟨start + 1, start, depth, inString⟩
    else []

/-- The items of an array of arrays: only brackets count. -/
def nestedItems : Int → List Char → List Char → List (List Char)
  | _, current, [] => [current.reverse]
  | depth, current, c :: rest =>
    if c == '[' then nestedItems (depth + 1) (c :: current) rest
    else if c == ']' then nestedItems (depth - 1) (c :: current) rest
    else if c == ',' && depth = 0 then current.reverse :: nestedItems depth [] rest
    else nestedItems depth (c :: current) rest

/-- The texts of the items of an array. -/
def arrayItems (text : List Char) : Except Fault (List (List Char)) :=
  let text := strip text
  let content := Text.cut 1 1 text
  let isNested := content.contains '[' && (strip (content.takeWhile (· != '['))).isEmpty
  if isNested then .ok (nestedItems 0 [] content)
  else
    let pieces :=
      if (strip content).head? == some '\x7b' then
        let depth := if text[1]? == some '\x7b' then 1 else 0
        tableTexts text.toArray (text.length + 1) ⟨2, 1, depth, false⟩
      else Text.splitChars ',' content
    if isStringArray text then joinStrings (2 * pieces.length + 1) pieces else .ok pieces

/-- Reads items of an array one after the other; all have to be of one kind. -/
def readItems (read : List Char → Except Fault Toml) :
    Option Kind → List (List Char) → Except Fault (List Toml)
  | _, [] => .ok []
  | kind, item :: rest => do
    let item := strip item
    if item.isEmpty then readItems read kind rest
    else
      let value ← read item
      if (kind.map (· != value.kind)).getD false then throw .malformed
      else return value :: (← readItems read (some value.kind) rest)

/-! ## Lines -/

/-- A value that goes on in the next line: its key, its text so far, and whether the next line is
joined to it without a line end. -/
structure Pending where
  key : String
  text : List Char
  joined : Bool
deriving Repr, Inhabited

/-- The names of a dotted key. Blanks count, but not next to quotes or at either end. -/
def keyNames (quoted : Bool) : List (List Char) → List (List Char)
  | [] => []
  | piece :: rest =>
    (if quoted then [piece] else Text.splitChars '.' (strip piece)) ++ keyNames (!quoted) rest

/-- The tables that a key leads through, and its last name. Blanks around the last name do not
count. -/
def splitKey (key : List Char) : Except Fault (List String × String) :=
  if key.contains '.' then
    match (keyNames false (quotePieces key)).reverse.dropWhile List.isEmpty with
    | [] => .error .cutShort
    | last :: before =>
      .ok ((before.reverse.filter (!·.isEmpty)).map String.ofList, String.ofList (strip last))
  else
    match key with
    | [] => .error .cutShort
    | first :: _ =>
      if key.getLast? == some first && (first == '"' || first == '\'') then do
        return ([], String.ofList (← unescape (Text.cut 1 1 key)))
      else .ok ([], String.ofList key)

/-- Checks that tables can be reached from a table; missing ones can be made. -/
def reach : List String → Toml → Except Fault Unit
  | [], _ => .ok ()
  | name :: rest, .table entries =>
    match Keyed.find? name entries with
    | some inner => reach rest inner
    | none => .ok ()
  | _ :: _, _ => .error .misplaced

/-- The table with a key given a value, or only checked, in a table reached from it. -/
def store (key : String) (value : Option Toml) : List String → Toml → Except Fault Toml
  | [], .table entries =>
    if Keyed.has key entries then .error .malformed
    else
      match value with
      | some value => .ok (.table (Keyed.put key value entries))
      | none => .ok (.table entries)
  | [], _ => .error .malformed
  | name :: rest, .table entries => do
    let inner ← store key value rest ((Keyed.find? name entries).getD (.table []))
    return .table (Keyed.put name inner entries)
  | _ :: _, _ => .error .misplaced

/-- Whether a text may be a whole value, so that no equals sign of its key was taken for the one
before the value. -/
def isSettled (text : List Char) : Except Fault Bool :=
  match text with
  | [] => .ok true
  | first :: _ =>
    if [' ', '\t', '\'', '"', '[', '\x7b'].contains first
        || ["true", "false"].contains (String.ofList (strip text)) || (real? text).isSome then
      .ok true
    else do return (← dateOf? text).isSome || (timeOf? text).isSome

/-- The key and the value of a line, and whether the value is a strict number. More equals signs
are left to the key until the rest may be a value. -/
def settle (line : List Char) :
    Nat → Nat → List (List Char) → Bool → Except Fault (List Char × List Char × Bool)
  | 0, _, _, _ => .error .malformed
  | fuel + 1, count, pair, strict => do
    let last := pair.getLastD []
    if ← isSettled last then
      .ok (strip (Text.joinChars ['='] pair.dropLast), strip last, strict)
    else
      let pair := Text.piecesUpTo (count + 1) ['='] line
      let next := pair.getLastD []
      if next == last then .error .malformed
      else settle line fuel (count + 1) pair (strict && isStrict next)

/-- The key and the value of a line. -/
def splitLine (line : List Char) : Except Fault (List Char × List Char × Bool) :=
  let count := splitsBefore ['='] false (quotePieces line)
  let pair := Text.piecesUpTo count ['='] line
  let last := pair.getLastD []
  let plain := if (last.head?.map Char.isDigit).getD false then last.filter (· != '_') else last
  settle line (line.length + 2) count (pair.dropLast ++ [plain]) (isStrict last)

/-- The last item of an array of strings that is not closed, from the pieces between commas. -/
def lastString : List Char → List (List Char) → Except Fault (List Char)
  | last, [] => .ok last
  | last, before :: rest =>
    match last with
    | [] => .error .cutShort
    | first :: _ =>
      if first == '"' || first == '\'' then .ok last
      else lastString (before ++ ',' :: last) rest

/-- The text in which a string of several lines may have been opened: a value, or the last item of
an array of strings that is not closed. -/
def openText (text : List Char) : Except Fault (List Char) :=
  if text.head? == some '[' && (strip text).getLast? != some ']' && isStringArray text then
    match (Text.splitChars ',' (strip text.tail)).reverse with
    | last :: before => lastString last before
    | [] => .error .cutShort
  else .ok text

/-- Whether a value goes on in the next line: three quotes are opened and not closed. -/
def opensString (text : List Char) : Except Fault Bool :=
  if text.length < 3 then .ok false
  else do
    match ← openText text with
    | [] => throw .cutShort
    | first :: rest =>
      if first != '"' && first != '\'' then return false
      else
        match rest with
        | second :: third :: _ =>
          if second != first || third != first then return false
          else
            let closed := 5 ≤ rest.length && (rest.reverse.take 3).all (· == first)
            return !closed
        | [second] => if second != first then return false else throw .cutShort
        | [] => throw .cutShort

/-- The start of a value that goes on in the next line. -/
def Pending.start (key : String) (text : List Char) : Pending :=
  if endsOpen text then ⟨key, text.dropLast, true⟩ else ⟨key, text ++ ['\n'], false⟩

/-- Gives a key a value, as a line tells, in a table. -/
def readLine (read : List Char → Bool → Except Fault Toml) (line : List Char) (level : Toml) :
    Except Fault (Toml × Option Pending) := do
  let (key, text, strict) ← splitLine line
  let (names, key) ← splitKey key
  reach names level
  if ← opensString text then
    let level ← store key none names level
    if key.isEmpty then throw .unnamedText
    return (level, some (Pending.start key text))
  else
    let value ← read text strict
    return (← store key (some value) names level, none)

/-! ## Inline tables -/

/-- Whether a text may be the whole value of an entry of an inline table. -/
def isWhole (value : List Char) : Except Fault Bool :=
  match value with
  | [] => .error .cutShort
  | first :: _ =>
    let ends := fun (c : Char) => value.getLast? == some c
    .ok (((first == '"' || first == '\'') && ends first) || "-0123456789".toList.contains first
      || ["true", "false"].contains (String.ofList value) || (first == '[' && ends ']')
      || (first == '\x7b' && ends '\x7d'))

/-- The entries of an inline table, from the pieces between commas. -/
def joinEntries : Nat → List (List Char) → Except Fault (List (List Char))
  | 0, _ => .ok []
  | _ + 1, [] => .ok []
  | fuel + 1, piece :: rest =>
    match Text.cutFirst? '=' piece with
    | none => .error .malformed
    | some (_, value) => do
      if ← isWhole (strip value) then return piece :: (← joinEntries fuel rest)
      else
        match rest with
        | next :: more => joinEntries fuel ((piece ++ ',' :: next) :: more)
        | [] => throw .malformed

/-- The texts of the entries of an inline table. -/
def tableEntries (text : List Char) : Except Fault (List (List Char)) :=
  let pieces := Text.splitChars ',' (Text.cut 1 1 text)
  match pieces with
  | [piece] => if (strip piece).isEmpty then .ok [] else joinEntries (pieces.length + 1) pieces
  | _ => joinEntries (pieces.length + 1) pieces

/-- Reads lines into a table, up to one whose value goes on. -/
def readLines (read : List Char → Bool → Except Fault Toml) :
    List (List Char) → Toml → Except Fault Toml
  | [], level => .ok level
  | line :: rest, level => do
    match ← readLine read line level with
    | (level, none) => readLines read rest level
    | (level, some _) => return level

/-- Reads a value that nests only so deep. -/
def readWith : Nat → List Char → Bool → Except Fault Toml
  | 0, _, _ => .error .malformed
  | fuel + 1, text, strict =>
    match text.head? with
    | some '[' => do
      return .array (← readItems (fun item => readWith fuel item true) none (← arrayItems text))
    | some '\x7b' => do readLines (readWith fuel) (← tableEntries text) (.table [])
    | _ => scalarOf text strict

/-- Reads a value. -/
def readValue (text : List Char) (strict : Bool) : Except Fault Toml :=
  readWith (text.length + 1) text strict

end ModuleAtlas.Toml
