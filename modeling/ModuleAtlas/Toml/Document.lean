import ModuleAtlas.Toml.Layout
import ModuleAtlas.Toml.Reader

/-!
# TOML documents

A document is read line by line. A header names the table that the lines after it fill, or adds a
table to an array of tables. A line without an equals sign says nothing.
-/

namespace ModuleAtlas.Toml

/-- A step into a value: to the value of a key, or to the last item of an array. -/
inductive Step where
  | key (name : String)
  | last
deriving Repr, DecidableEq

/-- The value that steps lead to. -/
def at? : List Step → Toml → Option Toml
  | [], value => some value
  | .key name :: rest, value => (value.get? name).bind (at? rest)
  | .last :: rest, .array items => items.getLast?.bind (at? rest)
  | .last :: _, _ => none

/-- The entries of a table with the value of a key changed. -/
def changeKey (name : String) (change : Toml → Toml) : List (String × Toml) → List (String × Toml)
  | [] => []
  | entry :: rest =>
    if entry.1 == name then (name, change entry.2) :: rest
    else entry :: changeKey name change rest

/-- The value with what steps lead to changed. -/
def changeAt (change : Toml → Toml) : List Step → Toml → Toml
  | [], value => change value
  | .key name :: rest, .table entries => .table (changeKey name (changeAt change rest) entries)
  | .last :: rest, .array items =>
    match items.getLast? with
    | some item => .array (items.dropLast ++ [changeAt change rest item])
    | none => .array items
  | _ :: _, value => value

/-- A document on the way: what has been read, the steps to the table that lines fill, the names of
tables that no header has named itself, and a value that goes on. -/
structure Document where
  root : Toml
  level : List Step
  implied : List String
  pending : Option Pending

namespace Document

/-- The document before its first line. -/
def start : Document := ⟨.table [], [], [], none⟩

/-- The value that lines fill. -/
def current (document : Document) : Toml := (at? document.level document.root).getD (.table [])

/-! ## Headers -/

/-- The value that a header makes. -/
def made (isArray : Bool) : Toml := if isArray then .array [.table []] else .table []

/-- The document with a value under a key of the table that steps lead to. -/
def putAt (document : Document) (level : List Step) (name : String) (value : Toml) : Document :=
  let put := fun (target : Toml) =>
    match target with
    | .table entries => .table (Keyed.put name value entries)
    | other => other
  { document with root := changeAt put level document.root }

/-- Takes up a name of a header that a table has already. -/
def meetKnown (document : Document) (level : List Step) (name : String) (value : Toml)
    (isLast isArray : Bool) : Except Fault Document :=
  if !isLast then .ok document
  else if document.implied.contains name then
    if isArray then .error .malformed
    else .ok { document with implied := document.implied.erase name }
  else if isArray then
    match value with
    | .array items => .ok (document.putAt level name (.array (items ++ [.table []])))
    | _ => .error .notArray
  else .error .malformed

/-- Takes up a name of a header in the table that steps lead to, and gives the steps to its value.
-/
def enterTable (document : Document) (level : List Step) (name : String)
    (entries : List (String × Toml)) (isLast isArray : Bool) :
    Except Fault (Document × List Step) := do
  let document ←
    match Keyed.find? name entries with
    | some value => document.meetKnown level name value isLast isArray
    | none =>
      let implied := if isLast then document.implied else document.implied ++ [name]
      .ok ({ document with implied := implied }.putAt level name (made (isLast && isArray)))
  return (document, level ++ [.key name])

/-- Takes up a name of a header where steps lead, and gives the steps to its value. In an array of
tables the last table counts. -/
def enter (document : Document) (level : List Step) (name : String) (isLast isArray : Bool) :
    Except Fault (Document × List Step) :=
  match at? level document.root with
  | some (.table entries) => document.enterTable level name entries isLast isArray
  | some (.array items) =>
    match items.getLast? with
    | none => .error .cutShort
    | some (.table entries) =>
      let level := level ++ [.last]
      let document :=
        if Keyed.has name entries then document
        else document.putAt level name (made (isLast && isArray))
      .ok (document, level ++ [.key name])
    | some _ => .error .misplaced
  | some (.string text) => .error (if text.isEmpty then .cutShort else .misplaced)
  | _ => .error .misplaced

/-- Steps that lead into the last table of an array, for the header of an array of tables. -/
def intoLast (document : Document) (level : List Step) : Except Fault (List Step) :=
  match at? level document.root with
  | some (.array []) => .error .cutShort
  | some (.array _) => .ok (level ++ [.last])
  | some (.table _) => .ok level
  | some (.string text) => if text.isEmpty then .error .cutShort else .ok level
  | _ => .error .misplaced

/-- Takes up the names of a header. -/
def enterAll (isArray : Bool) :
    List String → List Step → Document → Except Fault Document
  | [], level, document => .ok { document with level := level }
  | name :: rest, level, document => do
    if name.isEmpty then throw .malformed
    let (document, level) ← document.enter level name rest.isEmpty isArray
    let level ← if isArray then document.intoLast level else .ok level
    enterAll isArray rest level document

/-- A name of a header without quotes. -/
def isPlainName (name : List Char) : Bool :=
  !name.isEmpty && name.all fun c => c.isAlphanum || c == '_' || c == '-'

/-- The first of some pieces between dots with as many after it as it takes to close its quotes, and
the pieces left. -/
def closeName : Nat → List Char → List (List Char) → Except Fault (List Char × List (List Char))
  | 0, _, _ => .error .malformed
  | tries + 1, written, rest =>
    let name := strip written
    if 1 < name.length && name.head? == name.getLast? then .ok (name, rest)
    else
      match rest with
      | next :: rest => closeName tries (written ++ '.' :: next) rest
      | [] => closeName tries written []

/-- The names of a header, from the pieces between dots. -/
def headerNames : Nat → List (List Char) → Except Fault (List String)
  | 0, _ => .ok []
  | _ + 1, [] => .ok []
  | fuel + 1, piece :: rest => do
    let name := strip piece
    if name.head? == some '"' || name.head? == some '\'' then
      let (quoted, rest) ← closeName (rest.length + 3) name rest
      return String.ofList (Text.cut 1 1 quoted) :: (← headerNames fuel rest)
    else if isPlainName name then
      return String.ofList name :: (← headerNames fuel rest)
    else throw .malformed

/-- Takes up a header, given without its first brackets. -/
def readHeader (document : Document) (text close : List Char) (isArray : Bool) :
    Except Fault Document := do
  let count := splitsBefore close false (quotePieces text)
  let pieces := Text.piecesUpTo count close text
  if pieces.length ≤ count || !(strip (pieces.getLastD [])).isEmpty then throw .malformed
  let dotted := Text.splitChars '.' (Text.joinChars close pieces.dropLast)
  enterAll isArray (← headerNames (dotted.length + 1) dotted) [] document

/-! ## Lines -/

/-- Whether a line closes a value that goes on. -/
def closes (text line : List Char) : Except Fault Bool :=
  match text with
  | '[' :: _ =>
    match line.getLast? with
    | some last => .ok (last == ']')
    | none => .error .cutShort
  | quote :: _ => .ok (3 ≤ line.length && (line.reverse.take 3).all (· == quote))
  | [] => .ok false

/-- Takes up a line of a value that goes on. -/
def readMore (document : Document) (pending : Pending) (line : List Char) :
    Except Fault Document := do
  let text := pending.text ++ line
  if ← closes text line then
    let value ← readValue text true
    return { document.putAt document.level pending.key value with pending := none }
  else return { document with pending := some (Pending.start pending.key text) }

/-- Takes up a line that starts something. -/
def readStart (document : Document) (line : List Char) : Except Fault Document :=
  match line with
  | ['['] => .error .malformed
  | '[' :: '[' :: rest => document.readHeader rest [']', ']'] true
  | '[' :: rest => document.readHeader rest [']'] false
  | '\x7b' :: _ =>
    if line.getLast? != some '\x7d' then .error .malformed
    else do
      let filled ← readLines readValue (← tableEntries line) document.current
      return { document with root := changeAt (fun _ => filled) document.level document.root }
  | _ =>
    if !line.contains '=' then .ok document
    else do
      let (filled, pending) ← readLine readValue line document.current
      return { document with
        root := changeAt (fun _ => filled) document.level document.root, pending := pending }

/-- Takes up a line. -/
def readLine (document : Document) (line : List Char) : Except Fault Document :=
  match document.pending with
  | none =>
    let line := strip line
    if line.isEmpty then .ok document else document.readStart line
  | some pending =>
    let isWhole := pending.joined || !pending.text.contains '\n'
    let line := if isWhole then strip line else line
    if line.isEmpty && pending.joined then .ok document else document.readMore pending line

end Document

/-- The top-level table of a document. -/
def parse (text : List Char) : Except Fault Toml := do
  return (← (← lines text).foldlM Document.readLine Document.start).root

end ModuleAtlas.Toml
