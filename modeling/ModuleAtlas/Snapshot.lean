import ModuleAtlas.FileTree
import ModuleAtlas.Json.Value

/-!
# Snapshots

File trees given as JSON. Every file is named by its path and has a text, bytes, a link target or
the mark of a directory. A source file comes with its syntax tree: each node is a list of its kind,
whether it is named, the field it fills, its first byte, the byte after its last one and its
children.
-/

namespace ModuleAtlas.Snapshot

/-- For each byte the number of the line that it lies in, and the number of the last line. -/
def lineNumbers (bytes : ByteArray) : Array Nat :=
  let (numbers, last) := bytes.toList.foldl
    (fun (numbers, line) (byte : UInt8) =>
      ((numbers.push line : Array Nat), if byte == 10 then line + 1 else line))
    (#[], 1)
  numbers.push last

/-- A whole number, zero for anything else. -/
def number : Json → Nat
  | .int value => value.toNat
  | _ => 0

/-- A node over the bytes of a file, without children. -/
def leaf (bytes : ByteArray) (lines : Array Nat) (kind : String) (named field start stop : Json)
    (children : List Node) : Node :=
  let first := number start
  let text := Text.Utf8.decodeLossy (bytes.extract first (number stop)).toList
  .mk kind (named == .int 1) field.text? first (lines.getD first 1) text children

mutual

/-- The syntax tree that a list describes. -/
def node (bytes : ByteArray) (lines : Array Nat) : Json → Node
  | .array [.string kind, named, field, start, stop] =>
    leaf bytes lines kind named field start stop []
  | .array [.string kind, named, field, start, stop, .array children] =>
    leaf bytes lines kind named field start stop (nodes bytes lines children)
  | _ => .mk "" false none 0 1 "" []

/-- The syntax trees that lists describe. -/
def nodes (bytes : ByteArray) (lines : Array Nat) : List Json → List Node
  | [] => []
  | child :: rest => node bytes lines child :: nodes bytes lines rest

end

/-- A file with the syntax tree that belongs to it. -/
def fileEntry (bytes : ByteArray) (tree : Option Json) : Entry :=
  .file bytes (tree.map (node bytes (lineNumbers bytes)))

/-- The entry that a value describes. -/
def entry? (value : Json) : Option Entry :=
  match value with
  | .string text => some (.file text.toUTF8 none)
  | _ =>
    match value.get? "text", value.get? "b64", value.get? "link", value.get? "dir" with
    | some (.string text), _, _, _ => some (fileEntry text.toUTF8 (value.get? "tree"))
    | _, some (.string text), _, _ =>
      some (fileEntry (Text.Base64.decode text) (value.get? "tree"))
    | _, _, some (.string target), _ => some (.link target)
    | _, _, _, some _ => some (.directory [])
    | _, _, _, _ => none

/-- The names of a path after links have been replaced. -/
def placeOf (tree : FileTree) (path : Path) : List String := ((tree.resolve? path).getD path).names

/-- The file tree with an entry at a path, the directories on the way to it included. -/
def add (tree : FileTree) (path : Path) (entry : Entry) : FileTree :=
  let parent := placeOf tree path.parent
  let tree := tree.makeDirectory parent
  match entry with
  | .link target => tree.put (parent ++ [path.name]) (.link target)
  | .directory _ => tree.makeDirectory (placeOf tree path)
  | entry => tree.put (placeOf tree path) entry

/-- The file tree with the files that a value names seen from a directory, added in the order of
their names. -/
def addAll (tree : FileTree) (directory : Path) (files : Json) : FileTree :=
  match files with
  | .object entries =>
    (entries.mergeSort fun a b => decide (a.1 ≤ b.1)).foldl
      (fun tree (name, value) =>
        match entry? value with
        | some entry => add tree (directory.child name) entry
        | none => tree)
      tree
  | _ => tree

/-- The file tree without what a path names; a link is removed and not followed. -/
def remove (tree : FileTree) (path : Path) : FileTree :=
  tree.remove (placeOf tree path.parent ++ [path.name])

end ModuleAtlas.Snapshot
