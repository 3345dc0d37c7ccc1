import ModuleAtlas.Path
import ModuleAtlas.Syntax
import ModuleAtlas.Text.Utf8

/-!
# Trees of files

A file system as a value: regular files with their bytes and the syntax tree of their text,
directories, and symbolic links. Looking a path up follows links, at most forty on the way;
resolving a path replaces every link by what it points to, whether or not the result exists. Names
and texts of paths have a greatest length: nothing is known about what a longer one leads to.

Access rights, owners and times are left out: every file and directory can be read and written.
-/

namespace ModuleAtlas

/-- An entry of a file system. -/
inductive Entry where
  | file (bytes : ByteArray) (tree : Option Node)
  | directory (entries : List (String × Entry))
  | link (target : String)
deriving Inhabited

namespace Entry

/-- Whether an entry is a regular file. -/
def isFile : Entry → Bool
  | .file _ _ => true
  | _ => false

/-- Whether an entry is a directory. -/
def isDirectory : Entry → Bool
  | .directory _ => true
  | _ => false

/-- The entry of a name in a directory. -/
def child? (name : String) : Entry → Option Entry
  | .directory entries => entries.lookup name
  | _ => none

/-- The entry that a list of names leads to without following links. -/
def at? : List String → Entry → Option Entry
  | [], entry => some entry
  | name :: rest, entry => (entry.child? name).bind (at? rest)

/-- The entries of a directory with the one of a name replaced, added or removed. -/
def alter (name : String) (change : Option Entry → Option Entry) :
    List (String × Entry) → List (String × Entry)
  | [] =>
    match change none with
    | some entry => [(name, entry)]
    | none => []
  | entry :: rest =>
    if entry.1 == name then
      match change (some entry.2) with
      | some changed => (name, changed) :: rest
      | none => rest
    else entry :: alter name change rest

/-- The entry with what a list of names leads to changed. Directories on the way are made. -/
def changeAt (change : Option Entry → Option Entry) : List String → Option Entry → Option Entry
  | [], entry => change entry
  | name :: rest, entry =>
    match entry with
    | some (.directory entries) =>
      some (.directory (alter name (changeAt change rest) entries))
    | some other => some other
    | none =>
      match changeAt change rest none with
      | some made => some (.directory [(name, made)])
      | none => none

mutual

/-- The number of links in an entry. -/
def linkCount : Entry → Nat
  | .file _ _ => 0
  | .link _ => 1
  | .directory entries => linkCounts entries

/-- The number of links in the entries of a directory. -/
def linkCounts : List (String × Entry) → Nat
  | [] => 0
  | (_, entry) :: rest => linkCount entry + linkCounts rest

end

mutual

/-- The number of nested directories. -/
def depth : Entry → Nat
  | .directory entries => depths entries + 1
  | _ => 0

/-- The number of nested directories below the entries of a directory. -/
def depths : List (String × Entry) → Nat
  | [] => 0
  | (_, entry) :: rest => max (depth entry) (depths rest)

end

mutual

/-- The number of files and directories. -/
def count : Entry → Nat
  | .directory entries => counts entries + 1
  | _ => 1

/-- The number of files and directories among the entries of a directory. -/
def counts : List (String × Entry) → Nat
  | [] => 0
  | (_, entry) :: rest => count entry + counts rest

end

mutual

/-- The syntax trees of all files. -/
def trees : Entry → List Node
  | .file _ tree => tree.toList
  | .link _ => []
  | .directory entries => treesOf entries

/-- The syntax trees of all files among the entries of a directory. -/
def treesOf : List (String × Entry) → List Node
  | [] => []
  | (_, entry) :: rest => trees entry ++ treesOf rest

end

end Entry

/-- A file system and the directory that relative paths start from. -/
structure FileTree where
  root : Entry
  workingDirectory : List String
deriving Inhabited

namespace FileTree

/-- Why a path leads nowhere. -/
inductive LookupFault where
  | missing
  | notDirectory
  | tooManyLinks
  | tooLong
  | nullCharacter
deriving Repr, DecidableEq

/-- The greatest number of bytes in a name. -/
def nameLimit : Nat := 255

/-- The greatest number of bytes in the text of a path. -/
def textLimit : Nat := 4095

/-- An entry together with the names that lead to it without any link. -/
abbrev Located := List String × Entry

/-- Goes along names from a directory given by its reversed names. At a link, the names of its
target and the names left are handed on together with the place they start from. -/
def advance (tree : FileTree) (onLink : List String → List String → Except LookupFault Located) :
    List String → List String → Except LookupFault Located
  | here, [] =>
    match tree.root.at? here.reverse with
    | some entry => .ok (here.reverse, entry)
    | none => .error .missing
  | here, name :: rest =>
    match tree.root.at? here.reverse with
    | some (.directory entries) =>
      if name == ".." then advance tree onLink here.tail rest
      else if !Path.isKept name then advance tree onLink here rest
      else if nameLimit < name.utf8ByteSize then .error .tooLong
      else
        match entries.lookup name with
        | none => .error .missing
        | some (.link target) =>
          let path := Path.ofText target
          if target.isEmpty then .error .missing
          else onLink (if path.isAbsolute then [] else here) (path.names ++ rest)
        | some _ => advance tree onLink (name :: here) rest
    | some _ => .error .notDirectory
    | none => .error .missing

/-- Goes along names and follows at most the given number of links. -/
def follow (tree : FileTree) : Nat → List String → List String → Except LookupFault Located
  | 0 => tree.advance fun _ _ => .error .tooManyLinks
  | links + 1 => tree.advance (follow tree links)

/-- The number of links that a path may lead through. -/
def linkLimit : Nat := 40

/-- The names from the root that a path stands for, dots included. -/
def fullNames (tree : FileTree) (path : Path) : List String :=
  if path.isAbsolute then path.names else tree.workingDirectory ++ path.names

/-- What a path leads to, following links. -/
def lookup (tree : FileTree) (path : Path) : Except LookupFault Located :=
  if path.hasNull then .error .nullCharacter
  else if textLimit < path.text.utf8ByteSize then .error .tooLong
  else tree.follow linkLimit [] (tree.fullNames path)

/-- What a path leads to, following all links but a last one. -/
def lookupLink (tree : FileTree) (path : Path) : Option Entry :=
  match path.names.getLast? with
  | none => some tree.root
  | some ".." => (tree.lookup path).toOption.map (·.2)
  | some name =>
    match tree.lookup path.parent with
    | .ok (_, directory) => directory.child? name
    | .error _ => none

/-- Whether a path leads to a regular file. -/
def isFile (tree : FileTree) (path : Path) : Bool :=
  match tree.lookup path with
  | .ok (_, entry) => entry.isFile
  | .error _ => false

/-- Whether a path leads to a directory. -/
def isDirectory (tree : FileTree) (path : Path) : Bool :=
  match tree.lookup path with
  | .ok (_, entry) => entry.isDirectory
  | .error _ => false

/-- Whether a path leads to an entry that passes a test. A path that leads nowhere does not; one
that is too long is an error. -/
def passes (tree : FileTree) (test : Entry → Bool) (path : Path) : Except Path Bool :=
  match tree.lookup path with
  | .ok (_, entry) => .ok (test entry)
  | .error .tooLong => .error path
  | .error _ => .ok false

/-- Whether a path leads to something. -/
def isPresent (tree : FileTree) (path : Path) : Bool := (tree.lookup path).toOption.isSome

/-- Whether a path names a link. -/
def isLink (tree : FileTree) (path : Path) : Bool :=
  match tree.lookupLink path with
  | some (.link _) => true
  | _ => false

/-- The bytes of a regular file. -/
def bytes? (tree : FileTree) (path : Path) : Option ByteArray :=
  match tree.lookup path with
  | .ok (_, .file bytes _) => some bytes
  | _ => none

/-- The text of a regular file, line ends unified, if its bytes are text. -/
def text? (tree : FileTree) (path : Path) : Option (List Char) := do
  let bytes ← tree.bytes? path
  let text ← Text.Utf8.decode? bytes.toList
  return Text.unifyNewlines text.toList

/-- The names in a directory, in increasing order. -/
def list? (tree : FileTree) (path : Path) : Option (List String) :=
  match tree.lookup path with
  | .ok (_, .directory entries) => some (Text.sortStrings (entries.map (·.1)))
  | _ => none

/-- Replaces links along names, starting from the reversed names of a resolved directory. A link
that is met while it is itself being resolved ends the work: the names so far and the names left
are the answer then, with `false`. -/
def resolveAlong (tree : FileTree)
    (onLink : List String → List String → List String → List String × Bool) :
    List String → List String → List String × Bool
  | here, [] => (here, true)
  | here, name :: rest =>
    if name == ".." then resolveAlong tree onLink here.tail rest
    else if !Path.isKept name then resolveAlong tree onLink here rest
    else
      match tree.root.at? (name :: here).reverse with
      | some (.link target) =>
        let path := Path.ofText target
        let (reached, complete) :=
          onLink (name :: here) (if path.isAbsolute then [] else here) path.names
        if complete then resolveAlong tree onLink reached rest
        else (rest.reverse ++ reached, false)
      | _ => resolveAlong tree onLink (name :: here) rest

/-- Replaces links along names, where the links in `pending` are being resolved already. -/
def resolveWith (tree : FileTree) :
    Nat → List (List String) → List String → List String → List String × Bool
  | 0, _ => fun here rest => (rest.reverse ++ here, false)
  | fuel + 1, pending =>
    tree.resolveAlong fun link here rest =>
      if pending.contains link then (link, false)
      else resolveWith tree fuel (link :: pending) here rest

/-- The path without links and dots that a path stands for, or `none` when its links form a loop.
What does not exist is kept as it is written. -/
def resolve? (tree : FileTree) (path : Path) : Option Path :=
  let (names, _) :=
    tree.resolveWith (tree.root.linkCount + 2) [] [] (tree.fullNames path)
  let resolved := Path.ofRoot (Path.normalNames names.reverse)
  match tree.lookup resolved with
  | .error .tooManyLinks => none
  | _ => some resolved

/-- The file tree with an entry at the given names. -/
def put (tree : FileTree) (names : List String) (entry : Entry) : FileTree :=
  match Entry.changeAt (fun _ => some entry) names (some tree.root) with
  | some root => { tree with root := root }
  | none => tree

/-- The file tree with a directory at the given names, unless something is there. -/
def makeDirectory (tree : FileTree) (names : List String) : FileTree :=
  match Entry.changeAt (fun entry => some (entry.getD (.directory []))) names (some tree.root) with
  | some root => { tree with root := root }
  | none => tree

/-- The file tree without what is at the given names. -/
def remove (tree : FileTree) (names : List String) : FileTree :=
  match Entry.changeAt (fun _ => none) names (some tree.root) with
  | some root => { tree with root := root }
  | none => tree

/-- The written way from a directory to a path. -/
def relativeText (tree : FileTree) (root path : Path) : String :=
  Path.relativeText (root.absoluteNames tree.workingDirectory)
    (path.absoluteNames tree.workingDirectory)

end FileTree

/-!
## Writing files

A file is written at the end of the links of its path. Its directory has to be there; directories
can be made before, one after the other from the outermost on.
-/

namespace FileTree

/-- Why a file cannot be written. -/
inductive WriteFault where
  | missing
  | notDirectory
  | isDirectory
  | tooManyLinks
  | tooLong
deriving Repr, DecidableEq

/-- Where the last name of a path without a link would be put. -/
def placeOf (tree : FileTree) (path : Path) : Except WriteFault (List String) :=
  match tree.lookup path.parent with
  | .ok (names, .directory _) => .ok (names ++ [path.name])
  | .ok _ => .error .notDirectory
  | .error _ => .error .missing

/-- Goes along names from a directory given by its reversed names, to the place of a file: the last
name may be missing there. At a link, the names of its target and the names left are handed on
together with the place they start from. -/
def placeAlong (tree : FileTree)
    (onLink : List String → List String → Except WriteFault (List String)) :
    List String → List String → Except WriteFault (List String)
  | here, [] =>
    match tree.root.at? here.reverse with
    | some (.directory _) => .error .isDirectory
    | some _ => .ok here.reverse
    | none => .error .missing
  | here, name :: rest =>
    match tree.root.at? here.reverse with
    | some (.directory entries) =>
      if name == ".." then placeAlong tree onLink here.tail rest
      else if !Path.isKept name then placeAlong tree onLink here rest
      else if nameLimit < name.utf8ByteSize then .error .tooLong
      else
        match entries.lookup name with
        | none => if rest.isEmpty then .ok (name :: here).reverse else .error .missing
        | some (.link target) =>
          let path := Path.ofText target
          if target.isEmpty then .error .missing
          else onLink (if path.isAbsolute then [] else here) (path.names ++ rest)
        | some _ => placeAlong tree onLink (name :: here) rest
    | some _ => .error .notDirectory
    | none => .error .missing

/-- Goes along names to the place of a file and follows at most the given number of links. -/
def placeFrom (tree : FileTree) : Nat → List String → List String → Except WriteFault (List String)
  | 0 => tree.placeAlong fun _ _ => .error .tooManyLinks
  | links + 1 => tree.placeAlong (placeFrom tree links)

/-- Where the bytes of a file are put. -/
def writePlace (tree : FileTree) (path : Path) : Except WriteFault (List String) :=
  if path.hasNull then .error .missing
  else if textLimit < path.text.utf8ByteSize then .error .tooLong
  else tree.placeFrom linkLimit [] (tree.fullNames path)

/-- The file tree after a file has been written. -/
def write (tree : FileTree) (path : Path) (bytes : ByteArray) : Except WriteFault FileTree := do
  return tree.put (← tree.writePlace path) (.file bytes none)

/-- The file tree with a directory at a path whose own directory is there. A link that leads nowhere
is in the way. -/
def addDirectory? (tree : FileTree) (path : Path) : Option FileTree :=
  match tree.lookup path with
  | .ok (_, .directory _) => some tree
  | .ok _ => none
  | .error .missing =>
    if tree.isLink path then none
    else
      match tree.placeOf path with
      | .ok names => some (tree.put names (.directory []))
      | .error _ => none
  | .error _ => none

/-- The directories on the way to a path, from the outermost on, and the path itself. -/
def waysTo (path : Path) : List Path :=
  (List.range path.names.length).map fun count => ⟨path.anchor, path.names.take (count + 1)⟩

/-- The file tree with a directory at a path and with those on the way to it. -/
def makeDirectories? (tree : FileTree) (path : Path) : Option FileTree :=
  (waysTo path).foldlM addDirectory? tree

end FileTree

end ModuleAtlas
