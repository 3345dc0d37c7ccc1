import ModuleAtlas.Text.Basic

/-!
# Paths

File paths as an anchor and a list of names. Empty names and single dots disappear when a path is
read, two dots stay: they are names until the path is normalised.
-/

namespace ModuleAtlas

/-- What a path starts from: the place where it is used, the root, or the root written with exactly
two slashes, which is kept apart. -/
inductive Anchor where
  | here
  | root
  | doubleRoot
deriving Repr, DecidableEq, Inhabited

/-- A file path. -/
structure Path where
  anchor : Anchor
  names : List String
deriving Repr, DecidableEq, Inhabited

namespace Path

/-- The slashes that an anchor is written with. -/
def anchorText : Anchor → String
  | .here => ""
  | .root => "/"
  | .doubleRoot => "//"

/-- The anchor that the slashes at the start of a text stand for. -/
def anchorOf (text : List Char) : Anchor :=
  match text.takeWhile (· == '/') with
  | [] => .here
  | ['/', '/'] => .doubleRoot
  | _ => .root

/-- A name that a written path keeps. -/
def isKept (name : String) : Bool := name != "" && name != "."

/-- Reads a path. -/
def ofText (text : String) : Path :=
  ⟨anchorOf text.toList, (Text.split '/' text).filter isKept⟩

/-- The path from the root along the given names. -/
def ofRoot (names : List String) : Path := ⟨.root, names⟩

/-- The written path; the empty relative path is a dot. -/
def text (path : Path) : String :=
  match path.anchor, path.names with
  | .here, [] => "."
  | anchor, names => anchorText anchor ++ Text.join "/" names

/-- Whether the path starts at the root. -/
def isAbsolute (path : Path) : Bool := path.anchor != .here

/-- The second path seen from the first; an absolute second path is taken alone. -/
def append (base path : Path) : Path :=
  if path.isAbsolute then path else ⟨base.anchor, base.names ++ path.names⟩

/-- The path that a text names, seen from another path. -/
def child (base : Path) (text : String) : Path := base.append (ofText text)

/-- The path without its last name. -/
def parent (path : Path) : Path := ⟨path.anchor, path.names.dropLast⟩

/-- The last name, empty when there is none. -/
def name (path : Path) : String := path.names.getLast?.getD ""

/-- The last name split before its last dot. A dot at either end of the name does not count. -/
def splitName (name : String) : String × String :=
  match Text.cutLast? '.' name.toList with
  | some (stem, ending) =>
    if stem.isEmpty || ending.isEmpty then (name, "")
    else (String.ofList stem, String.ofList ('.' :: ending))
  | none => (name, "")

/-- The end of the last name from its last dot on. -/
def suffix (path : Path) : String := (splitName path.name).2

/-- The path with another last name; there must be one to replace. -/
def withName? (path : Path) (name : String) : Option Path :=
  if path.names.isEmpty then none else some ⟨path.anchor, path.names.dropLast ++ [name]⟩

/-- The path with another suffix; there must be a last name. -/
def withSuffix? (path : Path) (ending : String) : Option Path :=
  path.withName? ((splitName path.name).1 ++ ending)

/-- Names from the root after resolving single and double dots by the text alone, given the names
so far in reverse. -/
def normalFrom : List String → List String → List String
  | done, [] => done.reverse
  | done, name :: rest =>
    if name == ".." then normalFrom done.tail rest
    else if isKept name then normalFrom (name :: done) rest
    else normalFrom done rest

/-- Names from the root after resolving dots by the text alone. -/
def normalNames (names : List String) : List String := normalFrom [] names

/-- The names from the root of a path used in a directory. -/
def absoluteNames (directory : List String) (path : Path) : List String :=
  if path.isAbsolute then normalNames path.names else normalNames (directory ++ path.names)

/-- The names left of two lists after the names that both start with. -/
def dropCommon : List String → List String → List String × List String
  | a :: as, b :: bs => if a = b then dropCommon as bs else (a :: as, b :: bs)
  | as, bs => (as, bs)

/-- The names that lead from a directory to a path, both given from the root. -/
def stepsBetween (root path : List String) : List String :=
  let rest := dropCommon root path
  rest.1.map (fun _ => "..") ++ rest.2

/-- The written way from a root to a path: one `..` for each step up, or a dot for no step. -/
def relativeText (root path : List String) : String :=
  match stepsBetween root path with
  | [] => "."
  | steps => Text.join "/" steps

/-- Whether a path is a directory or lies below it. -/
def isWithin (directory path : Path) : Bool :=
  path.anchor == directory.anchor && directory.names.isPrefixOf path.names

/-- Whether a name of a path holds a null character, which no file system allows. -/
def hasNull (path : Path) : Bool := path.names.any fun name => name.toList.contains '\x00'

/-- The names of a path with its anchor as the first one. -/
def parts (path : Path) : List String :=
  match path.anchor with
  | .here => path.names
  | anchor => anchorText anchor :: path.names

/-- The order of lists of names, name by name. -/
def namesLe : List String → List String → Bool
  | [], _ => true
  | _ :: _, [] => false
  | a :: as, b :: bs => if a = b then namesLe as bs else decide (a ≤ b)

/-- The order of paths, name by name. -/
def le (a b : Path) : Bool := namesLe a.parts b.parts

end Path

end ModuleAtlas
