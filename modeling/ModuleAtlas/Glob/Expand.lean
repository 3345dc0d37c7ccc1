import ModuleAtlas.FileTree
import ModuleAtlas.Keyed
import ModuleAtlas.Regex.Match

/-!
# Paths that patterns stand for

The expansion of a pattern in a file tree, and the stricter patterns of workspaces.
-/

namespace ModuleAtlas.Glob

open Regex (Pattern CharSet Atom)

/-!
## Wildcards

File name patterns: a star stands for any text, a question mark for one character, and brackets for
one character of a set. A bracket that is never closed is an ordinary character.
-/

/-- Whether a text has a character that makes it a pattern. -/
def hasMagic (text : List Char) : Bool := text.any fun c => c == '*' || c == '?' || c == '['

/-- Any one character. -/
def anyChar : Pattern := .one ⟨true, []⟩

/-- Any text. -/
def anyText : Pattern := .loop anyChar 0 none .greedy

/-- A pattern that nothing matches. -/
def nothing : Pattern := .one ⟨false, []⟩

/-- The content of brackets cut at the hyphens that make ranges. After a cut the next two
characters are never cut at; `held` characters are still protected, and `current` is the piece so
far in reverse. -/
def cutRanges : Nat → List Char → List Char → List (List Char)
  | _, current, [] => if current.isEmpty then [] else [current.reverse]
  | held + 1, current, c :: rest => cutRanges held (c :: current) rest
  | 0, current, c :: rest =>
    if c = '-' then current.reverse :: cutRanges 2 [] rest else cutRanges 0 (c :: current) rest

/-- Joins neighbouring pieces whose range is empty, from right to left, leaving its ends out. -/
def dropEmptyRanges : List (List Char) → List (List Char)
  | [] => []
  | piece :: rest =>
    match dropEmptyRanges rest with
    | [] => [piece]
    | next :: others =>
      match piece.getLast?, next with
      | some low, high :: after =>
        if low.toNat > high.toNat then (piece.dropLast ++ after) :: others
        else piece :: next :: others
      | _, _ => piece :: next :: others

/-- The members of a set from the pieces between its ranges; `low` is the start of the range that
leads into the first piece. -/
def rangeAtoms : Option Char → List (List Char) → List Atom
  | _, [] => []
  | low, piece :: rest =>
    let opened :=
      match low, piece with
      | some a, b :: _ => [Atom.range a b]
      | _, _ => []
    let body := if low.isSome then piece.drop 1 else piece
    let plain := if rest.isEmpty then body else body.dropLast
    opened ++ plain.map (fun c => Atom.range c c) ++ rangeAtoms piece.getLast? rest

/-- The pattern of a bracket expression with the given content. -/
def bracket (content : List Char) : Pattern :=
  let pieces :=
    if content.contains '-' then
      let cut := cutRanges (if content.head? == some '!' then 2 else 1) [] content
      let cut :=
        if content.getLast? == some '-' && total (cut.map fun p => p.length + 1) == content.length
        then cut.dropLast ++ (cut.getLast?.map fun p => p ++ ['-']).toList
        else cut
      dropEmptyRanges cut
    else [content]
  match pieces with
  | [] => nothing
  | [[]] => nothing
  | [['!']] => anyChar
  | ('!' :: first) :: rest => .one ⟨true, rangeAtoms none (first :: rest)⟩
  | pieces => .one ⟨false, rangeAtoms none pieces⟩

/-- The content of brackets whose opening bracket has been read, and the text after them. A closing
bracket in the first place, after an exclamation mark if there is one, belongs to the content. -/
def bracketContent? (text : List Char) : Option (List Char × List Char) :=
  let (start, rest) :=
    match text with
    | '!' :: ']' :: rest => (['!', ']'], rest)
    | '!' :: rest => (['!'], rest)
    | ']' :: rest => ([']'], rest)
    | rest => ([], rest)
  match Text.cutFirst? ']' rest with
  | some (content, after) => some (start ++ content, after)
  | none => none

/-- The patterns of the characters of a wildcard. -/
def pieces : Nat → List Char → List Pattern
  | 0, _ => []
  | _ + 1, [] => []
  | fuel + 1, c :: rest =>
    match c with
    | '*' => anyText :: pieces fuel (rest.dropWhile (· == '*'))
    | '?' => anyChar :: pieces fuel rest
    | '[' =>
      match bracketContent? rest with
      | some (content, after) => bracket content :: pieces fuel after
      | none => .one (.single '[') :: pieces fuel rest
    | c => .one (.single c) :: pieces fuel rest

/-- The pattern of a wildcard. -/
def wildcard (text : List Char) : Pattern :=
  .append (Pattern.sequence (pieces (text.length + 1) text)) (.anchor .textEnd)

/-- Whether a wildcard matches a whole name. -/
def matchesName (pattern : List Char) (name : String) : Bool := (wildcard pattern).startsText name

/-!
## Glob expansion

The paths in a file tree that a pattern stands for. Each name between slashes is matched against the
names in a directory; a name of two stars stands for any number of directories, links to directories
included, and for what comes before it alone, and hidden names are names like all others. A pattern
without wildcards stands for itself if it exists.
-/

/-- The text of a pattern before its last slash and after it. Slashes at the end of the first part
are dropped unless there is nothing else in it. -/
def splitLast (text : List Char) : List Char × List Char :=
  let last := (text.reverse.takeWhile (· != '/')).reverse
  let start := text.take (text.length - last.length)
  if start.all (· == '/') then (start, last) else (Text.trimEnd (· == '/') start, last)

/-- Two path texts joined by one slash, the second alone when it starts with one. -/
def joinText (base text : List Char) : List Char :=
  if text.head? == some '/' then text
  else if base.isEmpty || base.getLast? == some '/' then base ++ text
  else base ++ '/' :: text

/-- A path text seen from a directory, where either may be empty. -/
def seenFrom (base text : List Char) : List Char :=
  if base.isEmpty then text else if text.isEmpty then base else joinText base text

/-- The path that a text stands for. -/
def pathOf (text : List Char) : Path := Path.ofText (String.ofList text)

/-- The names in a directory, only those of directories on demand. -/
def namesIn (tree : FileTree) (directory : List Char) (directoriesOnly : Bool) :
    List (List Char) :=
  let path := pathOf directory
  let names := (tree.list? path).getD []
  let names :=
    if directoriesOnly then names.filter fun name => tree.isDirectory (path.child name) else names
  names.map String.toList

/-- Everything below a directory, as path texts seen from it. -/
def below (tree : FileTree) (directoriesOnly : Bool) : Nat → List Char → List (List Char)
  | 0, _ => []
  | fuel + 1, directory =>
    (namesIn tree directory directoriesOnly).flatMap fun name =>
      name :: (below tree directoriesOnly fuel (seenFrom directory name)).map (joinText name)

/-- A bound on the length of the ways below a directory: links may be met only so often. -/
def depthBound (tree : FileTree) : Nat := (FileTree.linkLimit + 1) * (tree.root.depth + 1) + 1

/-- Whether a path text leads to something, be it a link that leads nowhere. A dot as the last name
needs a directory before it. -/
def leadsSomewhere (tree : FileTree) (text : List Char) : Bool :=
  if (splitLast text).2 == ['.'] then tree.isDirectory (pathOf text)
  else (tree.lookupLink (pathOf text)).isSome

/-- The texts that match the last part of a pattern in a directory. -/
def lastMatches (tree : FileTree) (directory last : List Char) (directoriesOnly : Bool) :
    List (List Char) :=
  if !hasMagic last then
    if last.isEmpty then if tree.isDirectory (pathOf directory) then [[]] else []
    else if leadsSomewhere tree (seenFrom directory last) then [last]
    else []
  else if last == ['*', '*'] then
    [] :: below tree directoriesOnly (depthBound tree) directory
  else
    (namesIn tree directory directoriesOnly).filter fun name =>
      matchesName last (String.ofList name)

/-- The path texts that match a pattern, seen from a directory. -/
def matching (tree : FileTree) (root : List Char) : Nat → List Char → Bool → List (List Char)
  | 0, _, _ => []
  | fuel + 1, pattern, directoriesOnly =>
    let (start, last) := splitLast pattern
    if !hasMagic pattern then
      if last.isEmpty then
        if tree.isDirectory (pathOf (seenFrom root start)) then [pattern] else []
      else if leadsSomewhere tree (seenFrom root pattern) then [pattern]
      else []
    else if start.isEmpty then lastMatches tree root last directoriesOnly
    else
      let directories :=
        if start != pattern && hasMagic start then matching tree root fuel start true
        else [start]
      directories.flatMap fun directory =>
        (lastMatches tree (seenFrom root directory) last directoriesOnly).map (joinText directory)

/-- The paths in a file tree that a pattern stands for, seen from a directory. -/
def expand (tree : FileTree) (root : Path) (pattern : String) : List Path :=
  let text := pattern.toList
  let base := if (Path.ofText pattern).isAbsolute then [] else root.text.toList
  ((matching tree base (text.length + 1) text false).filter (!·.isEmpty)).map fun found =>
    root.append (pathOf found)

/-!
## Directory patterns

The stricter patterns that name the members of a workspace. They must be relative and not empty,
two stars must stand alone between slashes, and they never go through linked directories.
-/

/-- Why a text is no pattern for the members of a workspace. -/
inductive MemberFault where
  | empty
  | noName
  | absolute
  | starsInName
  | tooLong (path : Path)
deriving Repr, DecidableEq

/-- One part of a pattern for members. -/
inductive Selector where
  | name (text : String)
  | wildcard (text : List Char)
  | anyDirectories
deriving Repr, DecidableEq

namespace Selector

/-- The selector that a name of a pattern stands for. -/
def ofName (name : String) : Except MemberFault Selector :=
  let text := name.toList
  if name == "**" then .ok .anyDirectories
  else if Text.containsChars ['*', '*'] text then .error .starsInName
  else if hasMagic text then .ok (.wildcard text)
  else .ok (.name name)

/-- The selectors of a pattern. -/
def parse (pattern : String) : Except MemberFault (List Selector) :=
  let path := Path.ofText pattern
  if pattern.isEmpty then .error .empty
  else if path.isAbsolute then .error .absolute
  else if path.names.isEmpty then .error .noName
  else path.names.mapM ofName

end Selector

/-- A directory and the directories below it, without following links. -/
def directoriesBelow (tree : FileTree) : Nat → Path → List Path
  | 0, path => [path]
  | fuel + 1, path =>
    let names := (tree.list? path).getD []
    let inner := names.filter fun name =>
      tree.isDirectory (path.child name) && !tree.isLink (path.child name)
    path :: inner.flatMap fun name =>
      directoriesBelow tree fuel ⟨path.anchor, path.names ++ [name]⟩

/-- The paths that selectors choose from a directory. A path that is too long is an error, also at
the end of a link that is not chosen. -/
def select (tree : FileTree) : List Selector → Path → Except Path (List Path)
  | [], path => .ok [path]
  | selector :: rest, path => do
    let extend := fun (name : String) => (⟨path.anchor, path.names ++ [name]⟩ : Path)
    let isAdmitted := fun entry => rest.isEmpty || Entry.isDirectory entry
    match selector with
    | .name name =>
      if ← tree.passes isAdmitted (extend name) then select tree rest (extend name)
      else return []
    | .wildcard pattern =>
      let names := (tree.list? path).getD []
      let admitted ← names.filterM fun name =>
        if rest.isEmpty then .ok true else tree.passes Entry.isDirectory (extend name)
      let found ← (admitted.filter (matchesName pattern)).mapM fun name =>
        select tree rest (extend name)
      return found.flatten
    | .anyDirectories =>
      let found ← (directoriesBelow tree (tree.root.depth + 1) path).mapM (select tree rest)
      return found.flatten.eraseDups

/-- The directories among the paths below a directory that a pattern chooses, in increasing order.
-/
def members (tree : FileTree) (root : Path) (pattern : String) :
    Except MemberFault (List Path) := do
  let selectors ← Selector.parse pattern
  if tree.isDirectory root then
    let chosen ← (select tree selectors root).mapError MemberFault.tooLong
    let directories ← (chosen.filterM (tree.passes Entry.isDirectory)).mapError MemberFault.tooLong
    return directories.mergeSort Path.le
  else return []

end ModuleAtlas.Glob
