import ModuleAtlas.Ignore.RuleSet

/-!
# Collecting ignore files

The ignore files that matter for a set of directories: those of the directories above the root, of
the root, and of every directory between the root and one that is searched. They come from the
coarsest scope to the finest, so the last matching rule is the closest one.
-/

namespace ModuleAtlas.Ignore

/-- The name of ignore files. -/
def fileName : String := ".gitignore"

/-- The directories from a path up to, and with, the root, if the path lies in it. -/
def upTo (root : Path) (path : Path) : List Path :=
  (List.range (path.names.length + 1 - root.names.length)).map fun steps =>
    ⟨path.anchor, path.names.take (path.names.length - steps)⟩

/-- The directories above a path, the highest first. -/
def above (path : Path) : List Path :=
  (List.range path.names.length).map fun length => ⟨path.anchor, path.names.take length⟩

/-- The order from the coarsest scope to the finest: by the number of names, then by the text. -/
def scopeLe (a b : Path) : Bool :=
  if a.names.length = b.names.length then decide (a.text ≤ b.text)
  else a.names.length < b.names.length

/-- The directories whose ignore files matter, from the coarsest scope to the finest. -/
def scopes (root : Path) (searched : List Path) : List Path :=
  let inside := searched.flatMap fun path => if Path.isWithin root path then upTo root path else []
  above root ++ ((root :: inside).eraseDups).mergeSort scopeLe

/-- The ignore files that matter for a set of directories. -/
def findFiles (searched : List Path) (root : Path) : Task σ (List Path) := do
  let resolved ← searched.mapM Task.resolvePath
  ((scopes root resolved).map (·.child fileName)).filterM Task.isFile

/-- The rules of the lines of an ignore file in a directory. -/
def rulesOf (origin : Path) (text : List Char) : List Rule :=
  ((Text.linesFrom [] text).map fun line => Text.strip (String.ofList line)).filterMap fun line =>
    if line.isEmpty || Text.startsWith "#" line then none else some ⟨line, origin⟩

/-- The rules of an ignore file. One whose bytes are no text has none, and this is told. -/
def readRules (file : Path) : Task σ (List Rule) := do
  match (← Task.files).text? file with
  | some text => return rulesOf file.parent text
  | none =>
    Task.note (.unreadableIgnoreFile file)
    return []

/-- Collects and compiles every ignore file that matters for a set of directories. -/
def collect (searched : List Path) (root : Path) (extra : List String) : Task σ RuleSet := do
  let root ← Task.resolvePath root
  let files ← findFiles searched root
  let rules ← files.mapM readRules
  match RuleSet.compile rules.flatten root extra with
  | .ok set => return set
  | .error fault => Task.fail (.ignorePattern fault)

/-- The part of a pattern before its first name with a wildcard. -/
def staticPart (pattern : String) : String :=
  let names := Text.split '/' pattern
  let plain := fun (name : String) => !Glob.hasMagic name.toList
  let fixed := names.takeWhile plain
  if fixed.isEmpty then "." else if fixed = [""] then "/" else Text.join "/" fixed

/-- The directory in which the expansion of a pattern starts. -/
def searchDirectory (root : Path) (pattern : String) : Task σ Path := do
  let candidate := root.child (staticPart pattern)
  if Glob.hasMagic pattern.toList then return candidate
  else return if ← Task.isFile candidate then candidate.parent else candidate

/-- The directories in which the expansion of patterns starts. -/
def searchDirectories (globs : List String) (root : Path) : Task σ (List Path) :=
  globs.mapM (searchDirectory root)

end ModuleAtlas.Ignore
