import ModuleAtlas.Session
import ModuleAtlas.Ignore.Collect

/-!
# Projects

A root directory with what is left out below it: what the ignore rules say, and everything inside
directories that hold installed packages. A project knows the files that patterns stand for and all
of its source files.
-/

namespace ModuleAtlas

/-- A project: its root, and what is left out of it. -/
structure Project where
  root : Path
  ignore : Ignore.RuleSet
  /-- The names of directories that hold installed packages. -/
  dependencyDirs : List String

namespace Project

/-- Whether a canonical path lies in a directory that holds installed packages. Inside the root only
the names below the root matter. -/
def isInstalled (project : Project) (path : Path) : Bool :=
  let names :=
    if Path.isWithin project.root path then path.names.drop project.root.names.length
    else path.parts
  names.any project.dependencyDirs.contains

/-- Whether a canonical path of a file may be part of a graph. -/
def admits (project : Project) (path : Path) : Bool :=
  !project.isInstalled path && !project.ignore.ignores path false

/-! ## Patterns -/

/-- The paths that a pattern stands for. A pattern without wildcards is a path. -/
def pathsOf (project : Project) (tree : FileTree) (pattern : String) : List Path :=
  if Glob.hasMagic pattern.toList then Glob.expand tree project.root pattern
  else [project.root.child pattern]

/-- The file at a path, unless it is left out. -/
def fileAt? (project : Project) (path : Path) : Task σ (Option File) := do
  if !(← Task.isFile path) then return none
  else
    let file ← Session.fileAt project.root path
    return if project.isInstalled file.path || project.ignore.ignores path false then none
      else some file

/-- The files that patterns stand for, by name, each once. -/
def expand (project : Project) (patterns : List String) : Task σ (List File) := do
  let tree ← Task.files
  let files ← (patterns.flatMap (project.pathsOf tree)).mapM project.fileAt?
  return File.sort (File.distinct (files.filterMap id))

/-! ## Source files -/

/-- The ending of files that only declare. -/
def declarationEnding : String := ".d.ts"

/-- Whether a name is that of a source file that does more than declare. -/
def isSourceName (name : String) : Bool :=
  Language.sourceEndings.contains (Path.splitName name).2 && !Text.endsWith declarationEnding name

mutual

/-- The paths of source files in an entry that stands at a path. A link that leads to a path that is
too long is an error. -/
def sourcesAt (project : Project) (tree : FileTree) (path : Path) : Entry → Except Path (List Path)
  | .directory entries =>
    if project.dependencyDirs.contains path.name || project.ignore.ignores path true then .ok []
    else sourcesAmong project tree path entries
  | .file _ _ | .link _ => do
    let isDirectory ← tree.passes Entry.isDirectory path
    return if !isDirectory && isSourceName path.name && !project.ignore.ignores path false then
      [path] else []

/-- The paths of source files in the entries of a directory. -/
def sourcesAmong (project : Project) (tree : FileTree) (directory : Path) :
    List (String × Entry) → Except Path (List Path)
  | [] => .ok []
  | (name, entry) :: rest => do
    let found ← sourcesAt project tree ⟨directory.anchor, directory.names ++ [name]⟩ entry
    return found ++ (← sourcesAmong project tree directory rest)

end

/-- The source files below the root, by name. Links to directories are not followed. -/
def sourceFiles (project : Project) : Task σ (List File) := do
  let tree ← Task.files
  match tree.lookup project.root with
  | .ok (_, .directory entries) =>
    match project.sourcesAmong tree project.root entries with
    | .ok paths => return File.sort (File.distinct (← paths.mapM (Session.fileAt project.root)))
    | .error long => Task.fail (.tooLong long)
  | _ =>
    Task.note (.unlistedDirectory project.root)
    return []

end Project

end ModuleAtlas
