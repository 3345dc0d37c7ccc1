import ModuleAtlas.Task
import ModuleAtlas.Json.Comments
import ModuleAtlas.Yaml.Document
import ModuleAtlas.Resolve.Specifier
import ModuleAtlas.Resolve.Aliases
import ModuleAtlas.Resolve.Conditions

/-!
# Module resolution

From an import specifier to a file. A path is tried as it is written, with the usual endings, with
the source ending in place of a compiled one, and as a directory. Any other specifier goes through
the path aliases of the nearest compiler options, then the packages of the workspace, then the
installed packages. Manifests, aliases and the members of the workspace are read once.
-/

namespace ModuleAtlas

/-- What a resolver has found out so far in a project. -/
structure Resolver where
  root : Path
  /-- Manifests by path; `none` stands for one that is missing or cannot be used. -/
  manifests : List (Path × Option Json)
  /-- The member directories of the workspace. -/
  members : Option (List Path)
  /-- The aliases in effect in directories. -/
  aliases : List (Path × Option Resolve.Aliases)
deriving Inhabited

/-- The ways in which a specifier may be resolved. -/
inductive Strategy where
  | path
  | alias
  | workspace
  | installed
deriving Repr, DecidableEq

/-- The name of a way to resolve. -/
def Strategy.name : Strategy → String
  | .path => "local"
  | .alias => "tsconfig-paths"
  | .workspace => "workspace-package"
  | .installed => "installed-package"

/-- What became of a specifier: the file that it leads to, if any, and the ways that were tried. -/
structure Resolution where
  file : Option Path
  attempted : List Strategy
deriving Repr, DecidableEq

namespace Resolver

/-- A resolver that knows nothing yet. -/
def fresh (root : Path) : Resolver := ⟨root, [], none, []⟩

/-- The endings that a specifier without one may stand for, in the order in which they are tried. -/
def endings : List String :=
  [".ts", ".tsx", ".d.ts", ".mts", ".cts", ".js", ".jsx", ".mjs", ".cjs", ".json"]

/-- The endings of sources for the ending of what they compile to. -/
def sourceEndings : List (String × List String) :=
  [(".js", [".ts", ".tsx", ".d.ts"]), (".jsx", [".tsx"]), (".mjs", [".mts", ".d.mts"]),
    (".cjs", [".cts", ".d.cts"])]

/-- The names of directories for installed packages. -/
def packageDirectories : List String := ["bower_components", "jspm_packages", "node_modules"]

/-- A place to look for a file: a fixed text around the path inside a package. -/
structure Place where
  before : String
  after : String
deriving Repr, DecidableEq

/-- Where the subpaths of a workspace package may lie. -/
def workspacePlaces : List Place :=
  [⟨"build/types/src/", ".d.ts"⟩, ⟨"build/types/src/", "/index.d.ts"⟩, ⟨"build/dist/src/", ".d.ts"⟩,
    ⟨"dist/", ".d.ts"⟩, ⟨"dist/", "/index.d.ts"⟩, ⟨"", ".d.ts"⟩, ⟨"", "/index.d.ts"⟩,
    ⟨"src/", ".ts"⟩, ⟨"src/", "/index.ts"⟩]

/-- Where the types of a workspace package may lie. -/
def workspaceMains : List String :=
  ["build/types/src/index.d.ts", "build/dist/src/index.d.ts", "dist/index.d.ts", "index.d.ts",
    "src/index.ts", "src/index.d.ts"]

/-- Where the subpaths of an installed package may lie. -/
def installedPlaces : List Place :=
  [⟨"dist/", ".d.ts"⟩, ⟨"dist/", "/index.d.ts"⟩, ⟨"", ".d.ts"⟩, ⟨"", "/index.d.ts"⟩,
    ⟨"lib/", ".d.ts"⟩, ⟨"lib/", "/index.d.ts"⟩]

/-- The first of some paths that is a file. -/
def firstFile? (paths : List Path) : Task σ (Option Path) := paths.findM? Task.isFile

/-- The candidates for a subpath in a directory. -/
def candidates (base : Path) (places : List Place) (subpath : String) : List Path :=
  places.map fun place => base.child (place.before ++ subpath ++ place.after)

/-! ## Manifests -/

/-- The failure of a file whose text is no value that can be read. -/
def manifestFailure (path : Path) : Json.Fault → Failure
  | .malformed => .manifest path .unreadable
  | .longNumber => .longNumber path
  | .tooDeep isObject => .overflow (if isObject then .object else .array)

/-- The object that a file holds. -/
def readObject (tree : FileTree) (path : Path) (strip : List Char → List Char)
    (otherwise : ManifestFault) : Except Failure Json :=
  match tree.text? path with
  | none => .error (.manifest path .unreadable)
  | some text =>
    match Json.parse (strip text) with
    | .ok (.object entries) => .ok (.object entries)
    | .ok _ => .error (.manifest path otherwise)
    | .error fault => .error (manifestFailure path fault)

/-- Keeps what is known about a manifest. -/
def remember (path : Path) (found : Option Json) : Task Resolver Unit :=
  Task.update fun resolver =>
    { resolver with manifests := Keyed.put path found resolver.manifests }

/-- Reads a manifest that is not known yet and keeps what it turns out to be. -/
def readNew (path : Path) : Task Resolver (Option Json) := do
  if !(← Task.isFile path) then
    remember path none
    return none
  else
    match readObject (← Task.files) path id .noObject with
    | .ok found =>
      remember path (some found)
      return some found
    | .error (.manifest path fault) => do
      remember path none
      Task.fail (.manifest path fault)
    | .error failure => Task.fail failure

/-- The manifest at a path, or `none` when there is no file. A file that cannot be used is a failure
each time it is asked for. -/
def readManifest (path : Path) : Task Resolver (Option Json) := do
  match Keyed.find? path (← Task.state).manifests with
  | some (some found) => return some found
  | some none =>
    if ← Task.isFile path then Task.fail (.manifest path .failedBefore) else return none
  | none => readNew path

/-- The manifest at a path, where one that cannot be used counts as missing and is told. -/
def readManifestQuietly (path : Path) : Task Resolver (Option Json) :=
  tryCatch (readManifest path) fun failure =>
    match failure with
    | .manifest place _ => do
      Task.note (.unreadableManifest place)
      return none
    | other => Task.fail other

/-- The compiler options in a file; comments and commas before a closing bracket are allowed. -/
def readOptions (path : Path) : Task Resolver Json := do
  if path.hasNull then Task.fail (.nullCharacter path)
  match readObject (← Task.files) path Json.stripComments .noOptions with
  | .ok found => return found
  | .error failure => Task.fail failure

/-- The text under a key of a manifest, unless it is empty. -/
def entryText? (manifest : Json) (key : String) : Option String :=
  ((manifest.get? key).bind Json.text?).filter (!·.isEmpty)

/-- The first of some entries of a manifest that names a file. -/
def entryFile? (directory : Path) (manifest : Json) (keys : List String) : Task σ (Option Path) :=
  firstFile? (keys.filterMap fun key => (entryText? manifest key).map directory.child)

/-! ## Paths -/

/-- The path with an ending added to its last name. -/
def withEnding (path : Path) (ending : String) : Task Resolver Path := do
  match path.withName? (path.name ++ ending) with
  | some named => return named
  | none => Task.fail .unnamedPath

/-- The first file that a path with one of the usual endings names. -/
def resolveEnding (base : Path) : Task Resolver (Option Path) := do
  firstFile? (← endings.mapM (withEnding base))

/-- The file of the first entry of a manifest that leads to one. -/
def resolveEntries (directory : Path) (manifest : Json) : List String → Task Resolver (Option Path)
  | [] => return none
  | key :: rest =>
    match entryText? manifest key with
    | none => resolveEntries directory manifest rest
    | some entry => do
      let target := directory.child entry
      if ← Task.isFile target then return some target
      else
        match ← resolveEnding target with
        | some found => return some found
        | none => resolveEntries directory manifest rest

/-- The file that a directory stands for: what its manifest names, or its index file. -/
def resolveDirectory (directory : Path) : Task Resolver (Option Path) := do
  let manifest := ((← readManifestQuietly (directory.child "package.json")).getD .null)
  match ← resolveEntries directory manifest ["types", "typings", "main"] with
  | some found => return some found
  | none => firstFile? (endings.map fun ending => directory.child ("index" ++ ending))

/-- The file that a path stands for. -/
def resolvePath (base : Path) : Task Resolver (Option Path) := do
  if ← Task.isFile base then return some base
  match ← resolveEnding base with
  | some found => return some found
  | none =>
    let sources := ((sourceEndings.lookup base.suffix).getD []).filterMap base.withSuffix?
    match ← firstFile? sources with
    | some found => return some found
    | none => if ← Task.isDirectory base then resolveDirectory base else return none

/-! ## Installed packages -/

/-- The directories from one up to the root. -/
def ancestors (path : Path) : List Path :=
  (List.range (path.names.length + 1)).map fun steps =>
    ⟨path.anchor, path.names.take (path.names.length - steps)⟩

/-- The directory of an installed package, the nearest one at or above a directory. -/
def findInstalled (name : String) (start : Path) : Task Resolver (Option Path) := do
  let start ← Task.resolvePath start
  let places := (ancestors start).flatMap fun directory =>
    packageDirectories.map fun packages => (directory.child packages).child name
  places.findM? fun place => Task.isFile (place.child "package.json")

/-- The entry of the export table of a package for a subpath. -/
def exportEntry (manifest : Json) (key : String) : Task Resolver (Option Json) := do
  let whole := fun (entry : Json) => if key == "." then some entry else none
  match manifest.get? "exports" with
  | none | some .null => return none
  | some (.string text) => return whole (.string text)
  | some (.array items) => return whole (.array items)
  | some (.object entries) =>
    if entries.any fun entry => Text.startsWith "." entry.1 then
      return Keyed.find? key entries
    else return whole (.object entries)
  | some _ => Task.fail .exportsNotTable

/-- The file that the export table of a package names for a subpath. -/
def resolveExport (directory : Path) (manifest : Json) (key : String) :
    Task Resolver (Option Path) := do
  let entry ← exportEntry manifest key
  firstFile? ((entry.bind Resolve.pickTarget).map directory.child).toList

/-- The file of a path inside an installed package. -/
def resolveInstalledSubpath (directory : Path) (manifest : Json) (subpath : String) :
    Task Resolver (Option Path) := do
  match ← resolveExport directory manifest ("./" ++ subpath) with
  | some found => return some found
  | none =>
    match ← firstFile? (candidates directory installedPlaces subpath) with
    | some found => return some found
    | none => resolvePath (directory.child subpath)

/-- The file of an installed package itself. -/
def resolveInstalledMain (directory : Path) (manifest : Json) : Task Resolver (Option Path) := do
  match ← entryFile? directory manifest ["types", "typings"] with
  | some found => return some found
  | none =>
    match ← resolveExport directory manifest "." with
    | some found => return some found
    | none =>
      let main ←
        match entryText? manifest "main" with
        | some main => resolvePath (directory.child main)
        | none => pure none
      match main with
      | some found => return some found
      | none => firstFile? [directory.child "index.d.ts", directory.child "index.js"]

/-- The file of an installed package that a specifier names. -/
def resolveInstalled (specifier : String) (start : Path) : Task Resolver (Option Path) := do
  let (name, subpath) := Resolve.splitPackage specifier
  match ← findInstalled name start with
  | none => return none
  | some directory =>
    let manifest := (← readManifestQuietly (directory.child "package.json")).getD .null
    if subpath.isEmpty then resolveInstalledMain directory manifest
    else resolveInstalledSubpath directory manifest subpath

/-! ## Path aliases -/

/-- The ending of files with compiler options. -/
def optionsEnding : String := ".json"

/-- The name of the file with compiler options. -/
def optionsName : String := "tsconfig.json"

/-- A path, or the path with the ending of option files when it is no file and lacks the ending. -/
def withOptionsEnding (target : Path) : Task Resolver Path := do
  if ← Task.isFile target then return target
  else if target.suffix != optionsEnding then withEnding target optionsEnding
  else return target

/-- The file of compiler options that some options extend. Of several bases the last one counts. -/
def extendedOptions (file : Path) (base : Option Json) : Task Resolver (Option Path) := do
  let last :=
    match base with
    | some (.array items) => items.getLast?
    | other => other
  match (last.bind Json.text?).filter (!·.isEmpty) with
  | none => return none
  | some specifier =>
    let target? ←
      if Resolve.isPathSpecifier specifier then
        pure (some (← withOptionsEnding (file.parent.child specifier)))
      else
        let (name, subpath) := Resolve.splitPackage specifier
        match ← findInstalled name file.parent with
        | none => pure none
        | some directory =>
          let inner := if subpath.isEmpty then optionsName else subpath
          pure (some (← withOptionsEnding (directory.child inner)))
    match target? with
    | none => return none
    | some target =>
      if ← Task.isFile target then return some (← Task.resolvePath target) else return none

/-- What a chain of compiler options has given so far: where bare specifiers start from, the
patterns, and where these start from. -/
structure ChainState where
  base : Option Path
  patterns : Option (List (String × Json))
  patternBase : Option Path

/-- What compiler options add to a chain; what is there already stays. -/
def ChainState.extend (chain : ChainState) (file : Path) (options : Option Json) :
    Task Resolver ChainState := do
  match options with
  | some (.object entries) =>
    let base ←
      match chain.base, Keyed.find? "baseUrl" entries with
      | none, some (.string text) => pure (some (← Task.resolvePath (file.parent.child text)))
      | base, _ => pure base
    match chain.patterns, Keyed.find? "paths" entries with
    | none, some (.object patterns) =>
      return ⟨base, some patterns, some (← Task.resolvePath file.parent)⟩
    | patterns, _ => return ⟨base, patterns, chain.patternBase⟩
  | _ => return chain

/-- Follows a chain of compiler options from a file, each file once. -/
def followChain : Nat → List Path → ChainState → Option Path → Task Resolver ChainState
  | 0, _, chain, _ => return chain
  | _ + 1, _, chain, none => return chain
  | fuel + 1, seen, chain, some file =>
    if seen.contains file then return chain
    else do
      match ← Task.attempt (readOptions file) with
      | .error (.manifest place _) =>
        Task.note (.unreadableCompilerOptions place)
        return chain
      | .error other => Task.fail other
      | .ok options =>
        let chain ← chain.extend file (options.get? "compilerOptions")
        followChain fuel (file :: seen) chain (← extendedOptions file (options.get? "extends"))

/-- The patterns whose targets are a list, with the targets that are texts. -/
def usablePatterns (patterns : List (String × Json)) : List (String × List String) :=
  patterns.filterMap fun (pattern, targets) =>
    targets.items?.map fun items => (pattern, Json.texts items)

/-- The aliases that a file of compiler options and those it extends give. -/
def loadAliases (file : Path) : Task Resolver (Option Resolve.Aliases) := do
  let bound := (← Task.files).root.count + 2
  let chain ← followChain bound [] ⟨none, none, none⟩ (some file)
  if chain.base.isNone && chain.patterns.isNone then return none
  else
    let patternBase := chain.base.getD (chain.patternBase.getD file.parent)
    return some ⟨chain.base, patternBase, usablePatterns (chain.patterns.getD [])⟩

/-- The aliases in effect in the first of some directories, each one lying in the next. What is
found holds for all directories on the way. -/
def aliasesAlong : List Path → Task Resolver (Option Resolve.Aliases)
  | [] => return none
  | directory :: above =>
    let file := directory.child optionsName
    Task.recollect (fun resolver => Keyed.find? directory resolver.aliases)
      (fun aliases resolver =>
        { resolver with aliases := Keyed.put directory aliases resolver.aliases })
      (do if ← Task.isFile file then loadAliases file else aliasesAlong above)

/-- The aliases in effect in a directory. -/
def aliasesIn (directory : Path) : Task Resolver (Option Resolve.Aliases) := do
  aliasesAlong (ancestors (← Task.resolvePath directory))

/-- The file that the first of some targets leads to. -/
def resolveTargets (aliases : Resolve.Aliases) (captured : String) :
    List String → Task Resolver (Option Path)
  | [] => return none
  | target :: rest => do
    match ← resolvePath (aliases.patternBase.child (Text.replaceFirst "*" captured target)) with
    | some found => return some found
    | none => resolveTargets aliases captured rest

/-- Whether aliases are in effect for a file, and the file that a specifier leads to through them:
through the best pattern, or else from the base of bare specifiers. -/
def resolveAlias (specifier : String) (importer : Path) : Task Resolver (Bool × Option Path) := do
  match ← aliasesIn importer.parent with
  | none => return (false, none)
  | some aliases =>
    let found ←
      match aliases.match? specifier with
      | some (targets, captured) => resolveTargets aliases captured targets
      | none => pure none
    match found, aliases.base with
    | some file, _ => return (true, some file)
    | none, some base => return (true, ← resolvePath (base.child specifier))
    | none, none => return (true, none)

/-! ## Workspace packages -/

/-- The member patterns of a manifest. -/
def workspacePatterns (manifest : Json) : List String :=
  let listed :=
    match manifest.get? "workspaces" with
    | some (.object entries) => Keyed.find? "packages" entries
    | other => other
  match listed with
  | some (.array items) => Json.texts items
  | _ => []

/-- The name of the workspace file beside a manifest. -/
def workspaceName : String := "pnpm-workspace.yaml"

/-- The failure of a workspace file that is well-formed and cannot be read. -/
def workspaceFailure : Yaml.Fault → Failure
  | .tooDeep => .overflow (.call "")
  | fault => .workspaceFormat fault

/-- The member patterns of a workspace file. -/
def workspaceFilePatterns (path : Path) : Task Resolver (List String) := do
  let found := ((← Task.files).text? path).map (Yaml.textsUnder "packages")
  match found.getD (.error .malformed) with
  | .ok patterns => return patterns
  | .error .malformed =>
    Task.note (.unreadableWorkspace path)
    return []
  | .error fault => Task.fail (workspaceFailure fault)

/-- The first of some directories that declares members, with the patterns. -/
def findWorkspace : List Path → Task Resolver (Option (Path × List String))
  | [] => return none
  | directory :: above => do
    let manifest := (← readManifestQuietly (directory.child "package.json")).getD .null
    let file := directory.child workspaceName
    let more ← if ← Task.isFile file then workspaceFilePatterns file else pure []
    match workspacePatterns manifest ++ more with
    | [] => findWorkspace above
    | patterns => return some (directory, patterns)

/-- A member pattern without what does not matter around it; `none` for one that takes back. -/
def memberPattern? (written : String) : Option String :=
  if Text.startsWith "!" written then none
  else
    let trimmed := String.ofList (Text.trimEnd (· == '/') written.toList)
    some (if Text.startsWith "./" trimmed then Text.dropChars 2 trimmed else trimmed)

/-- The directories that member patterns choose, each once, none inside installed packages. -/
def chooseMembers (tree : FileTree) (root : Path) :
    List Path → List String → Except Glob.MemberFault (List Path)
  | found, [] => .ok found
  | found, written :: rest =>
    match memberPattern? written with
    | none => chooseMembers tree root found rest
    | some pattern => do
      let chosen ← Glob.members tree root pattern
      let admitted := chosen.filter fun path => !path.names.any packageDirectories.contains
      chooseMembers tree root
        (admitted.foldl
          (fun found path => if found.contains path then found else found ++ [path]) found)
        rest

/-- Looks for the enclosing workspace and the directories of its packages. -/
def findMembers : Task Resolver (List Path) := do
  match ← findWorkspace (ancestors (← Task.state).root) with
  | none => return []
  | some (root, patterns) =>
    match chooseMembers (← Task.files) root [] patterns with
    | .ok members => return members
    | .error fault => Task.fail (.memberPattern fault)

/-- The directories of the packages of the enclosing workspace. -/
def workspaceMembers : Task Resolver (List Path) :=
  Task.recollect (·.members) (fun members resolver => { resolver with members := some members })
    findMembers

/-- The file of a workspace package that a specifier names, among some members. The first member of
the right name decides. -/
def resolveMember (name subpath : String) : List Path → Task Resolver (Option Path)
  | [] => return none
  | member :: rest => do
    let manifest := (← readManifestQuietly (member.child "package.json")).getD .null
    if (manifest.get? "name").bind Json.text? == some name then
      if subpath.isEmpty then
        match ← entryFile? member manifest ["types", "typings"] with
        | some found => return some found
        | none => firstFile? (workspaceMains.map member.child)
      else firstFile? (candidates member workspacePlaces subpath)
    else resolveMember name subpath rest

/-- The file of a workspace package that a specifier names. -/
def resolveWorkspace (specifier : String) : Task Resolver (Option Path) := do
  let (name, subpath) := Resolve.splitPackage specifier
  resolveMember name subpath (← workspaceMembers)

/-! ## Specifiers -/

/-- The canonical path of what was found. -/
def settle (found : Option Path) (attempted : List Strategy) : Task Resolver Resolution := do
  match found with
  | some path => return ⟨some (← Task.resolvePath path), attempted⟩
  | none => return ⟨none, attempted⟩

/-- Resolves a bare specifier of a file: the first way that finds a file decides. -/
def resolveBare (specifier : String) (importer : Path) : Task Resolver Resolution := do
  let (applied, found) ← resolveAlias specifier importer
  let attempted := if applied then [Strategy.alias] else []
  if found.isSome then settle found attempted
  else
    let found ← resolveWorkspace specifier
    let attempted := attempted ++ [.workspace]
    if found.isSome then settle found attempted
    else settle (← resolveInstalled specifier importer.parent) (attempted ++ [.installed])

/-- Resolves a specifier of a file. -/
def resolve (specifier : String) (importer : Path) : Task Resolver Resolution := do
  if specifier.isEmpty then return ⟨none, []⟩
  else if Resolve.isPathSpecifier specifier then
    settle (← resolvePath (importer.parent.child specifier)) [.path]
  else if Resolve.isPlatformModule specifier then return ⟨none, []⟩
  else resolveBare specifier importer

/-- Resolves a package that is named as an input. -/
def resolvePackage (specifier : String) (directory : Path) : Task Resolver (Option Path) := do
  match ← resolveWorkspace specifier with
  | some found => return some found
  | none => resolveInstalled specifier directory

end Resolver

end ModuleAtlas
