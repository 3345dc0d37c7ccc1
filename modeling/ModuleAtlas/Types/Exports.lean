import ModuleAtlas.Session

/-!
# Exports across modules

The declarations behind an exported name and the list of all exports of a module, through
re-exports. Re-exports may form cycles: a question that is being answered already has no answer.
-/

namespace ModuleAtlas.Types

/-- Declarations together with the module that they stand in. -/
abbrev Found := List Declaration × SourceModule

/-- Questions that have been asked: modules and exported names. -/
abbrev Asked := List (Path × String)

/-- The name in the other module under which a re-export hands on a name. What is handed on as a
whole has no default and nothing under the name of a module. -/
def ReExport.sourceName? (entry : ReExport) (name : String) : Option String :=
  match entry.names with
  | none => if entry.nameSpace.isSome || name == "default" then none else some name
  | some names => names.lookup name

/-- The declarations behind a name among re-exports of a module, in their order. -/
def findAmong (find : Asked → SourceModule → String → Task Session (Option Found × Asked))
    (source : SourceModule) (name : String) :
    Asked → List ReExport → Task Session (Option Found × Asked)
  | asked, [] => return (none, asked)
  | asked, entry :: rest =>
    match ReExport.sourceName? entry name with
    | none => findAmong find source name asked rest
    | some imported => do
      match ← Session.load entry.specifier source with
      | none => findAmong find source name asked rest
      | some target =>
        match ← find asked target imported with
        | (some found, asked) => return (some found, asked)
        | (none, asked) => findAmong find source name asked rest

/-- The declarations behind an exported name, given the questions asked before. -/
def findWith : Nat → Asked → SourceModule → String → Task Session (Option Found × Asked)
  | 0, asked, _, _ => return (none, asked)
  | fuel + 1, asked, source, name =>
    if asked.contains (source.path, name) then return (none, asked)
    else
      let asked := (source.path, name) :: asked
      match (source.exports.filter fun entry => entry.1 == name).map (·.2) with
      | [] => findAmong (findWith fuel) source name asked source.reExports
      | direct => return (some (direct, source), asked)

/-- The declarations behind an exported name. -/
def findExport (source : SourceModule) (name : String) : Task Session (Option Found) := do
  let bound ← Session.sizeBound
  return (← findWith (bound * bound + 1) [] source name).1

/-- An export: its name, the declaration and the module that the declaration stands in. -/
structure Export where
  name : String
  declaration : Declaration
  source : SourceModule
deriving Inhabited

/-- The exports that named items of a re-export give. -/
def namedExports (target : SourceModule) : List (String × String) → Task Session (List Export)
  | [] => return []
  | (exported, imported) :: rest => do
    let here ←
      match ← findExport target imported with
      | some (declarations, source) =>
        pure (declarations.map fun declaration => ⟨exported, declaration, source⟩)
      | none => pure []
    return here ++ (← namedExports target rest)

/-- The exports that re-exports of a module give, and the modules seen. -/
def exportsAmong (list : List Path → SourceModule → Task Session (List Export × List Path))
    (source : SourceModule) :
    List Path → List ReExport → Task Session (List Export × List Path)
  | seen, [] => return ([], seen)
  | seen, entry :: rest => do
    let (here, seen) ←
      match ← Session.load entry.specifier source with
      | none => pure ([], seen)
      | some target =>
        match entry.nameSpace, entry.names with
        | some _, _ => pure ([], seen)
        | none, none => do
          let (all, seen) ← list seen target
          let own := source.exports.map (·.1)
          let handed := all.filter fun found =>
            found.name != "default" && !own.contains found.name
          pure (handed, seen)
        | none, some names => do pure (← namedExports target names, seen)
    let (more, seen) ← exportsAmong list source seen rest
    return (here ++ more, seen)

/-- The exports of a module, given the modules seen before, and the modules seen. -/
def exportsWith : Nat → List Path → SourceModule → Task Session (List Export × List Path)
  | 0, seen, _ => return ([], seen)
  | fuel + 1, seen, source =>
    if seen.contains source.path then return ([], seen)
    else do
      let own := source.exports.map fun entry => ⟨entry.1, entry.2, source⟩
      let (more, seen) ←
        exportsAmong (exportsWith fuel) source (source.path :: seen) source.reExports
      return (own ++ more, seen)

/-- Every exported declaration of a module, re-exports expanded. -/
def moduleExports (source : SourceModule) : Task Session (List Export) := do
  return (← exportsWith ((← Session.sizeBound) + 1) [] source).1

end ModuleAtlas.Types
