import ModuleAtlas.Shape.Simplify

/-!
# Export catalogue

The exports of files and packages, each with the text of its declaration and the shape of its type.
An export that cannot be described carries the reason instead, and so does a file that cannot be
read.

How many calls may be open at a time is a matter of the machine.  A stack says where there is no
room for one more; nothing else about it is known.  The functions without a stack have room for all
calls.
-/

namespace ModuleAtlas

open ModuleAtlas.Types

/-- What is shown of an export. -/
structure Description where
  declaration : String
  shape : Shape
deriving Inhabited

/-- An export with its description, or the reason why there is none. -/
structure ExportEntry where
  name : String
  kind : String
  description : Except String Description

/-- A file with its exports, or the reason why it cannot be read. -/
structure FileExports where
  file : String
  exports : Except String (List ExportEntry)

namespace ExportEntry

/-- The entry as a value of a report. -/
def report (entry : ExportEntry) : Json :=
  .object <|
    [("name", .string entry.name), ("kind", .string entry.kind)]
      ++ match entry.description with
        | .ok description =>
          [("declaration", .string description.declaration),
            ("simplified", description.shape.render)]
        | .error reason => [("error", .string reason)]

end ExportEntry

namespace FileExports

/-- The file and its exports as a value of a report. -/
def report (found : FileExports) : Json :=
  .object <|
    ("file", .string found.file) ::
      match found.exports with
      | .ok entries => [("exports", .array (entries.map ExportEntry.report))]
      | .error reason => [("exports", .array []), ("error", .string reason)]

/-- Whether there is nothing to show. -/
def isEmpty (found : FileExports) : Bool :=
  match found.exports with
  | .ok entries => entries.isEmpty
  | .error _ => true

end FileExports

namespace Catalogue

/-! ## Declaration texts -/

/-- The kinds of nodes that are shown as functions. -/
def functionKinds : List String :=
  ["function_declaration", "generator_function_declaration", "function_signature",
    "function_expression", "function", "arrow_function", "generator_function"]

/-- The kinds of nodes that are shown as classes. -/
def classKinds : List String := ["class_declaration", "abstract_class_declaration", "class"]

/-- The type parameters of a declaration as they are shown. -/
def typeParametersText (node : Node) : String :=
  match typeParameters node with
  | [] => ""
  | parameters =>
    "<" ++ Text.join ", " (parameters.map fun parameter => Text.collapse parameter.text) ++ ">"

/-- The keyword of the statement that a variable is declared in. -/
def keyword (declaration : Declaration) : String :=
  match declaration.group with
  | none => "const"
  | some group =>
    match group.child? "kind" with
    | some word => word.text
    | none => if group.kind == "variable_declaration" then "var" else "const"

/-- A text without the keyword for exports at its start. -/
def withoutExport (text : String) : String :=
  match Text.dropStart? "export".toList text.toList with
  | some (c :: rest) =>
    if Text.isBlank c then String.ofList (rest.dropWhile Text.isBlank) else text
  | _ => text

/-- What one clause adds to the first line of a class. -/
def heritageText (clause : Node) : String :=
  match clause.kind with
  | "extends_clause" => " extends " ++ Text.dropChars 8 (Text.collapse clause.text)
  | "implements_clause" =>
    " implements " ++ Text.join ", " (clause.namedChildren.map fun type => Text.collapse type.text)
  | _ => ""

/-- The text of a class: its first line, with a mark for its body. -/
def classText (declaration : Declaration) : String :=
  let node := declaration.node
  let clauses :=
    (node.namedChildren.filter fun child => child.kind == "class_heritage").flatMap
      Node.namedChildren
  "class " ++ declaration.name ++ typeParametersText node ++ String.join (clauses.map heritageText)
    ++ " \x7b ... \x7d"

/-- The text of a function, where the types that are not written are told from its body. -/
def functionText (simplifier : Simplifier) (declaration : Declaration) (source : SourceModule) :
    Task Session String := do
  let signature ← Types.signature ⟨source, [], none⟩ declaration.node
  let parameters ← signature.parameters.mapM fun parameter => do
    let type ← simplifier.clean parameter.type.text
    return TypeTerm.parameterLabel parameter.name parameter.isRest parameter.isOptional ++ ": "
      ++ type
  let returns ← simplifier.clean signature.returns.text
  return "function " ++ declaration.name ++ typeParametersText declaration.node ++ "("
    ++ Text.join ", " parameters ++ "): " ++ returns

/-- The text of a declaration. -/
def declarationText (simplifier : Simplifier) (declaration : Declaration) (source : SourceModule) :
    Task Session String := do
  let node := declaration.node
  if functionKinds.contains node.kind then functionText simplifier declaration source
  else if node.kind == "variable_declarator" then
    let type ← declarationType declaration source
    return keyword declaration ++ " " ++ declaration.name ++ ": " ++ (← simplifier.clean type.text)
  else if classKinds.contains node.kind then return classText declaration
  else
    match declaration.statement with
    | some statement =>
      if declaration.name == "default" && !Declaration.typeKinds.contains node.kind then
        return withoutExport statement.text
      else return withoutExport node.text
    | none => return withoutExport node.text

/-! ## Descriptions -/

/-- The shape of the type of a declaration. -/
def declarationShape (simplifier : Simplifier) (declaration : Declaration) (source : SourceModule) :
    Task Session Shape := do
  if functionKinds.contains declaration.node.kind then
    simplifier.simplifySignature 0 [] (← Types.signature ⟨source, [], none⟩ declaration.node)
  else simplifier.simplify 0 [] (← declarationType declaration source)

/-- What is told of a declaration. -/
def tell (simplifier : Simplifier) (declaration : Declaration) (source : SourceModule) :
    Task Session Description := do
  let text ← declarationText simplifier declaration source
  return ⟨text, ← declarationShape simplifier declaration source⟩

/-- What there is no room for, and what has been found out by then; nothing where there is room for
all calls. -/
abbrev Shortage := FileTree → Journal Session → Option (Overflow × Journal Session)

/-- The room for calls: where listing the exports of a module breaks off for want of it, and where
telling what a declaration is does. -/
structure Stack where
  listing : SourceModule → Shortage
  telling : Declaration → SourceModule → Shortage

/-- The stack with room for all calls. -/
def Stack.ample : Stack := ⟨fun _ _ _ => none, fun _ _ _ _ => none⟩

/-- A task that breaks off where there is no room for its calls. -/
def bounded (shortage : Shortage) (task : Task Session α) : Task Session α := fun tree journal =>
  match shortage tree journal with
  | some (what, after) => (.error (.overflow what), after)
  | none => task tree journal

@[simp]
theorem bounded_ample_listing (source : SourceModule) (task : Task Session α) :
    bounded (Stack.ample.listing source) task = task :=
  funext fun _ => funext fun _ => rfl

@[simp]
theorem bounded_ample_telling (declaration : Declaration) (source : SourceModule)
    (task : Task Session α) :
    bounded (Stack.ample.telling declaration source) task = task :=
  funext fun _ => funext fun _ => rfl

/-- The description of a declaration, or the reason why there is none. Failures that give no reason
end the task. -/
def describeOn (stack : Stack) (simplifier : Simplifier) (declaration : Declaration)
    (source : SourceModule) : Task Session (Except String Description) := do
  match ← Task.attempt
      (bounded (stack.telling declaration source) (tell simplifier declaration source)) with
  | .ok description => return .ok description
  | .error failure =>
    match failure.reason? with
    | some reason => return .error reason
    | none => Task.fail failure

@[inherit_doc describeOn]
abbrev describe : Simplifier → Declaration → SourceModule →
    Task Session (Except String Description) :=
  describeOn .ample

/-! ## Files -/

/-- Whether a name is wanted; without a list of names all are. -/
def isWanted (wanted : Option (List String)) (name : String) : Bool :=
  (wanted.map fun names => names.contains name).getD true

/-- The entry of an export. -/
def entryOn (stack : Stack) (simplifier : Simplifier) (found : Export) :
    Task Session ExportEntry := do
  return ⟨found.name, found.declaration.kind,
    ← describeOn stack simplifier found.declaration found.source⟩

@[inherit_doc entryOn]
abbrev entryOf : Simplifier → Export → Task Session ExportEntry := entryOn .ample

/-- The entry of a name that stands for another module as a whole. -/
def nameSpaceEntry? (entry : ReExport) : Option ExportEntry :=
  entry.nameSpace.map fun name =>
    let type := "typeof import(\"" ++ entry.specifier ++ "\")"
    ⟨name, "variable", .ok ⟨"const " ++ name ++ ": " ++ type, .verbatim type⟩⟩

/-- The wanted exports of a file. -/
def ofFileOn (stack : Stack) (simplifier : Simplifier) (root : Path)
    (wanted : Option (List String)) (path : Path) : Task Session FileExports := do
  let file ← Session.fileAt root path
  match ← Session.parse file.path with
  | .error fault =>
    Task.note (.unreadableExports file.name fault.message)
    return ⟨file.name, .error fault.message⟩
  | .ok source =>
    let found ← bounded (stack.listing source) (moduleExports source)
    let exports := found.filter fun found => isWanted wanted found.name
    let entries ← exports.mapM (entryOn stack simplifier)
    let nameSpaces := (source.reExports.filterMap nameSpaceEntry?).filter fun entry =>
      isWanted wanted entry.name
    return ⟨file.name, .ok (entries ++ nameSpaces)⟩

@[inherit_doc ofFileOn]
abbrev ofFile : Simplifier → Path → Option (List String) → Path → Task Session FileExports :=
  ofFileOn .ample

/-! ## Inputs -/

/-- The files that a directory without a manifest may stand for. -/
def directoryEntries : List String := ["index.d.ts", "index.ts", "types.d.ts", "types/index.d.ts"]

/-- The types that a manifest names, or the default. -/
def manifestEntry (manifest : Json) : Json :=
  let stated := (["types", "typings"].filterMap manifest.get?).filter Json.isTruthy
  stated.head?.getD (.string "index.d.ts")

/-- The file whose exports a directory stands for. -/
def directoryEntry (directory : Path) : Task Session (Option Path) := do
  let file := directory.child "package.json"
  if ← Task.isFile file then
    let manifest ← Session.resolving (Resolver.readManifestQuietly file)
    match manifestEntry (manifest.getD .null) with
    | .string entry =>
      let target := directory.child entry
      if ← Task.isFile target then return some (← Task.resolvePath target) else return none
    | _ => return none
  else
    match ← Resolver.firstFile? (directoryEntries.map directory.child) with
    | some found => return some (← Task.resolvePath found)
    | none => return none

/-- The file whose exports an input stands for: a file, a directory or a package, seen from a
directory. -/
def resolveInput (input : String) (directory : Path) : Task Session (Option Path) := do
  let candidate := directory.child input
  if ← Task.isFile candidate then return some (← Task.resolvePath candidate)
  else if ← Task.isDirectory candidate then directoryEntry candidate
  else if Resolve.looksLikePackage input then
    match ← Session.resolving (Resolver.resolvePackage input directory) with
    | some found => return some (← Task.resolvePath found)
    | none => return none
  else return none

/-- The exports of an input, unless there is no file for it or nothing that is wanted. -/
def ofInputOn (stack : Stack) (simplifier : Simplifier) (root directory : Path)
    (wanted : Option (List String)) (input : String) : Task Session (Option FileExports) := do
  match ← resolveInput input directory with
  | none =>
    Task.note (.unresolvedInput input)
    return none
  | some path =>
    let found ← ofFileOn stack simplifier root wanted path
    return if wanted.isSome && found.isEmpty then none else some found

@[inherit_doc ofInputOn]
abbrev ofInput : Simplifier → Path → Path → Option (List String) → String →
    Task Session (Option FileExports) :=
  ofInputOn .ample

/-- The exports of inputs seen from a directory, as far as they are wanted. An empty list of names
wants all. -/
def extractOn (stack : Stack) (simplifier : Simplifier) (root : Path) (inputs : List String)
    (directory : Path) (names : List String) : Task Session (List FileExports) := do
  let base ← Task.resolvePath directory
  let wanted := if names.isEmpty then none else some names
  let found ← inputs.mapM (ofInputOn stack simplifier root base wanted)
  return found.filterMap id

@[inherit_doc extractOn]
abbrev extract : Simplifier → Path → List String → Path → List String →
    Task Session (List FileExports) :=
  extractOn .ample

end Catalogue

end ModuleAtlas
