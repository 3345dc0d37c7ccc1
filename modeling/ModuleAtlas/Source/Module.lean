import ModuleAtlas.Syntax
import ModuleAtlas.Language
import ModuleAtlas.Keyed

/-!
# Source files

The index of a source file, and the modules that it mentions.
-/

namespace ModuleAtlas

/-!
## Modules

The index of a source file: what it declares, what it exports, what it hands on from other modules
and which names its imports bind. The index is read off the top-level statements alone. What an
export clause names may stand before or after it, so clauses are settled last.
-/

/-- A named top-level declaration. A declaration without a name is called `default`. -/
structure Declaration where
  name : String
  /-- What is declared: an interface, a class, a variable and so on. -/
  kind : String
  node : Node
  exported : Bool
  /-- The export statement around the declaration. -/
  statement : Option Node
  /-- The statement that a declarator of a variable belongs to. -/
  group : Option Node
deriving Inhabited

/-- A local name that an import binds. What is imported is a name of the other module, `default`, or
`*` for the module as a whole. -/
structure Binding where
  name : String
  specifier : String
  imported : String
deriving Repr, DecidableEq, Inhabited

/-- What a module exports from another one: names, each with the name that it has there, or all
names, possibly under one name for the other module. -/
structure ReExport where
  specifier : String
  names : Option (List (String × String))
  nameSpace : Option String
deriving Repr, DecidableEq, Inhabited

/-- A source file with its index. -/
structure SourceModule where
  path : Path
  language : Language
  root : Node
  declarations : List (String × List Declaration)
  exports : List (String × Declaration)
  reExports : List ReExport
  bindings : List (String × Binding)
deriving Inhabited

namespace Declaration

/-- What the nodes of declarations declare. -/
def kinds : List (String × String) :=
  [("interface_declaration", "interface"), ("type_alias_declaration", "type-alias"),
    ("class_declaration", "class"), ("abstract_class_declaration", "class"), ("class", "class"),
    ("enum_declaration", "enum"), ("function_declaration", "function"),
    ("generator_function_declaration", "function"), ("function_signature", "function"),
    ("function_expression", "function"), ("function", "function"), ("arrow_function", "function"),
    ("lexical_declaration", "variable"), ("variable_declaration", "variable")]

/-- What a node declares, if it is a declaration. -/
def kindOf? (node : Node) : Option String := kinds.lookup node.kind

/-- The kinds of nodes that declare types. -/
def typeKinds : List String :=
  ["interface_declaration", "type_alias_declaration", "class_declaration",
    "abstract_class_declaration", "enum_declaration"]

/-- Whether a declaration declares a type. -/
def isType (declaration : Declaration) : Bool := typeKinds.contains declaration.node.kind

/-- The variables that a statement declares with a plain name. -/
def plainVariables (kind : String) (exported : Bool) (statement : Option Node) (group : Node) :
    List Declaration :=
  group.namedChildren.filterMap fun declarator =>
    if declarator.kind != "variable_declarator" then none
    else
      match declarator.child? "name" with
      | some name =>
        if name.kind == "identifier" then
          some ⟨name.text, kind, declarator, exported, statement, some group⟩
        else none
      | none => none

mutual

/-- The declarations that a statement introduces. -/
def ofStatement (exported : Bool) (statement : Option Node) : Node → List Declaration
  | .mk kind named role start line text children =>
    let node := Node.mk kind named role start line text children
    if kind == "ambient_declaration" then ofStatements exported statement children
    else
      match kindOf? node with
      | none => []
      | some declared =>
        if kind == "lexical_declaration" || kind == "variable_declaration" then
          plainVariables declared exported statement node
        else
          let name := ((node.child? "name").map Node.text).getD "default"
          [⟨name, declared, node, exported, statement, none⟩]

/-- The declarations that the statements among some nodes introduce. -/
def ofStatements (exported : Bool) (statement : Option Node) : List Node → List Declaration
  | [] => []
  | node :: rest =>
    (if node.named then ofStatement exported statement node else [])
      ++ ofStatements exported statement rest

end

end Declaration

namespace SourceModule

/-- The declarations of a name. -/
def lookup (index : SourceModule) (name : String) : List Declaration :=
  (Keyed.find? name index.declarations).getD []

/-- The declarations of a name that declare types. -/
def lookupType (index : SourceModule) (name : String) : List Declaration :=
  (index.lookup name).filter Declaration.isType

/-- The binding of a local name. -/
def binding? (index : SourceModule) (name : String) : Option Binding :=
  Keyed.find? name index.bindings

/-- The module without anything in its index. -/
def bare (path : Path) (language : Language) (root : Node) : SourceModule :=
  ⟨path, language, root, [], [], [], []⟩

/-- Adds a declaration. -/
def declare (index : SourceModule) (declaration : Declaration) : SourceModule :=
  { index with declarations := Keyed.push declaration.name declaration index.declarations }

/-- Adds an export. -/
def handOut (index : SourceModule) (name : String) (declaration : Declaration) : SourceModule :=
  { index with exports := index.exports ++ [(name, declaration)] }

/-- Adds a re-export. -/
def reExport (index : SourceModule) (entry : ReExport) : SourceModule :=
  { index with reExports := index.reExports ++ [entry] }

/-- Binds a local name. -/
def bind (index : SourceModule) (binding : Binding) : SourceModule :=
  { index with bindings := Keyed.put binding.name binding index.bindings }

/-- The bindings of one part of an import clause. -/
def bindingsOfPart (specifier : String) (part : Node) : List Binding :=
  match part.kind with
  | "identifier" => [⟨part.text, specifier, "default"⟩]
  | "namespace_import" =>
    (part.firstNamed?.map fun name => (⟨name.text, specifier, "*"⟩ : Binding)).toList
  | "named_imports" =>
    part.namedChildren.filterMap fun item =>
      if item.kind == "import_specifier" then
        let imported := Node.textOf (item.child? "name")
        let name := ((item.child? "alias").map Node.text).getD imported
        some ⟨name, specifier, imported⟩
      else none
  | _ => []

/-- The bindings of an import statement. -/
def bindingsOf (statement : Node) : List Binding :=
  let specifier? := statement.stringRole? "source"
  statement.namedChildren.flatMap fun child =>
    if child.kind == "import_require_clause" then
      match child.firstNamed?, child.stringRole? "source" with
      | some name, some source => [⟨name.text, source, "*"⟩]
      | _, _ => []
    else if child.kind == "import_clause" then
      match specifier? with
      | some specifier => child.namedChildren.flatMap (bindingsOfPart specifier)
      | none => []
    else []

/-- The exported and the local name of each item of an export clause. -/
def clauseNames (clause : Node) : List (String × String) :=
  clause.namedChildren.filterMap fun item =>
    if item.kind == "export_specifier" then
      let name := Node.textOf (item.child? "name")
      some (((item.child? "alias").map Node.text).getD name, name)
    else none

/-- What an export statement with a source hands on. -/
def reExportOf (specifier : String) (statement : Node) : ReExport :=
  let children := statement.children
  let nameSpaces := children.filter fun child => child.kind == "namespace_export"
  let nameSpace := (nameSpaces.getLast?.bind Node.firstNamed?).map Node.text
  let names := (children.filter fun child => child.kind == "export_clause").flatMap clauseNames
  match nameSpace with
  | some name => ⟨specifier, none, some name⟩
  | none =>
    if statement.hasChild "*" then ⟨specifier, none, none⟩ else ⟨specifier, some names, none⟩

/-- The module with an export statement taken up, and the exported and local names that are still to
be settled. -/
def addExport (index : SourceModule) (statement : Node) :
    SourceModule × List (String × String) :=
  let isDefault := statement.hasChild "default"
  match statement.stringRole? "source" with
  | some specifier => (index.reExport (reExportOf specifier statement), [])
  | none =>
    match statement.child? "declaration" with
    | some declaration =>
      let added := (Declaration.ofStatement true (some statement) declaration).foldl
        (fun (index : SourceModule) declaration =>
          (index.declare declaration).handOut
            (if isDefault then "default" else declaration.name) declaration)
        index
      (added, [])
    | none =>
      match (if isDefault then statement.child? "value" else none) with
      | some value =>
        if value.kind == "identifier" then (index, [("default", value.text)])
        else
          let kind := (Declaration.kindOf? value).getD "variable"
          (index.handOut "default" ⟨"default", kind, value, true, some statement, none⟩, [])
      | none =>
        (index, (statement.namedChildren.filter fun child =>
          child.kind == "export_clause").flatMap clauseNames)

/-- The module with a top-level statement taken up, and the names still to be settled. -/
def addStatement (index : SourceModule) (statement : Node) :
    SourceModule × List (String × String) :=
  if statement.kind == "import_statement" then
    ((bindingsOf statement).foldl bind index, [])
  else if statement.kind == "export_statement" then index.addExport statement
  else ((Declaration.ofStatement false none statement).foldl declare index, [])

/-- The module with a name settled that a clause exports: the declarations of the local name are
exported, or else what an import binds to it is handed on. -/
def settle (index : SourceModule) (names : String × String) : SourceModule :=
  match index.lookup names.2 with
  | [] =>
    match index.binding? names.2 with
    | some binding => index.reExport ⟨binding.specifier, some [(names.1, binding.imported)], none⟩
    | none => index
  | targets => targets.foldl (fun index target => index.handOut names.1 target) index

/-- The index of a source file. -/
def ofTree (path : Path) (language : Language) (root : Node) : SourceModule :=
  let (index, pending) := root.namedChildren.foldl
    (fun (index, pending) statement =>
      let (index, more) := SourceModule.addStatement index statement
      (index, pending ++ more))
    (bare path language root, [])
  pending.foldl settle index

end SourceModule

/-!
## Imports

The module specifiers that a file mentions: in import and export statements, in calls of `require`
and in dynamic imports, anywhere in the file.
-/

/-- How a file mentions a specifier. -/
inductive ImportKind where
  | imported
  | exported
  | required
  | dynamic
deriving Repr, DecidableEq

/-- The word for a way to mention a specifier. -/
def ImportKind.name : ImportKind → String
  | .imported => "import"
  | .exported => "export"
  | .required => "require"
  | .dynamic => "dynamic"

/-- A mention of a specifier. -/
structure ImportRef where
  specifier : String
  line : Nat
  kind : ImportKind
deriving Repr, DecidableEq

namespace Node

/-- The specifier of an import statement. Without a source of its own, that of the last
`require` clause counts. -/
def importSpecifier? (statement : Node) : Option String :=
  match statement.stringRole? "source" with
  | some specifier => some specifier
  | none =>
    let clauses := statement.namedChildren.filter fun child =>
      child.kind == "import_require_clause"
    clauses.getLast?.bind fun clause => clause.stringRole? "source"

/-- The specifier that a call imports, and how: the first argument must be a string literal. -/
def callImport? (call : Node) : Option (String × ImportKind) := do
  let callee ← call.child? "function"
  let arguments ← call.child? "arguments"
  let specifier ← arguments.firstNamed?.bind stringContent?
  if callee.kind == "import" then return (specifier, .dynamic)
  else if callee.kind == "identifier" && callee.text == "require" then return (specifier, .required)
  else none

/-- The mention of a specifier that a node is, if it is one. -/
def importRef? (node : Node) : Option ImportRef :=
  match node.kind with
  | "import_statement" =>
    node.importSpecifier?.map fun specifier => ⟨specifier, node.line, .imported⟩
  | "export_statement" =>
    (node.stringRole? "source").map fun specifier => ⟨specifier, node.line, .exported⟩
  | "call_expression" =>
    node.callImport?.map fun found => ⟨found.1, node.line, found.2⟩
  | _ => none

/-- The specifiers that a tree mentions, in the order of `Node.walk`. -/
def imports (root : Node) : List ImportRef := root.walk.filterMap importRef?

end Node

end ModuleAtlas
