import ModuleAtlas.Types.Reading
import ModuleAtlas.Types.Exports

/-!
# The structure of types

What a reference stands for, and the members of object types. Both are found on demand and kept in
the cell of the type. A chain of references is followed only so far, and a declaration whose members
are being collected contributes none to itself.
-/

namespace ModuleAtlas.Types

/-- Keeps something in a cell. -/
def setCell (cell : Nat) (change : Cell → Cell) : Task Session Unit :=
  Task.update fun session => { session with cells := session.cells.modify cell change }

/-- What is known about a cell. -/
def cellOf (cell : Nat) : Task Session Cell := do
  return (← Task.state).cells.getD cell ⟨none, none, none⟩

/-- The names of types that are built into the language. -/
def builtinNames : List String := ["Date", "RegExp", "Error", "Function"]

/-- The names of primitive types. -/
def primitiveNames : List String :=
  ["string", "number", "boolean", "bigint", "symbol", "null", "undefined", "void", "any", "unknown",
    "never", "object"]

/-- The names of array types with one argument. -/
def arrayNames : List String := ["Array", "ReadonlyArray"]

/-- The kinds of nodes that declare a structure. -/
def structureKinds : List String := "class" :: Declaration.typeKinds

/-! ## Declarations -/

/-- The type parameters that a declaration lists. -/
def typeParameters (node : Node) : List Node :=
  match node.child? "type_parameters" with
  | some list => list.namedChildren.filter fun child => child.kind == "type_parameter"
  | none => []

/-- The name of a type parameter. -/
def parameterName (parameter : Node) : String := Node.textOf (parameter.child? "name")

/-- The values of type parameters: the arguments in order, then the defaults. -/
def bindParameters (source : SourceModule) (pending : Nat) :
    List (String × TypeTerm) → List TypeTerm → List Node → Task Session (List (String × TypeTerm))
  | bound, _, [] => return bound
  | bound, argument :: arguments, parameter :: rest =>
    let bound := Keyed.put (parameterName parameter) argument bound
    bindParameters source pending bound arguments rest
  | bound, [], parameter :: rest =>
    match parameter.child? "value" with
    | some value => do
      let type ← typeOf ⟨source, bound, some pending⟩ value
      bindParameters source pending (Keyed.put (parameterName parameter) type bound) [] rest
    | none => bindParameters source pending bound [] rest

/-- A new list for the values of type parameters. -/
def newParameterList : Task Session Nat := do
  let session ← Task.state
  Task.update fun session => { session with parameterLists := session.parameterLists.push [] }
  return session.parameterLists.size

/-- Keeps the values of type parameters in a list. -/
def keepParameters (list : Nat) (bound : List (String × TypeTerm)) : Task Session Unit :=
  Task.update fun session =>
    { session with parameterLists := session.parameterLists.modify list fun _ => bound }

/-- The values of type parameters that a list holds, if there is such a list. -/
def parametersIn (list : Nat) : Task Session (Option (List (String × TypeTerm))) := do
  return (← Task.state).parameterLists[list]?

/-- The scope inside a declaration that is used with some arguments. -/
def scopeOf (node : Node) (source : SourceModule) (arguments : List TypeTerm) :
    Task Session (Scope TypeTerm) := do
  let pending ← newParameterList
  let bound ← bindParameters source pending [] arguments (typeParameters node)
  keepParameters pending bound
  return ⟨source, bound, none⟩

/-- The members of an enumeration as types. -/
def enumMembers (node : Node) (name : String) : List TypeTerm :=
  let members :=
    match node.child? "body" with
    | some body => body.namedChildren
    | none => []
  members.filterMap fun member =>
    if member.kind == "enum_assignment" then
      some (.literal (name ++ "." ++ propertyName (member.child? "name")))
    else if member.kind == "property_identifier" || member.kind == "string" then
      some (.literal (name ++ "." ++ propertyName (some member)))
    else none

/-- Gives an object type without a name the name of the alias that it was reached through. -/
def nameAlias (name : String) (target : TypeTerm) : Task Session Unit := do
  match target with
  | .object cell _ none _ =>
    if (← cellOf cell).name.isNone then setCell cell fun known => { known with name := some name }
    else return
  | _ => return

/-- The type that declarations of one name stand for, used with some arguments. The first of them
that declares a structure decides. -/
def declared (declarations : List Declaration) (source : SourceModule)
    (arguments : List TypeTerm) (name : String) : Task Session TypeTerm := do
  match declarations.filter fun declaration => structureKinds.contains declaration.node.kind with
  | [] => return .verbatim name
  | first :: rest =>
    let node := first.node
    let scope ← scopeOf node source arguments
    match node.kind with
    | "interface_declaration" =>
      let interfaces := (first :: rest).filter fun declaration =>
        declaration.node.kind == "interface_declaration"
      newObject name (some name) (.interface node interfaces scope)
    | "type_alias_declaration" =>
      match node.child? "value" with
      | none => return .verbatim name
      | some value =>
        let target ← typeOf scope value
        nameAlias name target
        return target
    | "enum_declaration" => return .union name (enumMembers node name)
    | _ => newObject name (some name) (.class node scope)

/-! ## References -/

/-- The type that an import binds under a name, used with some arguments. -/
def imported? (binding : Binding) (exported name : String) (source : SourceModule)
    (arguments : List TypeTerm) : Task Session (Option TypeTerm) := do
  match ← Session.load binding.specifier source with
  | none => return none
  | some target =>
    match ← findExport target exported with
    | none => return none
    | some (declarations, source) => return some (← declared declarations source arguments name)

/-- The type that a qualified name stands for: an export of a module that is imported as a whole. -/
def qualified? (nameSpace member : String) (source : SourceModule) (arguments : List TypeTerm) :
    Task Session (Option TypeTerm) := do
  match source.binding? nameSpace with
  | some binding =>
    if binding.imported == "*" then imported? binding member member source arguments
    else return none
  | none => return none

/-- The type that a plain name stands for: a declaration of the module, or what an import binds. -/
def named? (name : String) (source : SourceModule) (arguments : List TypeTerm) :
    Task Session (Option TypeTerm) := do
  match source.lookupType name with
  | [] =>
    match source.binding? name with
    | some binding => imported? binding binding.imported name source arguments
    | none => return none
  | declarations => return some (← declared declarations source arguments name)

/-- The type that a reference stands for, which may be a reference again. -/
def targetOf (code name : String) (scope : Scope TypeTerm) (arguments : List Node) :
    Task Session TypeTerm := do
  let arguments ← arguments.mapM (typeOf scope)
  match Text.cutLast? '.' name.toList with
  | some (nameSpace, member) =>
    let found ← qualified? (String.ofList nameSpace) (String.ofList member) scope.source arguments
    return found.getD (.verbatim code)
  | none =>
    match Keyed.find? name scope.parameters, arguments with
    | some value, [] => return value
    | _, _ =>
      match arguments with
      | [element] =>
        if arrayNames.contains name then return .array element
        else return ← orBuiltin (← named? name scope.source arguments)
      | _ => return ← orBuiltin (← named? name scope.source arguments)
where
  /-- The type that was found, or else a built-in type or the text of the reference. -/
  orBuiltin (found : Option TypeTerm) : Task Session TypeTerm :=
    match found with
    | some type => return type
    | none =>
      return if builtinNames.contains name || primitiveNames.contains name then .primitive name
        else .verbatim code

/-- One step along a reference; the target is looked up once. -/
def step (cell : Nat) (code name : String) (scope : Scope TypeTerm) (arguments : List Node) :
    Task Session TypeTerm := do
  match (← cellOf cell).target with
  | some known => return known
  | none =>
    let target ← targetOf code name scope arguments
    setCell cell fun known => { known with target := some target }
    return target

/-- The number of references that are followed from one to the next. -/
def hopLimit : Nat := 32

/-- Follows references from a type; after too many, nothing but the text is known. -/
def structureFrom (start : TypeTerm) : Nat → TypeTerm → Task Session TypeTerm
  | 0, .reference cell code name scope arguments => do
    let _ ← step cell code name scope arguments
    return .verbatim start.text
  | hops + 1, .reference cell code name scope arguments => do
    structureFrom start hops (← step cell code name scope arguments)
  | _, type => return type

/-- What a type stands for once references are followed. -/
def structureOf (type : TypeTerm) : Task Session TypeTerm := structureFrom type hopLimit type

/-- The name of the declaration of an object type. -/
def objectName (cell : Nat) (name : Option String) : Task Session (Option String) := do
  match name with
  | some name => return some name
  | none => return (← cellOf cell).name

/-- The last part of a qualified name. -/
def lastName (name : String) : String :=
  match Text.cutLast? '.' name.toList with
  | some (_, last) => String.ofList last
  | none => name

/-- The name that a type carries itself. -/
def ownName (type : TypeTerm) : Task Session (Option String) :=
  match type with
  | .object cell _ name _ => objectName cell name
  | .reference _ _ name _ _ => return some (lastName name)
  | _ => return none

/-- The name of the declaration of a type, if it has one. -/
def symbolOf (type : TypeTerm) : Task Session (Option String) := do
  match (← ownName type).filter (!·.isEmpty) with
  | some name => return some name
  | none =>
    match type with
    | .reference _ _ _ _ _ => ownName (← structureOf type)
    | _ => return none

/-! ## Members -/

/-- The property that a member of an interface or an object type gives. -/
def signatureProperty (scope : Scope TypeTerm) (member : Node) :
    Task Session (Option (Property TypeTerm)) := do
  match member.kind with
  | "property_signature" =>
    let type ←
      match member.child? "type" with
      | some written => typeOf scope written
      | none => pure any
    return some ⟨propertyName (member.child? "name"), member.hasChild "?", type⟩
  | "method_signature" =>
    let type := TypeTerm.function "" [← signature scope member]
    return some ⟨propertyName (member.child? "name"), member.hasChild "?", type⟩
  | "index_signature" =>
    match member.child? "name", member.child? "index_type", member.child? "type" with
    | some name, some index, some written =>
      let type ← typeOf scope written
      return some ⟨"[" ++ name.text ++ ": " ++ index.text ++ "]", false, type⟩
    | _, _, _ => return none
  | _ => return none

/-- The members that a list of nodes in the body of an object type gives. -/
def bodyMembers (scope : Scope TypeTerm) : List Node → Task Session (Members TypeTerm)
  | [] => return .none
  | member :: rest => do
    if member.kind == "call_signature" then
      let call ← signature scope member
      let more ← bodyMembers scope rest
      return { more with signatures := call :: more.signatures }
    else
      let property ← signatureProperty scope member
      let more ← bodyMembers scope rest
      return { more with properties := property.toList ++ more.properties }

/-- The scope in which the members of an object type are read. -/
def memberScope (scope : Scope TypeTerm) : Task Session (Scope TypeTerm) := do
  match scope.pending with
  | none => return scope
  | some pending =>
    return { scope with parameters := (← parametersIn pending).getD scope.parameters }

/-- Properties with the ones of other lists after them, each name at its first place. -/
def mergeProperties (own more : List (Property TypeTerm)) : List (Property TypeTerm) :=
  more.foldl
    (fun found property =>
      if found.any fun other => other.name == property.name then found else found ++ [property])
    own

/-- The own members and the bases of an interface that is declared in one or more places. -/
def interfaceParts (scope : Scope TypeTerm) :
    List Declaration → Task Session (Members TypeTerm × List TypeTerm)
  | [] => return (.none, [])
  | declaration :: rest => do
    let own ←
      match declaration.node.child? "body" with
      | some body => bodyMembers scope body.namedChildren
      | none => pure .none
    let clauses := declaration.node.namedChildren.filter fun child =>
      child.kind == "extends_type_clause"
    let bases ← (clauses.flatMap Node.namedChildren).mapM (typeOf scope)
    let (more, others) ← interfaceParts scope rest
    let members := ⟨own.properties ++ more.properties, own.signatures ++ more.signatures⟩
    return (members, bases ++ others)

/-- The property that a member of a class shows to others: it is neither static nor hidden, it has
a plain name, and it is not the constructor. -/
def visibleName? (member : Node) : Option String :=
  let access :=
    match member.children.find? fun child => child.kind == "accessibility_modifier" with
    | some modifier => modifier.text
    | none => ""
  if member.hasChild "static" || access == "private" || access == "protected" then none
  else
    match member.child? "name" with
    | none => none
    | some name =>
      if name.kind == "private_property_identifier" then none
      else
        let text := propertyName (some name)
        if text == "constructor" then none else some text

/-- The type of a visible member of a class; what can only be set has none. -/
def memberType (scope : Scope TypeTerm) (member : Node) : Task Session (Option TypeTerm) := do
  match member.kind with
  | "public_field_definition" =>
    match member.child? "type", member.child? "value" with
    | some written, _ => return some (← typeOf scope written)
    | none, some value => return some (← valueType scope false value)
    | none, none => return some any
  | "method_definition" | "method_signature" | "abstract_method_signature" =>
    if member.hasChild "set" then return none
    else
      let call ← signature scope member
      return some (if member.hasChild "get" then call.returns else .function "" [call])
  | _ => return none

/-- The properties that members of a class show to others, each name at its first place. -/
def classProperties (scope : Scope TypeTerm) :
    List (Property TypeTerm) → List Node → Task Session (List (Property TypeTerm))
  | found, [] => return found
  | found, member :: rest => do
    match visibleName? member with
    | none => classProperties scope found rest
    | some name =>
      if found.any fun property => property.name == name then classProperties scope found rest
      else
        match ← memberType scope member with
        | none => classProperties scope found rest
        | some type =>
          classProperties scope (found ++ [⟨name, member.hasChild "?", type⟩]) rest

/-- The bases of a class. -/
def classBases (scope : Scope TypeTerm) (node : Node) : Task Session (List TypeTerm) := do
  let heritage := node.namedChildren.filter fun child => child.kind == "class_heritage"
  let clauses := (heritage.flatMap Node.namedChildren).filter fun clause =>
    clause.kind == "extends_clause"
  let bases ← clauses.mapM fun clause => do
    match clause.child? "value" with
    | some value =>
      if value.kind == "identifier" || value.kind == "member_expression" then
        return some (← newReference scope value.text "" (typeArguments clause))
      else return none
    | none => return none
  return bases.filterMap id

/-- Properties with those of bases after them, each name at its first place. -/
def inherit (propertiesOf : TypeTerm → Task Session (List (Property TypeTerm))) :
    List (Property TypeTerm) → List TypeTerm → Task Session (List (Property TypeTerm))
  | found, [] => return found
  | found, base :: rest => do
    inherit propertiesOf (mergeProperties found (← propertiesOf base)) rest

/-- Collects the members of a declaration unless they are being collected already. -/
def once (key : Path × Nat) (collect : Task Session (Members TypeTerm)) :
    Task Session (Members TypeTerm) := do
  if (← Task.state).expanding.contains key then return .none
  else
    Task.update fun session => { session with expanding := key :: session.expanding }
    let outcome ← Task.attempt collect
    Task.update fun session =>
      { session with expanding := session.expanding.filter fun other => other != key }
    match outcome with
    | .ok members => return members
    | .error failure => Task.fail failure

/-- Collects the members of an object type from their source. -/
def collectMembers (propertiesOf : TypeTerm → Task Session (List (Property TypeTerm)))
    (source : MemberSource TypeTerm) : Task Session (Members TypeTerm) := do
  match source with
  | .known members => return members
  | .body node scope => bodyMembers (← memberScope scope) node.namedChildren
  | .interface first declarations scope =>
    once (scope.source.path, first.start) do
      let (own, bases) ← interfaceParts scope declarations
      let properties ← inherit propertiesOf (mergeProperties [] own.properties) bases
      return ⟨properties, own.signatures⟩
  | .class node scope =>
    once (scope.source.path, node.start) do
      let members :=
        match node.child? "body" with
        | some body => body.namedChildren
        | none => []
      let own ← classProperties scope [] members
      return ⟨← inherit propertiesOf own (← classBases scope node), []⟩

/-- The members of what a type stands for, if that is an object type. They are collected once; the
fuel bounds how deeply the declarations of bases are nested. -/
def membersWith : Nat → TypeTerm → Task Session (Members TypeTerm)
  | 0, _ => return .none
  | fuel + 1, type => do
    match ← structureOf type with
    | .object cell _ _ source =>
      match (← cellOf cell).members with
      | some known => return known
      | none =>
        let members ← collectMembers
          (fun base => do return (← membersWith fuel base).properties) source
        setCell cell fun known => { known with members := some members }
        return members
    | _ => return .none

/-- The members of what a type stands for, if that is an object type. -/
def membersOf (type : TypeTerm) : Task Session (Members TypeTerm) := do
  membersWith ((← Session.sizeBound) + 1) type

/-- The properties of a type. -/
def propertiesOf (type : TypeTerm) : Task Session (List (Property TypeTerm)) := do
  return (← membersOf type).properties

/-- The call signatures of a type. -/
def callSignatures (type : TypeTerm) : Task Session (List (Signature TypeTerm)) := do
  match ← structureOf type with
  | .function _ signatures => return signatures
  | .object _ _ _ _ => return (← membersOf type).signatures
  | _ => return []

/-- Whether a type stands for an object type. -/
def isObject (type : TypeTerm) : Task Session Bool := do
  match ← structureOf type with
  | .object _ _ _ _ => return true
  | _ => return false

/-! ## Types of declarations -/

/-- Whether a declarator belongs to a statement for constants. -/
def isConstant (declaration : Declaration) : Bool :=
  match declaration.group with
  | some group =>
    group.kind == "lexical_declaration"
      && ((group.child? "kind").map fun keyword => keyword.text == "const").getD false
  | none => false

/-- The kinds of nodes of functions that are declared. -/
def functionKinds : List String :=
  ["function_declaration", "generator_function_declaration", "function_signature",
    "function_expression", "function", "arrow_function", "method_definition"]

/-- The type of a variable. -/
def variableType (declaration : Declaration) (scope : Scope TypeTerm) : Task Session TypeTerm :=
  match declaration.node.child? "type", declaration.node.child? "value" with
  | some written, _ => typeOf scope written
  | none, some value => valueType scope (isConstant declaration) value
  | none, none => return any

/-- The type of a declaration of a module. -/
def declarationType (declaration : Declaration) (source : SourceModule) :
    Task Session TypeTerm := do
  let node := declaration.node
  let scope : Scope TypeTerm := ⟨source, [], none⟩
  if Declaration.typeKinds.contains node.kind then
    let name :=
      if declaration.name == "default" then Node.textOf (node.child? "name") else declaration.name
    let parameters := (typeParameters node).map parameterName
    if name.isEmpty then declared [declaration] source [] declaration.name
    else
      let code :=
        if parameters.isEmpty then name else name ++ "<" ++ Text.join ", " parameters ++ ">"
      newReference scope name code []
  else if node.kind == "variable_declarator" then variableType declaration scope
  else if functionKinds.contains node.kind then return .function "" [← signature scope node]
  else if node.kind == "class" then declared [declaration] source [] declaration.name
  else valueType scope true node

end ModuleAtlas.Types
