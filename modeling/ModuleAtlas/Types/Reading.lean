import ModuleAtlas.Session
import ModuleAtlas.Regex.Template

/-!
# Reading types

From syntax to type terms: the types that annotations write, and the types of values without an
annotation, which are told from the form of the value alone. Reading goes down the syntax tree one
node at a time; references stay unresolved.
-/

namespace ModuleAtlas.Types

/-- How a node is read: as the syntax of a type, or as a value whose type is wanted. A constant
keeps the value of a literal. -/
inductive Reading where
  | type
  | value (constant : Bool)
deriving Repr, DecidableEq

/-- What reads the nodes below a node. -/
abbrev Reader := Reading → Node → Task Session TypeTerm

/-- The type of values that nothing is known about. -/
def any : TypeTerm := .primitive "any"

/-- A new cell. -/
def newCell : Task Session Nat := do
  let session ← Task.state
  Task.update fun session => { session with cells := session.cells.push ⟨none, none, none⟩ }
  return session.cells.size

/-- A new object type. -/
def newObject (code : String) (name : Option String) (source : MemberSource TypeTerm) :
    Task Session TypeTerm := do
  return .object (← newCell) code name source

/-- A new use of a declared type. Where the arguments are looked at later, the type parameters have
the values that they have now. -/
def newReference (scope : Scope TypeTerm) (name code : String) (arguments : List Node) :
    Task Session TypeTerm := do
  let code := if code.isEmpty then name else code
  return .reference (← newCell) code name { scope with pending := none } arguments

mutual

/-- The members of a union or an intersection, with those of the same kind inside it opened up. -/
def flatten (kind : String) : Node → List Node
  | .mk _ _ _ _ _ _ children => flattenAll kind children

/-- The named nodes of a list, with those of a kind opened up. -/
def flattenAll (kind : String) : List Node → List Node
  | [] => []
  | child :: rest =>
    (if !child.named then [] else if child.kind == kind then flatten kind child else [child])
      ++ flattenAll kind rest

end

/-- The kinds of nodes whose bodies have return statements of their own. -/
def nestedScopes : List String :=
  ["function_declaration", "function_expression", "function", "arrow_function",
    "generator_function_declaration", "generator_function", "method_definition",
    "class_declaration", "class"]

mutual

/-- The values that a statement returns directly. -/
def returnsOf : Node → List Node
  | .mk kind named role start line text children =>
    if nestedScopes.contains kind then []
    else if kind == "return_statement" then
      (Node.mk kind named role start line text children).firstNamed?.toList
    else returnsAmong children

/-- The values that the statements among some nodes return directly. -/
def returnsAmong : List Node → List Node
  | [] => []
  | node :: rest => (if node.named then returnsOf node else []) ++ returnsAmong rest

end

/-- The name of a property: a quoted one without its quotes. -/
def propertyName : Option Node → String
  | none => "anonymous"
  | some node =>
    if node.kind == "string" && 2 ≤ node.text.toList.length then Text.inner node.text
    else node.text

/-- The pattern of a name as a whole word. -/
def wholeWord (name : String) : Regex.Pattern :=
  .append (.anchor .wordBoundary)
    (.append (Regex.Pattern.literal name.toList) (.anchor .wordBoundary))

/-- The text of a node with the type parameters replaced one after the other by the texts of their
values, each of which is read as a template. -/
def substituted (parameters : List (String × TypeTerm)) (code : String) :
    Except Regex.Fault String :=
  parameters.foldlM
    (fun code parameter =>
      Regex.Expression.replace ⟨wholeWord parameter.1, 0, []⟩ parameter.2.text code)
    code

/-- The text of a node with the type parameters of a scope replaced. -/
def codeOf (scope : Scope TypeTerm) (node : Node) : Task Session String := do
  match substituted scope.parameters node.text with
  | .ok code => return code
  | .error fault => Task.fail (.replacement fault)

/-- The text of a use of a generic type. -/
def genericCode (read : Reader) (scope : Scope TypeTerm) (name : String) (arguments : List Node) :
    Task Session String := do
  let texts ←
    if scope.parameters.isEmpty then pure (arguments.map Node.text)
    else arguments.mapM fun argument => do return (← read .type argument).text
  return name ++ "<" ++ Text.join ", " texts ++ ">"

/-- The types of a list, each text at its first occurrence, as one type: a union unless one is
left. -/
def unionOf (types : List TypeTerm) : TypeTerm :=
  let distinct := (types.foldl
    (fun (found : List (String × TypeTerm)) type =>
      if Keyed.has type.text found then found else found ++ [(type.text, type)]) []).map (·.2)
  match distinct with
  | [single] => single
  | many => .union "" many

/-! ## Signatures -/

/-- A parameter with a name and a type and nothing else. -/
def plainParameter (name : String) (type : TypeTerm) (isOptional : Bool) : Parameter TypeTerm :=
  ⟨name, type, isOptional, false, [], .name⟩

/-- The property that one part of an object pattern binds; a default gives the type. -/
def boundProperty (read : Reader) (part : Node) : Task Session (Option (Property TypeTerm)) := do
  match part.kind with
  | "shorthand_property_identifier_pattern" => return some ⟨part.text, false, any⟩
  | "object_assignment_pattern" =>
    let type ←
      match part.child? "right" with
      | some value => read (.value false) value
      | none => pure any
    return some ⟨Node.textOf (part.child? "left"), true, type⟩
  | "pair_pattern" =>
    let name := propertyName (part.child? "key")
    match part.child? "value" with
    | some value =>
      if value.kind == "assignment_pattern" then
        match value.child? "right" with
        | some right => return some ⟨name, true, ← read (.value false) right⟩
        | none => return some ⟨name, true, any⟩
      else return some ⟨name, false, any⟩
    | none => return some ⟨name, false, any⟩
  | _ => return none

/-- The properties that an object pattern without a type binds. -/
def boundProperties (read : Reader) (pattern : Node) : Task Session (List (Property TypeTerm)) := do
  return (← pattern.namedChildren.mapM (boundProperty read)).filterMap id

/-- The type of a parameter: the one that is written, that of the default, or any type. -/
def parameterType (read : Reader) (node : Node) : Task Session TypeTerm := do
  match node.child? "type", node.child? "value" with
  | some written, _ => read .type written
  | none, some value => read (.value false) value
  | none, none => return any

/-- A parameter; the one that stands for the receiver is none. -/
def parameterOf (read : Reader) (node : Node) : Task Session (Option (Parameter TypeTerm)) := do
  if node.kind != "required_parameter" && node.kind != "optional_parameter" then return none
  match node.child? "pattern" with
  | none => return none
  | some pattern =>
    if pattern.kind == "this" then return none
    let type ← parameterType read node
    let isOptional := node.kind == "optional_parameter" || (node.child? "value").isSome
    match pattern.kind with
    | "rest_pattern" =>
      let name := (pattern.lastNamed?.map Node.text).getD "args"
      return some ⟨name, type, false, true, [], .name⟩
    | "object_pattern" =>
      let bound ←
        if (node.child? "type").isNone then boundProperties read pattern else pure []
      return some ⟨Text.collapse pattern.text, type, isOptional, false, bound, .object⟩
    | "array_pattern" =>
      return some ⟨Text.collapse pattern.text, type, isOptional, false, [], .array⟩
    | _ => return some (plainParameter pattern.text type isOptional)

/-- The type that a function without a written one returns, before it is wrapped. -/
def inferredReturn (read : Reader) (node : Node) : Task Session TypeTerm := do
  match node.child? "body" with
  | none =>
    return if node.kind == "function_signature" || node.kind == "method_signature" then any
      else .primitive "void"
  | some body =>
    if body.kind != "statement_block" then read (.value false) body
    else
      match ← (returnsAmong body.children).mapM (read (.value false)) with
      | [] => return .primitive "void"
      | types => return unionOf types

/-- The type that a function returns. -/
def returnType (read : Reader) (node : Node) : Task Session TypeTerm := do
  match node.child? "return_type" with
  | some written => read .type written
  | none =>
    let inferred ← inferredReturn read node
    if Text.startsWith "generator" node.kind || node.hasChild "*" then
      return .verbatim ("Generator<" ++ inferred.text ++ ">")
    else if node.hasChild "async" then return .verbatim ("Promise<" ++ inferred.text ++ ">")
    else return inferred

/-- The signature of a function. -/
def signatureOf (read : Reader) (node : Node) : Task Session (Signature TypeTerm) := do
  let single :=
    (node.child? "parameter").map fun parameter => plainParameter parameter.text any false
  let listed ←
    match node.child? "parameters" with
    | some list => list.namedChildren.mapM (parameterOf read)
    | none => pure []
  return ⟨single.toList ++ listed.filterMap id, ← returnType read node⟩

/-- The type of a function. -/
def functionOf (read : Reader) (node : Node) : Task Session TypeTerm := do
  return .function "" [← signatureOf read node]

/-! ## Type syntax -/

/-- The kinds of nodes that only wrap the type inside them. -/
def wrapperKinds : List String :=
  ["type_annotation", "opting_type_annotation", "omitting_type_annotation",
    "adding_type_annotation", "parenthesized_type", "readonly_type", "default_type", "constraint"]

/-- The type of a member of a tuple. -/
def tupleMember (read : Reader) (node : Node) : Task Session TypeTerm := do
  let inner :=
    if node.kind == "tuple_parameter" || node.kind == "optional_tuple_parameter" then
      node.child? "type"
    else if node.kind == "optional_type" || node.kind == "rest_type" then node.lastNamed?
    else none
  read .type (inner.getD node)

/-- The type arguments of a node. -/
def typeArguments (node : Node) : List Node :=
  match node.child? "type_arguments" with
  | some list => list.namedChildren
  | none => []

/-- The type that a piece of type syntax writes. -/
def ofAnnotated (read : Reader) (scope : Scope TypeTerm) (node : Node) :
    Task Session TypeTerm := do
  match node.kind with
  | "type_annotation" | "opting_type_annotation" | "omitting_type_annotation"
  | "adding_type_annotation" | "parenthesized_type" | "readonly_type" | "default_type"
  | "constraint" =>
    match node.lastNamed? with
    | some inner => read .type inner
    | none => return any
  | "predefined_type" | "null" | "undefined" => return .primitive node.text
  | "literal_type" =>
    return if node.text == "null" || node.text == "undefined" then .primitive node.text
      else .literal node.text
  | "string" | "number" | "true" | "false" => return .literal node.text
  | "type_identifier" | "identifier" =>
    match Keyed.find? node.text scope.parameters with
    | some value => return value
    | none => newReference scope node.text node.text []
  | "nested_type_identifier" => newReference scope node.text node.text []
  | "generic_type" =>
    let name := Node.textOf (node.child? "name")
    let arguments := typeArguments node
    newReference scope name (← genericCode read scope name arguments) arguments
  | "array_type" =>
    match node.firstNamed? with
    | some element => return .array (← read .type element)
    | none => return .verbatim node.text
  | "tuple_type" => return .tuple (← node.namedChildren.mapM (tupleMember read))
  | "union_type" => return .union "" (← (flatten "union_type" node).mapM (read .type))
  | "intersection_type" =>
    return .intersection "" (← (flatten "intersection_type" node).mapM (read .type))
  | "function_type" => functionOf read node
  | "object_type" | "interface_body" => newObject (← codeOf scope node) none (.body node scope)
  | "type_predicate" | "type_predicate_annotation" => return .primitive "boolean"
  | "asserts_annotation" => return .primitive "void"
  | "template_literal_type" => return .primitive "string"
  | _ => return .verbatim (← codeOf scope node)

/-! ## Values -/

/-- The property that one part of an object literal gives. -/
def objectProperty (read : Reader) (part : Node) : Task Session (Option (Property TypeTerm)) := do
  match part.kind with
  | "pair" =>
    match part.child? "key", part.child? "value" with
    | some key, some value =>
      return some ⟨propertyName (some key), false, ← read (.value false) value⟩
    | _, _ => return none
  | "shorthand_property_identifier" => return some ⟨part.text, false, .primitive "unknown"⟩
  | "method_definition" =>
    return some ⟨propertyName (part.child? "name"), false, ← functionOf read part⟩
  | _ => return none

/-- The text of an object type with known properties. -/
def objectCode (properties : List (Property TypeTerm)) : String :=
  if properties.isEmpty then "\x7b\x7d"
  else
    let entries := properties.map fun property => property.name ++ ": " ++ property.type.text ++ ";"
    "\x7b " ++ Text.join " " entries ++ " \x7d"

/-- The type of an object literal. -/
def ofObject (read : Reader) (node : Node) : Task Session TypeTerm := do
  let properties := (← node.namedChildren.mapM (objectProperty read)).filterMap id
  newObject (objectCode properties) none (.known ⟨properties, []⟩)

/-- The type of an array literal. -/
def ofArray (read : Reader) (node : Node) : Task Session TypeTerm := do
  let elements := node.namedChildren.filter fun child => child.kind != "spread_element"
  match ← elements.mapM (read (.value false)) with
  | [] => return .array any
  | types => return .array (unionOf types)

/-- The operators whose result is a truth value. -/
def truthOperators : List String :=
  ["==", "===", "!=", "!==", "<", ">", "<=", ">=", "instanceof", "in"]

/-- The type of the result of an operator in front of a value. -/
def ofUnary (constant : Bool) (node : Node) : TypeTerm :=
  let operator := Node.textOf (node.child? "operator")
  let onNumber :=
    ((node.child? "argument").map fun argument => argument.kind == "number").getD false
  if operator == "!" then .primitive "boolean"
  else if operator == "typeof" then .primitive "string"
  else if operator == "-" && onNumber && constant then .literal node.text
  else if operator == "-" || operator == "+" || operator == "~" then .primitive "number"
  else .primitive "unknown"

/-- The type of an assertion: that of the value as a constant, or the one that is asserted. -/
def ofAssertion (read : Reader) (node : Node) : Task Session TypeTerm := do
  match node.namedChildren with
  | [] => return .primitive "unknown"
  | first :: rest =>
    if node.hasChild "const" then read (.value true) first
    else
      match rest.getLast? with
      | some type => read .type type
      | none => return .primitive "unknown"

/-- The type of a new object: a use of its class. -/
def ofNew (read : Reader) (scope : Scope TypeTerm) (node : Node) : Task Session TypeTerm := do
  match node.child? "constructor" with
  | some callee =>
    if callee.kind == "identifier" || callee.kind == "member_expression" then
      let arguments := typeArguments node
      let code ←
        if arguments.isEmpty then pure callee.text
        else genericCode read scope callee.text arguments
      newReference scope callee.text code arguments
    else return .primitive "unknown"
  | none => return .primitive "unknown"

/-- The type of a value. -/
def ofValue (read : Reader) (scope : Scope TypeTerm) (constant : Bool) (node : Node) :
    Task Session TypeTerm := do
  match node.kind with
  | "string" =>
    return if constant then .literal ("\"" ++ Text.inner node.text ++ "\"")
      else .primitive "string"
  | "template_string" => return .primitive "string"
  | "number" => return if constant then .literal node.text else .primitive "number"
  | "true" | "false" => return if constant then .literal node.kind else .primitive "boolean"
  | "null" => return .primitive "null"
  | "undefined" => return .primitive "undefined"
  | "identifier" =>
    return .primitive (if node.text == "undefined" then "undefined" else "unknown")
  | "regex" => return .primitive "RegExp"
  | "arrow_function" | "function_expression" | "function" | "generator_function" =>
    functionOf read node
  | "object" => ofObject read node
  | "array" => ofArray read node
  | "new_expression" => ofNew read scope node
  | "as_expression" => ofAssertion read node
  | "satisfies_expression" | "parenthesized_expression" | "non_null_expression" =>
    match node.firstNamed? with
    | some inner => read (.value constant) inner
    | none => return .primitive "unknown"
  | "unary_expression" => return ofUnary constant node
  | "binary_expression" =>
    let operator := Node.textOf (node.child? "operator")
    return .primitive (if truthOperators.contains operator then "boolean" else "unknown")
  | _ => return .primitive "unknown"

/-! ## Whole trees -/

/-- Reads a node; the nodes below it have less fuel. -/
def readWith (scope : Scope TypeTerm) : Nat → Reader
  | 0, _, _ => return any
  | fuel + 1, .type, node => ofAnnotated (readWith scope fuel) scope node
  | fuel + 1, .value constant, node => ofValue (readWith scope fuel) scope constant node

mutual

/-- The number of levels of a tree. -/
def height : Node → Nat
  | .mk _ _ _ _ _ _ children => heights children + 1

/-- The number of levels of the highest of some trees. -/
def heights : List Node → Nat
  | [] => 0
  | node :: rest => max (height node) (heights rest)

end

/-- Reads the nodes of a tree. Each step goes down at least one level, so the height of the tree is
fuel enough. -/
def readerFor (scope : Scope TypeTerm) (tree : Node) : Reader := readWith scope (height tree)

/-- The type that a piece of type syntax writes. -/
def typeOf (scope : Scope TypeTerm) (node : Node) : Task Session TypeTerm :=
  readerFor scope node .type node

/-- The type of a value. -/
def valueType (scope : Scope TypeTerm) (constant : Bool) (node : Node) : Task Session TypeTerm :=
  readerFor scope node (.value constant) node

/-- The signature of a function. -/
def signature (scope : Scope TypeTerm) (node : Node) : Task Session (Signature TypeTerm) :=
  signatureOf (readerFor scope node) node

end ModuleAtlas.Types
