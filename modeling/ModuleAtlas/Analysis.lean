import ModuleAtlas.Syntax
import ModuleAtlas.Json.Value
import ModuleAtlas.Text.Basic

/-!
# Declaration catalogue

The declarations of a file at any depth, with the cyclomatic complexity of functions and methods:
one more than the number of branches, loops, cases, handlers and short-circuit operators in the
body, those of nested functions included.
-/

namespace ModuleAtlas

namespace Node

/-! ## Walking with a stack -/

theorem walk_eq (node : Node) : node.walk = node :: walkAll node.children := by
  cases node
  rfl

theorem walkAll_append (nodes others : List Node) :
    walkAll (nodes ++ others) = walkAll nodes ++ walkAll others := by
  induction nodes with
  | nil => rfl
  | cons node rest ih => rw [List.cons_append, walkAll, walkAll, ih, List.append_assoc]

theorem length_walkAll_reverse (nodes : List Node) :
    (walkAll nodes.reverse).length = (walkAll nodes).length := by
  induction nodes with
  | nil => rfl
  | cons node rest ih =>
    rw [List.reverse_cons, walkAll_append, walkAll, walkAll, walkAll, List.append_nil,
      List.length_append, List.length_append, ih, Nat.add_comm]

/-- The nodes that a walk with a stack comes by. In each round the last node of the stack is taken
off, and its children are put on in its place, the first of them last. -/
def visits (stack : List Node) : List Node :=
  match _found : stack.getLast? with
  | none => []
  | some node => node :: visits (stack.dropLast ++ node.children.reverse)
termination_by (walkAll stack).length
decreasing_by
  -- The nodes that are still to come are those below the stack; a round takes one away.
  obtain ⟨rest, rfl⟩ := List.getLast?_eq_some_iff.mp _found
  rw [List.dropLast_concat, walkAll_append, walkAll_append, walkAll, walkAll, walk_eq,
    List.length_append, List.length_append, length_walkAll_reverse]
  simp

/-- A walk with a stack comes by what is below the nodes of the stack, the last one first. -/
theorem visits_eq_walkAll (stack : List Node) : visits stack = walkAll stack.reverse := by
  fun_induction visits stack with
  | case1 stack empty =>
    rw [List.getLast?_eq_none_iff.mp empty]
    rfl
  | case2 stack node found ih =>
    obtain ⟨rest, rfl⟩ := List.getLast?_eq_some_iff.mp found
    rw [List.dropLast_concat, List.reverse_append, List.reverse_reverse, walkAll_append] at ih
    rw [List.dropLast_concat, ih, List.reverse_concat, walkAll, walk_eq, List.cons_append]

theorem visits_singleton (root : Node) : visits [root] = root.walk := by
  rw [visits_eq_walkAll, List.reverse_singleton, walkAll, walkAll, List.append_nil]

/-! ## Complexity -/

/-- The kinds of nodes that add one decision. -/
def decisionKinds : List String :=
  ["if_statement", "ternary_expression", "while_statement", "for_statement", "for_in_statement",
    "do_statement", "switch_case", "catch_clause"]

/-- Whether a node is a decision by itself: a branching statement or a short-circuit operator. -/
def isDecision (node : Node) : Bool :=
  if decisionKinds.contains node.kind then true
  else if node.kind == "binary_expression" then
    match node.child? "operator" with
    | some operator => operator.kind == "&&" || operator.kind == "||"
    | none => false
  else false

/-- The cyclomatic complexity of a body. -/
def complexity (body : Node) : Nat := 1 + ((visits [body]).filter isDecision).length

/-! ## Texts of declarations -/

/-- The name that a declaration gives. -/
def declaredName (node : Node) : String := ((node.child? "name").map text).getD "anonymous"

/-- The text of the type in an annotation, without the colon. -/
def writtenType (node : Node) : String :=
  match node.lastNamed? with
  | some inner => if Text.endsWith "annotation" node.kind then inner.text else node.text
  | none => node.text

/-- A name with its type, as far as both are there. -/
def typedText (name type : Option Node) : String :=
  let name := (name.map text).getD "anonymous"
  match type with
  | some type => name ++ ": " ++ writtenType type
  | none => name

/-- The name of a base, without type arguments. -/
def heritageName (node : Node) : String :=
  if node.kind == "generic_type" then textOf (node.child? "name") else node.text

/-- The members in the body of a declaration. -/
def bodyMembers (node : Node) : List Node :=
  match node.child? "body" with
  | some body => body.namedChildren
  | none => []

end Node

/-- A catalogued declaration. -/
structure Item where
  kind : String
  name : String
  line : Int
  exported : Option Bool
  properties : List String
  definition : Option String
  bases : List String
  implements : List String
  members : List String
  parameters : List String
  returnType : Option String
  complexity : Option Int
deriving Repr, Inhabited

namespace Item

/-- An entry with a list of texts, unless the list is empty. -/
def textsEntry (key : String) (texts : List String) : List (String × Json) :=
  if texts.isEmpty then [] else [(key, .array (texts.map .string))]

/-- The item as a value of a report. -/
def report (item : Item) : Json :=
  .object <|
    [("kind", .string item.kind), ("name", .string item.name), ("line", .int item.line)]
      ++ (item.exported.map fun value => ("exported", Json.bool value)).toList
      ++ textsEntry "extends" item.bases
      ++ textsEntry "implements" item.implements
      ++ (item.definition.map fun value => ("definition", Json.string value)).toList
      ++ textsEntry "properties" item.properties
      ++ textsEntry "members" item.members
      ++ textsEntry "parameters" item.parameters
      ++ (item.returnType.map fun value => ("returnType", Json.string value)).toList
      ++ (item.complexity.map fun value => ("complexity", Json.int value)).toList

/-- An item with nothing but a kind, a name, a line and whether it is exported. -/
def plain (kind name : String) (line : Nat) (exported : Option Bool) : Item where
  kind := kind
  name := name
  line := line
  exported := exported
  properties := []
  definition := none
  bases := []
  implements := []
  members := []
  parameters := []
  returnType := none
  complexity := none

end Item

/-- A node together with its parent and the parent of that. -/
structure Placed where
  node : Node
  parent : Option Node
  grandparent : Option Node
deriving Inhabited

namespace Placed

mutual

/-- A node and everything below it with their parents, in the order of `Node.visits`. -/
def walk (parent grandparent : Option Node) : Node → List Placed
  | .mk kind named role start line text children =>
    let node := Node.mk kind named role start line text children
    ⟨node, parent, grandparent⟩ :: walkAll (some node) parent children

/-- Everything in a list of trees with their parents. -/
def walkAll (parent grandparent : Option Node) : List Node → List Placed
  | [] => []
  | node :: rest => walk parent grandparent node ++ walkAll parent grandparent rest

end

mutual

theorem map_node_walk (parent grandparent : Option Node) :
    ∀ root : Node, (walk parent grandparent root).map node = root.walk
  | .mk kind named role start line text children => by
    rw [walk, List.map_cons, map_node_walkAll, Node.walk]

theorem map_node_walkAll (parent grandparent : Option Node) :
    ∀ roots : List Node, (walkAll parent grandparent roots).map node = Node.walkAll roots
  | [] => rfl
  | root :: rest => by
    rw [walkAll, List.map_append, map_node_walk, map_node_walkAll, Node.walkAll]

end

/-- Nodes with their parents come in the order of the walk with a stack. -/
theorem map_node_walk_eq_visits (root : Node) :
    (walk none none root).map node = Node.visits [root] :=
  (map_node_walk none none root).trans (Node.visits_singleton root).symm

/-- Whether the parent is of one of some kinds. -/
def isUnder (placed : Placed) (kinds : List String) : Bool :=
  (placed.parent.map fun parent => kinds.contains parent.kind).getD false

/-- The line on which a declaration starts, with what is written before it. -/
def line (placed : Placed) : Nat :=
  match placed.parent with
  | some parent =>
    if ["export_statement", "ambient_declaration"].contains parent.kind then parent.line
    else placed.node.line
  | none => placed.node.line

/-- Whether a declaration is exported where it stands. -/
def isExported (placed : Placed) : Bool :=
  let holder := if placed.isUnder ["ambient_declaration"] then placed.grandparent else placed.parent
  (holder.map fun holder => holder.kind == "export_statement").getD false

/-- The item of a declaration, with only what all kinds of declarations have. -/
def plainItem (placed : Placed) (kind : String) : Item :=
  Item.plain kind placed.node.declaredName placed.line (some placed.isExported)

/-- The item of an interface. -/
def interfaceItem (placed : Placed) : Item :=
  let node := placed.node
  let properties := node.bodyMembers.filterMap fun member =>
    if member.kind == "property_signature" then
      some (Node.typedText (member.child? "name") (member.child? "type"))
    else if member.kind == "method_signature" then
      some (Node.typedText (member.child? "name") (member.child? "return_type"))
    else none
  let bases := (node.namedChildren.filter fun child => child.kind == "extends_type_clause").flatMap
    fun clause => clause.namedChildren.map Node.heritageName
  { placed.plainItem "interface" with properties := properties, bases := bases }

/-- The clauses that name the bases of a class. -/
def heritageClauses (node : Node) : List Node :=
  (node.namedChildren.filter fun child => child.kind == "class_heritage").flatMap Node.namedChildren

/-- A member of a class with its visibility and its role. -/
def classMember? (member : Node) : Option String :=
  let role? :=
    if member.kind == "method_definition" then some "method"
    else if member.kind == "public_field_definition" then some "property"
    else none
  role?.map fun role =>
    let visibility :=
      match member.children.find? fun child => child.kind == "accessibility_modifier" with
      | some modifier => modifier.text ++ " "
      | none => ""
    visibility ++ member.declaredName ++ " (" ++ role ++ ")"

/-- The item of a class. -/
def classItem (placed : Placed) : Item :=
  let clauses := heritageClauses placed.node
  let bases := clauses.filterMap fun clause =>
    if clause.kind == "extends_clause" then (clause.child? "value").map Node.text else none
  let promises := (clauses.filter fun clause => clause.kind == "implements_clause").flatMap
    fun clause => clause.namedChildren.map Node.heritageName
  { placed.plainItem "class" with
    bases := bases
    implements := promises
    members := placed.node.bodyMembers.filterMap classMember? }

/-- The item of an enumeration. -/
def enumItem (placed : Placed) : Item :=
  let members := placed.node.bodyMembers.filterMap fun member =>
    if member.kind == "enum_assignment" then
      some (Node.textOf (member.child? "name") ++ " = " ++ Node.textOf (member.child? "value"))
    else if member.kind == "property_identifier" || member.kind == "string" then some member.text
    else none
  { placed.plainItem "enum" with members := members }

/-- The item of a function or a method. -/
def functionItem (placed : Placed) (kind : String) (exported : Option Bool) : Item :=
  let node := placed.node
  let parameters :=
    match node.child? "parameters" with
    | some list =>
      (list.namedChildren.filter fun parameter =>
        parameter.kind == "required_parameter" || parameter.kind == "optional_parameter").map
          fun parameter => Node.typedText (parameter.child? "pattern") (parameter.child? "type")
    | none => []
  { placed.plainItem kind with
    exported := exported
    parameters := parameters
    returnType := (node.child? "return_type").map Node.writtenType
    complexity := (node.child? "body").map fun body => (body.complexity : Int) }

/-- The item of a node, if it is a declaration that the catalogue lists. -/
def item? (placed : Placed) : Option Item :=
  match placed.node.kind with
  | "interface_declaration" => some placed.interfaceItem
  | "type_alias_declaration" =>
    some { placed.plainItem "type" with
      definition := (placed.node.child? "value").map Node.text }
  | "class_declaration" | "abstract_class_declaration" => some placed.classItem
  | "enum_declaration" => some placed.enumItem
  | "function_declaration" | "generator_function_declaration" | "function_signature" =>
    some (placed.functionItem "function" (some placed.isExported))
  | "method_definition" => some (placed.functionItem "method" none)
  | _ => none

end Placed

namespace Item

/-- The declarations of a file by the line on which they start. -/
def catalogue (root : Node) : List Item :=
  ((Placed.walk none none root).filterMap Placed.item?).mergeSort fun a b =>
    decide (a.line ≤ b.line)

/-- The name of a count of items of a kind. -/
def plural (kind : String) : String := if Text.endsWith "s" kind then kind ++ "es" else kind ++ "s"

/-- The number of items of each kind that occurs, and of all items. -/
def summarize (kinds : List String) : Json :=
  let counts := (Text.sortedSet kinds).map fun kind =>
    (plural kind, Json.int (kinds.filter (· == kind)).length)
  .object (Keyed.put "total" (.int kinds.length) (Keyed.ofPairs counts))

end Item

end ModuleAtlas
