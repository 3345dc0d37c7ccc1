/-!
# Syntax trees

Concrete syntax trees of source files, as a parser of the language hands them over. A node knows
its kind, the role that it plays for its parent, its place in the file and its text.
-/

namespace ModuleAtlas

/-- A node of a concrete syntax tree. Anonymous nodes are tokens, whose kind is their text. -/
inductive Node where
  | mk (kind : String) (named : Bool) (role : Option String) (start line : Nat) (text : String)
      (children : List Node)
deriving Repr, Inhabited, BEq

namespace Node

/-- What the node is, in the words of the grammar. -/
def kind : Node → String
  | .mk kind _ _ _ _ _ _ => kind

/-- Whether the node is more than a token. -/
def named : Node → Bool
  | .mk _ named _ _ _ _ _ => named

/-- The role under which the parent holds the node. -/
def role : Node → Option String
  | .mk _ _ role _ _ _ _ => role

/-- The position of the first byte of the node in its file. -/
def start : Node → Nat
  | .mk _ _ _ start _ _ _ => start

/-- The line on which the node starts, counted from one. -/
def line : Node → Nat
  | .mk _ _ _ _ line _ _ => line

/-- The text that the node covers. -/
def text : Node → String
  | .mk _ _ _ _ _ text _ => text

/-- The nodes directly below. -/
def children : Node → List Node
  | .mk _ _ _ _ _ _ children => children

/-- The children that are more than tokens; comments are among them. -/
def namedChildren (node : Node) : List Node := node.children.filter named

/-- The first child with a role. -/
def child? (node : Node) (role : String) : Option Node :=
  node.children.find? fun child => child.role == some role

/-- The text of a node that may be missing. -/
def textOf (node : Option Node) : String := (node.map text).getD ""

/-- Whether some child is of a kind. -/
def hasChild (node : Node) (kind : String) : Bool :=
  node.children.any fun child => child.kind == kind

/-- The last child that is more than a token. -/
def lastNamed? (node : Node) : Option Node := node.namedChildren.getLast?

/-- The first child that is more than a token. -/
def firstNamed? (node : Node) : Option Node := node.namedChildren.head?

mutual

/-- The node and everything below it, parents before children, from left to right. -/
def walk : Node → List Node
  | .mk kind named role start line text children =>
    .mk kind named role start line text children :: walkAll children

/-- Everything in a list of trees, parents before children, from left to right. -/
def walkAll : List Node → List Node
  | [] => []
  | node :: rest => walk node ++ walkAll rest

end

/-- Whether the node is a comment. Comments play no role. -/
def isComment (node : Node) : Bool := node.kind == "comment" && node.role.isNone

/-- The nodes of a tree that are no comments, in the order of `walk`. -/
def substance (root : Node) : List Node := root.walk.filter fun node => !node.isComment

/-- The content of a string literal between its quotes. -/
def stringContent? (node : Node) : Option String :=
  if node.kind != "string" then none
  else
    match node.text.toList with
    | quote :: rest =>
      if (quote == '"' || quote == '\'') && rest.getLast? == some quote then
        some (String.ofList rest.dropLast)
      else none
    | [] => none

/-- The content of the string literal that plays a role. -/
def stringRole? (node : Node) (role : String) : Option String :=
  (node.child? role).bind stringContent?

end Node

end ModuleAtlas
