import ModuleAtlas.Source.Module

/-!
# Type terms

Types as they are written in a source file. Array, tuple, union, intersection and function types
hold their parts. The members of an object type and the target of a reference are looked up on
demand; both are known by a cell, where what was found is kept.
-/

namespace ModuleAtlas

/-- A property of an object type. -/
structure Property (τ : Type) where
  name : String
  isOptional : Bool
  type : τ
deriving Inhabited

/-- The form in which a parameter is bound. -/
inductive ParameterForm where
  | name
  | object
  | array
deriving Repr, DecidableEq, Inhabited

/-- A parameter of a function type. An object pattern without a type binds properties. -/
structure Parameter (τ : Type) where
  name : String
  type : τ
  isOptional : Bool
  isRest : Bool
  bound : List (Property τ)
  form : ParameterForm
deriving Inhabited

/-- A call signature. -/
structure Signature (τ : Type) where
  parameters : List (Parameter τ)
  returns : τ
deriving Inhabited

/-- The members of an object type. -/
structure Members (τ : Type) where
  properties : List (Property τ)
  signatures : List (Signature τ)
deriving Inhabited

namespace Members

/-- No members. -/
def none : Members τ := ⟨[], []⟩

end Members

/-- Where a piece of type syntax stands: in a module, under values for type parameters. In the
default of a type parameter the parameters after it have no value yet; the members of an object type
there are collected later, when all parameters of the list that is being bound have theirs. -/
structure Scope (τ : Type) where
  source : SourceModule
  parameters : List (String × τ)
  /-- The list of parameters that is being bound. -/
  pending : Option Nat
deriving Inhabited

/-- Where the members of an object type come from. -/
inductive MemberSource (τ : Type) where
  | known (members : Members τ)
  | body (node : Node) (scope : Scope τ)
  | interface (first : Node) (declarations : List Declaration) (scope : Scope τ)
  | class (declaration : Node) (scope : Scope τ)

/-- A type. -/
inductive TypeTerm where
  | primitive (name : String)
  | literal (value : String)
  /-- A type of which nothing but the text is known. -/
  | verbatim (code : String)
  | array (element : TypeTerm)
  | tuple (elements : List TypeTerm)
  /-- A union; a label that is not empty is its text. -/
  | union (label : String) (members : List TypeTerm)
  /-- An intersection; a label that is not empty is its text. -/
  | intersection (label : String) (members : List TypeTerm)
  /-- A function type; a label that is not empty is its text. -/
  | function (label : String) (signatures : List (Signature TypeTerm))
  /-- An object type, with the name of its declaration if it has one. -/
  | object (cell : Nat) (code : String) (name : Option String) (source : MemberSource TypeTerm)
  /-- A use of a declared type, with its type arguments. -/
  | reference (cell : Nat) (code : String) (name : String) (scope : Scope TypeTerm)
      (arguments : List Node)
deriving Inhabited

namespace TypeTerm

/-- The kind of a type. -/
def kind : TypeTerm → String
  | .primitive _ => "primitive"
  | .literal _ => "literal"
  | .verbatim _ => "opaque"
  | .array _ => "array"
  | .tuple _ => "tuple"
  | .union _ _ => "union"
  | .intersection _ _ => "intersection"
  | .function _ _ => "function"
  | .object _ _ _ _ => "object"
  | .reference _ _ _ _ _ => "reference"

/-- Whether the text of a type needs parentheses in front of brackets. -/
def needsParentheses : TypeTerm → Bool
  | .union _ _ | .intersection _ _ | .function _ _ => true
  | _ => false

/-- The name of a parameter as it stands in a signature. -/
def parameterLabel (name : String) (isRest isOptional : Bool) : String :=
  (if isRest then "..." else "") ++ name ++ (if isOptional then "?" else "")

mutual

/-- The text of a type, with each run of blanks as one. -/
def text : TypeTerm → String
  | .primitive name => Text.collapse name
  | .literal value => Text.collapse value
  | .verbatim code => Text.collapse code
  | .array element =>
    let inner := text element
    Text.collapse ((if element.needsParentheses then "(" ++ inner ++ ")" else inner) ++ "[]")
  | .tuple elements => Text.collapse ("[" ++ Text.join ", " (texts elements) ++ "]")
  | .union label members =>
    Text.collapse (if label.isEmpty then Text.join " | " (texts members) else label)
  | .intersection label members =>
    Text.collapse (if label.isEmpty then Text.join " & " (texts members) else label)
  | .function label signatures =>
    Text.collapse (if label.isEmpty then firstSignatureText signatures else label)
  | .object _ code _ _ => Text.collapse code
  | .reference _ code _ _ _ => Text.collapse code

/-- The texts of types. -/
def texts : List TypeTerm → List String
  | [] => []
  | type :: rest => text type :: texts rest

/-- The text of the first of some signatures. -/
def firstSignatureText : List (Signature TypeTerm) → String
  | [] => "Function"
  | signature :: _ => signatureText signature

/-- The text of a signature. -/
def signatureText : Signature TypeTerm → String
  | ⟨parameters, returns⟩ =>
    "(" ++ Text.join ", " (parameterTexts parameters) ++ ") => " ++ text returns

/-- The texts of parameters. -/
def parameterTexts : List (Parameter TypeTerm) → List String
  | [] => []
  | ⟨name, type, isOptional, isRest, _, _⟩ :: rest =>
    (parameterLabel name isRest isOptional ++ ": " ++ text type) :: parameterTexts rest

end

end TypeTerm

end ModuleAtlas
