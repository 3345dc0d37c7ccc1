import ModuleAtlas.Json.Value
import ModuleAtlas.Text.Basic

/-!
# Shapes

Simplified types: what a reader of a module sees of the type of an export. A shape renders to a
text where all of its parts are texts, and to a structured value otherwise.
-/

namespace ModuleAtlas

/-- A simplified type. -/
inductive Shape where
  | primitive (text : String)
  | literal (text : String)
  /-- A type that is shown by its name because it is being shown already or lies too deep. -/
  | reference (text : String)
  /-- A type of which nothing but the text is known. -/
  | verbatim (text : String)
  | array (element : Shape)
  | tuple (elements : List Shape)
  | function (parameters : List (String × Shape)) (returns : Shape)
  | union (members : List Shape)
  | intersection (members : List Shape)
  | object (properties : List (String × Shape)) (truncated : Bool)
deriving Repr, BEq, Inhabited

namespace Shape

/-- The shape that stands where the depth limit cuts. -/
def cut : Shape := .reference "..."

/-- The key that marks an object with more properties than are shown. -/
def moreKey : String := "..."

/-- Whether the text of a shape needs parentheses in front of brackets. -/
def isAlternative : Shape → Bool
  | .union _ | .intersection _ => true
  | _ => false

/-- The values joined to one text where all are texts, or the list of them under a key. -/
def joined (opening separator closing key : String) (parts : List Json) : Json :=
  match parts.mapM Json.text? with
  | some texts => .string (opening ++ Text.join separator texts ++ closing)
  | none => .object [(key, .array parts)]

mutual

/-- The shape as a value of a report. -/
def render : Shape → Json
  | .primitive text | .literal text | .reference text | .verbatim text => .string text
  | .array element =>
    match render element with
    | .string inner =>
      if element.isAlternative then .string ("(" ++ inner ++ ")[]") else .string (inner ++ "[]")
    | inner => .array [inner]
  | .tuple elements => joined "[" ", " "]" "tuple" (renderAll elements)
  | .union members => joined "" " | " "" "union" (renderAll members)
  | .intersection members => joined "" " & " "" "intersection" (renderAll members)
  | .function parameters returns =>
    .object
      [("params", .object (Keyed.ofPairs (renderNamed parameters))), ("return", render returns)]
  | .object properties truncated =>
    let entries := Keyed.ofPairs (renderNamed properties)
    .object (if truncated then Keyed.put moreKey (.string moreKey) entries else entries)

/-- The shapes as values of a report. -/
def renderAll : List Shape → List Json
  | [] => []
  | shape :: rest => render shape :: renderAll rest

/-- Named shapes as named values of a report. -/
def renderNamed : List (String × Shape) → List (String × Json)
  | [] => []
  | (name, shape) :: rest => (name, render shape) :: renderNamed rest

end

end Shape

end ModuleAtlas
