import ModuleAtlas.Shape.Basic
import ModuleAtlas.Shape.Cleaner
import ModuleAtlas.Shape.LiteralText
import ModuleAtlas.Types.Structure

/-!
# Simplifying types

From types to shapes. Three limits keep a shape small. Below the depth limit stands a mark. A type
whose text is being expanded already is shown by its name. Only so many structured types are
expanded for one shape; those that come later are shown by name as well. What has been expanded on
the way down is no matter of siblings, but the number of expansions left is shared by all.
-/

namespace ModuleAtlas

open ModuleAtlas.Types

/-- What types are simplified by: the limits, and how type texts are cleaned. -/
structure Simplifier where
  settings : Settings
  cleaner : Shape.Cleaner

/-- A task that may expand so many structured types. -/
abbrev Expansion := StateT Nat (Task Session)

namespace Expansion

/-- Takes one of the expansions left, if there is one. -/
def spend : Expansion Bool := do
  match ← get with
  | 0 => return false
  | left + 1 =>
    set left
    return true

end Expansion

namespace Simplifier

/-- The simplifier of settings. -/
def ofSettings (settings : Settings) : Simplifier :=
  ⟨settings, Shape.Cleaner.ofRules settings.wrapperRules⟩

/-- The simplifier of settings, with notices about the wrapper rules that cannot be used. -/
def prepare (settings : Settings) : Task σ Simplifier := do
  for notice in Shape.Cleaner.notices settings.wrapperRules do
    Task.note notice
  return ofSettings settings

/-- The text of a type as it is shown. -/
def clean (simplifier : Simplifier) (text : String) : Task Session String :=
  match simplifier.cleaner.clean text with
  | .ok cleaned => return cleaned
  | .error fault => Task.fail (.replacement fault)

/-- The reference that stands for a type with some text: its name, or else the text. -/
def nameOf (simplifier : Simplifier) (type : TypeTerm) (text : String) : Task Session Shape := do
  let name := ((← symbolOf type).filter (!·.isEmpty)).getD text
  return .reference (← simplifier.clean name)

/-- The depth at which so many levels are left. -/
def depth (simplifier : Simplifier) (levels : Nat) : Int := simplifier.settings.maxDepth - levels

/-- The first of some elements. A negative number counts from the end. -/
def firstOf (count : Int) (elements : List α) : List α :=
  if count < 0 then elements.take (elements.length + count).toNat else elements.take count.toNat

/-- The name of a property, with a mark when it may be missing. -/
def propertyLabel (property : Property TypeTerm) : String :=
  property.name ++ (if property.isOptional then "?" else "")

/-- The properties that stand for the only parameter of a signature when that is a pattern: those of
its type, or else the names that the pattern binds. -/
def patternProperties (parameter : Parameter TypeTerm) :
    Task Session (List (Property TypeTerm)) := do
  let properties ← if ← isObject parameter.type then propertiesOf parameter.type else pure []
  return if properties.isEmpty then parameter.bound else properties

/-- The named types that the parameters of a signature are shown as. -/
def shownParameters (signature : Signature TypeTerm) : Task Session (List (String × TypeTerm)) := do
  let listed := signature.parameters.map fun parameter =>
    (if parameter.isRest then "..." ++ parameter.name else parameter.name, parameter.type)
  match signature.parameters with
  | [parameter] =>
    if parameter.form = .name then return listed
    else
      match ← patternProperties parameter with
      | [] => return [("...args", parameter.type)]
      | properties =>
        return properties.map fun property => (propertyLabel property, property.type)
  | _ => return listed

/-- Whether an object type with a name is too large to be shown inside other types. -/
def isCollapsed (simplifier : Simplifier) (levels count : Nat) : Bool :=
  simplifier.settings.collapseThreshold < count && 2 ≤ simplifier.depth levels

/-- Each of some named types as a named shape. -/
def eachNamed (simplify : TypeTerm → Expansion α) :
    List (String × TypeTerm) → Expansion (List (String × α))
  | [] => return []
  | (name, type) :: rest => do
    let shape ← simplify type
    return (name, shape) :: (← eachNamed simplify rest)

/-- Each of some types as a shape. -/
def each (simplify : TypeTerm → Expansion α) : List TypeTerm → Expansion (List α)
  | [] => return []
  | type :: rest => do
    let shape ← simplify type
    return shape :: (← each simplify rest)

/-- The shape of an object type, where `type` is the type as it was met and `target` what it stands
for. -/
def objectShape (simplifier : Simplifier) (levels : Nat) (simplify : TypeTerm → Expansion Shape)
    (type target : TypeTerm) : Expansion Shape := do
  let properties ← propertiesOf target
  if properties.isEmpty then return .object [] false
  let name := ((← symbolOf type).filter (!·.isEmpty)).getD ""
  if !name.isEmpty && simplifier.isCollapsed levels properties.length then return .reference name
  let limit := simplifier.settings.maxProperties
  let shown := (firstOf limit properties).map fun property =>
    (propertyLabel property, property.type)
  return .object (← eachNamed simplify shown) (decide (limit < properties.length))

/-- The shape of a signature, with a function for the shapes of its parts. -/
def functionShape (simplify : TypeTerm → Expansion Shape) (signature : Signature TypeTerm) :
    Expansion Shape := do
  let parameters ← shownParameters signature
  return .function (← eachNamed simplify parameters) (← simplify signature.returns)

/-- The shape of a type that is expanded, with functions for the shapes of its parts and of its
signatures. -/
def expand (simplifier : Simplifier) (levels : Nat) (simplify : TypeTerm → Expansion Shape)
    (simplifySignature : Signature TypeTerm → Expansion Shape) (type target : TypeTerm) :
    Expansion Shape := do
  match target with
  | .primitive _ => return .primitive target.text
  | .literal _ => return .literal target.text
  | .array element => return .array (← simplify element)
  | .tuple elements => return .tuple (← each simplify elements)
  | .union _ members => return .union (← each simplify members)
  | .intersection _ members => return .intersection (← each simplify members)
  | .object _ _ _ _ => simplifier.objectShape levels simplify type target
  | .function _ (signature :: _) => simplifySignature signature
  | .function _ [] | .verbatim _ | .reference _ _ _ _ _ =>
    return .verbatim (← simplifier.clean target.text)

mutual

/-- The shape of a type with so many levels left, inside of types with the given texts. -/
def shapeAt (simplifier : Simplifier) : Nat → List String → TypeTerm → Expansion Shape
  | 0, _, _ => return .cut
  | levels + 1, visited, type => do
    let text := type.text
    let isNested := decide (0 < simplifier.depth (levels + 1))
    if isNested && visited.contains text then simplifier.nameOf type text
    else if primitiveNames.contains text || builtinNames.contains text then
      return .primitive text
    else if Shape.isLiteralText text then return .literal text
    else if ← Expansion.spend then
      simplifier.expand (levels + 1) (shapeAt simplifier levels (text :: visited))
        (signatureAt simplifier levels (text :: visited)) type (← structureOf type)
    else simplifier.nameOf type text

/-- The shape of a signature with so many levels left, inside of types with the given texts. -/
def signatureAt (simplifier : Simplifier) :
    Nat → List String → Signature TypeTerm → Expansion Shape
  | 0, _, _ => return .cut
  | levels + 1, visited, signature => functionShape (shapeAt simplifier levels visited) signature

end

/-- The levels that are left at a depth. -/
def levelsAt (simplifier : Simplifier) (depth : Int) : Nat :=
  (simplifier.settings.maxDepth - depth).toNat

/-- The expansions that one shape may take. -/
def expansions (simplifier : Simplifier) : Nat := simplifier.settings.maxNodes.toNat

/-- The shape of a type at a depth, inside of types with the given texts. -/
def simplify (simplifier : Simplifier) (depth : Int) (visited : List String) (type : TypeTerm) :
    Task Session Shape :=
  (simplifier.shapeAt (simplifier.levelsAt depth) visited type).run' simplifier.expansions

/-- The shape of a signature at a depth, inside of types with the given texts. -/
def simplifySignature (simplifier : Simplifier) (depth : Int) (visited : List String)
    (signature : Signature TypeTerm) : Task Session Shape :=
  (simplifier.signatureAt (simplifier.levelsAt depth) visited signature).run' simplifier.expansions

end Simplifier

end ModuleAtlas
