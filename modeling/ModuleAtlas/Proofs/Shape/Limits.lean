import ModuleAtlas.Proofs.Shape.Budget

/-!
# Sketches and the limits of shapes

A sketch remembers what each node of a shape shows, and so tells what the limits promise there.
-/

namespace ModuleAtlas

open ModuleAtlas.Types

/-!
## Sketches

A sketch is a shape that remembers what it shows: the type at each node and, of an object type, its
properties and its name at the moment when it was shown.  Sketching a type runs like simplifying it,
step by step, and leaves nothing out but the shape, which the sketch determines.  So what holds of
all sketches holds of all shapes.
-/

/-- What is known of an object type when it is shown. -/
structure ObjectView where
  /-- The type as it was met. -/
  type : TypeTerm
  /-- All of its properties, in order. -/
  properties : List (Property TypeTerm)
  /-- The name of its declaration, or nothing. -/
  name : String

/-- A shape together with the types that it shows. -/
inductive Sketch where
  /-- A shape without parts. -/
  | leaf (type : Option TypeTerm) (shape : Shape)
  | array (type : TypeTerm) (element : Sketch)
  | tuple (type : TypeTerm) (elements : List Sketch)
  /-- A function type, or a signature alone. -/
  | function (type : Option TypeTerm) (parameters : List (String × Sketch)) (returns : Sketch)
  | union (type : TypeTerm) (members : List Sketch)
  | intersection (type : TypeTerm) (members : List Sketch)
  | object (view : ObjectView) (entries : List (String × Sketch)) (truncated : Bool)

namespace Sketch

/-- The type that is shown, unless it is a signature alone. -/
def type? : Sketch → Option TypeTerm
  | .leaf type _ => type
  | .array type _ => some type
  | .tuple type _ => some type
  | .function type _ _ => type
  | .union type _ => some type
  | .intersection type _ => some type
  | .object view _ _ => some view.type

mutual

/-- The shape that a sketch determines. -/
def shape : Sketch → Shape
  | .leaf _ shape => shape
  | .array _ element => .array (shape element)
  | .tuple _ elements => .tuple (shapes elements)
  | .function _ parameters returns => .function (namedShapes parameters) (shape returns)
  | .union _ members => .union (shapes members)
  | .intersection _ members => .intersection (shapes members)
  | .object _ entries truncated => .object (namedShapes entries) truncated

/-- The shapes that sketches determine. -/
def shapes : List Sketch → List Shape
  | [] => []
  | sketch :: rest => shape sketch :: shapes rest

/-- The named shapes that named sketches determine. -/
def namedShapes : List (String × Sketch) → List (String × Shape)
  | [] => []
  | (name, sketch) :: rest => (name, shape sketch) :: namedShapes rest

end

end Sketch

namespace Simplifier

/-! ### Sketching -/

/-- A sketch of an object type, where `type` is the type as it was met and `target` what it stands
for. -/
def sketchObject (simplifier : Simplifier) (levels : Nat) (sketch : TypeTerm → Expansion Sketch)
    (type target : TypeTerm) : Expansion Sketch := do
  let properties ← propertiesOf target
  if properties.isEmpty then return .object ⟨type, properties, ""⟩ [] false
  let name := ((← symbolOf type).filter (!·.isEmpty)).getD ""
  if !name.isEmpty && simplifier.isCollapsed levels properties.length then
    return .leaf (some type) (.reference name)
  let limit := simplifier.settings.maxProperties
  let shown := (firstOf limit properties).map fun property =>
    (propertyLabel property, property.type)
  return .object ⟨type, properties, name⟩ (← eachNamed sketch shown)
    (decide (limit < properties.length))

/-- A sketch of a signature, for the function type that it is taken from if there is one. -/
def sketchFunction (sketch : TypeTerm → Expansion Sketch) (type : Option TypeTerm)
    (signature : Signature TypeTerm) : Expansion Sketch := do
  let parameters ← shownParameters signature
  return .function type (← eachNamed sketch parameters) (← sketch signature.returns)

/-- A sketch of a type that is expanded. -/
def sketchExpanded (simplifier : Simplifier) (levels : Nat) (sketch : TypeTerm → Expansion Sketch)
    (sketchSignature : Signature TypeTerm → Expansion Sketch) (type target : TypeTerm) :
    Expansion Sketch := do
  match target with
  | .primitive _ => return .leaf (some type) (.primitive target.text)
  | .literal _ => return .leaf (some type) (.literal target.text)
  | .array element => return .array type (← sketch element)
  | .tuple elements => return .tuple type (← each sketch elements)
  | .union _ members => return .union type (← each sketch members)
  | .intersection _ members => return .intersection type (← each sketch members)
  | .object _ _ _ _ => simplifier.sketchObject levels sketch type target
  | .function _ (signature :: _) => sketchSignature signature
  | .function _ [] | .verbatim _ | .reference _ _ _ _ _ =>
    return .leaf (some type) (.verbatim (← simplifier.clean target.text))

mutual

/-- A sketch of a type with so many levels left, inside of types with the given texts. -/
def sketchAt (simplifier : Simplifier) : Nat → List String → TypeTerm → Expansion Sketch
  | 0, _, type => return .leaf (some type) .cut
  | levels + 1, visited, type => do
    let text := type.text
    let isNested := decide (0 < simplifier.depth (levels + 1))
    if isNested && visited.contains text then
      return .leaf (some type) (← simplifier.nameOf type text)
    else if primitiveNames.contains text || builtinNames.contains text then
      return .leaf (some type) (.primitive text)
    else if Shape.isLiteralText text then return .leaf (some type) (.literal text)
    else if ← Expansion.spend then
      simplifier.sketchExpanded (levels + 1) (sketchAt simplifier levels (text :: visited))
        (sketchSignatureAt simplifier levels (text :: visited) (some type)) type
        (← structureOf type)
    else return .leaf (some type) (← simplifier.nameOf type text)

/-- A sketch of a signature with so many levels left, inside of types with the given texts. -/
def sketchSignatureAt (simplifier : Simplifier) :
    Nat → List String → Option TypeTerm → Signature TypeTerm → Expansion Sketch
  | 0, _, type, _ => return .leaf type .cut
  | levels + 1, visited, type, signature =>
    sketchFunction (sketchAt simplifier levels visited) type signature

end

/-! ### Sketching is simplifying -/

section Parts

variable {sketch : TypeTerm → Expansion Sketch}

theorem each_shape (types : List TypeTerm) :
    each (fun type => Sketch.shape <$> sketch type) types =
      Sketch.shapes <$> each sketch types := by
  induction types with
  | nil => simp [each, Sketch.shapes]
  | cons type rest ih =>
    simp [each, ih, Sketch.shapes]

theorem eachNamed_shape (types : List (String × TypeTerm)) :
    eachNamed (fun type => Sketch.shape <$> sketch type) types =
      Sketch.namedShapes <$> eachNamed sketch types := by
  induction types with
  | nil => simp [eachNamed, Sketch.namedShapes]
  | cons entry rest ih =>
    simp [eachNamed, ih, Sketch.namedShapes]

theorem functionShape_eq (type : Option TypeTerm) (signature : Signature TypeTerm) :
    functionShape (fun type => Sketch.shape <$> sketch type) signature =
      Sketch.shape <$> sketchFunction sketch type signature := by
  simp [functionShape, sketchFunction, eachNamed_shape, Sketch.shape]

/-- The shape of an object is the one that its sketch stands for. -/
theorem objectShape_eq (simplifier : Simplifier) (levels : Nat) (type target : TypeTerm) :
    simplifier.objectShape levels (fun type => Sketch.shape <$> sketch type) type target =
      Sketch.shape <$> simplifier.sketchObject levels sketch type target := by
  simp only [objectShape, sketchObject, map_bind]
  congr 1
  funext properties
  split
  · simp [Sketch.shape, Sketch.namedShapes]
  · simp only [map_bind, eachNamed_shape]
    congr 1
    funext name
    split <;> simp [Sketch.shape]

theorem expand_eq {sketchSignature : Option TypeTerm → Signature TypeTerm → Expansion Sketch}
    (simplifier : Simplifier) (levels : Nat) (type target : TypeTerm) :
    simplifier.expand levels (fun type => Sketch.shape <$> sketch type)
        (fun signature => Sketch.shape <$> sketchSignature (some type) signature) type target =
      Sketch.shape <$>
        simplifier.sketchExpanded levels sketch (sketchSignature (some type)) type target := by
  cases target with
  | object cell code name source => exact objectShape_eq simplifier levels type _
  | function label signatures => cases signatures <;> simp [expand, sketchExpanded, Sketch.shape]
  | _ => simp [expand, sketchExpanded, each_shape, Sketch.shape]

end Parts

/-- Simplifying a type is sketching it and keeping the shape. -/
theorem shapeAt_eq (simplifier : Simplifier) (levels : Nat) :
    (∀ visited type,
      simplifier.shapeAt levels visited type =
        Sketch.shape <$> simplifier.sketchAt levels visited type) ∧
    ∀ visited type signature,
      simplifier.signatureAt levels visited signature =
        Sketch.shape <$> simplifier.sketchSignatureAt levels visited type signature := by
  induction levels with
  | zero => exact ⟨fun _ _ => rfl, fun _ _ _ => rfl⟩
  | succ levels ih =>
    obtain ⟨types, signatures⟩ := ih
    have simplifies : ∀ visited, simplifier.shapeAt levels visited =
        fun type => Sketch.shape <$> simplifier.sketchAt levels visited type :=
      fun visited => funext (types visited)
    have simplifiesSignatures : ∀ visited type, simplifier.signatureAt levels visited =
        fun signature => Sketch.shape <$>
          simplifier.sketchSignatureAt levels visited type signature :=
      fun visited type => funext (signatures visited type)
    constructor
    · intro visited type
      simp only [shapeAt, sketchAt, simplifies, simplifiesSignatures _ (some type), expand_eq]
      split
      · simp [Sketch.shape]
      split
      · rfl
      split
      · rfl
      simp only [map_bind]
      congr 1
      funext granted
      cases granted <;> simp [Sketch.shape]
    · intro visited type signature
      simp only [signatureAt, sketchSignatureAt, simplifies]
      exact functionShape_eq type signature

/-- A sketch of a type at a depth, inside of types with the given texts. -/
def sketch (simplifier : Simplifier) (depth : Int) (visited : List String) (type : TypeTerm) :
    Task Session Sketch :=
  (simplifier.sketchAt (simplifier.levelsAt depth) visited type).run' simplifier.expansions

/-- A sketch of a signature at a depth, inside of types with the given texts. -/
def sketchSignature (simplifier : Simplifier) (depth : Int) (visited : List String)
    (signature : Signature TypeTerm) : Task Session Sketch :=
  (simplifier.sketchSignatureAt (simplifier.levelsAt depth) visited none signature).run'
    simplifier.expansions

theorem simplify_eq_sketch (simplifier : Simplifier) (depth : Int) (visited : List String)
    (type : TypeTerm) :
    simplifier.simplify depth visited type =
      Sketch.shape <$> simplifier.sketch depth visited type := by
  unfold simplify sketch
  rw [(simplifier.shapeAt_eq _).1, Expansion.run'_map]

theorem simplifySignature_eq_sketch (simplifier : Simplifier) (depth : Int) (visited : List String)
    (signature : Signature TypeTerm) :
    simplifier.simplifySignature depth visited signature =
      Sketch.shape <$> simplifier.sketchSignature depth visited signature := by
  unfold simplifySignature sketchSignature
  rw [(simplifier.shapeAt_eq _).2 _ none, Expansion.run'_map]

end Simplifier

/-!
## The limits of shapes

What the limits promise at each node of a shape.  No path goes deeper than the depth limit.  Of an
object type the first properties are shown, in order, as many as the limit of properties allows, and
the mark says whether there are more.  Inside other types an object type with a name is shown only
if it has no more properties than the collapse threshold.
-/

namespace Shape

mutual

/-- The number of steps of the longest way down from the root of a shape. -/
def height : Shape → Nat
  | .primitive _ | .literal _ | .reference _ | .verbatim _ => 0
  | .array element => height element + 1
  | .tuple elements => heightBelow elements
  | .function parameters returns => max (heightBelowNamed parameters) (height returns + 1)
  | .union members => heightBelow members
  | .intersection members => heightBelow members
  | .object properties _ => heightBelowNamed properties

/-- The number of steps of the longest way down that starts with a step to one of some shapes. -/
def heightBelow : List Shape → Nat
  | [] => 0
  | shape :: rest => max (height shape + 1) (heightBelow rest)

/-- The number of steps of the longest way down that starts with a step to one of some named
shapes. -/
def heightBelowNamed : List (String × Shape) → Nat
  | [] => 0
  | (_, shape) :: rest => max (height shape + 1) (heightBelowNamed rest)

end

/-- Whether a shape is one without parts. -/
def isLeaf : Shape → Bool
  | .primitive _ | .literal _ | .reference _ | .verbatim _ => true
  | _ => false

end Shape

/-- The names of some sketches with the types that they show. -/
def Sketch.shown (entries : List (String × Sketch)) : List (String × Option TypeTerm) :=
  entries.map fun entry => (entry.1, entry.2.type?)

/-- What the limits promise of an object type that is shown at a depth. -/
structure ObjectView.Within
    (view : ObjectView) (settings : Settings) (depth : Int) (entries : List (String × Sketch))
    (truncated : Bool) : Prop where
  counted : (entries.length : Int) = min (view.properties.length : Int) settings.maxProperties
  ordered : Sketch.shown entries = (view.properties.take entries.length).map fun property =>
    (Simplifier.propertyLabel property, some property.type)
  marked : truncated = true ↔ settings.maxProperties < view.properties.length
  named : view.name ≠ "" → 2 ≤ depth → view.properties.length ≤ settings.collapseThreshold

namespace Sketch

/-- The depth of the parts of a function. The signature of a function type lies between the two. -/
def partsDepth (type : Option TypeTerm) (depth : Int) : Int :=
  if type.isSome then depth + 2 else depth + 1

mutual

/-- The limits are kept at each node of a sketch whose root lies at a depth. -/
def Within (settings : Settings) : Int → Sketch → Prop
  | _, .leaf _ shape => shape.isLeaf
  | depth, .array _ element => Within settings (depth + 1) element
  | depth, .tuple _ elements => AllWithin settings (depth + 1) elements
  | depth, .function type parameters returns =>
    NamedWithin settings (partsDepth type depth) parameters ∧
      Within settings (partsDepth type depth) returns
  | depth, .union _ members => AllWithin settings (depth + 1) members
  | depth, .intersection _ members => AllWithin settings (depth + 1) members
  | depth, .object view entries truncated =>
    view.Within settings depth entries truncated ∧ NamedWithin settings (depth + 1) entries

/-- The limits are kept at each node of sketches that lie at a depth. -/
def AllWithin (settings : Settings) : Int → List Sketch → Prop
  | _, [] => True
  | depth, sketch :: rest => Within settings depth sketch ∧ AllWithin settings depth rest

/-- The limits are kept at each node of named sketches that lie at a depth. -/
def NamedWithin (settings : Settings) : Int → List (String × Sketch) → Prop
  | _, [] => True
  | depth, (_, sketch) :: rest => Within settings depth sketch ∧ NamedWithin settings depth rest

end

end Sketch

namespace Simplifier

open Expansion Shape

variable {α β : Type}

/-- What a sketch of a type is like when so many levels are left for it. -/
structure Shown (simplifier : Simplifier) (levels : Nat) (type : TypeTerm) (sketch : Sketch) :
    Prop where
  shows : sketch.type? = some type
  height : sketch.shape.height ≤ levels
  within : sketch.Within simplifier.settings (simplifier.depth levels)

/-- What a sketch of a signature is like when so many levels are left for it. A function type lies
one level above its signature. -/
structure SignatureShown (simplifier : Simplifier) (levels : Nat) (type : Option TypeTerm)
    (sketch : Sketch) : Prop where
  shows : sketch.type? = type
  height : sketch.shape.height ≤ levels
  within : sketch.Within simplifier.settings
    (simplifier.depth (if type.isSome then levels + 1 else levels))

theorem depth_eq_add_one (simplifier : Simplifier) (levels : Nat) :
    simplifier.depth levels = simplifier.depth (levels + 1) + 1 := by
  simp only [depth]
  omega

theorem firstOf_eq_take {count : Int} (positive : 0 < count) (elements : List α) :
    firstOf count elements = elements.take count.toNat :=
  if_neg (by omega)

/-! ### Lists of sketches -/

section Parts

variable {simplifier : Simplifier} {levels : Nat} {sketch : TypeTerm → Expansion Sketch}

theorem returns_each (shows : ∀ type, Returns (sketch type) (simplifier.Shown levels type)) :
    ∀ types, Returns (each sketch types) fun sketches =>
      heightBelow (Sketch.shapes sketches) ≤ levels + 1 ∧
        Sketch.AllWithin simplifier.settings (simplifier.depth levels) sketches
  | [] => returns_pure ⟨Nat.zero_le _, trivial⟩
  | type :: rest => by
    refine (shows type).bind fun first shown => ?_
    refine (returns_each shows rest).bind fun sketches restShown => returns_pure ⟨?_, ?_⟩
    · exact Nat.max_le.mpr ⟨Nat.succ_le_succ shown.height, restShown.1⟩
    · exact ⟨shown.within, restShown.2⟩

/-- Named types are sketched in their order, each of them within the limits. -/
theorem returns_eachNamed (shows : ∀ type, Returns (sketch type) (simplifier.Shown levels type)) :
    ∀ types, Returns (eachNamed sketch types) fun entries =>
      Sketch.shown entries = types.map (fun type => (type.1, some type.2)) ∧
        heightBelowNamed (Sketch.namedShapes entries) ≤ levels + 1 ∧
        Sketch.NamedWithin simplifier.settings (simplifier.depth levels) entries
  | [] => returns_pure ⟨rfl, Nat.zero_le _, trivial⟩
  | (name, type) :: rest => by
    refine (shows type).bind fun first shown => ?_
    refine (returns_eachNamed shows rest).bind fun entries restShown => returns_pure ⟨?_, ?_, ?_⟩
    · rw [List.map_cons, ← restShown.1, ← shown.shows]
      rfl
    · exact Nat.max_le.mpr ⟨Nat.succ_le_succ shown.height, restShown.2.1⟩
    · exact ⟨shown.within, restShown.2.2⟩

/-! ### One level -/

/-- Showing the first properties and marking whether there are more keeps the limits. -/
theorem within_of_first {view : ObjectView} {entries : List (String × Sketch)}
    (positive : 0 < simplifier.settings.maxProperties)
    (first : Sketch.shown entries =
      ((firstOf simplifier.settings.maxProperties view.properties).map fun property =>
        (propertyLabel property, property.type)).map fun type => (type.1, some type.2))
    (expanded :
      (!view.name.isEmpty && simplifier.isCollapsed levels view.properties.length) = false) :
    view.Within simplifier.settings (simplifier.depth levels) entries
      (decide (simplifier.settings.maxProperties < view.properties.length)) := by
  rw [firstOf_eq_take positive, List.map_map] at first
  have counted : entries.length =
      min simplifier.settings.maxProperties.toNat view.properties.length := by
    simpa [Sketch.shown] using congrArg List.length first
  constructor
  · omega
  · rw [counted, ← List.take_eq_take_min]
    exact first
  · exact decide_eq_true_iff
  · intro hasName deep
    simp [isCollapsed, hasName, deep] at expanded
    exact expanded

/-- An object is sketched within the limits if its properties are. -/
theorem returns_sketchObject (positive : 0 < simplifier.settings.maxProperties)
    (shows : ∀ type, Returns (sketch type) (simplifier.Shown levels type))
    (type target : TypeTerm) :
    Returns (simplifier.sketchObject (levels + 1) sketch type target)
      (simplifier.Shown (levels + 1) type) := by
  refine (returns_any _).bind fun properties _ => ?_
  split
  case isTrue empty =>
      have none : properties = [] := List.isEmpty_iff.mp empty
      refine returns_pure ⟨rfl, Nat.zero_le _, ?_, trivial⟩
      constructor <;> simp [none, Sketch.shown] <;> omega
  refine (returns_any _).bind fun name _ => ?_
  dsimp only
  split
  case isTrue => exact returns_pure ⟨rfl, Nat.zero_le _, rfl⟩
  case isFalse expanded =>
      refine (returns_eachNamed shows _).bind fun entries entriesShown => ?_
      obtain ⟨first, low, within⟩ := entriesShown
      rw [depth_eq_add_one] at within
      refine returns_pure ⟨rfl, low, ?_, within⟩
      exact within_of_first positive first (Bool.eq_false_iff.mpr expanded)

/-- A function is sketched within the limits if its parts are. -/
theorem returns_sketchFunction
    (shows : ∀ type, Returns (sketch type) (simplifier.Shown levels type))
    (type : Option TypeTerm) (signature : Signature TypeTerm) :
    Returns (sketchFunction sketch type signature)
      (simplifier.SignatureShown (levels + 1) type) := by
  have deeper : Sketch.partsDepth type
      (simplifier.depth (if type.isSome then levels + 1 + 1 else levels + 1)) =
        simplifier.depth levels := by
    rw [simplifier.depth_eq_add_one levels, simplifier.depth_eq_add_one (levels + 1)]
    cases type <;> simp [Sketch.partsDepth, depth] <;> omega
  refine (returns_any _).bind fun parameters _ => ?_
  refine (returns_eachNamed shows parameters).bind fun entries entriesShown => ?_
  refine (shows signature.returns).bind fun returns returnsShown => returns_pure ⟨rfl, ?_, ?_⟩
  · exact Nat.max_le.mpr ⟨entriesShown.2.1, Nat.succ_le_succ returnsShown.height⟩
  · unfold Sketch.Within
    rw [deeper]
    exact ⟨entriesShown.2.2, returnsShown.within⟩

/-- A type is expanded within the limits if its parts are. -/
theorem returns_sketchExpanded
    {sketchSignature : Signature TypeTerm → Expansion Sketch} {type : TypeTerm}
    (positive : 0 < simplifier.settings.maxProperties)
    (shows : ∀ type, Returns (sketch type) (simplifier.Shown levels type))
    (showsSignature : ∀ signature, Returns (sketchSignature signature)
      (simplifier.SignatureShown levels (some type)))
    (target : TypeTerm) :
    Returns (simplifier.sketchExpanded (levels + 1) sketch sketchSignature type target)
      (simplifier.Shown (levels + 1) type) := by
  have verbatim : ∀ text, Returns (do
      return Sketch.leaf (some type) (.verbatim (← simplifier.clean text)))
        (simplifier.Shown (levels + 1) type) :=
    fun text => (returns_any _).bind fun _ _ => returns_pure ⟨rfl, Nat.zero_le _, rfl⟩
  have several : ∀ types : List TypeTerm, Returns (each sketch types) fun sketches =>
      heightBelow (Sketch.shapes sketches) ≤ levels + 1 ∧
        Sketch.AllWithin simplifier.settings (simplifier.depth (levels + 1) + 1) sketches := by
    rw [← depth_eq_add_one]
    exact returns_each shows
  cases target with
  | primitive name => exact returns_pure ⟨rfl, Nat.zero_le _, rfl⟩
  | literal value => exact returns_pure ⟨rfl, Nat.zero_le _, rfl⟩
  | verbatim code => exact verbatim _
  | array element =>
    refine (shows element).bind fun shown elementShown => returns_pure ⟨rfl, ?_, ?_⟩
    · exact Nat.succ_le_succ elementShown.height
    · unfold Sketch.Within
      rw [← depth_eq_add_one]
      exact elementShown.within
  | tuple elements =>
    exact (several elements).bind fun _ shown => returns_pure ⟨rfl, shown.1, shown.2⟩
  | union label members =>
    exact (several members).bind fun _ shown => returns_pure ⟨rfl, shown.1, shown.2⟩
  | intersection label members =>
    exact (several members).bind fun _ shown => returns_pure ⟨rfl, shown.1, shown.2⟩
  | object cell code name source => exact returns_sketchObject positive shows type _
  | reference cell code name scope arguments => exact verbatim _
  | function label signatures =>
    cases signatures with
    | nil => exact verbatim _
    | cons signature rest =>
      exact (showsSignature signature).mono fun _ _ _ shown =>
        ⟨shown.shows, Nat.le_succ_of_le shown.height, shown.within⟩

end Parts

/-! ### All levels -/

/-- Level by level, every type is sketched within the limits. -/
theorem returns_sketchAt (simplifier : Simplifier)
    (positive : 0 < simplifier.settings.maxProperties) (levels : Nat) :
    (∀ visited type, Returns (simplifier.sketchAt levels visited type)
      (simplifier.Shown levels type)) ∧
    ∀ visited type signature, Returns (simplifier.sketchSignatureAt levels visited type signature)
      (simplifier.SignatureShown levels type) := by
  induction levels with
  | zero =>
    exact ⟨fun _ _ => returns_pure ⟨rfl, Nat.le_refl 0, rfl⟩,
      fun _ _ _ => returns_pure ⟨rfl, Nat.le_refl 0, rfl⟩⟩
  | succ levels ih =>
    obtain ⟨types, signatures⟩ := ih
    refine ⟨fun visited type => ?_, fun visited => returns_sketchFunction (types visited)⟩
    have named : ∀ text, Returns (do
        return Sketch.leaf (some type) (← simplifier.nameOf type text))
          (simplifier.Shown (levels + 1) type) := by
      intro text
      refine (simplifier.relates_nameOf type text).bind fun shape => ?_
      refine relates_pure ?_
      rintro left before ⟨_, name, rfl⟩
      exact ⟨rfl, Nat.zero_le _, rfl⟩
    unfold sketchAt
    dsimp only
    split
    · exact named _
    split
    · exact returns_pure ⟨rfl, Nat.zero_le _, rfl⟩
    split
    · exact returns_pure ⟨rfl, Nat.zero_le _, rfl⟩
    refine (returns_any _).bind fun granted _ => ?_
    cases granted with
    | true =>
      refine (returns_any _).bind fun target _ => ?_
      exact returns_sketchExpanded positive (types _) (signatures _ _) target
    | false => exact named _

/-! ### Whole shapes -/

theorem levelsAt_zero {simplifier : Simplifier} (positive : 0 < simplifier.settings.maxDepth) :
    (simplifier.levelsAt 0 : Int) = simplifier.settings.maxDepth ∧
      simplifier.depth (simplifier.levelsAt 0) = 0 := by
  simp only [depth, levelsAt]
  omega

/-- Where the limits are positive, the shape of a type or of a signature is that of a sketch whose
nodes all keep them, and no way down from its root is longer than the depth limit. -/
theorem within_limits (simplifier : Simplifier) (deep : 0 < simplifier.settings.maxDepth)
    (wide : 0 < simplifier.settings.maxProperties) (visited : List String) (tree : FileTree)
    (journal after : Journal Session) (shape : Shape) :
    (∀ type, simplifier.simplify 0 visited type tree journal = (.ok shape, after) →
      ∃ sketch, simplifier.sketch 0 visited type tree journal = (.ok sketch, after) ∧
        sketch.shape = shape ∧ sketch.type? = some type ∧
        (shape.height : Int) ≤ simplifier.settings.maxDepth ∧
        sketch.Within simplifier.settings 0) ∧
    ∀ signature,
      simplifier.simplifySignature 0 visited signature tree journal = (.ok shape, after) →
      ∃ sketch, simplifier.sketchSignature 0 visited signature tree journal = (.ok sketch, after) ∧
        sketch.shape = shape ∧
        (shape.height : Int) ≤ simplifier.settings.maxDepth ∧
        sketch.Within simplifier.settings 0 := by
  obtain ⟨levels, top⟩ := levelsAt_zero deep
  obtain ⟨types, signatures⟩ := simplifier.returns_sketchAt wide (simplifier.levelsAt 0)
  constructor
  · intro type ran
    rw [simplify_eq_sketch] at ran
    obtain ⟨sketch, sketched, rfl⟩ := Task.exists_of_map_eq_ok ran
    obtain ⟨left, returned⟩ := run'_returns sketched
    have shown := types visited type tree journal _ sketch left after returned
    refine ⟨sketch, sketched, rfl, shown.shows, ?_, top ▸ shown.within⟩
    have low := shown.height
    omega
  · intro signature ran
    rw [simplifySignature_eq_sketch] at ran
    obtain ⟨sketch, sketched, rfl⟩ := Task.exists_of_map_eq_ok ran
    obtain ⟨left, returned⟩ := run'_returns sketched
    have shown := signatures visited none signature tree journal _ sketch left after returned
    refine ⟨sketch, sketched, rfl, ?_, top ▸ shown.within⟩
    have low := shown.height
    omega

/-! ### A pair inside of arrays -/

/-- An object type with a name, known by its cell. -/
def pairType : TypeTerm := .object 0 "Pair" (some "Pair") (.known .none)

/-- A session that has collected the two members of the pair. -/
def pairSession : Session where
  modules := []
  resolver := .fresh (.ofRoot [])
  cells := #[⟨none, none, some ⟨[⟨"left", false, any⟩, ⟨"right", false, any⟩], []⟩⟩]
  parameterLists := #[]
  expanding := []

/-- A simplifier that shows one property of an object type, and inside of other types no object type
with a name that has two. -/
def oneProperty : Simplifier :=
  .ofSettings { Settings.default with
    maxDepth := 3, maxProperties := 1, collapseThreshold := 1, wrapperRules := [] }

/-- Two arrays around the pair show its name; a signature that returns the pair shows one of its
properties. -/
theorem pair_within_limits :
    (∃ (shape : Shape) (sketch : Sketch) (after : Journal Session),
        oneProperty.simplify 0 [] (.array (.array pairType)) default ⟨pairSession, []⟩ =
          (.ok shape, after) ∧
        shape.height = 2 ∧ shape.structured = 2 ∧
        sketch.shape = shape ∧ sketch.Within oneProperty.settings 0) ∧
    ∃ (shape : Shape) (sketch : Sketch) (after : Journal Session),
        oneProperty.simplifySignature 0 [] ⟨[], pairType⟩ default ⟨pairSession, []⟩ =
          (.ok shape, after) ∧
        shape.height = 2 ∧ shape.structured = 2 ∧
        sketch.shape = shape ∧ sketch.Within oneProperty.settings 0 := by
  have deep : 0 < oneProperty.settings.maxDepth := by decide
  have wide : 0 < oneProperty.settings.maxProperties := by decide
  constructor
  · have answers : ((oneProperty.simplify 0 [] (.array (.array pairType))).outcomeFrom default
        pairSession).map (fun shape => (shape.height, shape.structured)) = .ok (2, 2) := by
      decide +kernel
    obtain ⟨shape, after, ran, size⟩ := Task.exists_of_outcomeFrom answers
    obtain ⟨high, large⟩ := Prod.mk.inj size
    obtain ⟨sketch, _, shown, _, _, within⟩ :=
      (within_limits oneProperty deep wide [] default _ after shape).1 _ ran
    exact ⟨shape, sketch, after, ran, high, large, shown, within⟩
  · have answers : ((oneProperty.simplifySignature 0 [] ⟨[], pairType⟩).outcomeFrom default
        pairSession).map (fun shape => (shape.height, shape.structured)) = .ok (2, 2) := by
      decide +kernel
    obtain ⟨shape, after, ran, size⟩ := Task.exists_of_outcomeFrom answers
    obtain ⟨high, large⟩ := Prod.mk.inj size
    obtain ⟨sketch, _, shown, _, within⟩ :=
      (within_limits oneProperty deep wide [] default _ after shape).2 _ ran
    exact ⟨shape, sketch, after, ran, high, large, shown, within⟩

end Simplifier
end ModuleAtlas
