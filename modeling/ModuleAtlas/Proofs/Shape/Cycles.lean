import ModuleAtlas.Proofs.Listwise
import ModuleAtlas.Proofs.Shape.Limits

/-!
# Types inside of themselves

A type that is met again inside of itself is shown by its name.  So on every way down a shape the
types that are expanded have different texts, and no shape is higher than there are texts among the
types that its type leads to, however deep the limits let it go.
-/

namespace ModuleAtlas

open ModuleAtlas.Types

/-!
## Type graphs

Types lead to further types: to what they stand for, to their parts and to their members, all found
on demand.  A type graph is a set of types that no such step leaves, together with the states in
which its types are looked at.  Where only finitely many texts occur among the types of a graph, the
graph may still lead in circles.
-/

/-! ## Parts -/

/-- The types that a signature mentions. -/
def Signature.types (signature : Signature τ) : List τ :=
  signature.parameters.flatMap (fun parameter =>
    parameter.type :: parameter.bound.map Property.type) ++ [signature.returns]

theorem Signature.mem_types_of_parameter {signature : Signature τ} {parameter : Parameter τ}
    (member : parameter ∈ signature.parameters) :
    parameter.type ∈ signature.types :=
  List.mem_append_left _ (List.mem_flatMap.mpr ⟨parameter, member, List.mem_cons_self⟩)

theorem Signature.mem_types_of_bound
    {signature : Signature τ} {parameter : Parameter τ} {property : Property τ}
    (member : parameter ∈ signature.parameters) (bound : property ∈ parameter.bound) :
    property.type ∈ signature.types :=
  List.mem_append_left _ (List.mem_flatMap.mpr
    ⟨parameter, member, List.mem_cons_of_mem _ (List.mem_map_of_mem bound)⟩)

theorem Signature.returns_mem_types (signature : Signature τ) :
    signature.returns ∈ signature.types :=
  List.mem_append_right _ List.mem_cons_self

/-- The types that a type holds. -/
def TypeTerm.parts : TypeTerm → List TypeTerm
  | .array element => [element]
  | .tuple elements => elements
  | .union _ members => members
  | .intersection _ members => members
  | .function _ signatures => signatures.flatMap Signature.types
  | _ => []

/-! ## Graphs -/

/-- Types that nothing leads out of, and the states in which they are looked at.  What the types of
the graph stand for is kept apart from them: it is asked for parts and members only. -/
structure TypeGraph (tree : FileTree) where
  state : Session → Prop
  type : TypeTerm → Prop
  target : TypeTerm → Prop
  structures : ∀ found journal after value, type found → state journal.state →
    structureOf found tree journal = (.ok value, after) → state after.state ∧ target value
  names : ∀ found journal after value, type found → state journal.state →
    symbolOf found tree journal = (.ok value, after) → state after.state
  parts : ∀ found, target found → ∀ part ∈ found.parts, type part
  properties : ∀ found journal after value, type found ∨ target found → state journal.state →
    propertiesOf found tree journal = (.ok value, after) →
      state after.state ∧ ∀ property ∈ value, type property.type

namespace TypeGraph

variable {α β : Type} {tree : FileTree}

/-- The graph of all types in all states. -/
def whole (tree : FileTree) : TypeGraph tree where
  state _ := True
  type _ := True
  target _ := True
  structures _ _ _ _ _ _ _ := ⟨trivial, trivial⟩
  names _ _ _ _ _ _ _ := trivial
  parts _ _ _ _ := trivial
  properties _ _ _ _ _ _ _ := ⟨trivial, fun _ _ => trivial⟩

/-- From every state of a graph, a run of a task that returns ends in a state of the graph, and what
it answers is of a kind. -/
def Keeps (graph : TypeGraph tree) (task : Task Session α) (kind : α → Prop) : Prop :=
  ∀ journal value after, graph.state journal.state → task tree journal = (.ok value, after) →
    graph.state after.state ∧ kind value

variable {graph : TypeGraph tree}

theorem keeps_pure {kind : α → Prop} {value : α} (ofKind : kind value) :
    graph.Keeps (pure value) kind := by
  intro journal found after held ran
  cases ran
  exact ⟨held, ofKind⟩

theorem Keeps.bind
    {task : Task Session α} {next : α → Task Session β} {first : α → Prop} {kind : β → Prop}
    (starts : graph.Keeps task first)
    (goesOn : ∀ value, first value → graph.Keeps (next value) kind) :
    graph.Keeps (task >>= next) kind := by
  intro journal answer after held ran
  obtain ⟨value, middle, started, finished⟩ := Task.exists_of_bind_eq_ok ran
  obtain ⟨middleHeld, ofFirst⟩ := starts journal value middle held started
  exact goesOn value ofFirst middle answer after middleHeld finished

variable {type : TypeTerm}

theorem keeps_structureOf (inside : graph.type type) :
    graph.Keeps (structureOf type) graph.target :=
  fun journal value after held ran => graph.structures type journal after value inside held ran

theorem keeps_symbolOf (inside : graph.type type) : graph.Keeps (symbolOf type) fun _ => True :=
  fun journal value after held ran =>
    ⟨graph.names type journal after value inside held ran, trivial⟩

theorem keeps_propertiesOf (inside : graph.type type ∨ graph.target type) :
    graph.Keeps (propertiesOf type) fun properties =>
      ∀ property ∈ properties, graph.type property.type :=
  fun journal value after held ran => graph.properties type journal after value inside held ran

theorem keeps_isObject (inside : graph.type type) : graph.Keeps (isObject type) fun _ => True := by
  refine (keeps_structureOf inside).bind fun target _ => ?_
  cases target <;> exact keeps_pure trivial

theorem keeps_clean (simplifier : Simplifier) (text : String) :
    graph.Keeps (simplifier.clean text) fun _ => True := by
  intro journal value after held ran
  unfold Simplifier.clean at ran
  cases cleaned : simplifier.cleaner.clean text with
  | ok shown =>
    rw [cleaned] at ran
    cases ran
    exact ⟨held, trivial⟩
  | error fault =>
    rw [cleaned] at ran
    cases ran

theorem keeps_nameOf (simplifier : Simplifier) (inside : graph.type type) (text : String) :
    graph.Keeps (simplifier.nameOf type text) fun shape => ∃ name, shape = .reference name :=
  (keeps_symbolOf inside).bind fun _ _ =>
    (keeps_clean simplifier _).bind fun name _ => keeps_pure ⟨name, rfl⟩

/-- The properties that stand for a parameter are in the graph when its type is, and what its
pattern binds. -/
theorem keeps_patternProperties {parameter : Parameter TypeTerm}
    (inside : graph.type parameter.type)
    (bound : ∀ property ∈ parameter.bound, graph.type property.type) :
    graph.Keeps (Simplifier.patternProperties parameter) fun properties =>
      ∀ property ∈ properties, graph.type property.type := by
  refine (keeps_isObject inside).bind fun isObject _ => ?_
  cases isObject with
  | true =>
    refine (keeps_propertiesOf (.inl inside)).bind fun properties inGraph => keeps_pure ?_
    split
    · exact bound
    · exact inGraph
  | false =>
    have nothing : graph.Keeps (pure []) fun properties : List (Property TypeTerm) =>
        properties = [] := keeps_pure rfl
    refine nothing.bind fun properties none => keeps_pure ?_
    rw [none]
    exact bound

/-- The types that the parameters of a signature are shown as are in the graph of its types. -/
theorem keeps_shownParameters {signature : Signature TypeTerm}
    (inside : ∀ type ∈ signature.types, graph.type type) :
    graph.Keeps (Simplifier.shownParameters signature) fun parameters =>
      ∀ entry ∈ parameters, graph.type entry.2 := by
  have listed : ∀ entry ∈ signature.parameters.map fun parameter =>
      (if parameter.isRest then "..." ++ parameter.name else parameter.name, parameter.type),
      graph.type entry.2 := by
    intro entry member
    obtain ⟨parameter, parameterMember, rfl⟩ := List.mem_map.mp member
    exact inside _ (Signature.mem_types_of_parameter parameterMember)
  unfold Simplifier.shownParameters
  dsimp only
  split
  · rename_i parameter single
    have member : parameter ∈ signature.parameters := by simp [single]
    have ofParameter := inside _ (Signature.mem_types_of_parameter member)
    split
    · exact keeps_pure listed
    · refine (keeps_patternProperties ofParameter fun property bound =>
        inside _ (Signature.mem_types_of_bound member bound)).bind fun properties inGraph => ?_
      split
      · refine keeps_pure fun entry entryMember => ?_
        rw [List.mem_singleton.mp entryMember]
        exact ofParameter
      · refine keeps_pure fun entry entryMember => ?_
        obtain ⟨property, propertyMember, rfl⟩ := List.mem_map.mp entryMember
        exact inGraph property propertyMember
  · exact keeps_pure listed

end TypeGraph

/-! ## Types inside of themselves -/

namespace Sketch

/-! ## Ways down -/

/-- The type that is expanded at the root of a sketch. -/
def expanded? : Sketch → Option TypeTerm
  | .leaf _ _ => none
  | sketch => sketch.type?

/-- The sketches directly below. -/
def parts : Sketch → List Sketch
  | .leaf _ _ => []
  | .array _ element => [element]
  | .tuple _ elements => elements
  | .function _ parameters returns => parameters.map Prod.snd ++ [returns]
  | .union _ members => members
  | .intersection _ members => members
  | .object _ entries _ => entries.map Prod.snd

/-- A way from the root of a sketch to a node in it, with the types that are expanded on the way,
those at both ends included. -/
inductive Way : Sketch → List TypeTerm → Prop where
  | stop (sketch : Sketch) : Way sketch sketch.expanded?.toList
  | down {sketch part : Sketch} {types : List TypeTerm}
      (member : part ∈ sketch.parts) (way : Way part types) :
      Way sketch (sketch.expanded?.toList ++ types)

/-- Inside of types with the given texts: the types on a way have texts of their own. -/
def Apart (visited : List String) (sketch : Sketch) : Prop :=
  ∀ types, sketch.Way types →
    (types.map TypeTerm.text).Nodup ∧ ∀ type ∈ types, type.text ∉ visited

theorem apart_leaf (visited : List String) (type : Option TypeTerm) (shape : Shape) :
    (leaf type shape).Apart visited := by
  intro types way
  cases way with
  | stop => simp [expanded?]
  | down member _ => cases member

/-- A type with a new text may be expanded around parts that keep apart from it. -/
theorem apart_of_parts {visited : List String} {sketch : Sketch} {type : TypeTerm}
    (expanded : sketch.expanded? = some type) (new : type.text ∉ visited)
    (below : ∀ part ∈ sketch.parts, part.Apart (type.text :: visited)) :
    sketch.Apart visited := by
  intro types way
  cases way with
  | stop =>
    rw [expanded]
    simpa using new
  | @down _ part types member way =>
    obtain ⟨distinct, others⟩ := below part member types way
    rw [expanded]
    constructor
    · refine List.nodup_cons.mpr ⟨?_, distinct⟩
      intro again
      obtain ⟨other, otherMember, same⟩ := List.mem_map.mp again
      exact others other otherMember (same ▸ List.mem_cons_self)
    · intro other otherMember
      rcases List.mem_cons.mp otherMember with rfl | later
      · exact new
      · exact fun old => others other later (List.mem_cons_of_mem _ old)

/-! ## Heights -/

theorem heightBelow_le {sketches : List Sketch} {bound : Nat}
    (low : ∀ part ∈ sketches, part.shape.height ≤ bound) :
    Shape.heightBelow (shapes sketches) ≤ bound + 1 := by
  induction sketches with
  | nil => exact Nat.zero_le _
  | cons sketch rest ih =>
    refine Nat.max_le.mpr ⟨Nat.succ_le_succ (low sketch List.mem_cons_self), ?_⟩
    exact ih fun part member => low part (List.mem_cons_of_mem _ member)

theorem heightBelowNamed_le {entries : List (String × Sketch)} {bound : Nat}
    (low : ∀ part ∈ entries.map Prod.snd, part.shape.height ≤ bound) :
    Shape.heightBelowNamed (namedShapes entries) ≤ bound + 1 := by
  induction entries with
  | nil => exact Nat.zero_le _
  | cons entry rest ih =>
    refine Nat.max_le.mpr ⟨Nat.succ_le_succ (low entry.2 List.mem_cons_self), ?_⟩
    exact ih fun part member => low part (List.mem_cons_of_mem _ member)

/-- A sketch whose parts are low is one step higher at most. -/
theorem height_le_of_parts {sketch : Sketch} {type : TypeTerm} {bound : Nat}
    (expanded : sketch.expanded? = some type)
    (low : ∀ part ∈ sketch.parts, part.shape.height ≤ bound) :
    sketch.shape.height ≤ bound + 1 := by
  cases sketch with
  | leaf type shape => cases expanded
  | array type element => exact Nat.succ_le_succ (low element List.mem_cons_self)
  | tuple type elements => exact heightBelow_le low
  | function type parameters returns =>
    refine Nat.max_le.mpr ⟨heightBelowNamed_le fun part member => ?_, Nat.succ_le_succ ?_⟩
    · exact low part (List.mem_append_left _ member)
    · exact low returns (List.mem_append_right _ List.mem_cons_self)
  | union type members => exact heightBelow_le low
  | intersection type members => exact heightBelow_le low
  | object view entries truncated => exact heightBelowNamed_le low

end Sketch

namespace TypeGraph

/-- All texts of the types of a graph are among the given ones. -/
def Spells {tree : FileTree} (graph : TypeGraph tree) (texts : Finset String) : Prop :=
  ∀ type, graph.type type → type.text ∈ texts

/-- A sketch that repeats no text on any way down, and is no higher than there are texts of the
graph left. -/
structure Unfolds {tree : FileTree} (graph : TypeGraph tree) (visited : List String)
    (sketch : Sketch) : Prop where
  apart : sketch.Apart visited
  low : ∀ texts, graph.Spells texts → sketch.shape.height ≤ remaining texts visited

variable {α β : Type} {tree : FileTree} {graph : TypeGraph tree} {visited : List String}

theorem unfolds_leaf {shape : Shape} (isLeaf : shape.isLeaf) (type : Option TypeTerm) :
    graph.Unfolds visited (.leaf type shape) := by
  refine ⟨Sketch.apart_leaf visited type shape, fun texts _ => ?_⟩
  cases shape <;> first | exact Nat.zero_le _ | cases isLeaf

theorem unfolds_of_parts {sketch : Sketch} {type : TypeTerm}
    (expanded : sketch.expanded? = some type) (inside : graph.type type) (new : type.text ∉ visited)
    (below : ∀ part ∈ sketch.parts, graph.Unfolds (type.text :: visited) part) :
    graph.Unfolds visited sketch := by
  refine ⟨Sketch.apart_of_parts expanded new fun part member => (below part member).apart, ?_⟩
  intro texts spells
  have taken := remaining_cons_lt (spells type inside) new
  have low := Sketch.height_le_of_parts expanded fun part member =>
    (below part member).low texts spells
  omega

/-- The runs of an expansion that start in a state of a graph end in one, and what they answer is of
a kind. -/
def Carries (graph : TypeGraph tree) (expansion : Expansion α) (kind : α → Prop) : Prop :=
  ∀ left, graph.Keeps (expansion left) fun answer => kind answer.1

theorem carries_pure {kind : α → Prop} {value : α} (ofKind : kind value) :
    graph.Carries (pure value) kind :=
  fun _ => keeps_pure ofKind

theorem Carries.bind
    {expansion : Expansion α} {next : α → Expansion β} {first : α → Prop} {kind : β → Prop}
    (starts : graph.Carries expansion first)
    (goesOn : ∀ value, first value → graph.Carries (next value) kind) :
    graph.Carries (expansion >>= next) kind :=
  fun left => (starts left).bind fun answer ofFirst => goesOn answer.1 ofFirst answer.2

theorem carries_lift {task : Task Session α} {kind : α → Prop} (keeps : graph.Keeps task kind) :
    graph.Carries (liftM task) kind :=
  fun _ => keeps.bind fun _ ofKind => keeps_pure ofKind

theorem carries_spend : graph.Carries Expansion.spend fun _ => True := by
  intro left
  cases left <;> exact keeps_pure trivial

end TypeGraph

namespace Simplifier

open TypeGraph

variable {tree : FileTree} {graph : TypeGraph tree} {visited : List String}
  {simplifier : Simplifier} {levels : Nat} {sketch : TypeTerm → Expansion Sketch}

/-! ## Lists of sketches -/

theorem carries_each {kind : Sketch → Prop} {types : List TypeTerm}
    (carries : ∀ type ∈ types, graph.Carries (sketch type) kind) :
    graph.Carries (each sketch types) fun sketches => ∀ part ∈ sketches, kind part := by
  induction types with
  | nil => exact carries_pure (by simp)
  | cons type rest ih =>
    refine (carries type List.mem_cons_self).bind fun first firstKind => ?_
    have others := ih fun other member =>
      carries other (List.mem_cons_of_mem _ member)
    refine others.bind fun sketches kinds => carries_pure ?_
    exact List.forall_mem_cons.mpr ⟨firstKind, kinds⟩

theorem carries_eachNamed {kind : Sketch → Prop} {types : List (String × TypeTerm)}
    (carries : ∀ entry ∈ types, graph.Carries (sketch entry.2) kind) :
    graph.Carries (eachNamed sketch types) fun entries =>
      ∀ part ∈ entries.map Prod.snd, kind part := by
  induction types with
  | nil => exact carries_pure (by simp)
  | cons entry rest ih =>
    refine (carries entry List.mem_cons_self).bind fun first firstKind => ?_
    have others := ih fun other member =>
      carries other (List.mem_cons_of_mem _ member)
    refine others.bind fun entries kinds => carries_pure ?_
    exact List.forall_mem_cons.mpr ⟨firstKind, kinds⟩

theorem mem_of_mem_firstOf {α : Type} {count : Int} {elements : List α} {element : α}
    (member : element ∈ firstOf count elements) :
    element ∈ elements := by
  unfold firstOf at member
  split at member <;> exact List.mem_of_mem_take member

/-! ## One level -/

/-- An object adds its text to those on the way to its properties. -/
theorem carries_sketchObject {type target : TypeTerm} (inside : graph.type type)
    (meant : graph.target target) (new : type.text ∉ visited)
    (carries : ∀ part, graph.type part →
      graph.Carries (sketch part) (graph.Unfolds (type.text :: visited))) :
    graph.Carries (simplifier.sketchObject levels sketch type target) (graph.Unfolds visited) := by
  refine (carries_lift (keeps_propertiesOf (.inr meant))).bind fun properties inGraph => ?_
  split
  · refine carries_pure (unfolds_of_parts rfl inside new ?_)
    simp [Sketch.parts]
  refine (carries_lift (keeps_symbolOf inside)).bind fun name _ => ?_
  dsimp only
  split
  · exact carries_pure (unfolds_leaf rfl _)
  refine (carries_eachNamed fun entry member => ?_).bind fun entries unfold =>
    carries_pure (unfolds_of_parts rfl inside new unfold)
  obtain ⟨property, propertyMember, rfl⟩ := List.mem_map.mp member
  exact carries _ (inGraph property (mem_of_mem_firstOf propertyMember))

/-- A function adds its text to those on the way to its parts. -/
theorem carries_sketchFunction {type : TypeTerm} {signature : Signature TypeTerm}
    (inside : graph.type type) (meant : ∀ part ∈ signature.types, graph.type part)
    (new : type.text ∉ visited)
    (carries : ∀ part, graph.type part →
      graph.Carries (sketch part) (graph.Unfolds (type.text :: visited))) :
    graph.Carries (sketchFunction sketch (some type) signature) (graph.Unfolds visited) := by
  refine (carries_lift (keeps_shownParameters meant)).bind fun parameters inGraph => ?_
  refine (carries_eachNamed fun entry member => carries _ (inGraph entry member)).bind
    fun entries unfold => ?_
  refine (carries _ (meant _ signature.returns_mem_types)).bind fun returns returnsUnfold => ?_
  refine carries_pure (unfolds_of_parts rfl inside new fun part member => ?_)
  rcases List.mem_append.mp member with early | last
  · exact unfold part early
  · rw [List.mem_singleton.mp last]
    exact returnsUnfold

/-- A sketch of a type with a new text unfolds when those of its parts do. -/
theorem carries_sketchExpanded
    {sketchSignature : Signature TypeTerm → Expansion Sketch} {type target : TypeTerm}
    (inside : graph.type type) (meant : graph.target target) (new : type.text ∉ visited)
    (carries : ∀ part, graph.type part →
      graph.Carries (sketch part) (graph.Unfolds (type.text :: visited)))
    (carriesSignature : ∀ signature : Signature TypeTerm,
      (∀ part ∈ signature.types, graph.type part) →
        graph.Carries (sketchSignature signature) (graph.Unfolds visited)) :
    graph.Carries (simplifier.sketchExpanded levels sketch sketchSignature type target)
      (graph.Unfolds visited) := by
  have below := graph.parts target meant
  have verbatim : ∀ text, graph.Carries (do
      return Sketch.leaf (some type) (.verbatim (← simplifier.clean text)))
        (graph.Unfolds visited) := fun text =>
    (carries_lift (keeps_clean simplifier text)).bind fun _ _ => carries_pure (unfolds_leaf rfl _)
  cases target with
  | primitive name => exact carries_pure (unfolds_leaf rfl _)
  | literal value => exact carries_pure (unfolds_leaf rfl _)
  | verbatim code => exact verbatim _
  | array element =>
    refine (carries element (below element List.mem_cons_self)).bind fun shown unfolds => ?_
    refine carries_pure (unfolds_of_parts rfl inside new fun part member => ?_)
    rw [List.mem_singleton.mp member]
    exact unfolds
  | tuple elements =>
    exact (carries_each fun part member => carries part (below part member)).bind
      fun _ unfold => carries_pure (unfolds_of_parts rfl inside new unfold)
  | union label members =>
    exact (carries_each fun part member => carries part (below part member)).bind
      fun _ unfold => carries_pure (unfolds_of_parts rfl inside new unfold)
  | intersection label members =>
    exact (carries_each fun part member => carries part (below part member)).bind
      fun _ unfold => carries_pure (unfolds_of_parts rfl inside new unfold)
  | object cell code name source => exact carries_sketchObject inside meant new carries
  | reference cell code name scope arguments => exact verbatim _
  | function label signatures =>
    cases signatures with
    | nil => exact verbatim _
    | cons signature rest =>
      refine carriesSignature signature fun part member => below part ?_
      exact List.mem_append_left _ member

/-! ## All levels -/

/-- What is visited are the texts of the types around, so only the outermost type is inside of
none. -/
theorem carries_sketchAt (simplifier : Simplifier) (levels : Nat) :
    (∀ visited type, (0 < levels → 0 ≤ simplifier.depth levels ∧
        (visited = [] ∨ 0 < simplifier.depth levels)) → graph.type type →
      graph.Carries (simplifier.sketchAt levels visited type) (graph.Unfolds visited)) ∧
    ∀ visited type signature, (0 < levels → 0 ≤ simplifier.depth levels) → graph.type type →
      (∀ part ∈ Signature.types signature, graph.type part) → type.text ∉ visited →
      graph.Carries
        (simplifier.sketchSignatureAt levels (type.text :: visited) (some type) signature)
        (graph.Unfolds visited) := by
  induction levels with
  | zero =>
    exact ⟨fun _ _ _ _ => carries_pure (unfolds_leaf rfl _),
      fun _ _ _ _ _ _ _ => carries_pure (unfolds_leaf rfl _)⟩
  | succ levels ih =>
    obtain ⟨types, signatures⟩ := ih
    have next := simplifier.depth_eq_add_one levels
    constructor
    · intro visited type deep inside
      obtain ⟨deep, nested⟩ := deep (Nat.succ_pos levels)
      have named : ∀ text, graph.Carries (do
          return Sketch.leaf (some type) (← simplifier.nameOf type text))
            (graph.Unfolds visited) := by
        intro text
        refine (carries_lift (keeps_nameOf simplifier inside text)).bind ?_
        rintro _ ⟨name, rfl⟩
        exact carries_pure (unfolds_leaf rfl _)
      unfold sketchAt
      dsimp only
      split
      · exact named _
      rename_i notRepeated
      have new : type.text ∉ visited := by
        intro old
        rcases nested with rfl | below
        · exact absurd old List.not_mem_nil
        · exact notRepeated (by simp [below, old])
      split
      · exact carries_pure (unfolds_leaf rfl _)
      split
      · exact carries_pure (unfolds_leaf rfl _)
      refine carries_spend.bind fun granted _ => ?_
      cases granted with
      | true =>
        refine (carries_lift (keeps_structureOf inside)).bind fun target meant => ?_
        refine carries_sketchExpanded inside meant new (fun part partInside => ?_) ?_
        · exact types _ part (fun _ => ⟨by omega, .inr (by omega)⟩) partInside
        · exact fun signature signatureInside =>
            signatures visited type signature (fun _ => by omega) inside signatureInside new
      | false => exact named _
    · intro visited type signature deep inside meant new
      have deep := deep (Nat.succ_pos levels)
      refine carries_sketchFunction inside meant new fun part partInside => ?_
      exact types _ part (fun _ => ⟨by omega, .inr (by omega)⟩) partInside

/-! ## Whole shapes -/

theorem depth_levelsAt_zero {simplifier : Simplifier} (more : 0 < simplifier.levelsAt 0) :
    simplifier.depth (simplifier.levelsAt 0) = 0 := by
  simp only [depth, levelsAt] at more ⊢
  omega

/-- The shape of a type is that of a sketch on whose ways down no text is expanded twice.  When a
graph holds the type, the shape is no higher than there are texts in the graph, whatever the limits
are. -/
theorem unfolds_each_text_once (simplifier : Simplifier) (type : TypeTerm) (tree : FileTree)
    (journal after : Journal Session) (shape : Shape)
    (ran : simplifier.simplify 0 [] type tree journal = (.ok shape, after)) :
    (∃ sketch, simplifier.sketch 0 [] type tree journal = (.ok sketch, after) ∧
      sketch.shape = shape ∧
      ∀ types, sketch.Way types → (types.map TypeTerm.text).Nodup) ∧
    ∀ (graph : TypeGraph tree) (texts : Finset String),
      graph.state journal.state → graph.type type → graph.Spells texts →
        shape.height ≤ texts.card := by
  rw [simplify_eq_sketch] at ran
  obtain ⟨sketch, sketched, rfl⟩ := Task.exists_of_map_eq_ok ran
  obtain ⟨left, returned⟩ := Expansion.run'_returns sketched
  have unfolds : ∀ graph : TypeGraph tree, graph.state journal.state → graph.type type →
      graph.Unfolds [] sketch := by
    intro graph held inside
    have outermost : 0 < simplifier.levelsAt 0 →
        0 ≤ simplifier.depth (simplifier.levelsAt 0) ∧
          (([] : List String) = [] ∨ 0 < simplifier.depth (simplifier.levelsAt 0)) :=
      fun more => ⟨(depth_levelsAt_zero more).ge, .inl rfl⟩
    have carries := (simplifier.carries_sketchAt (simplifier.levelsAt 0)).1 [] type outermost inside
    exact (carries _ journal _ after held returned).2
  constructor
  · have apart := (unfolds (whole tree) trivial trivial).apart
    exact ⟨sketch, sketched, rfl, fun types way => (apart types way).1⟩
  · intro graph texts held inside spells
    have low := (unfolds graph held inside).low texts spells
    rwa [remaining_nil] at low

/-! ## A type inside of arrays of itself -/

/-- A type known by its cell, whose only member is an array of the type. -/
def loopType : TypeTerm := .object 0 "Loop" (some "Loop") (.known .none)

/-- A session that has collected the member of the type. -/
def loopSession : Session where
  modules := []
  resolver := .fresh (.ofRoot [])
  cells := #[⟨none, none, some ⟨[⟨"more", false, .array loopType⟩], []⟩⟩]
  parameterLists := #[]
  expanding := []

/-- The type and the array lead to nothing else. -/
def loopGraph : TypeGraph default where
  state session := session = loopSession
  type found := found = loopType ∨ found = .array loopType
  target found := found = loopType ∨ found = .array loopType
  structures := by
    rintro found journal after value (rfl | rfl) held ran
    · cases ran
      exact ⟨held, .inl rfl⟩
    · cases ran
      exact ⟨held, .inr rfl⟩
  names := by
    rintro found journal after value (rfl | rfl) held ran
    · cases ran
      exact held
    · cases ran
      exact held
  parts := by
    rintro found (rfl | rfl) part member
    · cases member
    · exact .inl (List.mem_singleton.mp member)
  properties := by
    rintro found journal after value inside held ran
    obtain ⟨session, notices⟩ := journal
    obtain rfl : session = loopSession := held
    have either : found = loopType ∨ found = .array loopType := or_self_iff.mp inside
    rcases either with rfl | rfl
    · cases ran
      refine ⟨rfl, fun property member => .inr ?_⟩
      cases member with
      | head => rfl
      | tail _ others => cases others
    · cases ran
      exact ⟨rfl, fun property member => by cases member⟩

/-- A simplifier that goes down forty levels. -/
def fortyLevels : Simplifier :=
  .ofSettings { Settings.default with maxDepth := 40, wrapperRules := [] }

/-- Forty levels are allowed, but a type and the array of it have two texts: no shape of the type is
higher than two, and the shape that it has is. -/
theorem loop_unfolds_once :
    ∃ (shape : Shape) (after : Journal Session),
      fortyLevels.simplify 0 [] loopType default ⟨loopSession, []⟩ = (.ok shape, after) ∧
      shape.height = 2 ∧ shape.height ≤ ({"Loop", "Loop[]"} : Finset String).card := by
  have answers : ((fortyLevels.simplify 0 [] loopType).outcomeFrom default loopSession).map
      Shape.height = .ok 2 := by decide +kernel
  obtain ⟨shape, after, ran, high⟩ := Task.exists_of_outcomeFrom answers
  refine ⟨shape, after, ran, high, ?_⟩
  refine (unfolds_each_text_once fortyLevels loopType default _ after shape ran).2 loopGraph _
    rfl (.inl rfl) ?_
  rintro type (rfl | rfl)
  · decide
  · decide

end Simplifier
end ModuleAtlas
