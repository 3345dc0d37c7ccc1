import ModuleAtlas.Proofs.Catalogue.Entries
import ModuleAtlas.Proofs.Shape.Siblings
import ModuleAtlas.Proofs.Types.TidySessions

/-!
# Rendering without loss

An object renders to a mapping from the labels of its properties, and a function to one from the
names of its parameters.  A label that is there twice stands for the last of the properties only,
and one that reads as the mark for further properties is lost.  So rendering shows each property and
each parameter exactly if no list repeats a label.  From tidy syntax this follows: an interface and
a class have each name once whatever they repeat, and other lists have the names that are written.
-/

namespace ModuleAtlas

open ModuleAtlas.Types

/-! ## Labels -/

namespace Shape

/-- The entry that marks an object with more properties than are shown. -/
def moreEntries (truncated : Bool) : List (String × Json) :=
  if truncated then [(moreKey, .string moreKey)] else []

mutual

/-- Each object in a shape renders to a mapping with one key for each property that it shows, in
their order, and one more for the mark if it is truncated; each function renders to one with a
mapping with one key for each of its parameters. -/
def Lossless : Shape → Prop
  | .primitive _ | .literal _ | .reference _ | .verbatim _ => True
  | .array element => Lossless element
  | .tuple elements => AllLossless elements
  | .function parameters returns =>
    render (.function parameters returns) =
        .object [("params", .object (renderNamed parameters)), ("return", render returns)] ∧
      NamedLossless parameters ∧ Lossless returns
  | .union members => AllLossless members
  | .intersection members => AllLossless members
  | .object properties truncated =>
    render (.object properties truncated) =
        .object (renderNamed properties ++ moreEntries truncated) ∧
      NamedLossless properties

/-- All of some shapes render without loss. -/
def AllLossless : List Shape → Prop
  | [] => True
  | shape :: rest => Lossless shape ∧ AllLossless rest

/-- All of some named shapes render without loss. -/
def NamedLossless : List (String × Shape) → Prop
  | [] => True
  | (_, shape) :: rest => Lossless shape ∧ NamedLossless rest

end

/-- The keys that stand for properties and for the mark. -/
def objectKeys (properties : List (String × Shape)) (truncated : Bool) : List String :=
  properties.map Prod.fst ++ (moreEntries truncated).map Prod.fst

theorem keys_renderNamed (named : List (String × Shape)) :
    (renderNamed named).map Prod.fst = named.map Prod.fst := by
  induction named with
  | nil => rfl
  | cons entry rest ih => exact congrArg (entry.1 :: ·) ih

/-- A mapping is shown without loss exactly if no name is repeated. -/
theorem ofPairs_renderNamed_iff {named : List (String × Shape)} :
    Keyed.ofPairs (renderNamed named) = renderNamed named ↔ (named.map Prod.fst).Nodup := by
  rw [← keys_renderNamed]
  exact ⟨fun same => same ▸ Keyed.nodup_keys_ofPairs _, Keyed.ofPairs_eq_self⟩

theorem render_function_iff {parameters : List (String × Shape)} {returns : Shape} :
    render (.function parameters returns) =
        .object [("params", .object (renderNamed parameters)), ("return", render returns)] ↔
      (parameters.map Prod.fst).Nodup := by
  rw [render, ← ofPairs_renderNamed_iff]
  simp

/-- An object is rendered without loss just when no key of it is repeated. -/
theorem render_object_iff {properties : List (String × Shape)} {truncated : Bool} :
    render (.object properties truncated) =
        .object (renderNamed properties ++ moreEntries truncated) ↔
      (objectKeys properties truncated).Nodup := by
  have keys : (renderNamed properties ++ moreEntries truncated).map Prod.fst =
      objectKeys properties truncated := by
    rw [List.map_append, keys_renderNamed, objectKeys]
  rw [render]
  simp only [Json.object.injEq]
  cases truncated with
  | false => simp [moreEntries, objectKeys, ofPairs_renderNamed_iff]
  | true =>
    constructor
    · intro same
      rw [← keys, ← same]
      exact Keyed.nodup_keys_put (Keyed.nodup_keys_ofPairs _) _ _
    · intro distinct
      obtain ⟨ofProperties, _, apart⟩ := List.nodup_append.mp distinct
      rw [if_pos rfl, ofPairs_renderNamed_iff.mpr ofProperties, Keyed.put_of_new, moreEntries,
        if_pos rfl]
      rw [keys_renderNamed]
      exact fun member => apart _ member moreKey (by simp [moreEntries]) rfl

end Shape

/-! ## Labels -/

namespace Simplifier

theorem propertyLabel_ne_moreKey {property : Property TypeTerm}
    (plain : IsPlainName property.name) :
    propertyLabel property ≠ Shape.moreKey := by
  intro same
  unfold propertyLabel at same
  split at same
  · have last := congrArg (fun text => text.toList.getLast?) same
    simp [Shape.moreKey] at last
  · exact plain.1 (by simpa using same)

/-- The mark of optional properties makes no two labels the same. -/
theorem name_eq_of_propertyLabel_eq {property other : Property TypeTerm}
    (plain : IsPlainName property.name) (otherPlain : IsPlainName other.name)
    (same : propertyLabel property = propertyLabel other) :
    property.name = other.name := by
  have ends : ∀ {name marked : String}, IsPlainName marked → name ++ "?" ≠ marked := by
    rintro name _ markedPlain rfl
    exact markedPlain.2 (by simp)
  unfold propertyLabel at same
  split at same
  · split at same
    · exact String.append_left_inj _ |>.mp same
    · exact absurd (same.trans String.append_empty) (ends otherPlain)
  · split at same
    · exact absurd (same.symm.trans String.append_empty) (ends plain)
    · simpa using same

theorem nodup_propertyLabels {properties : List (Property TypeTerm)}
    (apart : NamesApart properties) :
    (properties.map propertyLabel).Nodup := by
  refine List.pairwise_map.mpr ((List.pairwise_map.mp apart.distinct).imp_of_mem ?_)
  intro property other member otherMember different same
  exact different (name_eq_of_propertyLabel_eq (apart.plain property member)
    (apart.plain other otherMember) same)

theorem firstOf_sublist {α : Type} (count : Int) (elements : List α) :
    (firstOf count elements).Sublist elements := by
  unfold firstOf
  split <;> exact List.take_sublist _ _

/-- What is shown of an object has keys of its own. -/
theorem nodup_objectKeys {properties : List (Property TypeTerm)} (apart : NamesApart properties)
    {entries : List (String × Shape)} (count : Int)
    (shown : entries.map Prod.fst = (firstOf count properties).map propertyLabel)
    (truncated : Bool) :
    (Shape.objectKeys entries truncated).Nodup := by
  have labels := (nodup_propertyLabels apart).sublist ((firstOf_sublist count properties).map _)
  unfold Shape.objectKeys
  rw [shown]
  refine labels.append ?_ ?_
  · cases truncated <;> simp [Shape.moreEntries]
  · intro label member mark
    have isMark : label = Shape.moreKey := by
      cases truncated <;> simp_all [Shape.moreEntries]
    obtain ⟨property, propertyMember, rfl⟩ := List.mem_map.mp member
    have inside := (firstOf_sublist count properties).subset propertyMember
    exact propertyLabel_ne_moreKey (apart.plain property inside) isMark

/-! ## Shapes of tidy types -/

variable {tree : FileTree} {simplifier : Simplifier} {levels : Nat}
  {simplify : TypeTerm → Expansion Shape} {α β : Type}

/-- From tidy sessions an expansion leads to tidy sessions, and what it answers is of a kind. -/
def ExpandsTidily (tree : FileTree) (kind : α → Prop) (expansion : Expansion α) : Prop :=
  ∀ left, Tidies tree (fun answer => kind answer.1) (expansion left)

theorem expandsTidily_pure {kind : α → Prop} {value : α} (ofKind : kind value) :
    ExpandsTidily tree kind (pure value) :=
  fun _ => tidies_pure ofKind

theorem ExpandsTidily.bind
    {expansion : Expansion α} {next : α → Expansion β} {first : α → Prop} {kind : β → Prop}
    (starts : ExpandsTidily tree first expansion)
    (goesOn : ∀ value, first value → ExpandsTidily tree kind (next value)) :
    ExpandsTidily tree kind (expansion >>= next) :=
  fun left => (starts left).bind fun answer ofFirst => goesOn answer.1 ofFirst answer.2

theorem ExpandsTidily.map
    {expansion : Expansion α} {image : α → β} {first : α → Prop} {kind : β → Prop}
    (starts : ExpandsTidily tree first expansion)
    (implied : ∀ value, first value → kind (image value)) :
    ExpandsTidily tree kind (do return image (← expansion)) :=
  starts.bind fun value ofFirst => expandsTidily_pure (implied value ofFirst)

theorem expandsTidily_lift {task : Task Session α} {kind : α → Prop}
    (tidies : Tidies tree kind task) :
    ExpandsTidily tree kind (liftM task : Expansion α) :=
  fun _ => tidies.bind fun _ ofKind => tidies_pure ofKind

theorem expandsTidily_spend : ExpandsTidily tree (fun _ => True) Expansion.spend := by
  intro left
  cases left <;> exact tidies_pure trivial

theorem tidies_clean (simplifier : Simplifier) (text : String) :
    Tidies tree (fun _ => True) (simplifier.clean text) := by
  unfold clean
  split
  · exact tidies_pure trivial
  · exact Task.ends_fail trivial

section

variable (tidy : tree.Tidy)

include tidy

theorem tidies_nameOf
    (simplifier : Simplifier) {type : TypeTerm} (ofType : type.Tidy) (text : String) :
    Tidies tree Shape.Lossless (simplifier.nameOf type text) :=
  (tidies_symbolOf tidy ofType).bind fun _ _ => (tidies_clean simplifier _).map fun _ _ => trivial

theorem tidies_patternProperties {parameter : Parameter TypeTerm} (ofType : parameter.type.Tidy)
    (bound : TidyProperties parameter.bound) :
    Tidies tree TidyProperties (patternProperties parameter) := by
  have orBound : ∀ properties, TidyProperties properties →
      TidyProperties (if properties.isEmpty then parameter.bound else properties) := by
    intro properties ofProperties
    split
    · exact bound
    · exact ofProperties
  refine (tidies_isObject tidy ofType).bind fun isObject _ => ?_
  split
  · exact (tidies_propertiesOf tidy ofType).map orBound
  · exact (tidies_pure TidyProperties.nil).map orBound

/-- The parameters of a signature are shown under names of their own. -/
theorem tidies_shownParameters
    {signature : Signature TypeTerm} (ofSignature : TidySignature TypeTerm.Tidy signature) :
    Tidies tree
      (fun entries => (entries.map Prod.fst).Nodup ∧ ∀ entry ∈ entries, entry.2.Tidy)
      (shownParameters signature) := by
  obtain @⟨parameters, returns, distinct, types, boundApart, boundTypes, _⟩ := ofSignature
  have listed : ((parameters.map fun parameter =>
        (if parameter.isRest then "..." ++ parameter.name else parameter.name,
          parameter.type)).map Prod.fst).Nodup ∧
      ∀ entry ∈ parameters.map fun parameter =>
        (if parameter.isRest then "..." ++ parameter.name else parameter.name, parameter.type),
        entry.2.Tidy := by
    constructor
    · rw [List.map_map]
      exact distinct
    · exact List.forall_mem_map.mpr types
  unfold shownParameters
  dsimp only
  split
  · rename_i parameter
    split
    · exact tidies_pure listed
    · have ofType := types parameter List.mem_cons_self
      refine (tidies_patternProperties tidy ofType ⟨boundApart _ List.mem_cons_self,
        boundTypes _ List.mem_cons_self⟩).bind fun properties ofProperties => ?_
      split
      · exact tidies_pure ⟨List.nodup_singleton _, List.forall_mem_singleton.mpr ofType⟩
      · refine tidies_pure ⟨?_, List.forall_mem_map.mpr ofProperties.types⟩
        rw [List.map_map]
        exact nodup_propertyLabels ofProperties.toNamesApart
  · exact tidies_pure listed

section Parts

variable (simplifies : ∀ {type : TypeTerm}, type.Tidy →
  ExpandsTidily tree Shape.Lossless (simplify type))

include simplifies

omit tidy in
theorem expandsTidily_each {types : List TypeTerm} (ofTypes : ∀ type ∈ types, type.Tidy) :
    ExpandsTidily tree Shape.AllLossless (each simplify types) := by
  induction types with
  | nil => exact expandsTidily_pure trivial
  | cons type rest ih =>
    obtain ⟨first, others⟩ := List.forall_mem_cons.mp ofTypes
    refine (simplifies first).bind fun shape ofShape => ?_
    exact (ih others).map fun shapes ofShapes => ⟨ofShape, ofShapes⟩

omit tidy in
theorem expandsTidily_eachNamed
    {types : List (String × TypeTerm)} (ofTypes : ∀ type ∈ types, type.2.Tidy) :
    ExpandsTidily tree
      (fun entries => entries.map Prod.fst = types.map Prod.fst ∧ Shape.NamedLossless entries)
      (eachNamed simplify types) := by
  induction types with
  | nil => exact expandsTidily_pure ⟨rfl, trivial⟩
  | cons type rest ih =>
    obtain ⟨first, others⟩ := List.forall_mem_cons.mp ofTypes
    refine (simplifies first).bind fun shape ofShape => ?_
    refine (ih others).map fun entries ofEntries => ⟨?_, ofShape, ofEntries.2⟩
    rw [List.map_cons, List.map_cons, ofEntries.1]

theorem expandsTidily_functionShape
    {signature : Signature TypeTerm} (ofSignature : TidySignature TypeTerm.Tidy signature) :
    ExpandsTidily tree Shape.Lossless (functionShape simplify signature) := by
  refine (expandsTidily_lift (tidies_shownParameters tidy ofSignature)).bind ?_
  rintro parameters ⟨distinct, types⟩
  obtain ⟨_, _, _, _, ofReturns⟩ := ofSignature
  refine (expandsTidily_eachNamed simplifies types).bind fun entries ofEntries => ?_
  refine (simplifies ofReturns).map fun returns returnsLossless =>
    ⟨Shape.render_function_iff.mpr ?_, ofEntries.2, returnsLossless⟩
  rw [ofEntries.1]
  exact distinct

/-- A tidy object has a shape that loses nothing if its properties do. -/
theorem expandsTidily_objectShape
    {type target : TypeTerm} (ofType : type.Tidy) (ofTarget : target.Tidy) :
    ExpandsTidily tree Shape.Lossless
      (simplifier.objectShape levels simplify type target) := by
  refine (expandsTidily_lift (tidies_propertiesOf tidy ofTarget)).bind
    fun properties ofProperties => ?_
  split
  · exact expandsTidily_pure ⟨rfl, trivial⟩
  · refine (expandsTidily_lift (tidies_symbolOf tidy ofType)).bind fun name _ => ?_
    dsimp only
    split
    · exact expandsTidily_pure trivial
    · refine (expandsTidily_eachNamed simplifies ?_).map fun entries ofEntries =>
        ⟨Shape.render_object_iff.mpr ?_, ofEntries.2⟩
      · exact List.forall_mem_map.mpr fun property member =>
          ofProperties.types property ((firstOf_sublist _ _).subset member)
      · refine nodup_objectKeys ofProperties.toNamesApart simplifier.settings.maxProperties ?_ _
        rw [ofEntries.1, List.map_map]
        rfl

theorem expandsTidily_expand {simplifySignature : Signature TypeTerm → Expansion Shape}
    (simplifiesSignature : ∀ {signature : Signature TypeTerm},
      TidySignature TypeTerm.Tidy signature →
      ExpandsTidily tree Shape.Lossless (simplifySignature signature))
    {type target : TypeTerm} (ofType : type.Tidy) (ofTarget : target.Tidy) :
    ExpandsTidily tree Shape.Lossless
      (simplifier.expand levels simplify simplifySignature type target) := by
  have verbatim : ∀ text, ExpandsTidily tree Shape.Lossless
      (do return Shape.verbatim (← simplifier.clean text)) :=
    fun text => (expandsTidily_lift (tidies_clean simplifier text)).map fun _ _ => trivial
  cases ofTarget with
  | primitive | literal => exact expandsTidily_pure trivial
  | verbatim | reference => exact verbatim _
  | array ofElement => exact (simplifies ofElement).map fun _ => id
  | tuple ofParts | union ofParts | intersection ofParts =>
    exact (expandsTidily_each simplifies ofParts).map fun _ => id
  | object ofSource =>
    exact expandsTidily_objectShape tidy simplifies ofType (.object ofSource)
  | @function _ signatures ofSignatures =>
    cases signatures with
    | nil => exact verbatim _
    | cons signature rest => exact simplifiesSignature (ofSignatures _ List.mem_cons_self)

end Parts

/-- Level by level, every tidy type has a shape that loses nothing. -/
theorem expandsTidily_shapeAt (simplifier : Simplifier) (levels : Nat) :
    (∀ visited {type : TypeTerm}, type.Tidy →
        ExpandsTidily tree Shape.Lossless (simplifier.shapeAt levels visited type)) ∧
      ∀ visited {signature : Signature TypeTerm}, TidySignature TypeTerm.Tidy signature →
        ExpandsTidily tree Shape.Lossless (simplifier.signatureAt levels visited signature) := by
  induction levels with
  | zero => exact ⟨fun _ _ _ => expandsTidily_pure trivial, fun _ _ _ => expandsTidily_pure trivial⟩
  | succ levels ih =>
    obtain ⟨types, signatures⟩ := ih
    refine ⟨fun visited type ofType => ?_, fun visited _ =>
      expandsTidily_functionShape tidy (types visited)⟩
    have named := expandsTidily_lift (tidies_nameOf tidy simplifier ofType type.text)
    unfold shapeAt
    dsimp only
    split
    · exact named
    split
    · exact expandsTidily_pure trivial
    split
    · exact expandsTidily_pure trivial
    refine expandsTidily_spend.bind fun granted _ => ?_
    split
    · refine (expandsTidily_lift (tidies_structureOf tidy ofType)).bind fun target ofTarget => ?_
      exact expandsTidily_expand tidy (types _) (signatures _) ofType ofTarget
    · exact named

omit tidy in
theorem tidies_run' {expansion : Expansion α} {kind : α → Prop}
    (expands : ExpandsTidily tree kind expansion) (expansions : Nat) :
    Tidies tree kind (expansion.run' expansions) := by
  change Tidies tree kind (Prod.fst <$> expansion expansions)
  rw [map_eq_pure_bind]
  exact (expands expansions).map fun _ => id

theorem tidies_simplify (simplifier : Simplifier) (depth : Int) (visited : List String)
    {type : TypeTerm} (ofType : type.Tidy) :
    Tidies tree Shape.Lossless (simplifier.simplify depth visited type) :=
  tidies_run' ((expandsTidily_shapeAt tidy simplifier _).1 visited ofType) _

theorem tidies_simplifySignature (simplifier : Simplifier) (depth : Int) (visited : List String)
    {signature : Signature TypeTerm} (ofSignature : TidySignature TypeTerm.Tidy signature) :
    Tidies tree Shape.Lossless (simplifier.simplifySignature depth visited signature) :=
  tidies_run' ((expandsTidily_shapeAt tidy simplifier _).2 visited ofSignature) _

/-- The shape of a type that is written in a scope. -/
def writtenShape (simplifier : Simplifier) (depth : Int) (visited : List String)
    (scope : Scope TypeTerm) (node : Node) : Task Session Shape := do
  simplifier.simplify depth visited (← typeOf scope node)

theorem tidies_writtenShape (simplifier : Simplifier) (depth : Int) (visited : List String)
    {scope : Scope TypeTerm} (ofScope : TidyScope TypeTerm.Tidy scope)
    {node : Node} (ofNode : node.Tidy) :
    Tidies tree Shape.Lossless (simplifier.writtenShape depth visited scope node) :=
  (tidies_typeOf ofScope ofNode).bind fun _ => simplifier.tidies_simplify tidy depth visited

end
end Simplifier

/-! ## Exports -/

namespace Catalogue

open Session

variable {tree : FileTree} {root : Path}

/-- A declaration in a tidy tree has a shape that loses nothing. -/
theorem tidies_declarationShape
    (tidy : tree.Tidy) (simplifier : Simplifier) {declaration : Declaration} {source : SourceModule}
    (declared : declaration.node.DeclaresTidily) (ofSource : source.Tidy) :
    Tidies tree Shape.Lossless (declarationShape simplifier declaration source) := by
  unfold declarationShape
  split
  · rename_i isFunction
    have all : declaration.node.Tidy := declared.tidy fun isInterface => by
      rw [isInterface] at isFunction
      cases isFunction
    exact (tidies_signature (.mk ofSource (by simp)) all).bind fun _ =>
      simplifier.tidies_simplifySignature tidy 0 []
  · exact (tidies_declarationType declared ofSource).bind fun _ =>
      simplifier.tidies_simplify tidy 0 []

/-- Every entry of a catalogue that is described renders without loss. -/
theorem Lists.lossless
    (tidy : tree.Tidy) {stack : Stack} {simplifier : Simplifier} {wanted : Option (List String)}
    {path : Path} {found : FileExports} (lists : Lists tree root stack simplifier wanted path found)
    {entries : List ExportEntry} (listed : found.exports = .ok entries)
    {entry : ExportEntry} (member : entry ∈ entries)
    {description : Description} (described : entry.description = .ok description) :
    description.shape.Lossless := by
  cases lists with
  | unreadable => cases listed
  | @listed file source exports shown exporting describes =>
    cases listed
    rcases List.mem_append.mp member with own | nameSpace
    · obtain ⟨handed, handedMember, describesEntry⟩ := describes.exists_origin own
      have tells : Tells tree root simplifier handed description := by
        cases describesEntry with
        | told tells =>
          cases described
          exact tells
        | untold | cut => cases described
      have ofSource := (tidies_parse tidy file.path).outcomeFrom (tidy_fresh root)
      rw [exporting.read] at ofSource
      obtain ⟨ofSource⟩ := ofSource
      have ofExports := (tidies_moduleExports tidy (ofSource source rfl)).outcomeFrom
        (tidy_fresh root)
      rw [exporting.listed] at ofExports
      obtain ⟨ofExports⟩ := ofExports
      obtain ⟨declared, fromSource⟩ := ofExports handed (List.mem_filter.mp handedMember).1
      have ofShape := (tidies_declarationShape tidy simplifier declared fromSource).outcomeFrom
        (tidy_fresh root)
      rw [tells.shape] at ofShape
      obtain ⟨lossless⟩ := ofShape
      exact lossless
    · obtain ⟨handed, _, same⟩ := List.mem_filterMap.mp (List.mem_filter.mp nameSpace).1
      obtain ⟨_, _, rfl⟩ := Option.map_eq_some_iff.mp same
      cases described
      trivial

/-- What is shown for an input that leads to a file. -/
theorem Shows.lists
    {stack : Stack} {simplifier : Simplifier} {wanted : Option (List String)} {base : Path}
    {input : String} {found : FileExports}
    (shows : Shows tree root stack simplifier wanted base input (some found)) :
    ∃ path, Lists tree root stack simplifier wanted path found := by
  generalize same : some found = shown at shows
  cases shows with
  | nowhere => cases same
  | @file path other _ lists =>
    split at same
    · cases same
    · cases same
      exact ⟨path, lists⟩

end Catalogue

namespace Shape

open Session

/-- In a file tree without repeated names every type that is read renders without loss, from every
tidy session and whatever the limits are; the session stays tidy.  So every described export of an
extraction renders without loss. -/
theorem rendered_without_loss {tree : FileTree} (tidy : tree.Tidy) (simplifier : Simplifier) :
    (∀ (scope : Scope TypeTerm) (node : Node) (depth : Int) (visited : List String)
        (journal after : Journal Session) (shape : Shape),
      TidyScope TypeTerm.Tidy scope → node.Tidy → journal.state.Tidy →
      simplifier.writtenShape depth visited scope node tree journal = (.ok shape, after) →
      shape.Lossless ∧ after.state.Tidy) ∧
    ∀ (root : Path) (inputs : List String) (directory : Path) (names : List String)
        (journal after : Journal Session) (found : List FileExports),
      Idle tree root journal.state →
      Catalogue.extract simplifier root inputs directory names tree journal = (.ok found, after) →
      ∀ file ∈ found, ∀ entries, file.exports = .ok entries →
      ∀ entry ∈ entries, ∀ description, entry.description = .ok description →
        description.shape.Lossless := by
  constructor
  · intro scope node depth visited journal after shape ofScope ofNode held ran
    obtain ⟨outcome, last, ranAgain, ofOne, kept⟩ :=
      simplifier.tidies_writtenShape tidy depth visited ofScope ofNode journal held
    rw [ran] at ranAgain
    cases ranAgain
    obtain ⟨lossless⟩ := ofOne
    exact ⟨lossless, kept⟩
  · intro root inputs directory names journal after found idle ran file member entries listed entry
      entryMember description described
    have ends : Task.Ends tree (Idle tree root) _ _
        (Catalogue.extract simplifier root inputs directory names) :=
      Catalogue.ends_extractOn Catalogue.spares_ample simplifier inputs directory names
    obtain ⟨outcome, last, ranAgain, ofOne, _⟩ := ends journal idle
    rw [ran] at ranAgain
    cases ranAgain
    obtain ⟨base, shown, _, shows, rfl⟩ := ofOne
    obtain ⟨someFile, someMember, same⟩ := List.mem_filterMap.mp member
    obtain rfl : someFile = some file := same
    obtain ⟨input, _, ofInput⟩ := shows.exists_origin someMember
    obtain ⟨path, lists⟩ := ofInput.lists
    exact lists.lossless tidy listed entryMember described

/-! ## Overloaded methods -/

open Simplifier (nameNode)

/-- A signature of a method with one parameter. -/
def methodNode (name parameter : String) : Node :=
  .mk "method_signature" true none 0 1 "" [nameNode "property_identifier" "name" name,
    .mk "formal_parameters" true (some "parameters") 0 1 "" [
      .mk "required_parameter" true none 0 1 "" [nameNode "identifier" "pattern" parameter]]]

/-- A method with two signatures. -/
def overloads : List Node := [methodNode "get" "index", methodNode "get" "name"]

/-- The file that exports an interface with the method. -/
def lookupFile : Node := program [
  .mk "export_statement" true none 0 1 "" [
    .mk "interface_declaration" true (some "declaration") 0 1 "" [
      nameNode "type_identifier" "name" "Lookup",
      .mk "interface_body" true (some "body") 0 1 "" overloads]]]

/-- A file tree with the file. -/
def lookupTree : FileTree := ⟨.directory [("a.ts", .file .empty (some lookupFile))], []⟩

/-- What is in scope in the file. -/
def lookupScope : Scope TypeTerm := ⟨.ofTree (.ofRoot ["a.ts"]) .plain lookupFile, [], none⟩

/-- The labels of an object and whether it is truncated. -/
def labels? : Shape → Option (List String × Bool)
  | .object properties truncated => some (properties.map Prod.fst, truncated)
  | _ => none

theorem tidy_lookupTree : lookupTree.Tidy := FileTree.tidy_of_trees (by decide +kernel)

/-- The interface has the method once. -/
theorem overloaded_interface_without_loss :
    (∃ shape after,
      Catalogue.plainSimplifier.writtenShape 0 [] lookupScope
        (nameNode "type_identifier" "type" "Lookup") lookupTree ⟨fresh (.ofRoot []), []⟩ =
          (.ok shape, after) ∧
      shape.labels? = some (["get"], false) ∧ shape.Lossless) ∧
    ∃ found after,
      Catalogue.extract Catalogue.plainSimplifier (.ofRoot []) ["a.ts"] (.ofRoot []) [] lookupTree
        ⟨fresh (.ofRoot []), []⟩ = (.ok found, after) ∧
      found.length = 1 ∧
      ∀ file ∈ found, ∀ entries, file.exports = .ok entries →
      ∀ entry ∈ entries, ∀ description, entry.description = .ok description →
        description.shape.Lossless := by
  obtain ⟨reads, extracts⟩ := rendered_without_loss tidy_lookupTree Catalogue.plainSimplifier
  constructor
  · have answers : ((Catalogue.plainSimplifier.writtenShape 0 [] lookupScope
        (nameNode "type_identifier" "type" "Lookup")).outcomeFrom lookupTree
          (fresh (.ofRoot []))).map labels? = .ok (some (["get"], false)) := by decide +kernel
    obtain ⟨shape, after, ran, labels⟩ := Task.exists_of_outcomeFrom answers
    have inModule : lookupScope.source.Tidy := SourceModule.tidy_ofTree (by decide +kernel) _ _
    exact ⟨shape, after, ran, labels, (reads lookupScope _ 0 [] _ after shape
      (.mk inModule (by simp)) (by decide) (tidy_fresh _) ran).1⟩
  · have answers : ((Catalogue.extract Catalogue.plainSimplifier (.ofRoot []) ["a.ts"] (.ofRoot [])
        []).outcomeFrom lookupTree (fresh (.ofRoot []))).map List.length = .ok 1 := by
      decide +kernel
    obtain ⟨found, after, ran, one⟩ := Task.exists_of_outcomeFrom answers
    exact ⟨found, after, ran, one, extracts _ _ _ _ _ after found idle_fresh ran⟩

/-- An object type with the method shows it twice, and renders to a mapping with one key. -/
theorem overloaded_object_type_loses_one :
    ∃ shape after,
      Catalogue.plainSimplifier.writtenShape 0 [] lookupScope
        (.mk "object_type" true none 0 1 "" overloads) lookupTree ⟨fresh (.ofRoot []), []⟩ =
          (.ok shape, after) ∧
      shape.labels? = some (["get", "get"], false) ∧ ¬shape.Lossless := by
  have answers : ((Catalogue.plainSimplifier.writtenShape 0 [] lookupScope
      (.mk "object_type" true none 0 1 "" overloads)).outcomeFrom lookupTree
        (fresh (.ofRoot []))).map labels? = .ok (some (["get", "get"], false)) := by decide +kernel
  obtain ⟨shape, after, ran, labels⟩ := Task.exists_of_outcomeFrom answers
  refine ⟨shape, after, ran, labels, fun lossless => ?_⟩
  cases shape with
  | object properties truncated =>
    obtain ⟨shown, rfl⟩ := Prod.mk.inj (Option.some.inj labels)
    have distinct := render_object_iff.mp lossless.1
    rw [objectKeys, shown] at distinct
    revert distinct
    decide
  | _ => cases labels

end Shape
end ModuleAtlas
