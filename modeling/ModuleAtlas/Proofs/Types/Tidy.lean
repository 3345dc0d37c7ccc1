import ModuleAtlas.Shape.Basic
import ModuleAtlas.Proofs.Task.Ending
import ModuleAtlas.Proofs.Types.Heritage
import ModuleAtlas.Proofs.Types.Reads

/-!
# Names that are not repeated

Object types, object literals and object patterns list members by name, and signatures list
parameters by name.  The syntax alone tells the names.  Syntax is tidy when no such list repeats a
name and no member has a name that could be taken for a mark.  What is read from tidy syntax is tidy
as well: no list of properties or of parameters that it holds repeats a name.
-/

namespace ModuleAtlas

open ModuleAtlas.Types

/-! ## Names that are written -/

/-- A name that cannot be taken for the mark of properties that are left out, or for a name with the
mark of optional properties. -/
def IsPlainName (name : String) : Prop := name ≠ Shape.moreKey ∧ name.toList.getLast? ≠ some '?'

instance (name : String) : Decidable (IsPlainName name) := inferInstanceAs (Decidable (_ ∧ _))

namespace Types

/-- The name of the property that a node gives as a member of an object type, a class or an object
literal, or as a part of an object pattern. -/
def givenName? (node : Node) : Option String :=
  match node.kind with
  | "property_signature" | "method_signature" | "abstract_method_signature"
  | "public_field_definition" | "method_definition" => some (propertyName (node.child? "name"))
  | "index_signature" => writtenName? node
  | "pair" | "pair_pattern" => some (propertyName (node.child? "key"))
  | "shorthand_property_identifier" | "shorthand_property_identifier_pattern" => some node.text
  | "object_assignment_pattern" => some (Node.textOf (node.child? "left"))
  | _ => none

/-- The names of the properties that the nodes below a node give. -/
def givenNames (node : Node) : List String := node.namedChildren.filterMap givenName?

/-- The kinds of nodes that list properties by name. -/
def listKinds : List String := ["object_type", "interface_body", "object", "object_pattern"]

end Types

/-- The name under which a parameter is shown. -/
def Parameter.label (parameter : Parameter τ) : String :=
  if parameter.isRest then "..." ++ parameter.name else parameter.name

namespace Types

/-- The name under which the parameter of a node is shown. -/
def parameterLabel? (node : Node) : Option String :=
  if node.kind != "required_parameter" && node.kind != "optional_parameter" then none
  else
    match node.child? "pattern" with
    | none => none
    | some pattern =>
      if pattern.kind == "this" then none
      else
        match pattern.kind with
        | "rest_pattern" => some ("..." ++ (pattern.lastNamed?.map Node.text).getD "args")
        | "object_pattern" | "array_pattern" => some (Text.collapse pattern.text)
        | _ => some pattern.text

/-- The names under which the parameters of a function are shown. -/
def parameterLabels (node : Node) : List String :=
  ((node.child? "parameter").map Node.text).toList
    ++ match node.child? "parameters" with
      | some list => list.namedChildren.filterMap parameterLabel?
      | none => []

end Types

/-! ## Tidy syntax -/

/-- A node that repeats no name: not of the properties that it lists and not of its parameters. As a
member it has a plain name. -/
structure Node.Distinct (node : Node) : Prop where
  members : node.kind ∈ listKinds → (givenNames node).Nodup
  parameters : (parameterLabels node).Nodup
  plain : ∀ name ∈ givenName? node, IsPlainName name

/-- No name is repeated in a tree. -/
def Node.Tidy (node : Node) : Prop := ∀ part ∈ node.walk, part.Distinct

/-- No name is repeated in what a node declares. The bodies of an interface may repeat names, since
each name of an interface is shown once anyway. -/
def Node.DeclaresTidily (node : Node) : Prop :=
  node.Tidy ∨ node.kind = "interface_declaration" ∧
    ∀ child ∈ node.children, ∀ part ∈ child.children, part.Tidy

/-- No name is repeated in the declarations of a module. -/
def SourceModule.Tidy (source : SourceModule) : Prop :=
  ∀ declaration, source.Has declaration → declaration.node.DeclaresTidily

namespace Node

instance (node : Node) : Decidable node.Distinct :=
  decidable_of_iff
    ((node.kind ∈ listKinds → (givenNames node).Nodup) ∧ (parameterLabels node).Nodup ∧
      ∀ name ∈ givenName? node, IsPlainName name)
    ⟨fun ⟨members, parameters, plain⟩ => ⟨members, parameters, plain⟩,
      fun ⟨members, parameters, plain⟩ => ⟨members, parameters, plain⟩⟩

instance (node : Node) : Decidable node.Tidy := inferInstanceAs (Decidable (∀ part ∈ _, _))

instance (node : Node) : Decidable node.DeclaresTidily := inferInstanceAs (Decidable (_ ∨ _))

theorem walk_subset_walkAll {child : Node} {nodes : List Node} (member : child ∈ nodes) :
    child.walk ⊆ walkAll nodes := by
  induction nodes with
  | nil => cases member
  | cons node rest ih =>
    rw [walkAll]
    rcases List.mem_cons.mp member with rfl | later
    · exact List.subset_append_left _ _
    · exact List.Subset.trans (ih later) (List.subset_append_right _ _)

variable {node child : Node}

theorem Tidy.self (tidy : node.Tidy) : node.Distinct := tidy node node.self_mem_walk

theorem Tidy.below (tidy : node.Tidy) (member : child ∈ node.children) : child.Tidy := by
  intro part partMember
  refine tidy part ?_
  obtain ⟨kind, named, role, start, line, text, children⟩ := node
  rw [walk]
  exact List.mem_cons_of_mem _ (walk_subset_walkAll member partMember)

theorem Tidy.named (tidy : node.Tidy) (member : child ∈ node.namedChildren) : child.Tidy :=
  tidy.below (List.mem_filter.mp member).1

theorem Tidy.child? {role : String} (tidy : node.Tidy) (found : node.child? role = some child) :
    child.Tidy :=
  tidy.below (List.mem_of_find?_eq_some found)

theorem Tidy.lastNamed? (tidy : node.Tidy) (found : node.lastNamed? = some child) : child.Tidy :=
  tidy.named (List.mem_of_getLast? found)

theorem Tidy.firstNamed? (tidy : node.Tidy) (found : node.firstNamed? = some child) : child.Tidy :=
  tidy.named (List.mem_of_head? found)

theorem Tidy.typeArguments (tidy : node.Tidy) (member : child ∈ Types.typeArguments node) :
    child.Tidy := by
  unfold Types.typeArguments at member
  split at member
  · exact (tidy.child? ‹_›).named member
  · cases member

mutual

theorem Tidy.flatten {member : Node} (kind : String) : ∀ {node : Node}, node.Tidy →
    member ∈ Types.flatten kind node → member.Tidy
  | .mk _ _ _ _ _ _ children, tidy, inside => by
    rw [Types.flatten] at inside
    exact tidy_of_mem_flattenAll kind (fun _ => tidy.below) inside

/-- The members of nested unions in a tidy tree are tidy. -/
theorem tidy_of_mem_flattenAll {member : Node} (kind : String) : ∀ {nodes : List Node},
    (∀ node ∈ nodes, node.Tidy) → member ∈ flattenAll kind nodes → member.Tidy
  | [], _, inside => absurd inside List.not_mem_nil
  | node :: rest, tidy, inside => by
    obtain ⟨first, others⟩ := List.forall_mem_cons.mp tidy
    rw [flattenAll] at inside
    rcases List.mem_append.mp inside with here | later
    · split at here
      · cases here
      · split at here
        · exact first.flatten kind here
        · rwa [List.mem_singleton.mp here]
    · exact tidy_of_mem_flattenAll kind others later

end

mutual

theorem Tidy.returnsOf {value : Node} : ∀ {node : Node}, node.Tidy →
    value ∈ Types.returnsOf node → value.Tidy
  | .mk _ _ _ _ _ _ children, tidy, inside => by
    rw [Types.returnsOf] at inside
    split at inside
    · cases inside
    · split at inside
      · exact tidy.firstNamed? (Option.mem_toList.mp inside)
      · exact tidy_of_mem_returnsAmong (fun _ => tidy.below) inside

theorem tidy_of_mem_returnsAmong {value : Node} : ∀ {nodes : List Node},
    (∀ node ∈ nodes, node.Tidy) → value ∈ returnsAmong nodes → value.Tidy
  | [], _, inside => absurd inside List.not_mem_nil
  | node :: rest, tidy, inside => by
    obtain ⟨first, others⟩ := List.forall_mem_cons.mp tidy
    rw [returnsAmong] at inside
    rcases List.mem_append.mp inside with here | later
    · split at here
      · exact first.returnsOf here
      · cases here
    · exact tidy_of_mem_returnsAmong others later

end

/-- Two levels below a declaration everything is tidy. -/
theorem DeclaresTidily.part {part : Node} (tidy : node.DeclaresTidily)
    (member : child ∈ node.children) (partMember : part ∈ child.children) :
    part.Tidy := by
  rcases tidy with all | ⟨_, inside⟩
  · exact (all.below member).below partMember
  · exact inside child member part partMember

theorem DeclaresTidily.tidy
    (tidy : node.DeclaresTidily) (other : node.kind ≠ "interface_declaration") : node.Tidy :=
  tidy.resolve_right fun isInterface => other isInterface.1

end Node

/-! ## Tidy types -/

section

variable {τ : Type}

/-- Properties with plain names of their own. -/
structure NamesApart (properties : List (Property τ)) : Prop where
  distinct : (properties.map Property.name).Nodup
  plain : ∀ property ∈ properties, IsPlainName property.name

/-- Parameters that are shown under names of their own. -/
inductive TidySignature (holds : τ → Prop) : Signature τ → Prop where
  | mk {parameters : List (Parameter τ)} {returns : τ}
      (distinct : (parameters.map Parameter.label).Nodup)
      (types : ∀ parameter ∈ parameters, holds parameter.type)
      (boundApart : ∀ parameter ∈ parameters, NamesApart parameter.bound)
      (boundTypes : ∀ parameter ∈ parameters, ∀ property ∈ parameter.bound, holds property.type)
      (ofReturns : holds returns) :
      TidySignature holds ⟨parameters, returns⟩

inductive TidyMembers (holds : τ → Prop) : Members τ → Prop where
  | mk {properties : List (Property τ)} {signatures : List (Signature τ)}
      (apart : NamesApart properties)
      (types : ∀ property ∈ properties, holds property.type)
      (ofSignatures : ∀ signature ∈ signatures, TidySignature holds signature) :
      TidyMembers holds ⟨properties, signatures⟩

inductive TidyScope (holds : τ → Prop) : Scope τ → Prop where
  | mk {source : SourceModule} {parameters : List (String × τ)} {pending : Option Nat}
      (ofSource : source.Tidy)
      (values : ∀ parameter ∈ parameters, holds parameter.2) :
      TidyScope holds ⟨source, parameters, pending⟩

inductive TidySource (holds : τ → Prop) : MemberSource τ → Prop where
  | known {members : Members τ} (ofMembers : TidyMembers holds members) :
      TidySource holds (.known members)
  | body {node : Node} {scope : Scope τ}
      (tidy : node.Tidy) (isList : node.kind ∈ listKinds) (ofScope : TidyScope holds scope) :
      TidySource holds (.body node scope)
  | interface {first : Node} {declarations : List Declaration} {scope : Scope τ}
      (tidy : ∀ declaration ∈ declarations, declaration.node.DeclaresTidily)
      (ofScope : TidyScope holds scope) :
      TidySource holds (.interface first declarations scope)
  | class {declaration : Node} {scope : Scope τ}
      (tidy : declaration.DeclaresTidily) (ofScope : TidyScope holds scope) :
      TidySource holds (.class declaration scope)

end

/-- A type all of whose properties and parameters have names of their own, and that only leads to
tidy syntax. -/
inductive TypeTerm.Tidy : TypeTerm → Prop where
  | primitive (name : String) : Tidy (.primitive name)
  | literal (value : String) : Tidy (.literal value)
  | verbatim (code : String) : Tidy (.verbatim code)
  | array {element : TypeTerm} (tidy : Tidy element) : Tidy (.array element)
  | tuple {elements : List TypeTerm} (tidy : ∀ element ∈ elements, Tidy element) :
      Tidy (.tuple elements)
  | union {label : String} {members : List TypeTerm} (tidy : ∀ member ∈ members, Tidy member) :
      Tidy (.union label members)
  | intersection {label : String} {members : List TypeTerm}
      (tidy : ∀ member ∈ members, Tidy member) :
      Tidy (.intersection label members)
  | function {label : String} {signatures : List (Signature TypeTerm)}
      (tidy : ∀ signature ∈ signatures, TidySignature Tidy signature) :
      Tidy (.function label signatures)
  | object {cell : Nat} {code : String} {name : Option String} {source : MemberSource TypeTerm}
      (tidy : TidySource Tidy source) :
      Tidy (.object cell code name source)
  | reference {cell : Nat} {code name : String} {scope : Scope TypeTerm} {arguments : List Node}
      (tidy : TidyScope Tidy scope) (ofArguments : ∀ argument ∈ arguments, argument.Tidy) :
      Tidy (.reference cell code name scope arguments)

/-- Properties with plain names and tidy types. -/
structure PlainProperties (properties : List (Property TypeTerm)) : Prop where
  plain : ∀ property ∈ properties, IsPlainName property.name
  types : ∀ property ∈ properties, property.type.Tidy

/-- Properties with plain names of their own and with tidy types. -/
structure TidyProperties (properties : List (Property TypeTerm)) : Prop extends
    NamesApart properties where
  types : ∀ property ∈ properties, property.type.Tidy

namespace TidyProperties

theorem nil : TidyProperties [] := ⟨⟨List.nodup_nil, by simp⟩, by simp⟩

theorem plainly {properties : List (Property TypeTerm)} (tidy : TidyProperties properties) :
    PlainProperties properties :=
  ⟨tidy.plain, tidy.types⟩

variable {found more : List (Property TypeTerm)} {property : Property TypeTerm}

theorem concat (tidy : TidyProperties found) (new : property.name ∉ found.map Property.name)
    (plain : IsPlainName property.name) (ofType : property.type.Tidy) :
    TidyProperties (found ++ [property]) := by
  refine ⟨⟨?_, ?_⟩, ?_⟩
  · rw [List.map_append]
    exact tidy.distinct.append (List.nodup_singleton _) (by simpa using new)
  · exact List.forall_mem_append.mpr ⟨tidy.plain, List.forall_mem_singleton.mpr plain⟩
  · exact List.forall_mem_append.mpr ⟨tidy.types, List.forall_mem_singleton.mpr ofType⟩

/-- Merging keeps each name once, whatever is merged. -/
theorem merge (tidy : TidyProperties found) (plainly : PlainProperties more) :
    TidyProperties (mergeProperties found more) := by
  induction more generalizing found with
  | nil => exact tidy
  | cons property rest ih =>
    obtain ⟨plainFirst, plainRest⟩ := List.forall_mem_cons.mp plainly.plain
    obtain ⟨typeFirst, typesRest⟩ := List.forall_mem_cons.mp plainly.types
    rw [mergeProperties_cons]
    refine ih ?_ ⟨plainRest, typesRest⟩
    split
    · exact tidy
    · rename_i unknown
      exact tidy.concat (by simpa using unknown) plainFirst typeFirst

end TidyProperties

/-! ## Tidy sessions -/

/-- What is known about a cell is tidy. -/
structure Cell.Tidy (cell : Cell) : Prop where
  target : ∀ target ∈ cell.target, target.Tidy
  members : ∀ members ∈ cell.members, TidyMembers TypeTerm.Tidy members

/-- All that a session holds is tidy. -/
structure Session.Tidy (session : Session) : Prop where
  modules : ∀ entry ∈ session.modules, entry.2.Tidy
  cells : ∀ (index : Nat) (cell : Cell), session.cells[index]? = some cell → cell.Tidy
  lists : ∀ (index : Nat) (list : List (String × TypeTerm)),
    session.parameterLists[index]? = some list → ∀ parameter ∈ list, parameter.2.Tidy

/-- From tidy sessions a task leads to tidy sessions, and what it answers is of a kind. -/
def Tidies {α : Type} (tree : FileTree) (kind : α → Prop) (task : Task Session α) : Prop :=
  Task.Ends tree Session.Tidy kind (fun _ => True) task

variable {tree : FileTree} {α β : Type} {task : Task Session α} {kind : α → Prop}

theorem Session.tidy_fresh (root : Path) : (Session.fresh root).Tidy :=
  ⟨by simp [Session.fresh], by simp [Session.fresh], by simp [Session.fresh]⟩

theorem tidies_pure {value : α} (ofKind : kind value) :
    Tidies tree kind (pure value) :=
  Task.ends_pure ofKind

theorem Tidies.bind
    {next : α → Task Session β} {nextKind : β → Prop}
    (first : Tidies tree kind task)
    (second : ∀ value, kind value → Tidies tree nextKind (next value)) :
    Tidies tree nextKind (task >>= next) :=
  Task.Ends.bind first second

theorem Tidies.map {image : α → β} {imageKind : β → Prop}
    (tidies : Tidies tree kind task) (implied : ∀ value, kind value → imageKind (image value)) :
    Tidies tree imageKind (do return image (← task)) :=
  Task.Ends.map tidies implied

theorem Tidies.mono {kind wider : α → Prop} (tidies : Tidies tree kind task)
    (implied : ∀ value, kind value → wider value) :
    Tidies tree wider task :=
  Task.Ends.imp tidies implied fun _ => id

theorem Tidies.image
    {image : α → β} (tidies : Tidies tree kind task) :
    Tidies tree (fun _ => True) (do return image (← task)) :=
  tidies.map fun _ _ => trivial

theorem tidies_mapM {step : α → Task Session β} {kind : α → β → Prop} {values : List α}
    (each : ∀ value ∈ values, Tidies tree (kind value) (step value)) :
    Tidies tree (Listwise kind values) (values.mapM step) :=
  Task.ends_mapM each

theorem tidies_mapM_all {step : α → Task Session β} {kind : β → Prop} {values : List α}
    (each : ∀ value ∈ values, Tidies tree kind (step value)) :
    Tidies tree (fun answers => ∀ answer ∈ answers, kind answer) (values.mapM step) := by
  refine (tidies_mapM each).mono fun answers related answer member => ?_
  obtain ⟨_, _, ofKind⟩ := related.exists_origin member
  exact ofKind

theorem tidies_update {change : Session → Session}
    (kept : ∀ session : Session, session.Tidy → (change session).Tidy) :
    Tidies tree (fun _ => True) (Task.update change) :=
  Task.ends_update kept

namespace Types

theorem tidies_newCell : Tidies tree (fun _ => True) newCell := by
  refine Tidies.bind Task.ends_state fun session _ => (tidies_update fun session tidy => ?_).bind
    fun _ _ => tidies_pure trivial
  refine ⟨tidy.modules, fun index cell found => ?_, tidy.lists⟩
  rw [Array.getElem?_push] at found
  split at found
  · cases found
    exact ⟨by simp, by simp⟩
  · exact tidy.cells index cell found

theorem tidies_newObject {source : MemberSource TypeTerm} (tidy : TidySource TypeTerm.Tidy source)
    (code : String) (name : Option String) :
    Tidies tree TypeTerm.Tidy (newObject code name source) :=
  tidies_newCell.map fun _ _ => .object tidy

theorem tidies_newReference {scope : Scope TypeTerm} {arguments : List Node}
    (tidy : TidyScope TypeTerm.Tidy scope) (ofArguments : ∀ argument ∈ arguments, argument.Tidy)
    (name code : String) :
    Tidies tree TypeTerm.Tidy (newReference scope name code arguments) := by
  obtain ⟨ofSource, values⟩ := tidy
  exact tidies_newCell.map fun _ _ => .reference (.mk ofSource values) ofArguments

theorem tidies_codeOf (scope : Scope TypeTerm) (node : Node) :
    Tidies tree (fun _ => True) (codeOf scope node) := by
  unfold codeOf
  split
  · exact tidies_pure trivial
  · exact Task.ends_fail trivial

theorem tidy_unionOf {types : List TypeTerm} (tidy : ∀ type ∈ types, type.Tidy) :
    (unionOf types).Tidy := by
  rcases unionOf_cases types with single | ⟨members, inside, many⟩
  · exact tidy _ single
  · rw [many]
    exact .union fun member here => tidy member (inside here)

/-! ## Lists of properties -/

/-- The property of a node has the name that the node gives. -/
def Given (node : Node) (found : Option (Property TypeTerm)) : Prop :=
  ∀ property ∈ found, givenName? node = some property.name ∧ property.type.Tidy

theorem given_none {node : Node} : Given node none := fun _ impossible => by cases impossible

theorem given_some {node : Node} {name : String} {isOptional : Bool} {type : TypeTerm}
    (named : givenName? node = some name) (tidy : type.Tidy) :
    Given node (some ⟨name, isOptional, type⟩) := by
  rintro _ ⟨⟩
  exact ⟨named, tidy⟩

variable {found : List (Option (Property TypeTerm))} {nodes : List Node}

theorem names_sublist
    (given : Listwise Given nodes found) :
    ((found.filterMap id).map Property.name).Sublist (nodes.filterMap givenName?) := by
  induction given with
  | nil => exact List.Sublist.slnil
  | @cons node property rest others head _ ih =>
    cases property with
    | none =>
      rw [List.filterMap_cons_none (by rfl)]
      refine ih.trans ?_
      exact (List.sublist_cons_self _ _).filterMap _
    | some property =>
      rw [List.filterMap_cons_some (by rfl), List.filterMap_cons_some (head property rfl).1]
      exact ih.cons_cons _

theorem plainProperties_of_given
    (tidy : ∀ node ∈ nodes, node.Tidy) (given : Listwise Given nodes found) :
    PlainProperties (found.filterMap id) := by
  have each : ∀ property ∈ found.filterMap id, IsPlainName property.name ∧ property.type.Tidy := by
    intro property member
    obtain ⟨_, someMember, rfl⟩ := List.mem_filterMap.mp member
    obtain ⟨node, nodeMember, ofNode⟩ := given.exists_origin someMember
    obtain ⟨named, type⟩ := ofNode property rfl
    exact ⟨(tidy node nodeMember).self.plain _ named, type⟩
  exact ⟨fun property member => (each property member).1,
    fun property member => (each property member).2⟩

/-- Properties that members with names of their own give. -/
theorem tidyProperties_of_given
    (distinct : (nodes.filterMap givenName?).Nodup) (tidy : ∀ node ∈ nodes, node.Tidy)
    (given : Listwise Given nodes found) :
    TidyProperties (found.filterMap id) := by
  obtain ⟨plain, types⟩ := plainProperties_of_given tidy given
  exact ⟨⟨distinct.sublist (names_sublist given), plain⟩, types⟩

end Types
end ModuleAtlas
