import ModuleAtlas.Proofs.Types.Interfaces
import ModuleAtlas.Proofs.Source.Declared

/-!
# Heritage

Interfaces and classes name bases, which may name further bases and lead back to where they come
from.  Members are collected along the bases; a declaration that is being collected already
contributes nothing to itself.  What is cut off that way is collected elsewhere: every declaration
that can be reached has its names in the result, each name once, and with the type of the first base
that has the name.
-/

namespace ModuleAtlas
namespace Types

open Session

variable {tree : FileTree} {root : Path}

/-! ## Names that come first -/

/-- Of some named things the first one of each name. -/
def firsts {α : Type} : List (String × α) → List (String × α)
  | [] => []
  | entry :: rest => entry :: (firsts rest).filter fun other => other.1 != entry.1

theorem mem_map_firsts {α : Type} {entries : List (String × α)} {name : String} :
    name ∈ (firsts entries).map Prod.fst ↔ name ∈ entries.map Prod.fst := by
  induction entries with
  | nil => exact Iff.rfl
  | cons entry rest ih =>
    by_cases same : name = entry.1
    · simp [firsts, same]
    · simp only [firsts, List.map_cons, List.mem_cons, same, false_or, ← ih,
        List.mem_map, List.mem_filter, bne_iff_ne]
      constructor
      · rintro ⟨other, ⟨member, _⟩, rfl⟩
        exact ⟨other, member, rfl⟩
      · rintro ⟨other, member, rfl⟩
        exact ⟨other, ⟨member, same⟩, rfl⟩

theorem nodup_map_firsts {α : Type} (entries : List (String × α)) :
    ((firsts entries).map Prod.fst).Nodup := by
  induction entries with
  | nil => exact List.nodup_nil
  | cons entry rest ih =>
    rw [firsts, List.map_cons, List.nodup_cons]
    refine ⟨fun member => ?_, ih.sublist (List.filter_sublist.map _)⟩
    obtain ⟨other, otherMember, same⟩ := List.mem_map.mp member
    simp [same] at otherMember

/-! ## Merged properties -/

section Merging

variable {own more : List (Property TypeTerm)} {name : String}

theorem own_prefix_mergeProperties (own more : List (Property TypeTerm)) :
    own <+: mergeProperties own more := by
  have merged := mergeProperties_own own [] more
  rw [show notNamed (own.map Property.name) [] = [] from rfl, List.append_nil] at merged
  rw [merged]
  exact List.prefix_append _ _

/-- Merging loses no name and adds none. -/
theorem mem_names_mergeProperties :
    name ∈ (mergeProperties own more).map Property.name ↔
      name ∈ own.map Property.name ∨ name ∈ more.map Property.name := by
  induction more generalizing own with
  | nil => exact (or_iff_left List.not_mem_nil).symm
  | cons property rest ih =>
    rw [mergeProperties_cons, ih]
    by_cases known : property.name ∈ own.map Property.name
    · rw [if_pos (by simpa using known), List.map_cons, List.mem_cons]
      constructor
      · rintro (old | new)
        · exact .inl old
        · exact .inr (.inr new)
      · rintro (old | rfl | new)
        · exact .inl old
        · exact .inl known
        · exact .inr new
    · rw [if_neg (by simpa using known), List.map_append, List.mem_append, List.map_cons,
        List.map_cons, List.map_nil, List.mem_singleton, List.mem_cons, or_assoc]

theorem nodup_names_mergeProperties (distinct : (own.map Property.name).Nodup) :
    ((mergeProperties own more).map Property.name).Nodup := by
  induction more generalizing own with
  | nil => exact distinct
  | cons property rest ih =>
    rw [mergeProperties_cons]
    apply ih
    by_cases known : property.name ∈ own.map Property.name
    · rwa [if_pos (by simpa using known)]
    · rw [if_neg (by simpa using known), List.map_append]
      exact distinct.append (List.nodup_singleton _) (by simpa using known)

/-- A name that is not among the first properties belongs to the first of the others that has it. -/
theorem find?_mergeProperties (unknown : name ∉ own.map Property.name) :
    (mergeProperties own more).find? (fun property => property.name == name) =
      more.find? fun property => property.name == name := by
  have skipped : ∀ properties : List (Property TypeTerm), name ∉ properties.map Property.name →
      properties.find? (fun property => property.name == name) = none := fun properties missing =>
    List.find?_eq_none.mpr fun property member same =>
      missing (List.mem_map.mpr ⟨property, member, eq_of_beq same⟩)
  induction more generalizing own with
  | nil => exact skipped own unknown
  | cons property rest ih =>
    rw [mergeProperties_cons]
    by_cases same : property.name = name
    · rw [if_neg (by simpa [same] using unknown), List.find?_cons_of_pos (by simp [same])]
      obtain ⟨later, merged⟩ := own_prefix_mergeProperties (own ++ [property]) rest
      rw [← merged, List.append_assoc, List.find?_append, skipped own unknown, Option.none_or,
        List.singleton_append, List.find?_cons_of_pos (by simp [same])]
    · rw [List.find?_cons_of_neg (by simp [same])]
      split
      · exact ih unknown
      · refine ih fun member => ?_
        rw [List.map_append, List.mem_append] at member
        rcases member with old | new
        · exact unknown old
        · exact same (by simpa using Eq.symm (by simpa using new))

end Merging

/-! ## Heirs -/

/-- A use of a declared type in a heritage clause. -/
structure Use where
  name : String
  arguments : List Node

/-- The use of a type that an interface names as a base. -/
def useOf? (node : Node) : Option Use :=
  match node.kind with
  | "type_identifier" | "identifier" | "nested_type_identifier" => some ⟨node.text, []⟩
  | "generic_type" => some ⟨Node.textOf (node.child? "name"), typeArguments node⟩
  | _ => none

/-- The clauses in which a class names its base. -/
def extendsClauses (node : Node) : List Node :=
  ((node.namedChildren.filter fun child => child.kind == "class_heritage").flatMap
    Node.namedChildren).filter fun clause => clause.kind == "extends_clause"

/-- The use of a type that a clause of a class names as a base. -/
def clauseUse? (clause : Node) : Option Use :=
  match clause.child? "value" with
  | some value =>
    if value.kind == "identifier" || value.kind == "member_expression" then
      some ⟨value.text, typeArguments clause⟩
    else none
  | none => none

/-- The name under which a member of a class is shown to others, if it is shown: it is public, it
belongs to the objects of the class, it is not the constructor, and its value can be read. -/
def shownName? (member : Node) : Option String :=
  match member.kind with
  | "public_field_definition" => visibleName? member
  | "method_definition" | "method_signature" | "abstract_method_signature" =>
    if member.hasChild "set" then none else visibleName? member
  | _ => none

/-- The members that have a name, with their names. -/
def namedMembers (nameOf : Node → Option String) (members : List Node) : List (String × Node) :=
  members.filterMap fun member => (nameOf member).map fun name => (name, member)

/-- A declaration that may inherit members: an interface or a class, with the module in which it
stands. -/
inductive Heir where
  | ofInterface (interface : Interface) (source : SourceModule)
  | ofClass (node : Node) (source : SourceModule)

namespace Heir

/-- The module in which the declaration stands. -/
def source : Heir → SourceModule
  | .ofInterface _ source => source
  | .ofClass _ source => source

/-- The node of the declaration, the first one of an interface. -/
def node : Heir → Node
  | .ofInterface interface _ => interface.first.node
  | .ofClass node _ => node

/-- What tells the declaration from others while its members are collected. -/
def key (heir : Heir) : Path × Nat := (heir.source.path, heir.node.start)

/-- The own members with their names, in the order in which they are written. -/
def members : Heir → List (String × Node)
  | .ofInterface interface _ => namedMembers writtenName? interface.members
  | .ofClass node _ => namedMembers shownName? (bodyNodes node)

/-- The bases that are named, in the order in which they are written. -/
def uses : Heir → List Use
  | .ofInterface interface _ => interface.bases.filterMap useOf?
  | .ofClass node _ => (extendsClauses node).filterMap clauseUse?

/-- An interface names its bases by uses of types, with nothing but comments between them. -/
def NamesBases : Heir → Prop
  | .ofInterface interface _ =>
    ∀ base ∈ interface.bases, (useOf? base).isSome ∨ base.kind = "comment"
  | .ofClass _ _ => True

/-- Where the members of the declaration come from. -/
def body : Heir → Scope TypeTerm → MemberSource TypeTerm
  | .ofInterface interface _, scope => .interface interface.first.node interface.declarations scope
  | .ofClass node _, scope => .class node scope

/-- The property that an own member gives, read in some scope. -/
def Gives (heir : Heir) (tree : FileTree) (scope : Scope TypeTerm) (entry : String × Node)
    (property : Property TypeTerm) : Prop :=
  property.name = entry.1 ∧ ∃ journal after,
    match heir with
    | .ofInterface _ _ =>
      signatureProperty scope entry.2 tree journal = (.ok (some property), after)
    | .ofClass _ _ =>
      memberType scope entry.2 tree journal = (.ok (some property.type), after) ∧
        property.isOptional = entry.2.hasChild "?"

/-- A scope inside of the declaration, which is used with some type arguments. -/
def Opens (heir : Heir) (tree : FileTree) (scope : Scope TypeTerm) : Prop :=
  ∃ arguments journal after,
    scopeOf heir.node heir.source arguments tree journal = (.ok scope, after)

end Heir

/-- The interface or the class that declarations of one name declare. -/
def heirOf? (found : Found) : Option Heir :=
  match found.1.filter fun declaration => structureKinds.contains declaration.node.kind with
  | [] => none
  | first :: rest =>
    if isInterface : first.node.kind = "interface_declaration" then
      some (.ofInterface ⟨first,
        rest.filter fun other => other.node.kind == "interface_declaration",
        fun declaration member => by
          rcases List.mem_cons.mp member with rfl | later
          · exact isInterface
          · exact eq_of_beq (List.mem_filter.mp later).2⟩ found.2)
    else if first.node.kind = "type_alias_declaration" ∨ first.node.kind = "enum_declaration" then
      none
    else some (.ofClass first.node found.2)

/-- An interface or a class is declared by one of the declarations. -/
theorem mem_of_heirOf? {found : Found} {heir : Heir} (heirs : heirOf? found = some heir) :
    heir.source = found.2 ∧ ∃ declaration ∈ found.1, heir.node = declaration.node := by
  unfold heirOf? at heirs
  split at heirs
  · cases heirs
  · rename_i first rest structures
    have member : first ∈ found.1 := by
      have among : first ∈ first :: rest := List.mem_cons_self
      rw [← structures] at among
      exact (List.mem_filter.mp among).1
    split at heirs
    · cases heirs
      exact ⟨rfl, first, member, rfl⟩
    · split at heirs
      · cases heirs
      · cases heirs
        exact ⟨rfl, first, member, rfl⟩

/-! ## Bases -/

/-- A specifier of a module leads to another module that exports declarations under a name. -/
def Finds (tree : FileTree) (root : Path) (source : SourceModule) (specifier exported : String)
    (found : Found) : Prop :=
  ∃ target, Task.Settles tree (FromTree tree root) (load specifier source) (.ok (some target)) ∧
    Task.Settles tree (FromTree tree root) (findExport target exported) (.ok (some found))

/-- The declarations that a name of a module stands for: its own ones, or those behind an import. -/
inductive Resolves (tree : FileTree) (root : Path) (source : SourceModule) (name : String) :
    Found → Prop where
  | declared {declaration : Declaration} {rest : List Declaration}
      (plain : Text.cutLast? '.' name.toList = none)
      (known : source.lookupType name = declaration :: rest) :
      Resolves tree root source name (declaration :: rest, source)
  | imported {binding : Binding} {found : Found}
      (plain : Text.cutLast? '.' name.toList = none)
      (unknown : source.lookupType name = [])
      (bound : source.binding? name = some binding)
      (finds : Finds tree root source binding.specifier binding.imported found) :
      Resolves tree root source name found
  | qualified {nameSpace member : List Char} {binding : Binding} {found : Found}
      (cut : Text.cutLast? '.' name.toList = some (nameSpace, member))
      (bound : source.binding? (String.ofList nameSpace) = some binding)
      (whole : binding.imported = "*")
      (finds : Finds tree root source binding.specifier (String.ofList member) found) :
      Resolves tree root source name found

theorem Finds.unique {source : SourceModule} {specifier exported : String} {found other : Found}
    (finds : Finds tree root source specifier exported found)
    (others : Finds tree root source specifier exported other) :
    found = other := by
  obtain ⟨target, loads, exports⟩ := finds
  obtain ⟨another, loadsAgain, exportsAgain⟩ := others
  cases loads.unique loadsAgain fromTree_fresh
  cases exports.unique exportsAgain fromTree_fresh
  rfl

/-- A name stands for one list of declarations only. -/
theorem Resolves.unique {source : SourceModule} {name : String} {found other : Found}
    (resolves : Resolves tree root source name found)
    (others : Resolves tree root source name other) :
    found = other := by
  cases resolves with
  | declared plain known =>
    cases others with
    | declared _ again =>
      rw [known] at again
      rw [again]
    | imported _ unknown _ _ =>
      rw [known] at unknown
      cases unknown
    | qualified cut _ _ _ =>
      rw [plain] at cut
      cases cut
  | imported plain unknown bound finds =>
    cases others with
    | declared _ known =>
      rw [unknown] at known
      cases known
    | imported _ _ again othersFind =>
      rw [bound] at again
      cases again
      exact finds.unique othersFind
    | qualified cut _ _ _ =>
      rw [plain] at cut
      cases cut
  | qualified cut bound whole finds =>
    cases others with
    | declared plain _ =>
      rw [plain] at cut
      cases cut
    | imported plain _ _ _ =>
      rw [plain] at cut
      cases cut
    | qualified again boundAgain _ othersFind =>
      rw [cut] at again
      cases again
      rw [bound] at boundAgain
      cases boundAgain
      exact finds.unique othersFind

namespace Heir

/-- A use of a type in a heritage clause stands for a declaration.  A type parameter of the
declaration hides the types of that name, and so do the built-in array types. -/
structure Denotes (tree : FileTree) (root : Path) (heir : Heir) (use : Use) (base : Heir) :
    Prop where
  unbound : use.name ∉ (typeParameters heir.node).map parameterName
  notArray : arrayNames.contains use.name = true → use.arguments.length ≠ 1
  resolves : ∃ found, Resolves tree root heir.source use.name found ∧ heirOf? found = some base

theorem Denotes.unique {heir base other : Heir} {use : Use}
    (denotes : heir.Denotes tree root use base) (others : heir.Denotes tree root use other) :
    base = other := by
  obtain ⟨found, resolves, heirs⟩ := denotes.resolves
  obtain ⟨another, resolvesAgain, othersHeirs⟩ := others.resolves
  cases resolves.unique resolvesAgain
  rw [heirs] at othersHeirs
  exact Option.some.inj othersHeirs

/-- A declaration names another one as a base. -/
def Extends (tree : FileTree) (root : Path) (heir base : Heir) : Prop :=
  ∃ use ∈ heir.uses, heir.Denotes tree root use base

/-- A declaration is another one or reaches it from base to base. -/
def Reaches (tree : FileTree) (root : Path) : Heir → Heir → Prop :=
  Relation.ReflTransGen (Extends tree root)

/-- Every base that can be reached stands for a declaration, and keys tell declarations apart. -/
structure Founded (tree : FileTree) (root : Path) (heir : Heir) : Prop where
  namesBases : ∀ other, heir.Reaches tree root other → other.NamesBases
  denotes : ∀ other, heir.Reaches tree root other → ∀ use ∈ other.uses,
    ∃ base, other.Denotes tree root use base
  keyed : ∀ first second, heir.Reaches tree root first → heir.Reaches tree root second →
    first.key = second.key → first = second

/-- Declarations are founded whose bases are all among them. -/
theorem founded_of_mem {heirs : List Heir} {heir : Heir}
    (namesBases : ∀ heir ∈ heirs, heir.NamesBases)
    (denotes : ∀ heir ∈ heirs, ∀ use ∈ heir.uses, ∃ base ∈ heirs, heir.Denotes tree root use base)
    (keyed : (heirs.map key).Nodup) (member : heir ∈ heirs) :
    heir.Founded tree root := by
  have reached : ∀ other, heir.Reaches tree root other → other ∈ heirs := by
    intro other reaches
    induction reaches with
    | refl => exact member
    | tail _ step ih =>
      obtain ⟨use, useMember, isBase⟩ := step
      obtain ⟨base, baseMember, alsoBase⟩ := denotes _ ih use useMember
      rwa [isBase.unique alsoBase]
  refine ⟨fun other reaches => namesBases other (reached other reaches),
    fun other reaches use useMember => ?_, fun first second firstReaches secondReaches same => ?_⟩
  · obtain ⟨base, _, isBase⟩ := denotes other (reached other reaches) use useMember
    exact ⟨base, isBase⟩
  · exact List.inj_on_of_nodup_map keyed (reached first firstReaches) (reached second secondReaches)
      same

theorem Founded.base {heir base : Heir} (founded : heir.Founded tree root)
    (isBase : heir.Extends tree root base) :
    base.Founded tree root :=
  ⟨fun other reaches => founded.namesBases other (.head isBase reaches),
    fun other reaches => founded.denotes other (.head isBase reaches),
    fun first second reaches others =>
      founded.keyed first second (.head isBase reaches) (.head isBase others)⟩

end Heir

/-! ## Collected properties -/

mutual

/-- The properties that are collected for a declaration while others are being collected: none if
it is one of these, and otherwise what its own members give and then what is collected for its
bases. -/
inductive Collected (tree : FileTree) (root : Path) :
    List (Path × Nat) → Heir → List (Property TypeTerm) → Prop where
  | cut {expanding : List (Path × Nat)} {heir : Heir}
      (known : heir.key ∈ expanding) :
      Collected tree root expanding heir []
  | whole {expanding : List (Path × Nat)} {heir : Heir} {scope : Scope TypeTerm}
      {own : List (Property TypeTerm)} {collections : List (List (Property TypeTerm))}
      (fresh : heir.key ∉ expanding)
      (opens : heir.Opens tree scope)
      (given : Listwise (heir.Gives tree scope) (firsts heir.members) own)
      (inherited : CollectedEach tree root (heir.key :: expanding) heir heir.uses collections) :
      Collected tree root expanding heir (mergeProperties own collections.flatten)

/-- The properties that are collected for bases of a declaration. -/
inductive CollectedEach (tree : FileTree) (root : Path) :
    List (Path × Nat) → Heir → List Use → List (List (Property TypeTerm)) → Prop where
  | nil {expanding : List (Path × Nat)} {heir : Heir} :
      CollectedEach tree root expanding heir [] []
  | cons {expanding : List (Path × Nat)} {heir base : Heir} {use : Use} {uses : List Use}
      {properties : List (Property TypeTerm)} {collections : List (List (Property TypeTerm))}
      (denotes : heir.Denotes tree root use base)
      (collected : Collected tree root expanding base properties)
      (others : CollectedEach tree root expanding heir uses collections) :
      CollectedEach tree root expanding heir (use :: uses) (properties :: collections)

end

/-- Own properties have the names of the own members. -/
theorem names_of_given {heir : Heir} {scope : Scope TypeTerm} {entries : List (String × Node)}
    {own : List (Property TypeTerm)} (given : Listwise (heir.Gives tree scope) entries own) :
    own.map Property.name = entries.map Prod.fst := by
  induction given with
  | nil => rfl
  | cons head _ ih =>
    obtain ⟨named, _⟩ := head
    rw [List.map_cons, List.map_cons, named, ih]

/-- No name is collected twice. -/
theorem Collected.distinct
    {expanding : List (Path × Nat)} {heir : Heir} {properties : List (Property TypeTerm)}
    (collected : Collected tree root expanding heir properties) :
    (properties.map Property.name).Nodup := by
  cases collected with
  | cut _ => exact List.nodup_nil
  | whole _ _ given _ =>
    apply nodup_names_mergeProperties
    rw [names_of_given given]
    exact nodup_map_firsts _

mutual

/-- Every name that is collected belongs to a declaration that can be reached. -/
theorem Collected.reached
    {expanding : List (Path × Nat)} {heir : Heir} {properties : List (Property TypeTerm)}
    {name : String} :
    Collected tree root expanding heir properties → name ∈ properties.map Property.name →
      ∃ other, heir.Reaches tree root other ∧ name ∈ other.members.map Prod.fst
  | .cut _, member => absurd member List.not_mem_nil
  | .whole _ _ given inherited, member => by
    rcases mem_names_mergeProperties.mp member with own | more
    · rw [names_of_given given, mem_map_firsts] at own
      exact ⟨heir, .refl, own⟩
    · obtain ⟨base, ⟨use, useMember, denotes⟩, other, reaches, found⟩ := inherited.reached more
      exact ⟨other, .head ⟨use, useMember, denotes⟩ reaches, found⟩

/-- Each name that is inherited is declared by a type that a base reaches. -/
theorem CollectedEach.reached {expanding : List (Path × Nat)} {heir : Heir} {uses : List Use}
    {collections : List (List (Property TypeTerm))} {name : String} :
    CollectedEach tree root expanding heir uses collections →
      name ∈ collections.flatten.map Property.name →
      ∃ base, (∃ use ∈ uses, heir.Denotes tree root use base) ∧
        ∃ other, base.Reaches tree root other ∧ name ∈ other.members.map Prod.fst
  | .nil, member => absurd member List.not_mem_nil
  | .cons denotes collected others, member => by
    rw [List.flatten_cons, List.map_append, List.mem_append] at member
    rcases member with first | later
    · exact ⟨_, ⟨_, List.mem_cons_self, denotes⟩, collected.reached first⟩
    · obtain ⟨base, ⟨use, useMember, useDenotes⟩, found⟩ := others.reached later
      exact ⟨base, ⟨use, List.mem_cons_of_mem _ useMember, useDenotes⟩, found⟩

end

/-! ## Nothing is lost -/

namespace Heir

/-- A declaration reaches another one along bases none of which is being expanded. -/
def Avoids (tree : FileTree) (root : Path) (expanding : List (Path × Nat)) (heir other : Heir) :
    Prop :=
  heir.key ∉ expanding ∧
    Relation.ReflTransGen (fun heir base => heir.Extends tree root base ∧ base.key ∉ expanding) heir
      other

/-- What is reached, is the declaration itself or is reached from one of its bases without coming
back to the declaration. -/
theorem Avoids.eq_or_base {expanding : List (Path × Nat)} {heir other : Heir}
    (founded : heir.Founded tree root) (avoids : heir.Avoids tree root expanding other) :
    other = heir ∨ ∃ base, heir.Extends tree root base ∧
      base.Avoids tree root (heir.key :: expanding) other := by
  obtain ⟨_, way⟩ := avoids
  -- The induction is on the way from its end: a way that comes back to the declaration is dropped.
  induction way with
  | refl => exact .inl rfl
  | @tail between other before last ih =>
    obtain ⟨step, fresh⟩ := last
    have reaches : heir.Reaches tree root other :=
      (Relation.ReflTransGen.mono (fun _ _ each => each.1) _ _ before).tail step
    by_cases back : other.key = heir.key
    · exact .inl (founded.keyed other heir reaches .refl back)
    have avoided : other.key ∉ heir.key :: expanding := fun member =>
      (List.mem_cons.mp member).elim back fresh
    rcases ih with rfl | ⟨base, isBase, baseFresh, way⟩
    · exact .inr ⟨other, step, avoided, .refl⟩
    · exact .inr ⟨base, isBase, baseFresh, way.tail ⟨step, avoided⟩⟩

end Heir

mutual

/-- The names of all declarations are collected that can be reached without one that is being
expanded. -/
theorem Collected.complete
    {expanding : List (Path × Nat)} {heir other : Heir} {properties : List (Property TypeTerm)}
    {name : String} :
    Collected tree root expanding heir properties → heir.Founded tree root →
      heir.Avoids tree root expanding other → name ∈ other.members.map Prod.fst →
      name ∈ properties.map Property.name
  | .cut known, _, avoids, _ => absurd known avoids.1
  | .whole _ _ given inherited, founded, avoids, member => by
    rw [mem_names_mergeProperties, names_of_given given, mem_map_firsts]
    rcases avoids.eq_or_base founded with rfl | ⟨base, ⟨use, useMember, denotes⟩, further⟩
    · exact .inl member
    · exact .inr (inherited.complete useMember denotes (founded.base ⟨use, useMember, denotes⟩)
        further member)

/-- Each name that a base reaches on a way not taken before is inherited. -/
theorem CollectedEach.complete
    {expanding : List (Path × Nat)} {heir base other : Heir} {uses : List Use} {use : Use}
    {collections : List (List (Property TypeTerm))} {name : String} :
    CollectedEach tree root expanding heir uses collections → use ∈ uses →
      heir.Denotes tree root use base → base.Founded tree root →
      base.Avoids tree root expanding other → name ∈ other.members.map Prod.fst →
      name ∈ collections.flatten.map Property.name
  | .nil, useMember, _, _, _, _ => absurd useMember List.not_mem_nil
  | .cons headDenotes collected others, useMember, denotes, founded, avoids, member => by
    rw [List.flatten_cons, List.map_append, List.mem_append]
    rcases List.mem_cons.mp useMember with rfl | later
    · have same := denotes.unique headDenotes
      exact .inl (collected.complete (same ▸ founded) (same ▸ avoids) member)
    · exact .inr (others.complete later denotes founded avoids member)

end

/-- What a declaration has in all: the names of every declaration that it reaches, each once; first
what its own members give, in their order and with the type of the first member of each name, and
then every other name with the type of the first base whose collection has it. -/
structure Inherited (tree : FileTree) (root : Path) (heir : Heir)
    (properties : List (Property TypeTerm)) : Prop where
  distinct : (properties.map Property.name).Nodup
  complete : ∀ name, name ∈ properties.map Property.name ↔
    ∃ other, heir.Reaches tree root other ∧ name ∈ other.members.map Prod.fst
  ordered : ∃ scope own collections, heir.Opens tree scope ∧
    Listwise (heir.Gives tree scope) (firsts heir.members) own ∧
    CollectedEach tree root [heir.key] heir heir.uses collections ∧
    properties = mergeProperties own collections.flatten ∧ own <+: properties ∧
    ∀ name, name ∉ own.map Property.name →
      properties.find? (fun property => property.name == name) =
        collections.flatten.find? fun property => property.name == name

/-- What is collected for a declaration while nothing else is being collected. -/
theorem Collected.inherited {heir : Heir} {properties : List (Property TypeTerm)}
    (founded : heir.Founded tree root) (collected : Collected tree root [] heir properties) :
    Inherited tree root heir properties where
  distinct := collected.distinct
  complete name := by
    refine ⟨collected.reached, fun ⟨other, reaches, member⟩ => ?_⟩
    have avoids : heir.Avoids tree root [] other :=
      ⟨List.not_mem_nil, Relation.ReflTransGen.mono (fun _ _ step => ⟨step, List.not_mem_nil⟩) _ _
        reaches⟩
    exact collected.complete founded avoids member
  ordered := by
    cases collected with
    | cut known => exact absurd known List.not_mem_nil
    | @whole _ _ scope own collections _ opens given inherited =>
      exact ⟨scope, own, collections, opens, given, inherited, rfl,
        own_prefix_mergeProperties own _, fun _ => find?_mergeProperties⟩

end Types
end ModuleAtlas
