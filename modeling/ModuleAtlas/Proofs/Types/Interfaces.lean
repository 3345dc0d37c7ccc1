import ModuleAtlas.Proofs.Session.Worlds

/-!
# The members of an interface

An interface has the properties that its body writes, in their order, and after them those of its
bases whose names are not among its own.
-/

namespace ModuleAtlas
namespace Types

open Session

variable {tree : FileTree} {root : Path} {journal after : Journal Session} {scope : Scope TypeTerm}

/-! ## What is written -/

/-- The members that the body of a declaration writes. -/
def bodyNodes (node : Node) : List Node :=
  match node.child? "body" with
  | some body => body.namedChildren
  | none => []

/-- The bases that a declaration names. -/
def baseNodes (node : Node) : List Node :=
  (node.namedChildren.filter fun child => child.kind == "extends_type_clause").flatMap
    Node.namedChildren

/-- An interface: one or more declarations of one name. -/
structure Interface where
  first : Declaration
  rest : List Declaration
  areInterfaces : ∀ declaration ∈ first :: rest, declaration.node.kind = "interface_declaration"

namespace Interface

/-- The declarations in their order. -/
def declarations (interface : Interface) : List Declaration := interface.first :: interface.rest

/-- The members that are written. -/
def members (interface : Interface) : List Node :=
  interface.declarations.flatMap fun declaration => bodyNodes declaration.node

/-- The bases that are named. -/
def bases (interface : Interface) : List Node :=
  interface.declarations.flatMap fun declaration => baseNodes declaration.node

/-- What tells the interface from others while its members are collected. -/
def key (interface : Interface) (source : SourceModule) : Path × Nat :=
  (source.path, interface.first.node.start)

end Interface

/-- The name of the property that a member of the body gives, if it gives one. -/
def writtenName? (member : Node) : Option String :=
  match member.kind with
  | "property_signature" | "method_signature" => some (propertyName (member.child? "name"))
  | "index_signature" =>
    match member.child? "name", member.child? "index_type", member.child? "type" with
    | some name, some index, some _ => some ("[" ++ name.text ++ ": " ++ index.text ++ "]")
    | _, _, _ => none
  | _ => none

/-- The name of a property does not depend on the place of its member. -/
theorem writtenName?_eq {member copy : Node} (moved : Node.Moved member copy) :
    writtenName? member = writtenName? copy := by
  have names : propertyName (member.child? "name") = propertyName (copy.child? "name") := by
    rcases optionRel_cases (moved.child? "name") with
      ⟨none, noCopy⟩ | ⟨name, nameCopy, found, copied, nameMoved⟩
    · rw [none, noCopy]
    · rw [found, copied]
      unfold propertyName
      dsimp only
      rw [nameMoved.kind_eq, nameMoved.text_eq]
  unfold writtenName?
  rw [moved.kind_eq, names]
  rcases optionRel_cases (moved.child? "name") with
    ⟨none, noCopy⟩ | ⟨name, nameCopy, found, copied, nameMoved⟩
  · rw [none, noCopy]
  rw [found, copied]
  rcases optionRel_cases (moved.child? "index_type") with
    ⟨none, noCopy⟩ | ⟨index, indexCopy, found, copied, indexMoved⟩
  · rw [none, noCopy]
  rw [found, copied]
  rcases optionRel_cases (moved.child? "type") with
    ⟨none, noCopy⟩ | ⟨written, writtenCopy, found, copied, _⟩
  · rw [none, noCopy]
  rw [found, copied]
  dsimp only
  rw [nameMoved.text_eq, indexMoved.text_eq]

/-- The property that a member gives has the name that the member writes. -/
theorem returns_signatureProperty (scope : Scope TypeTerm) (member : Node) :
    Task.Returns (signatureProperty scope member)
      fun property => property.map Property.name = writtenName? member := by
  unfold signatureProperty
  split
  case h_1 kind =>
    have written : writtenName? member = some (propertyName (member.child? "name")) := by
      simp [writtenName?, kind]
    rw [written]
    dsimp only
    split
    · exact (Task.returns_any _).bind fun _ _ => Task.returns_pure rfl
    · exact Task.returns_pure rfl
  case h_2 kind =>
    have written : writtenName? member = some (propertyName (member.child? "name")) := by
      simp [writtenName?, kind]
    rw [written]
    exact (Task.returns_any _).bind fun _ _ => Task.returns_pure rfl
  case h_3 kind =>
    simp only [writtenName?, kind]
    cases member.child? "name" with
    | none => exact Task.returns_pure rfl
    | some name =>
      cases member.child? "index_type" with
      | none => exact Task.returns_pure rfl
      | some index =>
        cases member.child? "type" with
        | none => exact Task.returns_pure rfl
        | some written => exact (Task.returns_any _).bind fun _ _ => Task.returns_pure rfl
  case h_4 plain method index =>
    refine Task.returns_pure ?_
    unfold writtenName?
    split
    · exact absurd ‹_› plain
    · exact absurd ‹_› method
    · exact absurd ‹_› index
    · rfl

/-- The properties of a body have the names that its members write. -/
theorem returns_bodyMembers (scope : Scope TypeTerm) (members : List Node) :
    Task.Returns (bodyMembers scope members)
      fun found => found.properties.map Property.name = members.filterMap writtenName? := by
  induction members with
  | nil => exact Task.returns_pure rfl
  | cons member rest ih =>
    unfold bodyMembers
    split
    case isTrue call =>
      have unnamed : writtenName? member = none := by
        simp [writtenName?, beq_iff_eq.mp call]
      rw [List.filterMap_cons_none unnamed]
      refine (Task.returns_any _).bind fun _ _ => ?_
      exact ih.bind fun _ names => Task.returns_pure names
    case isFalse =>
      refine (returns_signatureProperty scope member).bind fun property named => ?_
      refine ih.bind fun more names => Task.returns_pure ?_
      rw [List.map_append, names, List.filterMap_cons, ← named]
      cases property <;> rfl

/-- A body is read one member after the other. -/
theorem bodyMembers_cons_returns {member : Node} {rest : List Node} {found : Members TypeTerm}
    (ran : bodyMembers scope (member :: rest) tree journal = (.ok found, after)) :
    ∃ first middle more, bodyMembers scope [member] tree journal = (.ok first, middle) ∧
      bodyMembers scope rest tree middle = (.ok more, after) ∧
      found.properties = first.properties ++ more.properties := by
  unfold bodyMembers at ran
  split at ran
  case isTrue call =>
    obtain ⟨signature, middle, ranCall, ranRest⟩ := Task.exists_of_bind_eq_ok ran
    obtain ⟨more, _, ranMore, answered⟩ := Task.exists_of_bind_eq_ok ranRest
    cases answered
    refine ⟨⟨[], [signature]⟩, middle, more, ?_, ranMore, rfl⟩
    rw [bodyMembers, if_pos call]
    exact Task.bind_of_ok ranCall
  case isFalse property =>
    obtain ⟨found, middle, ranProperty, ranRest⟩ := Task.exists_of_bind_eq_ok ran
    obtain ⟨more, _, ranMore, answered⟩ := Task.exists_of_bind_eq_ok ranRest
    cases answered
    refine ⟨⟨found.toList ++ [], []⟩, middle, more, ?_, ranMore, by rw [List.append_nil]⟩
    rw [bodyMembers, if_neg property]
    exact Task.bind_of_ok ranProperty

/-! ## Own and inherited properties -/

/-- The properties whose names are not among some names. -/
def notNamed (names : List String) (properties : List (Property TypeTerm)) :
    List (Property TypeTerm) :=
  properties.filter fun property => !names.contains property.name

theorem any_named_eq (properties : List (Property TypeTerm)) (name : String) :
    (properties.any fun property => property.name == name) =
      (properties.map Property.name).contains name := by
  rw [List.contains_eq_any_beq, List.any_map]
  congr 1
  funext property
  exact Bool.beq_comm

/-- Whether a name is among properties that are not named otherwise. -/
theorem any_notNamed_eq {names : List String} {name : String}
    (unnamed : names.contains name = false) (properties : List (Property TypeTerm)) :
    ((notNamed names properties).any fun property => property.name == name) =
      properties.any fun property => property.name == name := by
  unfold notNamed
  rw [List.any_filter]
  congr 1
  funext property
  by_cases same : property.name = name
  · rw [same, unnamed]
    rfl
  · simp [same]

theorem notNamed_concat
    (names : List String) (properties : List (Property TypeTerm)) (property : Property TypeTerm) :
    notNamed names (properties ++ [property]) =
      notNamed names properties ++ if names.contains property.name then [] else [property] := by
  unfold notNamed
  rw [List.filter_append, List.filter_cons, List.filter_nil]
  congr 1
  cases names.contains property.name <;> rfl

/-- Merging a property that is there already changes nothing; another comes last. -/
theorem mergeProperties_cons
    (found rest : List (Property TypeTerm)) (property : Property TypeTerm) :
    mergeProperties found (property :: rest) =
      mergeProperties
        (if (found.map Property.name).contains property.name then found else found ++ [property])
        rest := by
  rw [← any_named_eq]
  rfl

/-- Own properties hide those of bases. -/
theorem mergeProperties_own (own found more : List (Property TypeTerm)) :
    mergeProperties (own ++ notNamed (own.map Property.name) found) more =
      own ++ notNamed (own.map Property.name) (mergeProperties found more) := by
  induction more generalizing found with
  | nil => rfl
  | cons property rest ih =>
    rw [mergeProperties_cons, mergeProperties_cons, ← ih]
    congr 1
    rw [← any_named_eq, ← any_named_eq, List.any_append, any_named_eq own]
    by_cases hidden : (own.map Property.name).contains property.name
    · rw [hidden, Bool.true_or, if_pos rfl]
      split
      · rfl
      · rw [notNamed_concat, if_pos hidden, List.append_nil]
    · rw [Bool.not_eq_true] at hidden
      rw [hidden, Bool.false_or, any_notNamed_eq hidden]
      split
      · rfl
      · rw [notNamed_concat, hidden, if_neg Bool.false_ne_true, List.append_assoc]

/-- Properties with names of their own are merged behind those found before. -/
theorem mergeProperties_distinct {found own : List (Property TypeTerm)}
    (distinct : ((found ++ own).map Property.name).Nodup) :
    mergeProperties found own = found ++ own := by
  induction own generalizing found with
  | nil => exact (List.append_nil found).symm
  | cons property rest ih =>
    have unknown : (found.map Property.name).contains property.name = false := by
      rw [List.map_append, List.map_cons] at distinct
      have apart := (List.nodup_append.mp distinct).2.2
      rw [Bool.eq_false_iff]
      intro known
      exact apart _ (by simpa using known) _ (by simp) rfl
    rw [mergeProperties_cons, unknown, if_neg Bool.false_ne_true, ih]
    · simp
    · simpa using distinct

variable {bases : List TypeTerm} {between : Journal Session}

/-- What bases give stands after own properties that hide some of it. -/
theorem inherit_own_returns {find : TypeTerm → Task Session (List (Property TypeTerm))}
    {own found properties : List (Property TypeTerm)}
    (ran : inherit find (own ++ notNamed (own.map Property.name) found) bases tree journal =
      (.ok properties, after)) :
    ∃ inherited, inherit find found bases tree journal = (.ok inherited, after) ∧
      properties = own ++ notNamed (own.map Property.name) inherited := by
  induction bases generalizing found journal with
  | nil =>
    cases ran
    exact ⟨found, rfl, rfl⟩
  | cons base rest ih =>
    obtain ⟨more, middle, ranBase, ranRest⟩ := Task.exists_of_bind_eq_ok ran
    rw [mergeProperties_own] at ranRest
    obtain ⟨inherited, ranInherited, rfl⟩ := ih ranRest
    exact ⟨inherited, (Task.bind_of_ok ranBase).trans ranInherited, rfl⟩

/-! ## Collecting the properties of an interface -/

/-- What bases show, with some fuel for how deeply their own bases are nested. -/
def propertiesWithin (fuel : Nat) (base : TypeTerm) : Task Session (List (Property TypeTerm)) := do
  return (← membersWith fuel base).properties

/-- The properties that an interface has from its bases. -/
def inheritedProperties (fuel : Nat) (scope : Scope TypeTerm) (bases : List Node) :
    Task Session (List (Property TypeTerm)) := do
  inherit (propertiesWithin fuel) [] (← bases.mapM (typeOf scope))

/-- Of each declaration the members are read before the bases. -/
theorem interfaceParts_cons_returns {declaration : Declaration} {rest : List Declaration}
    {own : Members TypeTerm}
    (ran : interfaceParts scope (declaration :: rest) tree journal = (.ok (own, bases), after)) :
    ∃ members between here middle more others,
      bodyMembers scope (bodyNodes declaration.node) tree journal = (.ok members, between) ∧
      (baseNodes declaration.node).mapM (typeOf scope) tree between = (.ok here, middle) ∧
      interfaceParts scope rest tree middle = (.ok (more, others), after) ∧
      own.properties = members.properties ++ more.properties ∧ bases = here ++ others := by
  unfold interfaceParts at ran
  unfold bodyNodes baseNodes
  cases body : declaration.node.child? "body"
  all_goals
    rw [body] at ran
    obtain ⟨members, between, ranBody, goesOn⟩ := Task.exists_of_bind_eq_ok ran
    obtain ⟨here, middle, ranBases, ranRest⟩ := Task.exists_of_bind_eq_ok goesOn
    obtain ⟨⟨more, others⟩, _, ranMore, answered⟩ := Task.exists_of_bind_eq_ok ranRest
    cases answered
    exact ⟨members, between, here, middle, more, others, ranBody, ranBases, ranMore, rfl, rfl⟩

/-- The properties of declarations have the names that their members write. -/
theorem interfaceParts_names {declarations : List Declaration} {own : Members TypeTerm}
    (ran : interfaceParts scope declarations tree journal = (.ok (own, bases), after)) :
    own.properties.map Property.name =
      (declarations.flatMap fun declaration => bodyNodes declaration.node).filterMap
        writtenName? := by
  induction declarations generalizing journal own bases with
  | nil =>
    cases ran
    rfl
  | cons declaration rest ih =>
    obtain ⟨members, between, here, middle, more, others, ranBody, _, ranRest, same, _⟩ :=
      interfaceParts_cons_returns ran
    have names := returns_bodyMembers scope _ tree journal members between ranBody
    rw [same, List.map_append, names, ih ranRest, List.flatMap_cons, List.filterMap_append]

/-- What is known about a cell once its members have been collected. -/
def collected (cell : Nat) (members : Members TypeTerm) (journal : Journal Session) :
    Journal Session :=
  ⟨{ journal.state with cells := journal.state.cells.modify cell fun known =>
    { known with members := some members } }, journal.notices⟩

theorem touches_collected {links : Links} {cell other : Nat} (linked : links.cells cell other)
    (members : Members TypeTerm) (journal : Journal Session) :
    Touches links links journal.state (collected cell members journal).state := by
  have kept : Keeps links.cells links.cells journal.state.cells
      (journal.state.cells.modify cell fun known => { known with members := some members }) :=
    .modify linked
  exact ⟨.refl _, rfl, kept, .refl _ _⟩

section Collecting

variable {interface : Interface} {cell fuel : Nat} {code : String} {name : Option String}

/-- An interface with distinct names shows what it writes and then what its bases give. -/
theorem collectMembers_interface_returns {members : Members TypeTerm}
    (distinct : (interface.members.filterMap writtenName?).Nodup)
    (idle : journal.state.expanding = [])
    (ran : collectMembers (propertiesWithin fuel)
      (.interface interface.first.node interface.declarations scope) tree journal =
        (.ok members, after)) :
    ∃ own bases middle inherited between,
      interfaceParts scope interface.declarations tree
        (entering (interface.key scope.source) journal) = (.ok (own, bases), middle) ∧
      inherit (propertiesWithin fuel) [] bases tree middle = (.ok inherited, between) ∧
      members.properties = own.properties ++ notNamed (own.properties.map Property.name) inherited ∧
      after = leaving (interface.key scope.source) between := by
  obtain ⟨last, ranCollect, rfl⟩ := once_returns (by simp [idle]) ran
  obtain ⟨⟨own, bases⟩, middle, ranParts, ranInherit⟩ := Task.exists_of_bind_eq_ok ranCollect
  obtain ⟨properties, between, ranProperties, finished⟩ := Task.exists_of_bind_eq_ok ranInherit
  have names := interfaceParts_names ranParts
  have merged : mergeProperties [] own.properties =
      own.properties ++ notNamed (own.properties.map Property.name) [] := by
    have ownDistinct : (([] ++ own.properties).map Property.name).Nodup := by
      rw [List.nil_append, names]
      exact distinct
    rw [mergeProperties_distinct ownDistinct]
    simp [notNamed]
  rw [merged] at ranProperties
  obtain ⟨inherited, ranInherited, rfl⟩ := inherit_own_returns ranProperties
  cases finished
  exact ⟨own, bases, middle, inherited, last, ranParts, ranInherited, rfl, rfl⟩

/-- The properties of an interface that has not been looked into yet. -/
theorem propertiesOf_interface_returns {properties : List (Property TypeTerm)}
    (distinct : (interface.members.filterMap writtenName?).Nodup)
    (fromTree : FromTree tree root journal.state) (idle : journal.state.expanding = [])
    (unknown : (journal.state.cells.getD cell ⟨none, none, none⟩).members = none)
    (ran : propertiesOf (.object cell code name
      (.interface interface.first.node interface.declarations scope)) tree journal =
        (.ok properties, after)) :
    ∃ own bases middle inherited between members,
      interfaceParts scope interface.declarations tree
        (entering (interface.key scope.source) journal) = (.ok (own, bases), middle) ∧
      inherit (propertiesWithin (walkBound tree)) [] bases tree middle = (.ok inherited, between) ∧
      properties = own.properties ++ notNamed (own.properties.map Property.name) inherited ∧
      after = collected cell members (leaving (interface.key scope.source) between) := by
  obtain ⟨members, _, ranMembers, answered⟩ := Task.exists_of_bind_eq_ok ran
  cases answered
  obtain ⟨bound, _, ranBound, ranWith⟩ := Task.exists_of_bind_eq_ok ranMembers
  rw [fromTree.sizeBound_eq] at ranBound
  cases ranBound
  obtain ⟨target, _, ranStructure, ranTarget⟩ := Task.exists_of_bind_eq_ok ranWith
  rw [structureOf, structureFrom_eq_pure (by simp [TypeTerm.kind])] at ranStructure
  cases ranStructure
  obtain ⟨known, _, ranCell, ranKnown⟩ := Task.exists_of_bind_eq_ok ranTarget
  cases ranCell
  rw [unknown] at ranKnown
  obtain ⟨found, last, ranCollect, ranKeep⟩ := Task.exists_of_bind_eq_ok ranKnown
  cases ranKeep
  obtain ⟨own, bases, middle, inherited, between, ranParts, ranInherited, sameProperties, rfl⟩ :=
    collectMembers_interface_returns distinct idle ranCollect
  exact ⟨own, bases, middle, inherited, between, members, ranParts, ranInherited, sameProperties,
    rfl⟩

end Collecting

theorem notNamed_related {links : Links} {properties others : List (Property TypeTerm)}
    (related : Listwise (AlikeProperty .same links) properties others) (names : List String) :
    Listwise (AlikeProperty .same links) (notNamed names properties) (notNamed names others) := by
  unfold notNamed
  induction related with
  | nil => exact .nil
  | cons head _ ih =>
    obtain ⟨alike, fixed⟩ := head
    rw [List.filter_cons, List.filter_cons]
    dsimp only
    split
    · exact .cons ⟨alike, fixed⟩ ih
    · exact ih

theorem findsAlike_propertiesWithin (links : Links) (fuel : Nat) :
    FindsAlike (.same tree root) links (propertiesWithin fuel) (propertiesWithin fuel) :=
  fun _ _ _ _ alike => followed_properties
    (followed_membersWith (Edition.faithful_same tree root) alike fuel)

/-! ## Declared interfaces -/

theorem returns_scopeOf (node : Node) (source : SourceModule) (arguments : List TypeTerm) :
    Task.Returns (scopeOf node source arguments) fun scope => scope.source = source :=
  (Task.returns_any _).bind fun _ _ => (Task.returns_any _).bind fun _ _ =>
    (Task.returns_any _).bind fun _ _ => Task.returns_pure rfl

/-- Binding type parameters without arguments needs nothing that a session holds. -/
theorem scopeOf_leaves {node : Node} {source : SourceModule}
    (fromTree : FromTree tree root journal.state)
    (inside : scopeOf node source [] tree journal = (.ok scope, between)) :
    FromTree tree root between.state ∧ between.state.expanding = journal.state.expanding := by
  have sources : Sources (.same tree root) source source := source.revised_same _
  obtain ⟨_, _, _, _, touches, matched, _⟩ :=
    (followed_scopeOf sources (.refl (fun _ => trivial) node) .nil).answers
      (matches_alone fromTree) inside
  exact ⟨matched.fromTree, touches.expanding⟩

/-- A session with a new cell. -/
def allocated (journal : Journal Session) : Journal Session :=
  ⟨{ journal.state with cells := journal.state.cells.push ⟨none, none, none⟩ }, journal.notices⟩

/-- The type of an interface, in the scope of its first declaration. -/
theorem declared_interface {interface : Interface} {source : SourceModule}
    {arguments : List TypeTerm}
    (inside : scopeOf interface.first.node source arguments tree journal = (.ok scope, between))
    (name : String) :
    declared interface.declarations source arguments name tree journal =
      (.ok (.object between.state.cells.size name (some name)
        (.interface interface.first.node interface.declarations scope)), allocated between) := by
  obtain ⟨first, rest, areInterfaces⟩ := interface
  have structures : (first :: rest).filter (fun declaration =>
      structureKinds.contains declaration.node.kind) = first :: rest :=
    List.filter_eq_self.mpr fun declaration member => by
      simp [areInterfaces declaration member, structureKinds, Declaration.typeKinds]
  have interfaces : (first :: rest).filter (fun declaration =>
      declaration.node.kind == "interface_declaration") = first :: rest :=
    List.filter_eq_self.mpr fun declaration member => by
      rw [areInterfaces declaration member]
      rfl
  have isInterface : first.node.kind = "interface_declaration" := areInterfaces first (by simp)
  unfold declared Interface.declarations
  rw [structures]
  dsimp only
  refine (Task.bind_of_ok inside).trans ?_
  simp only [isInterface, interfaces]
  rfl

/-! ## Worlds of an interface -/

/-- The link of a cell to itself. -/
def cellLink (cell : Nat) : Links :=
  ⟨fun first second => first = cell ∧ second = cell, fun _ _ => False⟩

theorem matches_cellLink {cell : Nat} {session : Session} (fromTree : FromTree tree root session)
    (known : session.cells[cell]? = some ⟨none, none, none⟩) :
    Matches (.same tree root) (cellLink cell) session session := by
  refine ⟨fromTree, fromTree, (Edition.map_moved_same _).symm, ?_, fun _ _ => False.elim, ?_,
    fun _ _ _ _ => False.elim⟩
  · rintro _ _ ⟨rfl, rfl⟩
    exact ⟨_, _, known, known, .none, .none, fun _ _ => rfl⟩
  · rintro _ _ _ _ ⟨rfl, rfl⟩ ⟨rfl, rfl⟩
    exact Iff.rfl

/-- Where an interface begins to be collected there are two worlds: one for its bases, of which
nothing has been read yet, and one for its own cell. -/
theorem worlds_entering {cell : Nat} (fromTree : FromTree tree root journal.state)
    (betweenFromTree : FromTree tree root between.state)
    (expanding : journal.state.expanding = between.state.expanding)
    (fresh : journal.state.cells[cell]? = some ⟨none, none, none⟩) (key : Path × Nat) :
    Worlds tree root (entering key journal).state
      [⟨.empty, [], [], entering key between⟩, ⟨cellLink cell, [], [], entering key journal⟩] := by
  have entered : FromTree tree root (entering key journal).state := fromTree.of_eq rfl rfl
  refine ⟨entered, fun world member => ?_, fun world member => ?_,
    List.pairwise_pair.mpr (Links.apart_empty _).symm⟩
  · simp only [List.mem_cons, List.not_mem_nil, or_false] at member
    rcases member with rfl | rfl
    · refine matches_empty entered (betweenFromTree.of_eq rfl rfl) ?_
      rw [Edition.map_moved_same]
      exact congrArg (key :: ·) expanding.symm
    · exact matches_cellLink entered fresh
  · simp only [List.mem_cons, List.not_mem_nil, or_false] at member
    rcases member with rfl | rfl <;> exact .nil

end Types

namespace Worlds

open ModuleAtlas.Types Session

variable {tree : FileTree} {root : Path}

/-- Members of a body are read into worlds of their own. -/
theorem readBody
    {scope : Scope TypeTerm} {journal start middle : Journal Session} {nodes : List Node}
    {worlds : List World} {found : Members TypeTerm}
    (standing : Worlds tree root journal.state worlds) (plain : Plain scope)
    (fromTree : FromTree tree root start.state)
    (expanding : journal.state.expanding = start.state.expanding)
    (ran : bodyMembers scope nodes tree journal = (.ok found, middle)) :
    ∃ parts : List World, found.properties = parts.flatMap World.properties ∧
      Listwise (fun node part => ∃ own, bodyMembers scope [node] tree start = (.ok own, part.twin) ∧
        own.properties = part.others) nodes parts ∧
      Worlds tree root middle.state (worlds ++ parts) ∧
      middle.state.expanding = start.state.expanding := by
  induction nodes generalizing journal worlds found with
  | nil =>
    cases ran
    exact ⟨[], rfl, .nil, by rwa [List.append_nil], expanding⟩
  | cons node rest ih =>
    obtain ⟨first, between, more, ranNode, ranRest, sameProperties⟩ :=
      bodyMembers_cons_returns ran
    have closed : Followed (.same tree root) .empty
        (fun links => Listwise (AlikeProperty .same links))
        (do return (← bodyMembers scope [node]).properties)
        (do return (← bodyMembers scope [node]).properties) :=
      followed_properties (followed_bodyMembers plain (.cons (.refl (fun _ => trivial) node) .nil))
    obtain ⟨links, others, twin, twinRan, further, furtherExpanding⟩ :=
      standing.read closed fromTree expanding (Task.bind_of_ok ranNode)
    obtain ⟨own, _, ranOwn, answered⟩ := Task.exists_of_bind_eq_ok twinRan
    cases answered
    obtain ⟨parts, restProperties, restParts, last, lastExpanding⟩ :=
      ih further furtherExpanding ranRest
    refine ⟨⟨links, first.properties, own.properties, twin⟩ :: parts, ?_,
      .cons ⟨own, ranOwn, rfl⟩ restParts, ?_, lastExpanding⟩
    · rw [sameProperties, restProperties, List.flatMap_cons]
    · simpa using last

/-- Declarations are read into a world for each member and one for all bases. -/
theorem readParts
    {scope : Scope TypeTerm} {journal start middle twin : Journal Session} {links : Links}
    {declarations : List Declaration} {worlds : List World} {own : Members TypeTerm}
    {bases : List TypeTerm}
    (standing : Worlds tree root journal.state (⟨links, [], [], twin⟩ :: worlds))
    (plain : Plain scope) (fromTree : FromTree tree root start.state)
    (expanding : journal.state.expanding = start.state.expanding)
    (ran : interfaceParts scope declarations tree journal = (.ok (own, bases), middle)) :
    ∃ more others twinAfter parts, links.Below more ∧
      (declarations.flatMap fun declaration => baseNodes declaration.node).mapM (typeOf scope) tree
        twin = (.ok others, twinAfter) ∧
      Listwise (Alike .same more) bases others ∧
      own.properties = parts.flatMap World.properties ∧
      Listwise (fun node part => ∃ own, bodyMembers scope [node] tree start = (.ok own, part.twin) ∧
        own.properties = part.others)
        (declarations.flatMap fun declaration => bodyNodes declaration.node) parts ∧
      Worlds tree root middle.state (⟨more, [], [], twinAfter⟩ :: (worlds ++ parts)) ∧
      middle.state.expanding = start.state.expanding := by
  induction declarations generalizing journal twin links worlds own bases with
  | nil =>
    cases ran
    exact ⟨links, [], twin, [], .refl links, rfl, .nil, rfl, .nil, by rwa [List.append_nil],
      expanding⟩
  | cons declaration rest ih =>
    obtain ⟨members, between, here, later, moreOwn, moreBases, ranBody, ranBases, ranRest,
      sameProperties, rfl⟩ := interfaceParts_cons_returns ran
    obtain ⟨first, firstProperties, firstParts, afterBody, bodyExpanding⟩ :=
      standing.readBody plain fromTree expanding ranBody
    have reads : Followed (.same tree root) links (fun links => Listwise (Alike .same links))
        ((baseNodes declaration.node).mapM (typeOf scope))
        ((baseNodes declaration.node).mapM (typeOf scope)) := by
      refine followed_mapM persists_alike (.refl fun node _ => (Node.Moved.refl node).copiedType) ?_
      intro more _ node copy written
      have here : AlikeScope (Edition.same tree root).revision more scope scope :=
        scope_mono (Links.empty_below more) plain
      exact followed_typeOf here written
    obtain ⟨advanced, others, twinBetween, ranOthers, below, basesRelated, afterBases,
      basesExpanding⟩ := afterBody.advance reads ranBases
    obtain ⟨most, moreOthers, twinAfter, parts, further, ranMore, moreRelated, restProperties,
      restParts, last, lastExpanding⟩ := ih afterBases (basesExpanding.trans bodyExpanding) ranRest
    refine ⟨most, others ++ moreOthers, twinAfter, first ++ parts, below.trans further, ?_,
      (alikes_mono further basesRelated).append moreRelated, ?_, ?_, ?_, lastExpanding⟩
    · rw [List.flatMap_cons, List.mapM_append]
      exact (Task.bind_of_ok ranOthers).trans (Task.bind_of_ok ranMore)
    · rw [sameProperties, firstProperties, restProperties, List.flatMap_append]
    · rw [List.flatMap_cons]
      exact firstParts.append restParts
    · simpa using last

end Worlds
end ModuleAtlas
