import ModuleAtlas.Proofs.Shape.Twins
import ModuleAtlas.Proofs.Types.Interfaces

/-!
# Siblings

The members of an interface are read and shown one after the other in a common session, and what is
found out about one stays in the cells of its type.  As long as the values of type parameters have
no cells, no two members reach the same cell; then each member is shown as if it were the only one,
and its place among the others does not matter.  The value of a type parameter with a cell is
reached by all members that use the parameter, and then the order does matter.
-/

namespace ModuleAtlas

open ModuleAtlas.Types Session

/-- Properties as they are shown. -/
def labelled (properties : List (Property TypeTerm)) : List (String × TypeTerm) :=
  properties.map fun property => (Simplifier.propertyLabel property, property.type)

variable {tree : FileTree} {root : Path}

/-! ## Showing worlds -/

/-- The entries that a run answers. -/
def answeredEntries (outcome : Except Failure (List (String × Shape) × Nat) × Journal Session) :
    List (String × Shape) :=
  match outcome with
  | (.ok (entries, _), _) => entries
  | (.error _, _) => []

/-- The entries that a world shows. -/
def World.entries (tree : FileTree) (simplify : TypeTerm → Expansion Shape) (expansions : Nat)
    (world : World) : List (String × Shape) :=
  answeredEntries (Simplifier.eachNamed simplify (labelled world.others) expansions tree world.twin)

namespace Worlds

open Expansion Simplifier

/-- What is shown of all worlds in a common session is what each of them shows by itself. -/
theorem shown {simplify : TypeTerm → Expansion Shape} {worlds : List World}
    {before left expansions : Nat} {journal after : Journal Session}
    {entries : List (String × Shape)} (shrinks : ∀ type, Shrinks (simplify type))
    (shows : ∀ links, ShowAlike (.same tree root) links simplify simplify)
    (standing : Worlds tree root journal.state worlds) (available : before ≤ expansions)
    (remains : 0 < left)
    (ran : eachNamed simplify (worlds.flatMap fun world => labelled world.properties) before tree
      journal = (.ok (entries, left), after)) :
    entries = worlds.flatMap (World.entries tree simplify expansions) ∧
      ∀ world ∈ worlds, ∃ left twinAfter, 0 < left ∧
        eachNamed simplify (labelled world.others) expansions tree world.twin =
          (.ok (world.entries tree simplify expansions, left), twinAfter) := by
  induction worlds generalizing before journal entries with
  | nil =>
    cases ran
    exact ⟨rfl, fun _ member => absurd member (List.not_mem_nil)⟩
  | cons world rest ih =>
    rw [List.flatMap_cons] at ran
    obtain ⟨here, between, middle, later, ranHere, ranLater, rfl⟩ := eachNamed_append ran
    have shrunk : between ≤ before :=
      shrinks_eachNamed shrinks _ tree journal before here between middle ranHere
    have stillRemains : 0 < between :=
      Nat.lt_of_lt_of_le remains
        (shrinks_eachNamed shrinks _ tree middle between later left after ranLater)
    have properties : Listwise (AlikeProperty (Edition.same tree root).revision world.links)
        world.properties world.others := standing.alike world (by simp)
    have alike := labelled_related properties
    obtain ⟨more, answer, twinAfter, otherRan, touches, matched, spelled⟩ :=
      (followed_eachNamed shrinks (shows world.links) alike).answers before (expansions - before)
        between journal world.twin here middle (standing.matched world (by simp))
        (.inr stillRemains) ranHere
    rw [Nat.add_sub_cancel' available, ← Shape.eq_of_named spelled] at otherRan
    have answered : world.entries tree simplify expansions = here := by
      unfold World.entries labelled
      rw [otherRan]
      rfl
    obtain ⟨laterShown, each⟩ := ih (standing.touched touches matched.fromTree)
      (Nat.le_trans shrunk available) ranLater
    refine ⟨?_, fun other member => ?_⟩
    · rw [List.flatMap_cons, answered, laterShown]
    · rcases List.mem_cons.mp member with rfl | member
      · rw [answered]
        exact ⟨_, twinAfter, Nat.lt_of_lt_of_le stillRemains (Nat.le_add_right _ _), otherRan⟩
      · exact each other member

end Worlds

namespace Simplifier

open Expansion

variable {simplifier : Simplifier} {levels expansions left : Nat} {visited : List String}
  {journal after : Journal Session}

/-! ## Shapes of objects -/

section Objects

variable {cell : Nat} {code name : String} {source : MemberSource TypeTerm}
  {entries : List (String × Shape)} {more : Bool}

/-- The name of a declared object type is known. -/
theorem symbolOf_object_returns {found : Option String}
    (ran : symbolOf (.object cell code (some name) source) tree journal = (.ok found, after)) :
    after = journal := by
  obtain ⟨own, middle, ranOwn, ranRest⟩ := Task.exists_of_bind_eq_ok ran
  cases ranOwn
  dsimp only at ranRest
  cases kept : (some name).filter fun name => !name.isEmpty
  all_goals
    rw [kept] at ranRest
    cases ranRest
    rfl

/-- A declared object type that is shown as an object shows its first properties. -/
theorem objectShape_returns {simplify : TypeTerm → Expansion Shape}
    (ran : simplifier.objectShape levels simplify (.object cell code (some name) source)
      (.object cell code (some name) source) expansions tree journal =
        (.ok (.object entries more, left), after)) :
    ∃ properties middle,
      propertiesOf (.object cell code (some name) source) tree journal = (.ok properties, middle) ∧
      eachNamed simplify (labelled (firstOf simplifier.settings.maxProperties properties))
        expansions tree middle = (.ok (entries, left), after) := by
  obtain ⟨properties, between, middle, ranProperties, ranShape⟩ := bind_returns ran
  obtain ⟨rfl, listed⟩ := lift_returns ranProperties
  refine ⟨properties, middle, listed, ?_⟩
  cases properties with
  | nil =>
    cases ranShape
    simp [firstOf, labelled, eachNamed]
    rfl
  | cons first rest =>
    obtain ⟨found, _, last, ranSymbol, ranEntries⟩ := bind_returns ranShape
    obtain ⟨rfl, named⟩ := lift_returns ranSymbol
    cases symbolOf_object_returns named
    dsimp only at ranEntries
    by_cases collapsed : (!((found.filter fun name => !name.isEmpty).getD "").isEmpty &&
      simplifier.isCollapsed levels (first :: rest).length) = true
    · rw [if_pos collapsed] at ranEntries
      cases ranEntries
    · rw [if_neg collapsed] at ranEntries
      obtain ⟨shown, _, _, ranShown, answered⟩ := bind_returns ranEntries
      cases answered
      exact ranShown

/-- A declared object type is shown as an object when one of the expansions left is taken for it. -/
theorem shapeAt_object_returns
    (ran : simplifier.shapeAt (levels + 1) visited (.object cell code (some name) source)
      (expansions + 1) tree journal = (.ok (.object entries more, left), after)) :
    ∃ properties middle,
      propertiesOf (.object cell code (some name) source) tree journal = (.ok properties, middle) ∧
      eachNamed (simplifier.shapeAt levels (Text.collapse code :: visited))
        (labelled (firstOf simplifier.settings.maxProperties properties)) expansions tree middle =
          (.ok (entries, left), after) := by
  have text : (TypeTerm.object cell code (some name) source).text = Text.collapse code := by
    rw [TypeTerm.text]
  unfold shapeAt at ran
  rw [text] at ran
  dsimp only at ran
  by_cases nested : (decide (0 < simplifier.depth (levels + 1)) &&
    visited.contains (Text.collapse code)) = true
  · rw [if_pos nested] at ran
    obtain ⟨_, _, impossible⟩ :=
      simplifier.relates_nameOf _ _ tree journal _ _ left after ran
    cases impossible
  rw [if_neg nested] at ran
  by_cases primitive : (primitiveNames.contains (Text.collapse code) ||
    builtinNames.contains (Text.collapse code)) = true
  · rw [if_pos primitive] at ran
    cases ran
  rw [if_neg primitive] at ran
  by_cases literal : Shape.isLiteralText (Text.collapse code) = true
  · rw [if_pos literal] at ran
    cases ran
  rw [if_neg literal] at ran
  obtain ⟨granted, _, _, spent, ranExpand⟩ := bind_returns ran
  cases spent
  obtain ⟨target, between, middle, ranStructure, ranShape⟩ := bind_returns ranExpand
  obtain ⟨rfl, structured⟩ := lift_returns ranStructure
  rw [structureOf, structureFrom_eq_pure (by simp [TypeTerm.kind])] at structured
  cases structured
  exact objectShape_returns ranShape

end Objects

theorem firstOf_append {limit : Int} {own more : List α} (fits : (own.length : Int) ≤ limit) :
    firstOf limit (own ++ more) = own ++ more.take (limit.toNat - own.length) := by
  unfold firstOf
  rw [if_neg (by omega), List.take_append, List.take_of_length_le (by omega)]

/-! ## Interfaces -/

/-- The shape of an interface that is used without arguments. -/
def interfaceShape (simplifier : Simplifier) (levels : Nat) (visited : List String)
    (interface : Interface) (source : SourceModule) (name : String) : Expansion Shape := do
  simplifier.shapeAt levels visited (← declared interface.declarations source [] name)

/-- The entries of a member of an interface that is read and shown by itself. -/
def memberEntries (simplifier : Simplifier) (levels : Nat) (visited : List String)
    (interface : Interface) (source : SourceModule) (member : Node) :
    Expansion (List (String × Shape)) := do
  let scope ← scopeOf interface.first.node source []
  let own ← once (interface.key source) (bodyMembers scope [member])
  eachNamed (simplifier.shapeAt levels visited) (labelled own.properties)

/-- The entries of the properties that an interface has from its bases, read and shown by
themselves: those with other names than its own, as far as there is room for them. -/
def inheritedEntries (simplifier : Simplifier) (levels : Nat) (visited : List String)
    (interface : Interface) (source : SourceModule) : Expansion (List (String × Shape)) := do
  let scope ← scopeOf interface.first.node source []
  let bound ← sizeBound
  let found ← once (interface.key source) do
    return ⟨← inheritedProperties bound scope interface.bases, []⟩
  let names := interface.members.filterMap writtenName?
  let room := simplifier.settings.maxProperties.toNat - names.length
  eachNamed (simplifier.shapeAt levels visited)
    (labelled ((notNamed names found.properties).take room))

section Interfaces

variable {interface : Interface} {source : SourceModule} {scope : Scope TypeTerm} {name : String}
  {between : Journal Session}

/-- The properties of an interface that are shown come from worlds that are apart: one for each
member that is written, and one for the bases. -/
theorem interface_worlds {cell : Nat} {properties : List (Property TypeTerm)} {limit : Int}
    (fromTree : FromTree tree root journal.state)
    (betweenFromTree : FromTree tree root between.state) (idle : journal.state.expanding = [])
    (betweenIdle : between.state.expanding = []) (plain : Plain scope)
    (fresh : journal.state.cells[cell]? = some ⟨none, none, none⟩)
    (distinct : (interface.members.filterMap writtenName?).Nodup)
    (fits : (interface.members.length : Int) ≤ limit)
    (ran : propertiesOf (.object cell name (some name)
      (.interface interface.first.node interface.declarations scope)) tree journal =
        (.ok properties, after)) :
    ∃ parts last found, firstOf limit properties = (parts ++ [last]).flatMap World.properties ∧
      Listwise (fun member part => ∃ own,
        once (interface.key scope.source) (bodyMembers scope [member]) tree between =
          (.ok own, part.twin) ∧ own.properties = part.others) interface.members parts ∧
      once (interface.key scope.source) (do
        return ⟨← inheritedProperties (walkBound tree) scope interface.bases, []⟩) tree between =
          (.ok ⟨found, []⟩, last.twin) ∧
      last.others = (notNamed (interface.members.filterMap writtenName?) found).take
        (limit.toNat - (interface.members.filterMap writtenName?).length) ∧
      Worlds tree root after.state (parts ++ [last]) := by
  obtain ⟨own, bases, middle, inherited, collecting, members, ranParts, ranInherited, rfl, rfl⟩ :=
    propertiesOf_interface_returns distinct fromTree idle
      (by rw [Array.getD_eq_getD_getElem?, fresh]; rfl) ran
  have named : own.properties.map Property.name = interface.members.filterMap writtenName? :=
    interfaceParts_names ranParts
  have ownFits : (own.properties.length : Int) ≤ limit := by
    have written := List.length_filterMap_le writtenName? interface.members
    rw [← named, List.length_map] at written
    omega
  rw [← named, List.length_map]
  generalize own.properties.map Property.name = names
  generalize interface.key scope.source = key at *
  have expanding := idle.trans betweenIdle.symm
  have entered : FromTree tree root (entering key between).state := betweenFromTree.of_eq rfl rfl
  have together : (entering key journal).state.expanding =
      (entering key between).state.expanding := congrArg (key :: ·) expanding
  have unlocked : between.state.expanding.contains key = false := by simp [betweenIdle]
  obtain ⟨links, others, twin, parts, _, ranBases, basesRelated, ownProperties, ownParts, standing,
    _⟩ := (worlds_entering fromTree betweenFromTree expanding fresh key).readParts plain entered
      together ranParts
  obtain ⟨more, found, twinAfter, ranFound, _, alike, collected, _⟩ :=
    standing.advance (followed_inherit (findsAlike_propertiesWithin links _) basesRelated .nil)
      ranInherited
  have ranAll : inheritedProperties (walkBound tree) scope interface.bases tree
      (entering key between) = (.ok found, twinAfter) := (Task.bind_of_ok ranBases).trans ranFound
  have shown := ((collected.showing ((notNamed_related alike names).take
    (limit.toNat - own.properties.length))).rotate).leave key
  have isLinked : (cellLink cell).cells cell cell := ⟨rfl, rfl⟩
  have touches := touches_collected isLinked members (leaving key collecting)
  have ownLeft : Listwise (fun member part => ∃ own, once key (bodyMembers scope [member]) tree
      between = (.ok own, part.twin) ∧ own.properties = part.others) interface.members
      (parts.map (World.leave key)) :=
    ownParts.map_right fun _ _ ⟨own, ranOwn, same⟩ => ⟨own, once_of_returns unlocked ranOwn, same⟩
  refine ⟨parts.map (World.leave key), World.leave key ⟨more,
    (notNamed names inherited).take (limit.toNat - own.properties.length),
    (notNamed names found).take (limit.toNat - own.properties.length), twinAfter⟩, found, ?_,
    ownLeft, once_of_returns unlocked (Task.bind_of_ok ranAll), rfl, ?_⟩
  · rw [firstOf_append ownFits, ownProperties]
    simp [List.flatMap_map, World.leave]
  · simpa using shown.touched touches (shown.fromTree.of_eq rfl rfl)

/-- The entries of an interface are those that its members have by themselves, and then those that
its bases have by themselves. -/
theorem interface_entries {entries : List (String × Shape)} {more : Bool}
    (fromTree : FromTree tree root journal.state) (idle : journal.state.expanding = [])
    (inside : scopeOf interface.first.node source [] tree journal = (.ok scope, between))
    (plain : Plain scope) (distinct : (interface.members.filterMap writtenName?).Nodup)
    (fits : (interface.members.length : Int) ≤ simplifier.settings.maxProperties)
    (ran : simplifier.interfaceShape (levels + 1) visited interface source name (expansions + 1)
      tree journal = (.ok (.object entries more, left), after))
    (remains : 0 < left) :
    ∃ shown inherited,
      Listwise (fun member entries => ∃ left after, 0 < left ∧
        simplifier.memberEntries levels (Text.collapse name :: visited) interface source member
          expansions tree journal = (.ok (entries, left), after)) interface.members shown ∧
      (∃ left after, 0 < left ∧
        simplifier.inheritedEntries levels (Text.collapse name :: visited) interface source
          expansions tree journal = (.ok (inherited, left), after)) ∧
      entries = shown.flatten ++ inherited := by
  obtain ⟨_, _, _, ranDeclared, ranShape⟩ := bind_returns ran
  obtain ⟨rfl, isDeclared⟩ := lift_returns ranDeclared
  rw [declared_interface inside] at isDeclared
  cases isDeclared
  obtain ⟨properties, last, ranProperties, ranEntries⟩ := shapeAt_object_returns ranShape
  obtain ⟨betweenFromTree, betweenIdle⟩ := scopeOf_leaves fromTree inside
  rw [idle] at betweenIdle
  have allocatedFromTree : FromTree tree root (allocated between).state :=
    betweenFromTree.of_eq rfl rfl
  have fresh : (allocated between).state.cells[between.state.cells.size]? =
      some ⟨none, none, none⟩ := Array.getElem?_push_size
  obtain ⟨parts, basis, found, first, ownParts, ranFound, basisOthers, standing⟩ :=
    interface_worlds allocatedFromTree betweenFromTree betweenIdle betweenIdle plain fresh distinct
      fits ranProperties
  have shrinks := (simplifier.shrinks_shapeAt levels).1 (Text.collapse name :: visited)
  have shows : ∀ links, ShowAlike (.same tree root) links
      (simplifier.shapeAt levels (Text.collapse name :: visited))
      (simplifier.shapeAt levels (Text.collapse name :: visited)) :=
    simplifier.showAlike_same levels _
  have asWorlds : labelled (firstOf simplifier.settings.maxProperties properties) =
      (parts ++ [basis]).flatMap fun world => labelled world.properties := by
    rw [first]
    exact List.map_flatMap
  rw [asWorlds] at ranEntries
  obtain ⟨allShown, each⟩ :=
    standing.shown shrinks shows (Nat.le_refl expansions) remains ranEntries
  have sameSource : scope.source = source :=
    returns_scopeOf interface.first.node source [] tree journal scope between inside
  rw [sameSource] at ownParts ranFound
  refine ⟨parts.map (World.entries tree (simplifier.shapeAt levels (Text.collapse name :: visited))
    expansions), basis.entries tree (simplifier.shapeAt levels (Text.collapse name :: visited))
    expansions, ?_, ?_, ?_⟩
  · refine ownParts.with_mem.map_right fun member part ⟨⟨own, ranOwn, same⟩, isPart⟩ => ?_
    obtain ⟨left, last, someLeft, ranShown⟩ := each part (List.mem_append_left _ isPart)
    rw [← same] at ranShown
    exact ⟨left, last, someLeft, (bind_of_returns (lift_of_returns inside _)).trans
      ((bind_of_returns (lift_of_returns ranOwn _)).trans ranShown)⟩
  · obtain ⟨left, last, someLeft, ranShown⟩ := each basis (by simp)
    rw [basisOthers] at ranShown
    exact ⟨left, last, someLeft, (bind_of_returns (lift_of_returns inside _)).trans
      ((bind_of_returns (lift_of_returns betweenFromTree.sizeBound_eq _)).trans
        ((bind_of_returns (lift_of_returns ranFound _)).trans ranShown))⟩
  · rw [allShown, List.flatMap_append, List.flatMap_singleton, List.flatMap_def]

end Interfaces

/-! ## Reordering members -/

/-- An interface that has the members of another one in some order, and so at other places, and is
the same apart from that. -/
structure Reordered (interface other : Interface) (order : List Node) : Prop where
  permuted : interface.members.Perm order
  members : Listwise Node.Moved order other.members
  bases : Listwise Node.Moved interface.bases other.bases
  start : other.first.node.start = interface.first.node.start
  parameters : typeParameters other.first.node = typeParameters interface.first.node

section Reordering

variable {interface other : Interface} {order : List Node} {links : Links}

section

variable (reordered : Reordered interface other order)

include reordered

theorem Reordered.scopeOf_eq (source : SourceModule) (arguments : List TypeTerm) :
    scopeOf other.first.node source arguments = scopeOf interface.first.node source arguments := by
  unfold scopeOf
  rw [reordered.parameters]

theorem Reordered.key_eq (source : SourceModule) :
    other.key source = interface.key source := by
  unfold Interface.key
  rw [reordered.start]

/-- Both interfaces have properties of the same names. -/
theorem Reordered.names_perm :
    (interface.members.filterMap writtenName?).Perm (other.members.filterMap writtenName?) := by
  rw [← reordered.members.filterMap_eq fun _ _ => writtenName?_eq]
  exact reordered.permuted.filterMap writtenName?

theorem Reordered.memberEntries_eq
    (simplifier : Simplifier) (levels : Nat) (visited : List String) (source : SourceModule) :
    simplifier.memberEntries levels visited other source =
      simplifier.memberEntries levels visited interface source := by
  funext member
  unfold memberEntries
  rw [reordered.scopeOf_eq, reordered.key_eq]

end

/-- The entries of a member by itself do not depend on its place. -/
theorem followed_memberEntries {member copy : Node} (moved : Node.Moved member copy)
    (simplifier : Simplifier) (levels : Nat) (visited : List String) (interface : Interface)
    (source : SourceModule) :
    Expansion.FollowedSparing tree root links
      (simplifier.memberEntries levels visited interface source member)
      (simplifier.memberEntries levels visited interface source copy) := by
  refine Followed.sparing ?_
  have faithful := Edition.faithful_same tree root
  have sources : Sources (.same tree root) source source := source.revised_same _
  refine followed_after (followed_scopeOf sources (.refl (fun _ => trivial) _) .nil) ?_
  rintro more _ scope twin ⟨scopes, -⟩
  have members := followed_bodyMembers scopes (.cons ⟨"", moved.revised ""⟩ .nil)
  refine followed_after (followed_once faithful members _) ?_
  rintro most _ _ _ ⟨properties, _⟩
  exact (followed_eachNamed ((simplifier.shrinks_shapeAt levels).1 visited)
    (simplifier.showAlike_same levels visited most) (labelled_related properties)).mono
    fun _ _ => Shape.eq_of_named

theorem notNamed_perm {names others : List String} (permuted : names.Perm others)
    (properties : List (Property TypeTerm)) :
    notNamed names properties = notNamed others properties := by
  unfold notNamed
  congr 1
  funext property
  rw [permuted.contains_eq]

theorem followed_inheritedProperties {scope twin : Scope TypeTerm} {bases copies : List Node}
    (scopes : AlikeScope (Edition.same tree root).revision links scope twin)
    (moved : Listwise Node.Moved bases copies) (fuel : Nat) :
    Session.Followed (.same tree root) links (fun links => Listwise (AlikeProperty .same links))
      (inheritedProperties fuel scope bases) (inheritedProperties fuel twin copies) := by
  have written := moved.mono fun _ _ => Node.Moved.copiedType
  refine (followed_mapM persists_alike written fun _ below _ _ =>
    followed_typeOf (scope_mono below scopes)).bind fun more _ types others related => ?_
  exact followed_inherit (findsAlike_propertiesWithin more fuel) related .nil

/-- The inherited entries depend on the names of the members alone, and not on their order. -/
theorem Reordered.followed_inheritedEntries (reordered : Reordered interface other order)
    (simplifier : Simplifier) (levels : Nat) (visited : List String) (source : SourceModule) :
    Expansion.FollowedSparing tree root links
      (simplifier.inheritedEntries levels visited interface source)
      (simplifier.inheritedEntries levels visited other source) := by
  refine Followed.sparing ?_
  unfold inheritedEntries
  rw [reordered.scopeOf_eq, reordered.key_eq]
  have faithful := Edition.faithful_same tree root
  have sources : Sources (.same tree root) source source := source.revised_same _
  refine followed_after (followed_scopeOf sources (.refl (fun _ => trivial) _) .nil) ?_
  rintro more _ scope twin ⟨scopes, -⟩
  refine followed_after (followed_sizeBound faithful) ?_
  rintro most below bound _ rfl
  have inherited : Session.Followed (.same tree root) most (AlikeMembers .same)
      (do return ⟨← inheritedProperties bound scope interface.bases, []⟩)
      (do return ⟨← inheritedProperties bound twin other.bases, []⟩) :=
    (followed_inheritedProperties (scope_mono below scopes) reordered.bases bound).map
      fun _ _ _ _ related => ⟨related, .nil⟩
  refine followed_after (followed_once faithful inherited _) ?_
  rintro last _ _ _ ⟨properties, _⟩
  have names := reordered.names_perm
  dsimp only
  rw [names.length_eq, notNamed_perm names]
  exact (followed_eachNamed ((simplifier.shrinks_shapeAt levels).1 visited)
    (simplifier.showAlike_same levels visited last)
    (labelled_related ((notNamed_related properties _).take _))).mono
    fun _ _ => Shape.eq_of_named

variable {source : SourceModule} {scope : Scope TypeTerm} {name : String}
  {between : Journal Session}

/-- The members of an interface have the entries that each has by itself: with the same depth left
and inside of the same types, but with no sibling before it. So another order of the members gives
the same entries in that order, as long as neither run uses up the expansions left. -/
theorem reordered_entries
    {entries otherEntries : List (String × Shape)} {more otherMore : Bool} {otherLeft : Nat}
    {otherAfter : Journal Session} (fromTree : FromTree tree root journal.state)
    (idle : journal.state.expanding = [])
    (inside : scopeOf interface.first.node source [] tree journal = (.ok scope, between))
    (plain : Plain scope) (distinct : (interface.members.filterMap writtenName?).Nodup)
    (fits : (interface.members.length : Int) ≤ simplifier.settings.maxProperties)
    (reordered : Reordered interface other order)
    (ran : simplifier.interfaceShape (levels + 1) visited interface source name (expansions + 1)
      tree journal = (.ok (.object entries more, left), after))
    (remains : 0 < left)
    (otherRan : simplifier.interfaceShape (levels + 1) visited other source name (expansions + 1)
      tree journal = (.ok (.object otherEntries otherMore, otherLeft), otherAfter))
    (otherRemains : 0 < otherLeft) :
    ∃ (entriesOf : Node → List (String × Shape)) (inherited : List (String × Shape)),
      (∀ member ∈ interface.members, ∃ left after, simplifier.memberEntries levels
        (Text.collapse name :: visited) interface source member expansions tree journal =
          (.ok (entriesOf member, left), after)) ∧
      entries = interface.members.flatMap entriesOf ++ inherited ∧
      otherEntries = order.flatMap entriesOf ++ inherited := by
  have otherFits : (other.members.length : Int) ≤ simplifier.settings.maxProperties := by
    rw [← reordered.members.length_eq, ← reordered.permuted.length_eq]
    exact fits
  obtain ⟨shown, inherited, each, ⟨_, _, someLeft, ranInherited⟩, rfl⟩ :=
    interface_entries fromTree idle inside plain distinct fits ran remains
  obtain ⟨otherShown, otherInherited, otherEach, ⟨_, _, _, otherRanInherited⟩, rfl⟩ :=
    interface_entries fromTree idle ((reordered.scopeOf_eq source []).symm ▸ inside) plain
      (reordered.names_perm.nodup_iff.mp distinct) otherFits otherRan otherRemains
  have matched := matches_alone fromTree
  obtain ⟨_, _, sameInherited, _⟩ := reordered.followed_inheritedEntries simplifier levels
    (Text.collapse name :: visited) source expansions 0 _ journal journal inherited _ matched
    someLeft ranInherited
  rw [Nat.add_zero, otherRanInherited] at sameInherited
  cases sameInherited
  rw [reordered.memberEntries_eq] at otherEach
  have determined : ∀ member entries, (∃ copy, Node.Moved member copy ∧ ∃ left after, 0 < left ∧
      simplifier.memberEntries levels (Text.collapse name :: visited) interface source copy
        expansions tree journal = (.ok (entries, left), after)) →
      entries = answeredEntries (simplifier.memberEntries levels (Text.collapse name :: visited)
        interface source member expansions tree journal) := by
    rintro member entries ⟨copy, moved, left, after, someLeft, ran⟩
    obtain ⟨_, _, same, _⟩ := followed_memberEntries moved.symm simplifier levels
      (Text.collapse name :: visited) interface source expansions 0 left journal journal entries
      after matched someLeft ran
    rw [Nat.add_zero] at same
    rw [same]
    rfl
  have own := (Node.moved_refl interface.members).trans each
  refine ⟨fun member => answeredEntries (simplifier.memberEntries levels
    (Text.collapse name :: visited) interface source member expansions tree journal), inherited,
    fun member isMember => ?_, ?_, ?_⟩
  · obtain ⟨entries, left, after, someLeft, ranMember⟩ := each.exists_related isMember
    refine ⟨left, after, ?_⟩
    dsimp only
    rw [← determined member entries ⟨member, .refl member, left, after, someLeft, ranMember⟩]
    exact ranMember
  · rw [own.eq_map determined, List.flatMap_def]
  · rw [(reordered.members.trans otherEach).eq_map determined, List.flatMap_def]

end Reordering

/-! ## An interface with a type parameter -/

/-- A name with a role. -/
def nameNode (kind role name : String) : Node := .mk kind true (some role) 0 1 name []

/-- A member with a written type, at some position. -/
def memberNode (start : Nat) (name : String) (type : Node) : Node :=
  .mk "property_signature" true none start 1 "" [nameNode "property_identifier" "name" name,
    .mk "type_annotation" true (some "type") 0 1 "" [type]]

/-- The type of strings. -/
def stringNode : Node := .mk "predefined_type" true none 0 1 "string" []

/-- An object type with two members. -/
def pairNode : Node :=
  .mk "object_type" true none 0 1 "\x7b a: string; b: string \x7d"
    [memberNode 2 "a" stringNode, memberNode 13 "b" stringNode]

/-- A list of one type parameter, with its default. -/
def parameterNode (name : String) (default : List Node) : Node :=
  .mk "type_parameters" true (some "type_parameters") 0 1 "" [
    .mk "type_parameter" true none 0 1 "" (nameNode "type_identifier" "name" name ::
      default.map fun type => .mk "default_type" true (some "value") 0 1 "" [type])]

/-- A use of a type parameter. -/
def parameterUse (role : Option String) (name : String) : Node :=
  .mk "type_identifier" true role 0 1 name []

/-- A member that uses the parameter through an alias. -/
def aliasMember (start : Nat) : Node :=
  memberNode start "n" (.mk "generic_type" true none 0 1 "Id<T>" [
    nameNode "type_identifier" "name" "Id",
    .mk "type_arguments" true (some "type_arguments") 0 1 "" [parameterUse none "T"]])

/-- A member that is an array of the parameter. -/
def arrayMember (start : Nat) : Node :=
  memberNode start "m" (.mk "array_type" true none 0 1 "T[]" [parameterUse none "T"])

/-- An interface whose type parameter has a default. -/
def genericNode (default : Node) (members : List Node) : Node :=
  .mk "interface_declaration" true none 7 1 "" [nameNode "type_identifier" "name" "I",
    parameterNode "T" [default], .mk "interface_body" true (some "body") 0 1 "" members]

/-- The interface of one declaration. -/
def genericInterface (default : Node) (members : List Node) : Interface where
  first := ⟨"I", "interface", genericNode default members, true, none, none⟩
  rest := []
  areInterfaces := by
    intro declaration member
    rw [List.mem_singleton.mp member]
    rfl

/-- A module with the interface and an alias that stands for its argument. -/
def genericModule (default : Node) : SourceModule :=
  .ofTree (.ofRoot ["a.ts"]) .plain (.mk "program" true none 0 1 "" [
    .mk "export_statement" true none 0 1 "" [genericNode default [aliasMember 20, arrayMember 30]],
    .mk "type_alias_declaration" true none 90 2 "" [nameNode "type_identifier" "name" "Id",
      parameterNode "U" [], parameterUse (some "value") "U"]])

/-- A simplifier that shows no object type with a name that has two members inside of others. -/
def fourLevels : Simplifier :=
  .ofSettings { Settings.default with maxDepth := 4, collapseThreshold := 1, wrapperRules := [] }

/-- The name of an entry and the size of its shape. -/
def sizes (entries : List (String × Shape)) : List (String × Nat) :=
  entries.map fun entry => (entry.1, entry.2.structured)

/-- The names and sizes of the entries of an object, if expansions are left. -/
def objectSizes : Shape × Nat → Option (List (String × Nat))
  | (.object entries _, _ + 1) => some (sizes entries)
  | _ => none

/-- The names and sizes of the entries that the interface has in a session that starts. -/
def genericSizes (value : Node) (members : List Node) :
    Except Failure (Option (List (String × Nat))) :=
  ((fourLevels.interfaceShape 4 [] (genericInterface value members) (genericModule value) "I" 20 :
    Task Session (Shape × Nat)).outcomeFrom default (.fresh (.ofRoot []))).map objectSizes

theorem exists_of_genericSizes {value : Node} {members : List Node} {listed : List (String × Nat)}
    (answers : genericSizes value members = .ok (some listed)) :
    ∃ entries more left after,
      fourLevels.interfaceShape 4 [] (genericInterface value members) (genericModule value) "I" 20
        default ⟨.fresh (.ofRoot []), []⟩ = (.ok (.object entries more, left), after) ∧
      0 < left ∧ sizes entries = listed := by
  obtain ⟨⟨shape, left⟩, after, ran, shown⟩ := Task.exists_of_outcomeFrom answers
  unfold objectSizes at shown
  split at shown
  · rename_i entries more rest same
    cases same
    exact ⟨entries, more, rest + 1, after, ran, Nat.succ_pos rest, Option.some.inj shown⟩
  · cases shown

/-- The scope inside of the interface where the default of its type parameter is a string. -/
theorem plain_inside :
    ∃ scope between,
      scopeOf (genericInterface stringNode [aliasMember 20, arrayMember 30]).first.node
        (genericModule stringNode) [] default ⟨.fresh (.ofRoot []), []⟩ = (.ok scope, between) ∧
      Plain scope :=
  ⟨⟨genericModule stringNode, [("T", .primitive "string")], none⟩, _, rfl,
    ⟨.cons ⟨.primitive rfl, rfl⟩ .nil, .none, SourceModule.revised_same _ _⟩⟩

theorem reordered_genericInterface (default : Node) :
    Reordered (genericInterface default [aliasMember 20, arrayMember 30])
      (genericInterface default [arrayMember 20, aliasMember 28])
      [arrayMember 30, aliasMember 20] where
  permuted := .swap _ _ _
  members := .cons (.mk (Node.moved_refl _)) (.cons (.mk (Node.moved_refl _)) .nil)
  bases := .nil
  start := rfl
  parameters := rfl

theorem distinct_genericInterface (default : Node) :
    ((genericInterface default [aliasMember 20, arrayMember 30]).members.filterMap
      writtenName?).Nodup := by
  have names : (genericInterface default [aliasMember 20, arrayMember 30]).members.filterMap
      writtenName? = ["n", "m"] := rfl
  rw [names]
  decide

/-- Where the type parameter stands for strings, another order of the members gives the same entries
in that order. -/
theorem generic_entries :
    ∃ entries otherEntries entriesOf inherited,
      sizes entries = [("n", 0), ("m", 1)] ∧ sizes otherEntries = [("m", 1), ("n", 0)] ∧
      entries = [aliasMember 20, arrayMember 30].flatMap entriesOf ++ inherited ∧
      otherEntries = [arrayMember 30, aliasMember 20].flatMap entriesOf ++ inherited := by
  have answers : genericSizes stringNode [aliasMember 20, arrayMember 30] =
      .ok (some [("n", 0), ("m", 1)]) := by decide +kernel
  have otherAnswers : genericSizes stringNode [arrayMember 20, aliasMember 28] =
      .ok (some [("m", 1), ("n", 0)]) := by decide +kernel
  obtain ⟨entries, _, _, _, ran, remains, listed⟩ := exists_of_genericSizes answers
  obtain ⟨otherEntries, _, _, _, otherRan, otherRemains, otherListed⟩ :=
    exists_of_genericSizes otherAnswers
  obtain ⟨scope, between, inside, plain⟩ := plain_inside
  obtain ⟨entriesOf, inherited, _, shown, otherShown⟩ :=
    reordered_entries fromTree_fresh rfl inside plain (distinct_genericInterface _) (by decide)
      (reordered_genericInterface stringNode) ran remains otherRan otherRemains
  exact ⟨entries, otherEntries, entriesOf, inherited, listed, otherListed, shown, otherShown⟩

/-- Where it stands for an object type, the alias gives its name to the object type of the array as
well: whether the array is shown with the members or with the name depends on which of the two is
shown first. -/
theorem alias_changes_sibling :
    ¬∀ (tree : FileTree) (root : Path) (simplifier : Simplifier) (levels expansions : Nat)
      (visited : List String) (interface other : Interface) (order : List Node)
      (source : SourceModule) (name : String) (journal after otherAfter : Journal Session)
      (entries otherEntries : List (String × Shape))
      (more otherMore : Bool) (left otherLeft : Nat),
      FromTree tree root journal.state → journal.state.expanding = [] →
      (interface.members.filterMap writtenName?).Nodup →
      (interface.members.length : Int) ≤ simplifier.settings.maxProperties →
      Reordered interface other order →
      simplifier.interfaceShape levels visited interface source name expansions tree journal =
        (.ok (.object entries more, left), after) → 0 < left →
      simplifier.interfaceShape levels visited other source name expansions tree journal =
        (.ok (.object otherEntries otherMore, otherLeft), otherAfter) → 0 < otherLeft →
      entries.Perm otherEntries := by
  intro always
  have answers : genericSizes pairNode [aliasMember 20, arrayMember 30] =
      .ok (some [("n", 1), ("m", 1)]) := by decide +kernel
  have otherAnswers : genericSizes pairNode [arrayMember 20, aliasMember 28] =
      .ok (some [("m", 2), ("n", 1)]) := by decide +kernel
  obtain ⟨entries, _, _, _, ran, remains, listed⟩ := exists_of_genericSizes answers
  obtain ⟨otherEntries, _, _, _, otherRan, otherRemains, otherListed⟩ :=
    exists_of_genericSizes otherAnswers
  have permuted := always default (.ofRoot []) _ _ _ _ _ _ _ _ _ _ _ _ _ _ _ _ _ _ fromTree_fresh
    rfl (distinct_genericInterface pairNode) (by decide) (reordered_genericInterface pairNode) ran
    remains otherRan otherRemains
  have sizesPermuted : (sizes entries).Perm (sizes otherEntries) := permuted.map _
  rw [listed, otherListed] at sizesPermuted
  exact absurd sizesPermuted (by decide)

end Simplifier

end ModuleAtlas
