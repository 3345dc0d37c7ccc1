import ModuleAtlas.Proofs.Shape.Siblings
import ModuleAtlas.Proofs.Types.Following

/-!
# Inheriting

Collecting the members of an interface or a class comes to what it has in all: the members of each
base are collected while those of the heir are, and the collection ends because a file tree has only
so many declarations.
-/

namespace ModuleAtlas
namespace Types

open Session

variable {tree : FileTree} {root : Path} {source : SourceModule} {scope : Scope TypeTerm}
  {journal : Journal Session} {generic : Prop}

/-! ## Collecting -/

section Collecting

variable {heir : Heir} {expanding : List (Path × Nat)}

/-- What is found for bases that wait is found for each of them as if there were no others. -/
theorem comes_inherit
    {find : TypeTerm → Task Session (List (Property TypeTerm))} {low : Nat} {uses : List Use}
    {types : List TypeTerm}
    (finds : ∀ use ∈ uses, ∀ (journal : Journal Session) (cell : Nat) (code : String),
      FromTree tree root journal.state → journal.state.expanding = expanding →
      cell < journal.state.cells.size → journal.state.cell cell = ⟨none, none, none⟩ →
      Task.Comes tree (Refusal generic) journal
        (find (.reference cell code use.name scope use.arguments)) fun properties after =>
          Adds tree root (· = cell) journal.state after.state ∧
            ∃ base, heir.Denotes tree root use base ∧
              Collected tree root expanding base properties)
    (skips : ∀ code, find (.verbatim code) = pure []) (found : List (Property TypeTerm))
    (awaiting : Awaiting scope journal.state low uses types)
    (fromTree : FromTree tree root journal.state) (same : journal.state.expanding = expanding) :
    Task.Comes tree (Refusal generic) journal (inherit find found types) fun properties after =>
      Adds tree root (low ≤ ·) journal.state after.state ∧
        ∃ collections, CollectedEach tree root expanding heir uses collections ∧
          properties = mergeProperties found collections.flatten := by
  induction types generalizing low uses found journal with
  | nil =>
    cases awaiting
    exact Task.comes_pure ⟨.refl fromTree, [], .nil, rfl⟩
  | cons type rest ih =>
    cases awaiting with
    | @comment _ code _ _ others =>
      have nothing : inherit find found (.verbatim code :: rest) = inherit find found rest := by
        rw [inherit, skips, pure_bind]
        rfl
      rw [nothing]
      exact ih finds found others fromTree same
    | @base _ cell code use uses _ new present unknown others =>
      have here := finds use List.mem_cons_self journal cell code fromTree same present unknown
      refine here.bind fun properties between ⟨adds, base, denotes, collected⟩ => ?_
      have waiting := others.kept adds fun index isCell => isCell ▸ Nat.lt_succ_self cell
      have later := ih
        (fun other member => finds other (List.mem_cons_of_mem _ member))
        (mergeProperties found properties) waiting adds.fromTree (adds.expanding.trans same)
      refine later.imp fun all after _ ⟨further, collections, each, merged⟩ => ?_
      refine ⟨?_, properties :: collections, .cons denotes collected each, ?_⟩
      · have here : Adds tree root (low ≤ ·) journal.state between.state :=
          adds.mono fun index _ isCell => isCell ▸ new
        exact here.trans further fun index _ above => Nat.le_trans new (Nat.le_of_succ_le above)
      · rw [merged, List.flatten_cons, mergeProperties, mergeProperties, mergeProperties,
          List.foldl_append]

/-- A declaration contributes nothing while its members are being collected, and otherwise what is
collected while it is known to be. -/
theorem comes_once
    {key : Path × Nat} {collect : Task Session (Members TypeTerm)} {cause : Failure → Prop}
    {fits : Members TypeTerm → Journal Session → Prop}
    (known : key ∈ journal.state.expanding → fits .none journal)
    (collects : key ∉ journal.state.expanding →
      Task.Comes tree cause (entering key journal) collect fun members between =>
        fits members (leaving key between)) :
    Task.Comes tree cause journal (once key collect) fits := by
  unfold Task.Comes at collects ⊢
  rw [once_eq]
  by_cases isKnown : key ∈ journal.state.expanding
  · rw [if_pos (by simpa using isKnown)]
    exact known isKnown
  · have collected := collects isKnown
    rw [if_neg (by simpa using isKnown)]
    rcases ran : collect tree (entering key journal) with ⟨failure | members, between⟩
    · rwa [ran] at collected
    · rwa [ran] at collected

/-- What is added while a declaration is being collected is added when that is over. -/
theorem adds_leaving {key : Path × Nat} {between : Journal Session} {touched : Nat → Prop}
    (fresh : key ∉ journal.state.expanding)
    (adds : Adds tree root touched (entering key journal).state between.state) :
    Adds tree root touched journal.state (leaving key between).state :=
  ⟨adds.fromTree.of_eq rfl rfl, leaving_expanding (by simpa using fresh) adds.expanding, adds.size,
    adds.cells⟩

/-- The members of a declaration are collected from its own members and from its bases. -/
theorem comes_collectMembers (find : TypeTerm → Task Session (List (Property TypeTerm)))
    (opens : heir.Opens tree scope) (namesBases : heir.NamesBases)
    (unbound : ∀ use ∈ heir.uses, use.name ∉ scope.parameters.map Prod.fst)
    (allowed : typeParameters heir.node ≠ [] → generic)
    (fromTree : FromTree tree root journal.state)
    (finds : heir.key ∉ journal.state.expanding →
      ∀ use ∈ heir.uses, ∀ (between : Journal Session) (cell : Nat) (code : String),
      FromTree tree root between.state →
      between.state.expanding = heir.key :: journal.state.expanding →
      cell < between.state.cells.size → between.state.cell cell = ⟨none, none, none⟩ →
      Task.Comes tree (Refusal generic) between
        (find (.reference cell code use.name scope use.arguments)) fun properties after =>
          Adds tree root (· = cell) between.state after.state ∧
            ∃ base, heir.Denotes tree root use base ∧
              Collected tree root (heir.key :: journal.state.expanding) base properties)
    (skips : ∀ code, find (.verbatim code) = pure []) :
    Task.Comes tree (Refusal generic) journal (collectMembers find (heir.body scope))
      fun members after => Adds tree root (fun _ => False) journal.state after.state ∧
        Collected tree root journal.state.expanding heir members.properties := by
  obtain ⟨sameSource, plain, _⟩ := opens.inside
  have scopeAllowed : scope.parameters ≠ [] → generic := fun isGeneric =>
    allowed (opens.typeParameters_ne_nil isGeneric)
  cases heir with
  | ofInterface interface source =>
    have sameKey : (scope.source.path, interface.first.node.start) =
        (Heir.ofInterface interface source).key := by
      rw [sameSource]
      rfl
    change Task.Comes tree _ journal (once (scope.source.path, interface.first.node.start) _) _
    rw [sameKey]
    refine comes_once (fun known => ⟨.refl fromTree, .cut known⟩) fun fresh => ?_
    have entered :
        FromTree tree root (entering (Heir.ofInterface interface source).key journal).state :=
      fromTree.of_eq rfl rfl
    have parts :=
      comes_interfaceParts interface source scopeAllowed plain namesBases unbound entered
    refine parts.bind fun ⟨own, bases⟩ middle ⟨read, given, waiting⟩ => ?_
    refine (comes_inherit (finds fresh) skips _ waiting read.fromTree read.expanding).map
      fun properties between ⟨further, collections, each, merged⟩ => ?_
    obtain ⟨first, sameFirst, givenFirst⟩ := merged_newAmong (fun _ _ gives => gives.1) given []
    rw [List.map_nil, newAmong_nil] at givenFirst
    rw [sameFirst, List.nil_append] at merged
    refine ⟨adds_leaving fresh (read.trans further fun _ old above => ?_), ?_⟩
    · exact Nat.not_lt.mpr above old
    · rw [merged]
      exact .whole fresh opens givenFirst each
  | ofClass node source =>
    have sameKey : (scope.source.path, node.start) = (Heir.ofClass node source).key := by
      rw [sameSource]
      rfl
    have reads : Reads (fun _ => Additive tree root generic) scope := reads_additive scopeAllowed
    change Task.Comes tree _ journal (once (scope.source.path, node.start) (do
      let own ← classProperties scope [] (bodyNodes node)
      return ⟨← inherit find own (← classBases scope node), []⟩)) _
    rw [sameKey]
    refine comes_once (fun known => ⟨.refl fromTree, .cut known⟩) fun fresh => ?_
    have entered : FromTree tree root (entering (Heir.ofClass node source).key journal).state :=
      fromTree.of_eq rfl rfl
    have gives := (reads_classProperties reads [] (bodyNodes node) _ entered).imp
      fun own middle ran adds => And.intro adds (given_of_classProperties node source ran)
    refine gives.bind fun own middle ⟨read, first, sameFirst, given⟩ => ?_
    rw [List.map_nil, newAmong_nil] at given
    rw [List.nil_append] at sameFirst
    subst sameFirst
    refine (comes_classBases plain read.fromTree).bind fun bases later ⟨readBases, waiting⟩ => ?_
    have before := read.trans readBases fun _ _ => id
    refine (comes_inherit (finds fresh) skips own waiting before.fromTree before.expanding).map
      fun properties between ⟨further, collections, each, merged⟩ => ?_
    refine ⟨adds_leaving fresh (before.trans further fun _ old above => ?_), ?_⟩
    · exact Nat.not_lt.mpr (Nat.le_trans read.size above) old
    · rw [merged]
      exact .whole fresh opens given each

end Collecting

theorem Heir.Denotes.placed {heir base : Heir} {use : Use}
    (denotes : heir.Denotes tree root use base) (placed : heir.Placed tree) :
    base.Placed tree := by
  obtain ⟨found, resolves, heirs⟩ := denotes.resolves
  exact Heir.placed_of_heirOf? (resolves.standIn placed.source) heirs

/-- Inside of a declaration its bases are found as they are outside of it. -/
theorem Heir.Denotes.refers {heir base : Heir} {use : Use}
    (denotes : heir.Denotes tree root use base) (opens : heir.Opens tree scope) :
    Refers tree root scope use base := by
  obtain ⟨sameSource, _, names⟩ := opens.inside
  exact ⟨fun bound => denotes.unbound (names _ bound), denotes.notArray,
    sameSource ▸ denotes.resolves⟩

/-- Collecting members comes to all that is collected for a declaration.  Every base that is entered
leaves fewer keys of the file tree that are not being expanded, so the fuel lasts. -/
theorem comes_membersWith {heir : Heir} {cell fuel : Nat} {type : TypeTerm}
    (founded : heir.Founded tree root) (placed : heir.Placed tree)
    (allowed : ∀ other, heir.Reaches tree root other → typeParameters other.node ≠ [] → generic)
    (promises : Promises tree root generic journal.state heir cell type)
    (fromTree : FromTree tree root journal.state)
    (room : remaining tree.keys journal.state.expanding < fuel) :
    Task.Comes tree (Refusal generic) journal (membersWith fuel type) fun members after =>
      Adds tree root (· = cell) journal.state after.state ∧
        Collected tree root journal.state.expanding heir members.properties := by
  induction fuel generalizing heir cell type journal with
  | zero => exact absurd room (Nat.not_lt_zero _)
  | succ fuel ih =>
    have heirAllowed := allowed heir .refl
    rw [membersWith_succ]
    refine (comes_structureOf promises heirAllowed fromTree).bind ?_
    rintro _ between ⟨followed, own, new, code, name, scope, rfl, opens, unknown⟩
    have finds : heir.key ∉ between.state.expanding →
        ∀ use ∈ heir.uses, ∀ (later : Journal Session) (cell : Nat) (code : String),
        FromTree tree root later.state →
        later.state.expanding = heir.key :: between.state.expanding →
        cell < later.state.cells.size → later.state.cell cell = ⟨none, none, none⟩ →
        Task.Comes tree (Refusal generic) later
          (propertiesWithin fuel (.reference cell code use.name scope use.arguments))
          fun properties after => Adds tree root (· = cell) later.state after.state ∧
            ∃ base, heir.Denotes tree root use base ∧
              Collected tree root (heir.key :: between.state.expanding) base properties := by
      intro fresh use member later cell code laterFromTree expanding present laterUnknown
      obtain ⟨base, denotes⟩ := founded.denotes heir .refl use member
      have isBase : heir.Extends tree root base := ⟨use, member, denotes⟩
      have refersTo : Promises tree root generic later.state base cell
          (.reference cell code use.name scope use.arguments) :=
        .reference (denotes.refers opens)
          (fun isGeneric => heirAllowed (opens.typeParameters_ne_nil isGeneric)) present
          laterUnknown
      have less : remaining tree.keys later.state.expanding < fuel := by
        rw [expanding]
        have fewer := remaining_cons_lt placed.key_mem_keys fresh
        rw [followed.expanding] at fewer ⊢
        omega
      have collects := ih (founded.base isBase) (denotes.placed placed)
        (fun other reaches => allowed other (.head isBase reaches)) refersTo laterFromTree less
      refine collects.map fun members after ⟨adds, collected⟩ => ⟨adds, base, denotes, ?_⟩
      rwa [expanding] at collected
    have collects := comes_collectMembers (propertiesWithin fuel) opens
      (founded.namesBases heir .refl)
      (fun use member => by
        obtain ⟨base, denotes⟩ := founded.denotes heir .refl use member
        exact (denotes.refers opens).unbound)
      heirAllowed followed.fromTree finds (fun code => by cases fuel <;> rfl)
    refine (comes_kept (by rw [unknown]) collects).imp ?_
    rintro members after - ⟨middle, ⟨adds, collected⟩, same⟩
    rw [followed.expanding] at collected
    refine ⟨?_, collected⟩
    rw [same]
    have before : Adds tree root (· = cell) journal.state middle.state :=
      followed.trans adds fun _ _ => False.elim
    exact before.modify (fun old => new.resolve_right (Nat.not_le.mpr old)) _

/-! ## What a declaration has in all -/

/-- The name under which a declaration is looked up in its own module. -/
def declaredName (declaration : Declaration) : String :=
  if declaration.name == "default" then Node.textOf (declaration.node.child? "name")
  else declaration.name

/-- The interface or the class that a declaration of a module belongs to: the one that is declared
under its name, or by itself where it has none. -/
inductive Declares (source : SourceModule) (declaration : Declaration) : Heir → Prop where
  | named {heir : Heir}
      (isType : Declaration.typeKinds.contains declaration.node.kind = true)
      (isNamed : (declaredName declaration).isEmpty = false)
      (plain : Text.cutLast? '.' (declaredName declaration).toList = none)
      (listed : declaration ∈ source.lookupType (declaredName declaration))
      (heirs : heirOf? (source.lookupType (declaredName declaration), source) = some heir) :
      Declares source declaration heir
  | unnamed {heir : Heir}
      (nameless : Declaration.typeKinds.contains declaration.node.kind = true ∧
          (declaredName declaration).isEmpty = true ∨
        declaration.node.kind = "class")
      (heirs : heirOf? ([declaration], source) = some heir) :
      Declares source declaration heir

variable {declaration : Declaration} {heir : Heir}

theorem Declares.placed (declares : Declares source declaration heir)
    (stands : source.StandsIn tree) (has : source.Has declaration) :
    heir.Placed tree := by
  cases declares with
  | named _ _ _ _ heirs =>
    refine Heir.placed_of_heirOf? ⟨stands, fun other member => ?_⟩ heirs
    exact .inl ⟨_, (List.mem_filter.mp member).1⟩
  | unnamed _ heirs =>
    refine Heir.placed_of_heirOf? ⟨stands, fun other member => ?_⟩ heirs
    rwa [List.mem_singleton.mp member]

/-- The type of a declaration stands for the interface or the class. -/
theorem comes_declarationType (declares : Declares source declaration heir)
    (allowed : typeParameters heir.node ≠ [] → generic)
    (fromTree : FromTree tree root journal.state) :
    Task.Comes tree (Refusal generic) journal (declarationType declaration source)
      fun type after => Adds tree root (fun _ => False) journal.state after.state ∧
        ∃ cell, Promises tree root generic after.state heir cell type := by
  have creates : heirOf? ([declaration], source) = some heir →
      Task.Comes tree (Refusal generic) journal
        (declared [declaration] source [] declaration.name)
        fun type after => Adds tree root (fun _ => False) journal.state after.state ∧
          ∃ cell, Promises tree root generic after.state heir cell type := by
    intro heirs
    refine (comes_declared heirs allowed [] declaration.name fromTree).imp ?_
    rintro type after - ⟨adds, cell, _, uncollected⟩
    exact ⟨adds, cell, .object uncollected⟩
  unfold declarationType
  dsimp only
  cases declares with
  | named isType isNamed plain listed heirs =>
    obtain ⟨first, rest, known⟩ := List.exists_cons_of_ne_nil (List.ne_nil_of_mem listed)
    have refers : Refers tree root ⟨source, [], none⟩ ⟨declaredName declaration, []⟩ heir := by
      refine ⟨List.not_mem_nil, fun _ => nofun, _, ?_, heirs⟩
      rw [known]
      exact .declared plain known
    rw [if_pos isType]
    unfold declaredName at isNamed refers
    rw [isNamed, if_neg Bool.false_ne_true]
    refine Task.comes_of_ok rfl ⟨adds_allocated fromTree, journal.state.cells.size, ?_⟩
    have present : journal.state.cells.size < (allocated journal).state.cells.size := by
      simp [allocated]
    exact .reference refers (fun isGeneric => absurd rfl isGeneric) present
      (cell_allocated journal)
  | unnamed nameless heirs =>
    rcases nameless with ⟨isType, isEmpty⟩ | isClass
    · unfold declaredName at isEmpty
      rw [if_pos isType, if_pos isEmpty]
      exact creates heirs
    · rw [isClass]
      exact creates heirs

/-- A declaration that is looked into while no other is has all that it inherits. -/
theorem comes_propertiesOf {cell : Nat} {type : TypeTerm} (founded : heir.Founded tree root)
    (placed : heir.Placed tree)
    (allowed : ∀ other, heir.Reaches tree root other → typeParameters other.node ≠ [] → generic)
    (promises : Promises tree root generic journal.state heir cell type)
    (fromTree : FromTree tree root journal.state) (idle : journal.state.expanding = []) :
    Task.Comes tree (Refusal generic) journal (propertiesOf type) fun properties _ =>
      Inherited tree root heir properties := by
  have bounded : Task.Comes tree (Refusal generic) journal sizeBound fun bound after =>
      bound = walkBound tree ∧ after = journal :=
    Task.comes_of_ok fromTree.sizeBound_eq ⟨rfl, rfl⟩
  have collects : Task.Comes tree (Refusal generic) journal (membersOf type) fun members _ =>
      Inherited tree root heir members.properties := by
    have room : remaining tree.keys journal.state.expanding < walkBound tree + 1 := by
      rw [idle, remaining_nil]
      exact Nat.lt_succ_of_lt tree.card_keys_lt
    refine bounded.bind ?_
    rintro _ _ ⟨rfl, rfl⟩
    refine (comes_membersWith founded placed allowed promises fromTree room).imp ?_
    rintro members after - ⟨_, collected⟩
    rw [idle] at collected
    exact collected.inherited founded
  exact collects.map fun _ _ => id

/-- Inheritance is collected completely: a declaration whose bases, and theirs, are all declared has
what it inherits from each of them, however they lead to one another.  Nothing stops this unless one
of the declarations has type parameters and the text of a value of these is taken for a template and
is none; and nothing is being collected afterwards in any case. -/
theorem inheritance_collected (stands : source.StandsIn tree) (has : source.Has declaration)
    (declares : Declares source declaration heir) (founded : heir.Founded tree root)
    (fromTree : FromTree tree root journal.state) (idle : journal.state.expanding = []) :
    ∃ outcome after,
      (do propertiesOf (← declarationType declaration source)) tree journal = (outcome, after) ∧
      after.state.expanding = [] ∧
      Task.OutcomeOf (Inherited tree root heir)
        (Refusal (∃ other, heir.Reaches tree root other ∧ typeParameters other.node ≠ []))
        outcome := by
  have allowed : ∀ other, heir.Reaches tree root other → typeParameters other.node ≠ [] →
      ∃ other, heir.Reaches tree root other ∧ typeParameters other.node ≠ [] :=
    fun other reaches isGeneric => ⟨other, reaches, isGeneric⟩
  have orderly : Orderly tree root (do propertiesOf (← declarationType declaration source)) :=
    Orderly.bind (holds_declarationType closed_orderly declaration source)
      (holds_propertiesOf closed_orderly)
  have comes : Task.Comes tree
      (Refusal (∃ other, heir.Reaches tree root other ∧ typeParameters other.node ≠ [])) journal
      (do propertiesOf (← declarationType declaration source)) fun properties _ =>
        Inherited tree root heir properties := by
    refine (comes_declarationType declares (allowed heir .refl) fromTree).bind ?_
    rintro type between ⟨adds, cell, promises⟩
    exact comes_propertiesOf founded (declares.placed stands has) allowed promises adds.fromTree
      (adds.expanding.trans idle)
  obtain ⟨outcome, after, ran, _, collecting⟩ := orderly [] journal ⟨fromTree, idle⟩
  refine ⟨outcome, after, ran, collecting.expanding_eq, ?_⟩
  unfold Task.Comes at comes
  rw [ran] at comes
  cases outcome with
  | ok properties => exact .ok comes
  | error failure => exact .error comes

/-! ## Interfaces in a circle -/

open Simplifier (nameNode memberNode stringNode pairNode parameterNode)

/-- An interface at some place, with type parameters, bases and members. -/
def interfaceNode (start : Nat) (name : String) (parameters bases members : List Node) : Node :=
  .mk "interface_declaration" true none start 1 "" (nameNode "type_identifier" "name" name ::
    parameters ++ [.mk "extends_type_clause" true none 0 1 "" bases,
      .mk "interface_body" true (some "body") 0 1 "" members])

/-- The interface that one declaration declares. -/
def interfaceHeir (start : Nat) (name : String) (parameters bases members : List Node)
    (source : SourceModule) : Heir :=
  .ofInterface
    { first := ⟨name, "interface", interfaceNode start name parameters bases members, false, none,
        none⟩
      rest := []
      areInterfaces := fun declaration member => by
        rw [List.mem_singleton.mp member]
        rfl }
    source

/-- A base without type arguments. -/
def plainBase (name : String) : Node := nameNode "type_identifier" "type" name

/-- The file in which an interface extends two others, which extend one that extends the first. -/
def circleFile : Node := program [
  interfaceNode 1 "Top" [] [plainBase "Left", plainBase "Right"] [memberNode 5 "a" stringNode],
  interfaceNode 2 "Left" [] [plainBase "Base"] [memberNode 6 "b" stringNode],
  interfaceNode 3 "Right" [] [plainBase "Base"] [memberNode 7 "c" stringNode],
  interfaceNode 4 "Base" [] [plainBase "Top"]
    [memberNode 8 "a" pairNode, memberNode 9 "d" pairNode]]

/-- A file tree with the file. -/
def heirsTree : FileTree := ⟨.directory [("a.ts", .file .empty (some circleFile))], []⟩

/-- The module of the file. -/
def heirsModule : SourceModule := .ofTree (.ofRoot ["a.ts"]) .plain circleFile

theorem standsIn_heirsModule : heirsModule.StandsIn heirsTree :=
  ⟨⟨["a.ts"], _, rfl, rfl, rfl, by decide⟩, rfl⟩

/-- The interface that extends two others. -/
def topHeir : Heir :=
  interfaceHeir 1 "Top" [] [plainBase "Left", plainBase "Right"] [memberNode 5 "a" stringNode]
    heirsModule

/-- The four interfaces. -/
def circleHeirs : List Heir := [
  topHeir,
  interfaceHeir 2 "Left" [] [plainBase "Base"] [memberNode 6 "b" stringNode] heirsModule,
  interfaceHeir 3 "Right" [] [plainBase "Base"] [memberNode 7 "c" stringNode] heirsModule,
  interfaceHeir 4 "Base" [] [plainBase "Top"] [memberNode 8 "a" pairNode, memberNode 9 "d" pairNode]
    heirsModule]

/-- A plain name that a module declares as an interface denotes it. -/
theorem denotes_of_known
    {heir base : Heir} {use : Use} {first : Declaration} {rest : List Declaration}
    (unbound : use.name ∉ (typeParameters heir.node).map parameterName)
    (notArray : arrayNames.contains use.name = false)
    (plain : Text.cutLast? '.' use.name.toList = none)
    (known : heir.source.lookupType use.name = first :: rest)
    (heirs : heirOf? (first :: rest, heir.source) = some base) :
    heir.Denotes tree root use base := by
  refine ⟨unbound, fun isArray => ?_, _, .declared plain known, heirs⟩
  rw [notArray] at isArray
  cases isArray

/-- Interfaces that extend each other in a circle are founded, too. -/
theorem circle_founded {heir : Heir} (member : heir ∈ circleHeirs) :
    heir.Founded heirsTree (.ofRoot []) := by
  refine Heir.founded_of_mem ?_ ?_ (by decide +kernel) member
  · rintro heir (_ | ⟨_, _ | ⟨_, _ | ⟨_, _ | ⟨_, ⟨⟩⟩⟩⟩⟩) base (_ | ⟨_, _ | ⟨_, ⟨⟩⟩⟩)
    all_goals exact .inl rfl
  · rintro heir (_ | ⟨_, _ | ⟨_, _ | ⟨_, _ | ⟨_, ⟨⟩⟩⟩⟩⟩) use (_ | ⟨_, _ | ⟨_, ⟨⟩⟩⟩)
    · exact ⟨_, .tail _ (.head _), denotes_of_known (by decide) (by decide) (by decide) rfl rfl⟩
    · exact ⟨_, .tail _ (.tail _ (.head _)),
        denotes_of_known (by decide) (by decide) (by decide) rfl rfl⟩
    · exact ⟨_, .tail _ (.tail _ (.tail _ (.head _))),
        denotes_of_known (by decide) (by decide) (by decide) rfl rfl⟩
    · exact ⟨_, .tail _ (.tail _ (.tail _ (.head _))),
        denotes_of_known (by decide) (by decide) (by decide) rfl rfl⟩
    · exact ⟨_, .head _, denotes_of_known (by decide) (by decide) (by decide) rfl rfl⟩

/-- The declaration of the interface that extends two others. -/
def topDeclaration : Declaration :=
  ⟨"Top", "interface", interfaceNode 1 "Top" [] [plainBase "Left", plainBase "Right"]
    [memberNode 5 "a" stringNode], false, none, none⟩

/-- The interface that extends two others has the names of all four, and its own member hides the
one of its name. -/
theorem circle_inherited :
    ∃ properties after,
      (do propertiesOf (← declarationType topDeclaration heirsModule)) heirsTree
        ⟨fresh (.ofRoot []), []⟩ = (.ok properties, after) ∧
      after.state.expanding = [] ∧
      Inherited heirsTree (.ofRoot []) topHeir properties ∧
      properties.map Property.name = ["a", "b", "d", "c"] := by
  have answers : ((do propertiesOf (← declarationType topDeclaration heirsModule) :
      Task Session (List (Property TypeTerm))).outcomeFrom heirsTree (fresh (.ofRoot []))).map
        (List.map Property.name) = .ok ["a", "b", "d", "c"] := by decide +kernel
  obtain ⟨properties, last, ran, names⟩ := Task.exists_of_outcomeFrom answers
  have starts : FromTree heirsTree (.ofRoot [])
      (⟨fresh (.ofRoot []), []⟩ : Journal Session).state := fromTree_fresh
  have has : heirsModule.Has topDeclaration := .inl ⟨"Top", .head _⟩
  have declares : Declares heirsModule topDeclaration topHeir :=
    .named rfl rfl (by decide) (.head _) rfl
  obtain ⟨outcome, after, ranAgain, idle, ofOne⟩ :=
    inheritance_collected standsIn_heirsModule has declares (circle_founded (.head _)) starts rfl
  rw [ran] at ranAgain
  cases ranAgain
  cases ofOne with
  | ok inherited => exact ⟨properties, _, ran, idle, inherited, names⟩

/-! ## A base with a backslash -/

/-- A base with a text that has a backslash as its argument. -/
def escapingBase : Node :=
  .mk "generic_type" true none 0 1 "B<'\\1'>" [nameNode "type_identifier" "name" "B",
    .mk "type_arguments" true (some "type_arguments") 0 1 "" [
      .mk "literal_type" true none 0 1 "'\\1'" []]]

/-- The member whose type are the keys of the type parameter. -/
def keysMember : Node := memberNode 5 "x" (.mk "index_type_query" true none 0 1 "keyof T" [])

/-- The file in which an interface extends a generic one. -/
def escapingFile : Node := program [
  interfaceNode 1 "B" [parameterNode "T" []] [] [keysMember],
  interfaceNode 2 "D" [] [escapingBase] []]

/-- A file tree with the file. -/
def escapingTree : FileTree := ⟨.directory [("a.ts", .file .empty (some escapingFile))], []⟩

/-- The module of the file. -/
def escapingModule : SourceModule := .ofTree (.ofRoot ["a.ts"]) .plain escapingFile

/-- The declaration of the interface that extends the other one. -/
def escapingDeclaration : Declaration :=
  ⟨"D", "interface", interfaceNode 2 "D" [] [escapingBase] [], false, none, none⟩

/-- The interface that extends the other one, and this one. -/
def escapingHeirs : List Heir := [interfaceHeir 2 "D" [] [escapingBase] [] escapingModule,
  interfaceHeir 1 "B" [parameterNode "T" []] [] [keysMember] escapingModule]

theorem escapingHeirs_founded {heir : Heir} (member : heir ∈ escapingHeirs) :
    heir.Founded escapingTree (.ofRoot []) := by
  refine Heir.founded_of_mem ?_ ?_ (by decide +kernel) member
  · rintro heir (_ | ⟨_, _ | ⟨_, ⟨⟩⟩⟩) base (_ | ⟨_, ⟨⟩⟩)
    exact .inl rfl
  · rintro heir (_ | ⟨_, _ | ⟨_, ⟨⟩⟩⟩) use (_ | ⟨_, ⟨⟩⟩)
    exact ⟨_, .tail _ (.head _), denotes_of_known (by decide) (by decide) (by decide) rfl rfl⟩

/-- Both bases are declared and nothing leads back, but the properties cannot be asked for. -/
theorem escape_stops_inheritance :
    escapingModule.StandsIn escapingTree ∧ escapingModule.Has escapingDeclaration ∧
      (∃ heir ∈ escapingHeirs, Declares escapingModule escapingDeclaration heir ∧
        heir.Founded escapingTree (.ofRoot [])) ∧
      (do propertiesOf (← declarationType escapingDeclaration escapingModule) :
        Task Session (List (Property TypeTerm))).outcomeFrom escapingTree (fresh (.ofRoot [])) =
          .error (.replacement .unknownGroup) :=
  ⟨⟨⟨["a.ts"], _, rfl, rfl, rfl, by unfold FileTree.IsPlain; decide⟩, rfl⟩, .inl ⟨"D", .head _⟩,
    ⟨_, .head _, .named rfl rfl (by decide) (.head _) rfl, escapingHeirs_founded (.head _)⟩, rfl⟩

end Types
end ModuleAtlas
