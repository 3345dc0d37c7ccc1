import ModuleAtlas.Proofs.Types.Additions
import ModuleAtlas.Proofs.Types.Heritage

/-!
# Reading heirs

An interface or a class is read in two parts: its own members, of which the first one of each name
gives a property, and the bases that it names, each of which becomes a reference with a cell of its
own that nothing is known about yet.
-/

namespace ModuleAtlas
namespace Types

open Session

variable {tree : FileTree} {root : Path} {scope : Scope TypeTerm} {journal after : Journal Session}

/-! ## Own members -/

/-- The first entry of each name that is not among some names. -/
def newAmong (names : List String) (entries : List (String × Node)) : List (String × Node) :=
  (firsts entries).filter fun entry => !names.contains entry.1

theorem newAmong_nil (entries : List (String × Node)) : newAmong [] entries = firsts entries :=
  List.filter_eq_self.mpr fun _ _ => rfl

theorem newAmong_cons_of_mem {names : List String} {entry : String × Node} (known : entry.1 ∈ names)
    (rest : List (String × Node)) :
    newAmong names (entry :: rest) = newAmong names rest := by
  unfold newAmong
  rw [firsts, List.filter_cons_of_neg (by simpa using known), List.filter_filter]
  refine List.filter_congr fun other _ => ?_
  by_cases same : other.1 = entry.1
  · simp [same, known]
  · simp [same]

theorem newAmong_cons_of_not_mem {names : List String} {entry : String × Node}
    (unknown : entry.1 ∉ names) (rest : List (String × Node)) :
    newAmong names (entry :: rest) = entry :: newAmong (names ++ [entry.1]) rest := by
  unfold newAmong
  rw [firsts, List.filter_cons_of_pos (by simpa using unknown), List.filter_filter]
  congr 1
  refine List.filter_congr fun other _ => ?_
  rw [List.contains_eq_any_beq, List.contains_eq_any_beq, List.any_append, List.any_cons,
    List.any_nil, Bool.or_false, Bool.not_or, bne]

/-- Merged properties belong to the first entries of their names, as far as these are new. -/
theorem merged_newAmong {relation : String × Node → Property TypeTerm → Prop}
    {entries : List (String × Node)} {properties : List (Property TypeTerm)}
    (named : ∀ entry property, relation entry property → property.name = entry.1)
    (related : Listwise relation entries properties) (found : List (Property TypeTerm)) :
    ∃ more, mergeProperties found properties = found ++ more ∧
      Listwise relation (newAmong (found.map Property.name) entries) more := by
  induction related generalizing found with
  | nil => exact ⟨[], (List.append_nil found).symm, .nil⟩
  | @cons entry property rest properties head _ ih =>
    have sameName := named entry property head
    rw [mergeProperties_cons, sameName]
    by_cases known : entry.1 ∈ found.map Property.name
    · rw [if_pos (by simpa using known), newAmong_cons_of_mem known]
      exact ih found
    · obtain ⟨more, merged, relatedMore⟩ := ih (found ++ [property])
      rw [if_neg (by simpa using known), newAmong_cons_of_not_mem known, merged]
      rw [List.map_append, List.map_cons, List.map_nil, sameName] at relatedMore
      exact ⟨property :: more, List.append_assoc _ _ _, .cons head relatedMore⟩

section Interfaces

variable {interface : Interface} {source : SourceModule}

/-- The properties of a body are given by the members with names. -/
theorem given_of_bodyMembers {nodes : List Node} {found : Members TypeTerm}
    (ran : bodyMembers scope nodes tree journal = (.ok found, after)) :
    Listwise ((Heir.ofInterface interface source).Gives tree scope)
      (namedMembers writtenName? nodes) found.properties := by
  induction nodes generalizing journal found with
  | nil =>
    cases ran
    exact .nil
  | cons node rest ih =>
    unfold bodyMembers at ran
    split at ran
    case isTrue call =>
      obtain ⟨signature, middle, _, ranRest⟩ := Task.exists_of_bind_eq_ok ran
      obtain ⟨more, _, ranMore, answered⟩ := Task.exists_of_bind_eq_ok ranRest
      cases answered
      have unnamed : writtenName? node = none := by
        simp [writtenName?, beq_iff_eq.mp call]
      rw [namedMembers, List.filterMap_cons_none (by rw [unnamed]; rfl)]
      have others : Listwise _ _ more.properties := ih ranMore
      exact others
    case isFalse =>
      obtain ⟨property, middle, ranProperty, ranRest⟩ := Task.exists_of_bind_eq_ok ran
      obtain ⟨more, _, ranMore, answered⟩ := Task.exists_of_bind_eq_ok ranRest
      cases answered
      have named := returns_signatureProperty scope node tree journal property middle ranProperty
      have others := ih ranMore
      cases property with
      | none =>
        rw [namedMembers, List.filterMap_cons_none (by rw [← named]; rfl)]
        exact others
      | some property =>
        rw [namedMembers, List.filterMap_cons_some (by rw [← named]; rfl)]
        exact .cons ⟨rfl, journal, middle, ranProperty⟩ others

end Interfaces

/-- What a member shows is what others see of it, if it shows anything. -/
theorem shownName?_eq (member : Node) :
    shownName? member = none ∨ shownName? member = visibleName? member := by
  unfold shownName?
  split
  · exact .inr rfl
  · split
    · exact .inl rfl
    · exact .inr rfl
  · split
    · exact .inl rfl
    · exact .inr rfl
  · split
    · exact .inl rfl
    · exact .inr rfl
  · exact .inl rfl

/-- A member of a class with a visible name either has a type or can only be set. -/
theorem returns_memberType (scope : Scope TypeTerm) (member : Node) :
    Task.Returns (memberType scope member) fun type =>
      shownName? member = if type.isSome then visibleName? member else none := by
  unfold memberType
  split
  case h_1 kind =>
    have shown : shownName? member = visibleName? member := by simp [shownName?, kind]
    rw [shown]
    split
    · exact (Task.returns_any _).bind fun _ _ => Task.returns_pure rfl
    · exact (Task.returns_any _).bind fun _ _ => Task.returns_pure rfl
    · exact Task.returns_pure rfl
  case h_2 kind | h_3 kind | h_4 kind =>
    have shown :
        shownName? member = if member.hasChild "set" then none else visibleName? member := by
      simp [shownName?, kind]
    rw [shown]
    split
    · exact Task.returns_pure rfl
    · exact (Task.returns_any _).bind fun _ _ => Task.returns_pure rfl
  case h_5 field definition signature abstract =>
    refine Task.returns_pure ?_
    unfold shownName?
    split
    · exact absurd ‹_› field
    · exact absurd ‹_› definition
    · exact absurd ‹_› signature
    · exact absurd ‹_› abstract
    · rfl

/-- The properties of a class are given by the first shown members of each name. -/
theorem given_of_classProperties (node : Node) (source : SourceModule) {nodes : List Node}
    {found properties : List (Property TypeTerm)}
    (ran : classProperties scope found nodes tree journal = (.ok properties, after)) :
    ∃ more, properties = found ++ more ∧
      Listwise ((Heir.ofClass node source).Gives tree scope)
        (newAmong (found.map Property.name) (namedMembers shownName? nodes)) more := by
  induction nodes generalizing journal found with
  | nil =>
    cases ran
    exact ⟨[], (List.append_nil _).symm, .nil⟩
  | cons member rest ih =>
    have skipped : shownName? member = none →
        namedMembers shownName? (member :: rest) = namedMembers shownName? rest :=
      fun hidden => List.filterMap_cons_none (by rw [hidden]; rfl)
    cases visible : visibleName? member with
    | none =>
      rw [classProperties, visible] at ran
      rw [skipped ((shownName?_eq member).elim id fun shown => shown.trans visible)]
      exact ih ran
    | some name =>
      rw [classProperties, visible] at ran
      dsimp only at ran
      split at ran
      case isTrue known =>
        rw [any_named_eq] at known
        rcases shownName?_eq member with hidden | shown
        · rw [skipped hidden]
          exact ih ran
        · rw [namedMembers, List.filterMap_cons_some (by rw [shown, visible]; rfl),
            newAmong_cons_of_mem (by simpa using known)]
          exact ih ran
      case isFalse unknown =>
        rw [any_named_eq] at unknown
        obtain ⟨type, middle, ranType, ranRest⟩ := Task.exists_of_bind_eq_ok ran
        have decided := returns_memberType scope member tree journal type middle ranType
        cases type with
        | none =>
          rw [skipped decided]
          exact ih ranRest
        | some type =>
          have shown : shownName? member = some name := decided.trans visible
          rw [namedMembers, List.filterMap_cons_some (by rw [shown]; rfl),
            newAmong_cons_of_not_mem (by simpa using unknown)]
          obtain ⟨more, rfl, given⟩ := ih ranRest
          rw [List.map_append, List.map_cons, List.map_nil] at given
          exact ⟨_, List.append_assoc _ _ _, .cons ⟨rfl, journal, middle, ranType, rfl⟩ given⟩

/-! ## Bases that are waiting -/

/-- The types that were read for bases: a reference with a cell of its own for each use of a type,
about which nothing is known yet, and texts for the comments between them. -/
inductive Awaiting (scope : Scope TypeTerm) (session : Session) :
    Nat → List Use → List TypeTerm → Prop where
  | nil {low : Nat} :
      Awaiting scope session low [] []
  | comment {low : Nat} {code : String} {uses : List Use} {types : List TypeTerm}
      (others : Awaiting scope session low uses types) :
      Awaiting scope session low uses (.verbatim code :: types)
  | base {low cell : Nat} {code : String} {use : Use} {uses : List Use} {types : List TypeTerm}
      (new : low ≤ cell)
      (present : cell < session.cells.size)
      (unknown : session.cell cell = ⟨none, none, none⟩)
      (others : Awaiting scope session (cell + 1) uses types) :
      Awaiting scope session low (use :: uses)
        (.reference cell code use.name scope use.arguments :: types)

section Waiting

variable {session later : Session} {low : Nat} {uses others : List Use}
  {types otherTypes : List TypeTerm} {touched : Nat → Prop}

/-- Bases go on waiting while other cells are touched. -/
theorem Awaiting.kept (awaiting : Awaiting scope session low uses types)
    (adds : Adds tree root touched session later) (apart : ∀ index, touched index → index < low) :
    Awaiting scope later low uses types := by
  induction awaiting with
  | nil => exact .nil
  | comment _ ih => exact .comment (ih apart)
  | @base low cell code use uses types new present unknown _ ih =>
    refine .base new (Nat.lt_of_lt_of_le present adds.size) ?_ (ih ?_)
    · rw [adds.cells cell present fun isTouched =>
        absurd (apart cell isTouched) (Nat.not_lt.mpr new), unknown]
    · exact fun index isTouched =>
        Nat.lt_succ_of_le (Nat.le_trans (Nat.le_of_lt (apart index isTouched)) new)

theorem Awaiting.from_later {high : Nat} (awaiting : Awaiting scope session high uses types)
    (below : low ≤ high) :
    Awaiting scope session low uses types := by
  induction awaiting with
  | nil => exact .nil
  | comment _ ih => exact .comment (ih below)
  | base new present unknown others _ =>
    exact .base (Nat.le_trans below new) present unknown others

/-- Bases that were read later wait behind those that were read before. -/
theorem Awaiting.append (awaiting : Awaiting scope session low uses types)
    (below : low ≤ session.cells.size) (adds : Adds tree root (fun _ => False) session later)
    (more : Awaiting scope later session.cells.size others otherTypes) :
    Awaiting scope later low (uses ++ others) (types ++ otherTypes) := by
  induction awaiting with
  | nil => exact more.from_later below
  | comment _ ih => exact .comment (ih below)
  | @base low cell code use uses types new present unknown _ ih =>
    refine .base new (Nat.lt_of_lt_of_le present adds.size) ?_ (ih present)
    rw [adds.cells cell present not_false, unknown]

end Waiting

/-- A reference has a new cell. -/
theorem newReference_ran (tree : FileTree) (journal : Journal Session)
    (plain : scope.pending = none) (name code : String) (arguments : List Node) :
    ∃ text, newReference scope name code arguments tree journal =
      (.ok (.reference journal.state.cells.size text name scope arguments), allocated journal) := by
  obtain ⟨source, parameters, pending⟩ := scope
  cases plain
  exact ⟨_, rfl⟩

/-- Nothing is known yet about a cell that was allocated. -/
theorem cell_allocated (journal : Journal Session) :
    (allocated journal).state.cell journal.state.cells.size = ⟨none, none, none⟩ := by
  simp [cell, allocated]

theorem awaiting_allocated {low : Nat} {code : String} {use : Use}
    (below : low ≤ journal.state.cells.size) :
    Awaiting scope (allocated journal).state low [use]
      [.reference journal.state.cells.size code use.name scope use.arguments] :=
  .base below (by simp [allocated]) (cell_allocated journal) .nil

/-- What a scope has no value for is not found in it. -/
theorem find?_parameters_eq_none {name : String} {parameters : List (String × TypeTerm)}
    (unbound : name ∉ parameters.map Prod.fst) :
    Keyed.find? name parameters = none := by
  rw [Keyed.find?, List.lookup_eq_none_iff]
  intro entry member
  rw [bne_iff_ne]
  rintro rfl
  exact unbound (List.mem_map.mpr ⟨entry, member, rfl⟩)

/-- The syntax of a type is read from its node; the nodes below have what fuel is left. -/
theorem typeOf_eq_read (scope : Scope TypeTerm) (node : Node) :
    typeOf scope node = ofAnnotated (readWith scope (height node - 1)) scope node := by
  cases node
  rfl

section Bases

variable {generic : Prop} {α : Type}

/-- A base of an interface is read to a reference with a cell of its own. -/
theorem comes_typeOf_base {node : Node} {use : Use} (allowed : scope.parameters ≠ [] → generic)
    (plain : scope.pending = none) (uses : useOf? node = some use)
    (unbound : use.name ∉ scope.parameters.map Prod.fst)
    (fromTree : FromTree tree root journal.state) :
    Task.Comes tree (Refusal generic) journal (typeOf scope node) fun type after =>
      Adds tree root (fun _ => False) journal.state after.state ∧
        Awaiting scope after.state journal.state.cells.size [use] [type] := by
  have refers : ∀ (code : String) (between : Journal Session),
      Adds tree root (fun _ => False) journal.state between.state →
      Task.Comes tree (Refusal generic) between (newReference scope use.name code use.arguments)
        fun type after => Adds tree root (fun _ => False) journal.state after.state ∧
          Awaiting scope after.state journal.state.cells.size [use] [type] := by
    intro code between adds
    obtain ⟨text, ran⟩ := newReference_ran tree between plain use.name code use.arguments
    exact Task.comes_of_ok ran
      ⟨adds.trans (adds_allocated adds.fromTree) fun _ _ => id, awaiting_allocated adds.size⟩
  rw [typeOf_eq_read]
  unfold useOf? at uses
  split at uses
  case h_1 kind | h_2 kind =>
    cases uses
    simp only [ofAnnotated, kind, find?_parameters_eq_none unbound]
    exact refers node.text journal (.refl fromTree)
  case h_3 kind =>
    cases uses
    simp only [ofAnnotated, kind]
    exact refers node.text journal (.refl fromTree)
  case h_4 kind =>
    cases uses
    simp only [ofAnnotated, kind]
    have reads : Reads (fun _ => Additive tree root generic) scope := reads_additive allowed
    refine (reads_genericCode reads (reads_readWith reads _) _ _ journal fromTree).bind ?_
    exact refers
  case h_5 => cases uses

/-- A comment among the bases is read to its text. -/
theorem comes_typeOf_comment {node : Node} (allowed : scope.parameters ≠ [] → generic)
    (comment : node.kind = "comment") (fromTree : FromTree tree root journal.state) :
    Task.Comes tree (Refusal generic) journal (typeOf scope node) fun type after =>
      Adds tree root (fun _ => False) journal.state after.state ∧
        Awaiting scope after.state journal.state.cells.size [] [type] := by
  rw [typeOf_eq_read]
  simp only [ofAnnotated, comment]
  refine ((reads_additive allowed).codeOf node journal fromTree).map fun code after adds => ?_
  exact ⟨adds, .comment .nil⟩

/-- What waits after each of some nodes, waits after all of them. -/
theorem comes_mapM_awaiting {nodes : List Node} {step : Node → Task Session α}
    (scope : Scope TypeTerm) (usesOf : Node → Option Use) (image : α → List TypeTerm)
    (each : ∀ node ∈ nodes, ∀ journal : Journal Session, FromTree tree root journal.state →
      Task.Comes tree (Refusal generic) journal (step node) fun value after =>
        Adds tree root (fun _ => False) journal.state after.state ∧
          Awaiting scope after.state journal.state.cells.size (usesOf node).toList (image value))
    (fromTree : FromTree tree root journal.state) :
    Task.Comes tree (Refusal generic) journal (nodes.mapM step) fun values after =>
      Adds tree root (fun _ => False) journal.state after.state ∧
        Awaiting scope after.state journal.state.cells.size (nodes.filterMap usesOf)
          (values.flatMap image) := by
  induction nodes generalizing journal with
  | nil => exact Task.comes_pure ⟨.refl fromTree, .nil⟩
  | cons node rest ih =>
    have parts : (node :: rest).filterMap usesOf =
        (usesOf node).toList ++ rest.filterMap usesOf := by
      rw [List.filterMap_cons]
      cases usesOf node <;> rfl
    rw [List.mapM_cons, parts]
    have here := each node List.mem_cons_self journal fromTree
    refine here.bind fun value between ⟨adds, first⟩ => ?_
    have later : ∀ node ∈ rest, _ :=
      fun other member => each other (List.mem_cons_of_mem _ member)
    refine (ih later adds.fromTree).map fun values after ⟨further, others⟩ => ?_
    exact ⟨adds.trans further fun _ _ => id, first.append adds.size further others⟩

/-- The bases of an interface are read to references that wait. -/
theorem comes_bases {nodes : List Node} (allowed : scope.parameters ≠ [] → generic)
    (plain : scope.pending = none)
    (names : ∀ node ∈ nodes, (useOf? node).isSome ∨ node.kind = "comment")
    (unbound : ∀ use ∈ nodes.filterMap useOf?, use.name ∉ scope.parameters.map Prod.fst)
    (fromTree : FromTree tree root journal.state) :
    Task.Comes tree (Refusal generic) journal (nodes.mapM (typeOf scope)) fun types after =>
      Adds tree root (fun _ => False) journal.state after.state ∧
        Awaiting scope after.state journal.state.cells.size (nodes.filterMap useOf?) types := by
  have each : ∀ node ∈ nodes, ∀ journal : Journal Session, FromTree tree root journal.state →
      Task.Comes tree (Refusal generic) journal (typeOf scope node) fun type after =>
        Adds tree root (fun _ => False) journal.state after.state ∧
          Awaiting scope after.state journal.state.cells.size (useOf? node).toList [type] := by
    intro node member journal fromTree
    cases uses : useOf? node with
    | some use =>
      have used := List.mem_filterMap.mpr ⟨node, member, uses⟩
      exact comes_typeOf_base allowed plain uses (unbound use used) fromTree
    | none =>
      refine comes_typeOf_comment allowed ?_ fromTree
      exact (names node member).resolve_left (by simp [uses])
  have all := comes_mapM_awaiting scope useOf? (fun type => [type]) each fromTree
  refine all.imp fun types after _ ⟨adds, waiting⟩ => ⟨adds, ?_⟩
  rwa [List.flatMap_singleton'] at waiting

/-- An interface is read to what its members give and to its bases, which wait. -/
theorem comes_interfaceParts (interface : Interface) (source : SourceModule)
    {declarations : List Declaration} (allowed : scope.parameters ≠ [] → generic)
    (plain : scope.pending = none)
    (names : ∀ node ∈ declarations.flatMap fun declaration => baseNodes declaration.node,
      (useOf? node).isSome ∨ node.kind = "comment")
    (unbound : ∀ use ∈ (declarations.flatMap fun declaration =>
      baseNodes declaration.node).filterMap useOf?, use.name ∉ scope.parameters.map Prod.fst)
    (fromTree : FromTree tree root journal.state) :
    Task.Comes tree (Refusal generic) journal (interfaceParts scope declarations)
      fun parts after => Adds tree root (fun _ => False) journal.state after.state ∧
        Listwise ((Heir.ofInterface interface source).Gives tree scope)
          (namedMembers writtenName? (declarations.flatMap fun declaration =>
            bodyNodes declaration.node)) parts.1.properties ∧
        Awaiting scope after.state journal.state.cells.size
          ((declarations.flatMap fun declaration => baseNodes declaration.node).filterMap useOf?)
          parts.2 := by
  have reads : Reads (fun _ => Additive tree root generic) scope := reads_additive allowed
  refine (reads_interfaceParts reads declarations journal fromTree).imp ?_
  intro ⟨own, bases⟩ after ran adds
  refine ⟨adds, ?_⟩
  clear adds
  induction declarations generalizing journal own bases with
  | nil =>
    cases ran
    exact ⟨.nil, .nil⟩
  | cons declaration rest ih =>
    obtain ⟨members, between, here, middle, more, others, ranBody, ranBases, ranRest,
      sameProperties, rfl⟩ := interfaceParts_cons_returns ran
    have bodyAdds := (reads_bodyMembers reads _ journal fromTree).of_ran ranBody
    simp only [List.flatMap_cons, List.filterMap_append, List.mem_append, or_imp,
      forall_and] at names unbound ⊢
    obtain ⟨basesAdds, waiting⟩ :=
      (comes_bases allowed plain names.1 unbound.1 bodyAdds.fromTree).of_ran ranBases
    obtain ⟨given, further⟩ :=
      ih names.2 unbound.2 basesAdds.fromTree more others ranRest
    have restAdds := (reads_interfaceParts reads _ middle basesAdds.fromTree).of_ran ranRest
    refine ⟨?_, ?_⟩
    · rw [sameProperties, namedMembers, List.filterMap_append]
      exact (given_of_bodyMembers ranBody).append given
    · have waitingHere := waiting.from_later bodyAdds.size
      exact waitingHere.append (bodyAdds.trans basesAdds fun _ _ => id).size restAdds further

/-- The bases of a class are read to references that wait. -/
theorem comes_classBases {node : Node} (plain : scope.pending = none)
    (fromTree : FromTree tree root journal.state) :
    Task.Comes tree (Refusal generic) journal (classBases scope node) fun types after =>
      Adds tree root (fun _ => False) journal.state after.state ∧
        Awaiting scope after.state journal.state.cells.size
          ((extendsClauses node).filterMap clauseUse?) types := by
  unfold classBases
  refine (comes_mapM_awaiting scope clauseUse? Option.toList ?_ fromTree).map
    fun types after ⟨adds, waiting⟩ => ⟨adds, ?_⟩
  · intro clause _ journal fromTree
    split
    case h_1 value written =>
      simp only [clauseUse?, written]
      split
      · obtain ⟨text, ran⟩ :=
          newReference_ran tree journal plain value.text "" (typeArguments clause)
        exact Task.comes_of_ok (Task.bind_of_ok ran)
          ⟨adds_allocated fromTree, awaiting_allocated (Nat.le_refl _)⟩
      · exact Task.comes_pure ⟨.refl fromTree, .nil⟩
    case h_2 missing =>
      simp only [clauseUse?, missing]
      exact Task.comes_pure ⟨.refl fromTree, .nil⟩
  · have kept : types.filterMap id = types.flatMap Option.toList :=
      List.filterMap_eq_flatMap_toList _ _
    rw [kept]
    exact waiting

end Bases

end Types
end ModuleAtlas
