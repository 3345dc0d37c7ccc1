import ModuleAtlas.Proofs.Types.StructureTwins

/-!
# The members of object types in twin runs

Object types that are alike have members that are alike.  A declaration whose members are being
collected contributes none to itself; twin runs collect the members of the same declarations at the
same time, so they leave out the same.
-/

namespace ModuleAtlas
namespace Types

open Node Session Spelling

variable {edition : Edition} {links more : Links}

/-! ## Members that are written -/

section Scopes

variable {scope twin : Scope TypeTerm} {member copy : Node}

theorem followed_indexProperty (scopes : AlikeScope edition.revision links scope twin)
    (copied : Copied edition.revision.anywhere member copy)
    (isIndex : copy.kind = "index_signature") :
    Followed edition links (fun links => Option.Rel (AlikeProperty edition.revision links))
      (match member.child? "name", member.child? "index_type", member.child? "type" with
        | some name, some index, some written => do
          let type ← typeOf scope written
          return some ⟨"[" ++ name.text ++ ": " ++ index.text ++ "]", false, type⟩
        | _, _, _ => return none)
      (match copy.child? "name", copy.child? "index_type", copy.child? "type" with
        | some name, some index, some written => do
          let type ← typeOf twin written
          return some ⟨"[" ++ name.text ++ ": " ++ index.text ++ "]", false, type⟩
        | _, _, _ => return none) := by
  rcases optionRel_cases (copied.child?_name "name" (by decide) fun _ => by
      rw [copied.kind_eq, isIndex]
      decide) with
    ⟨none, noCopy⟩ | ⟨name, nameCopy, found, copyFound, _, nameNamed⟩
  · rw [none, noCopy]
    exact followed_pure .none
  rw [found, copyFound]
  rcases optionRel_cases (copied.child?_name "index_type" (by decide) (by simp)) with
    ⟨none, noCopy⟩ | ⟨index, indexCopy, found, copyFound, _, indexNamed⟩
  · rw [none, noCopy]
    exact followed_pure .none
  rw [found, copyFound]
  rcases optionRel_cases (copied.child?_type "type" (.inl rfl)) with
    ⟨none, noCopy⟩ | ⟨type, typeCopy, found, copyFound, written⟩
  · rw [none, noCopy]
    exact followed_pure .none
  rw [found, copyFound]
  dsimp only
  have nameFixed := nameNamed.fixed
  have indexFixed := indexNamed.fixed
  rw [nameNamed.same] at nameFixed ⊢
  rw [indexNamed.same] at indexFixed ⊢
  have fixed : edition.revision.spelling.Fixed
      ("[" ++ nameCopy.text ++ ": " ++ indexCopy.text ++ "]") :=
    edition.revision.spelling.append (parted (edition.revision.spelling.append
      (edition.revision.spelling.own (by decide)) nameFixed (.inl (by decide))) indexFixed
      (by decide)) (edition.revision.spelling.own (by decide)) (.inr (by decide))
  exact (followed_typeOf scopes written).map fun _ _ _ _ alike => .some ⟨alike, fixed⟩

/-- A member is read as related properties. -/
theorem followed_signatureProperty (scopes : AlikeScope edition.revision links scope twin)
    (copied : Copied edition.revision.anywhere member copy) :
    Followed edition links (fun links => Option.Rel (AlikeProperty edition.revision links))
      (signatureProperty scope member) (signatureProperty twin copy) := by
  have named := fun (other : copy.kind ≠ "type_parameter") =>
    copied.child?_name "name" (by decide) fun _ => copied.kind_eq ▸ other
  unfold signatureProperty
  rw [copied.kind_eq, copied.hasChild_eq (by decide)]
  split
  case h_1 kind =>
    have named := named (by rw [kind]; decide)
    have fixed := fixed_propertyName named
    rw [propertyName_eq_of_copied named] at fixed ⊢
    rcases optionRel_cases (copied.child?_type "type" (.inl rfl)) with
      ⟨none, noCopy⟩ | ⟨type, typeCopy, found, copyFound, written⟩
    · rw [none, noCopy]
      exact followed_pure (.some ⟨alike_primitive (by decide), fixed⟩)
    · rw [found, copyFound]
      exact (followed_typeOf scopes written).map fun _ _ _ _ alike => .some ⟨alike, fixed⟩
  case h_2 kind =>
    have named := named (by rw [kind]; decide)
    have fixed := fixed_propertyName named
    rw [propertyName_eq_of_copied named] at fixed ⊢
    refine (followed_signature scopes copied).map fun _ _ _ _ related => ?_
    exact .some ⟨.function (.cons related .nil) (edition.revision.spelling.own (by decide)), fixed⟩
  case h_3 kind => exact followed_indexProperty scopes copied kind
  case h_4 => exact followed_pure .none

/-- Comments in a body give no members. -/
theorem bodyMembers_comment (start line : Nat) (text : String) (rest : List Node) :
    bodyMembers scope (comment start line text :: rest) = bodyMembers scope rest := by
  have same : bodyMembers scope (comment start line text :: rest) =
      bodyMembers scope rest >>= pure := rfl
  rw [same, bind_pure]

/-- Comments among the members change no member. -/
theorem followed_bodyMembers {members copies : List Node}
    (scopes : AlikeScope edition.revision links scope twin)
    (interleaved : Interleaved (Copied edition.revision.anywhere) members copies) :
    Followed edition links (AlikeMembers edition.revision) (bodyMembers scope members)
      (bodyMembers twin copies) := by
  induction interleaved generalizing links with
  | nil => exact followed_pure ⟨.nil, .nil⟩
  | insert start line text _ ih =>
    rw [bodyMembers_comment]
    exact ih scopes
  | cons copied _ ih =>
    unfold bodyMembers
    rw [copied.kind_eq]
    split
    · refine (followed_signature scopes copied).bind fun more below call other related => ?_
      refine (ih (scope_mono below scopes)).map ?_
      rintro most further _ _ ⟨properties, signatures⟩
      exact ⟨properties, .cons (persists_signature _ _ further _ _ related) signatures⟩
    · refine (followed_signatureProperty scopes copied).bind ?_
      intro more below property other related
      refine (ih (scope_mono below scopes)).map ?_
      rintro most further _ _ ⟨properties, signatures⟩
      exact ⟨(properties_mono further (optionToList_related related)).append properties, signatures⟩

/-- Related scopes have related scopes for their members. -/
theorem followed_memberScope (scopes : AlikeScope edition.revision links scope twin) :
    Followed edition links (AlikeScope edition.revision) (memberScope scope)
      (memberScope twin) := by
  obtain ⟨parameters, pending, revised⟩ := scopes
  cases pending with
  | none => exact followed_pure ⟨parameters, .none, revised⟩
  | some linked =>
    refine (followed_parametersIn linked).map fun more below found other related => ?_
    refine ⟨?_, .some (below.lists _ _ linked), revised⟩
    cases related with
    | none => exact values_mono below parameters
    | some related => exact related

/-- The nodes in the body of a declaration. -/
theorem interleaved_body {change : Change} (copied : Copied change member copy) :
    Interleaved (Copied change) member.namedChildren copy.namedChildren := by
  exact copied.namedChildren.mono fun _ _ _ part => part.copied

/-! ## Interfaces and classes -/

theorem anyNamed_eq {properties others : List (Property TypeTerm)}
    (related : Listwise (AlikeProperty edition.revision links) properties others) (name : String) :
    (properties.any fun property => property.name == name) =
      others.any fun property => property.name == name := by
  refine related.any_eq ?_
  rintro _ _ ⟨_⟩
  rfl

/-- Related properties are merged alike. -/
theorem mergeProperties_related {own others more moreOthers : List (Property TypeTerm)}
    (related : Listwise (AlikeProperty edition.revision links) own others)
    (moreRelated : Listwise (AlikeProperty edition.revision links) more moreOthers) :
    Listwise (AlikeProperty edition.revision links) (mergeProperties own more)
      (mergeProperties others moreOthers) := by
  refine moreRelated.foldl related ?_
  rintro found otherFound _ _ foundRelated ⟨alike, fixed⟩
  dsimp only
  rw [anyNamed_eq foundRelated]
  split
  · exact foundRelated
  · exact foundRelated.append (.cons ⟨alike, fixed⟩ .nil)

/-- Own members and bases that are alike. -/
def AlikeParts (revision : Revision) (links : Links)
    (parts others : Members TypeTerm × List TypeTerm) : Prop :=
  AlikeMembers revision links parts.1 others.1 ∧ Listwise (Alike revision links) parts.2 others.2

/-- The types that an interface extends. -/
theorem written_extended {change : Change} (copied : Copied change member copy) :
    Listwise (CopiedType change)
      ((member.namedChildren.filter fun child => child.kind == "extends_type_clause").flatMap
        Node.namedChildren)
      ((copy.namedChildren.filter fun child => child.kind == "extends_type_clause").flatMap
        Node.namedChildren) := by
  have clauses :=
    (copied.named_ofKind (show commentKind ≠ "extends_type_clause" by decide)).with_origin
  refine clauses.flatMap ?_
  rintro clause clauseCopy ⟨part, listed⟩
  have isClause : clause.kind = "extends_type_clause" := eq_of_beq (List.mem_filter.mp listed).2
  refine part.copied.every_type ?_ ?_ <;> rw [isClause] <;> decide

/-- The parts of a declaration, put before those of the declarations that follow. -/
theorem followed_addParts {members others : Members TypeTerm} {declaration other : Declaration}
    {rest copies : List Declaration} (scopes : AlikeScope edition.revision links scope twin)
    (membersRelated : AlikeMembers edition.revision links members others)
    (revised : Declaration.Revised edition.revision.anywhere declaration other)
    (later : ∀ {links}, AlikeScope edition.revision links scope twin →
      Followed edition links (AlikeParts edition.revision) (interfaceParts scope rest)
        (interfaceParts twin copies)) :
    Followed edition links (AlikeParts edition.revision)
      (do
        let bases ← ((declaration.node.namedChildren.filter fun child =>
          child.kind == "extends_type_clause").flatMap Node.namedChildren).mapM (typeOf scope)
        let (further, others) ← interfaceParts scope rest
        return (⟨members.properties ++ further.properties,
          members.signatures ++ further.signatures⟩, bases ++ others))
      (do
        let bases ← ((other.node.namedChildren.filter fun child =>
          child.kind == "extends_type_clause").flatMap Node.namedChildren).mapM (typeOf twin)
        let (further, more) ← interfaceParts twin copies
        return (⟨others.properties ++ further.properties,
          others.signatures ++ further.signatures⟩, bases ++ more)) := by
  refine Followed.bind (followed_mapM persists_alike (written_extended revised.node)
    fun _ further _ _ => followed_typeOf (scope_mono further scopes)) ?_
  intro most below bases otherBases basesRelated
  refine (later (scope_mono below scopes)).map ?_
  rintro last beyond ⟨⟨_, _⟩, _⟩ ⟨⟨_, _⟩, _⟩ ⟨⟨properties, signatures⟩, others⟩
  obtain ⟨ownProperties, ownSignatures⟩ :=
    persists_members _ _ (below.trans beyond) _ _ membersRelated
  exact ⟨⟨ownProperties.append properties, ownSignatures.append signatures⟩,
    (alikes_mono beyond basesRelated).append others⟩

/-- An interface has related members and bases. -/
theorem followed_interfaceParts {declarations copies : List Declaration}
    (scopes : AlikeScope edition.revision links scope twin)
    (stand : Listwise (Declaration.Revised edition.revision.anywhere) declarations copies) :
    Followed edition links (AlikeParts edition.revision) (interfaceParts scope declarations)
      (interfaceParts twin copies) := by
  induction stand generalizing links with
  | nil => exact followed_pure ⟨⟨.nil, .nil⟩, .nil⟩
  | cons head _ ih =>
    have copied := head.node
    unfold interfaceParts
    dsimp only
    rcases optionRel_cases (copied.child? "body") with
      ⟨none, noCopy⟩ | ⟨body, bodyCopy, found, copyFound, bodyCopied⟩
    · rw [none, noCopy]
      exact followed_addParts scopes ⟨.nil, .nil⟩ head ih
    · rw [found, copyFound]
      exact (followed_bodyMembers scopes (interleaved_body bodyCopied)).bind
        fun more below _ _ related =>
          followed_addParts (scope_mono below scopes) related head ih

/-- What a member of a class shows to others is spelled in one way. -/
theorem visibleName?_eq {change : Change} (copied : Copied change member copy)
    (other : copy.kind ≠ "type_parameter") :
    visibleName? member = visibleName? copy ∧
      ∀ name, visibleName? copy = some name → change.spelling.Fixed name := by
  have modifiers : Option.Rel (fun modifier other : Node => modifier.text = other.text)
      (member.children.find? fun child => child.kind == "accessibility_modifier")
      (copy.children.find? fun child => child.kind == "accessibility_modifier") := by
    rw [← List.head?_filter, ← List.head?_filter]
    have listed :=
      (copied.ofKind (show commentKind ≠ "accessibility_modifier" by decide)).with_origin
    refine optionRel_mono listed.head? ?_
    rintro modifier modifierCopy ⟨part, inside⟩
    have isModifier : modifier.kind = "accessibility_modifier" :=
      eq_of_beq (List.mem_filter.mp inside).2
    exact (part.copied.name (by
      rw [isModifier]
      decide)).same
  unfold visibleName?
  rw [copied.hasChild_eq (by decide)]
  rcases optionRel_cases (copied.child?_name "name" (by decide) fun _ =>
      copied.kind_eq ▸ other) with
    ⟨none, noCopy⟩ | ⟨name, nameCopy, found, copyFound, named⟩
  · rw [none, noCopy]
    dsimp only
    rw [ite_self, ite_self]
    exact ⟨rfl, fun _ impossible => by cases impossible⟩
  · rw [found, copyFound]
    dsimp only
    have fixed := fixed_propertyName (.some named)
    rw [propertyName_eq_of_copied (.some named)] at fixed ⊢
    rw [named.1.kind_eq]
    constructor
    · rcases optionRel_cases modifiers with
        ⟨noModifier, noOther⟩ | ⟨modifier, other, modified, otherModified, sameText⟩
      · rw [noModifier, noOther]
      · simp only [modified, otherModified, sameText]
    · intro shown isShown
      simp only [Option.ite_none_left_eq_some, Option.some.injEq] at isShown
      exact isShown.2.2.2 ▸ fixed

theorem followed_memberType (scopes : AlikeScope edition.revision links scope twin)
    (copied : Copied edition.revision.anywhere member copy) :
    Followed edition links (fun links => Option.Rel (Alike edition.revision links))
      (memberType scope member) (memberType twin copy) := by
  have getter : member.hasChild "get" = copy.hasChild "get" := copied.hasChild_eq (by decide)
  have method : Followed edition links (fun links => Option.Rel (Alike edition.revision links))
      (do
        let call ← signature scope member
        return some (if member.hasChild "get" then call.returns else .function "" [call]))
      (do
        let call ← signature twin copy
        return some (if copy.hasChild "get" then call.returns else .function "" [call])) := by
    rw [getter]
    refine (followed_signature scopes copied).map ?_
    rintro _ _ _ _ ⟨parameters, returns⟩
    dsimp only
    split
    · exact .some returns
    · exact .some (.function (.cons ⟨parameters, returns⟩ .nil)
        (edition.revision.spelling.own (by decide)))
  unfold memberType
  rw [copied.kind_eq, copied.hasChild_eq (show commentKind ≠ "set" by decide)]
  split
  case h_1 =>
    rcases optionRel_cases (copied.child?_type "type" (.inl rfl)) with
      ⟨none, noCopy⟩ | ⟨type, typeCopy, found, copyFound, written⟩
    · rw [none, noCopy]
      rcases optionRel_cases (copied.child?_read "value" (by decide)) with
        ⟨none, noCopy⟩ | ⟨value, valueCopy, found, copyFound, valueCopied, read⟩
      · rw [none, noCopy]
        exact followed_pure (.some (alike_primitive (by decide)))
      · rw [found, copyFound]
        exact (followed_valueType scopes false ⟨valueCopied, read⟩).map fun _ _ _ _ => .some
    · rw [found, copyFound]
      exact (followed_typeOf scopes written).map fun _ _ _ _ => .some
  case h_5 => exact followed_pure .none
  all_goals
    split
    · exact followed_pure .none
    · exact method

theorem visibleName?_comment (start line : Nat) (text : String) :
    visibleName? (comment start line text) = none :=
  rfl

/-- What is no member is passed over, whatever its name is. -/
theorem classProperties_parameter (isParameter : member.kind = "type_parameter")
    (found : List (Property TypeTerm)) (rest : List Node) :
    classProperties scope found (member :: rest) = classProperties scope found rest := by
  have noType : memberType scope member = pure none := by
    unfold memberType
    rw [isParameter]
    rfl
  rw [classProperties, noType]
  cases visibleName? member with
  | none => rfl
  | some name => exact ite_self _

/-- A class has related properties. -/
theorem followed_classProperties {found others : List (Property TypeTerm)}
    {members copies : List Node} (scopes : AlikeScope edition.revision links scope twin)
    (related : Listwise (AlikeProperty edition.revision links) found others)
    (interleaved : Interleaved (Copied edition.revision.anywhere) members copies) :
    Followed edition links (fun links => Listwise (AlikeProperty edition.revision links))
      (classProperties scope found members) (classProperties twin others copies) := by
  induction interleaved generalizing links found others with
  | nil => exact followed_pure related
  | insert start line text _ ih =>
    rw [classProperties, visibleName?_comment]
    exact ih scopes related
  | @cons node copy rest restCopies copied _ ih =>
    by_cases isParameter : copy.kind = "type_parameter"
    · rw [classProperties_parameter (copied.kind_eq.trans isParameter),
        classProperties_parameter isParameter]
      exact ih scopes related
    obtain ⟨sameName, fixed⟩ := visibleName?_eq copied isParameter
    unfold classProperties
    rw [sameName, copied.hasChild_eq (by decide)]
    revert fixed
    generalize visibleName? copy = name
    intro fixed
    cases name with
    | none => exact ih scopes related
    | some name =>
      dsimp only
      rw [anyNamed_eq related]
      split
      · exact ih scopes related
      · refine (followed_memberType scopes copied).bind fun more below type twin alike => ?_
        have moreScopes := scope_mono below scopes
        have moreRelated := properties_mono below related
        cases alike with
        | none => exact ih moreScopes moreRelated
        | some alike =>
          exact ih moreScopes (moreRelated.append (.cons ⟨alike, fixed name rfl⟩ .nil))

theorem followed_classBases (scopes : AlikeScope edition.revision links scope twin)
    (copied : Copied edition.revision.anywhere member copy) :
    Followed edition links (fun links => Listwise (Alike edition.revision links))
      (classBases scope member) (classBases twin copy) := by
  have clauses : Listwise (Copied edition.revision.anywhere)
      (((member.namedChildren.filter fun child => child.kind == "class_heritage").flatMap
        Node.namedChildren).filter fun clause => clause.kind == "extends_clause")
      (((copy.namedChildren.filter fun child => child.kind == "class_heritage").flatMap
        Node.namedChildren).filter fun clause => clause.kind == "extends_clause") := by
    rw [List.filter_flatMap, List.filter_flatMap]
    have heritage := copied.named_ofKind (show commentKind ≠ "class_heritage" by decide)
    refine heritage.flatMap fun _ _ part => ?_
    exact (part.copied.named_ofKind (by decide)).mono fun _ _ clause => clause.copied
  unfold classBases
  dsimp only
  refine Followed.map (followed_mapM persists_alike.option clauses
    fun more below clause clauseCopy clauseCopied => ?_) fun _ _ _ _ related => related.filterMap_id
  rcases optionRel_cases (clauseCopied.child?_read "value" (by decide)) with
    ⟨none, noCopy⟩ | ⟨value, valueCopy, found, copyFound, valueCopied⟩
  · rw [none, noCopy]
    exact followed_pure .none
  · rw [found, copyFound]
    dsimp only
    rw [valueCopied.1.kind_eq]
    split
    · rename_i isName
      have name := name_of_callee valueCopied isName
      have fixed := name.fixed
      rw [name.same] at fixed ⊢
      exact (followed_newReference (scope_mono below scopes) fixed.names
        (edition.revision.spelling.own (by decide)) (written_typeArguments clauseCopied)).map
          fun _ _ _ _ => .some
    · exact followed_pure .none

end Scopes

/-! ## Inherited members -/

/-- Bases that are alike have properties that are alike. -/
def FindsAlike (edition : Edition) (links : Links)
    (find other : TypeTerm → Task Session (List (Property TypeTerm))) : Prop :=
  ∀ more, links.Below more → ∀ type twin, Alike edition.revision more type twin →
    Followed edition more (fun links => Listwise (AlikeProperty edition.revision links))
      (find type) (other twin)

theorem FindsAlike.mono {find other : TypeTerm → Task Session (List (Property TypeTerm))}
    (finds : FindsAlike edition links find other) (below : links.Below more) :
    FindsAlike edition more find other :=
  fun _ further => finds _ (below.trans further)

/-- Related bases give related properties. -/
theorem followed_inherit {find otherFind : TypeTerm → Task Session (List (Property TypeTerm))}
    {found others : List (Property TypeTerm)} {bases otherBases : List TypeTerm}
    (finds : FindsAlike edition links find otherFind)
    (basesRelated : Listwise (Alike edition.revision links) bases otherBases)
    (related : Listwise (AlikeProperty edition.revision links) found others) :
    Followed edition links (fun links => Listwise (AlikeProperty edition.revision links))
      (inherit find found bases) (inherit otherFind others otherBases) := by
  induction bases generalizing links found others otherBases with
  | nil =>
    cases basesRelated
    exact followed_pure related
  | cons base rest ih =>
    cases basesRelated with
    | cons head tail =>
      refine (finds links (.refl links) _ _ head).bind fun more below here twin alike => ?_
      exact ih (finds.mono below) (alikes_mono below tail)
        (mergeProperties_related (properties_mono below related) alike)

variable {collect : Task Session (Members TypeTerm)} {journal : Journal Session}

/-- Members that are alike have properties that are alike. -/
theorem followed_properties {other : Task Session (Members TypeTerm)}
    (followed : Followed edition links (AlikeMembers edition.revision) collect other) :
    Followed edition links (fun links => Listwise (AlikeProperty edition.revision links))
      (do return (← collect).properties) (do return (← other).properties) := by
  refine followed.map ?_
  rintro _ _ _ _ ⟨properties, _⟩
  exact properties

/-! ## Collecting members -/

/-- A declaration is being collected. -/
def entering (key : Path × Nat) (journal : Journal Session) : Journal Session :=
  ⟨{ journal.state with expanding := key :: journal.state.expanding }, journal.notices⟩

/-- A declaration is not being collected any more. -/
def leaving (key : Path × Nat) (journal : Journal Session) : Journal Session :=
  ⟨{ journal.state with expanding := journal.state.expanding.filter fun other => other != key },
    journal.notices⟩

variable {tree : FileTree}

/-- A declaration that is entered and left again is as it was. -/
theorem leaving_expanding {between : Journal Session} {key : Path × Nat}
    (fresh : journal.state.expanding.contains key = false)
    (same : between.state.expanding = (entering key journal).state.expanding) :
    (leaving key between).state.expanding = journal.state.expanding := by
  change between.state.expanding.filter (fun other => other != key) = _
  change between.state.expanding = key :: journal.state.expanding at same
  rw [same, List.filter_cons_of_neg (by simp), List.filter_eq_self]
  intro known member
  simp only [bne_iff_ne, ne_eq]
  rintro rfl
  exact absurd member (by simpa using fresh)

theorem once_eq_attempt (key : Path × Nat) (collect : Task Session (Members TypeTerm))
    (tree : FileTree) (journal : Journal Session) :
    once key collect tree journal =
      (if journal.state.expanding.contains key then return .none
      else do
        Task.update fun session => { session with expanding := key :: session.expanding }
        let outcome ← Task.attempt collect
        Task.update fun session =>
          { session with expanding := session.expanding.filter fun other => other != key }
        match outcome with
        | .ok members => return members
        | .error failure => Task.fail failure : Task Session (Members TypeTerm)) tree journal :=
  rfl

/-- What collecting the members of a declaration comes to. -/
theorem once_eq (key : Path × Nat) (collect : Task Session (Members TypeTerm))
    (tree : FileTree) (journal : Journal Session) :
    once key collect tree journal =
      if journal.state.expanding.contains key then (.ok .none, journal)
      else
        ((collect tree (entering key journal)).1,
          leaving key (collect tree (entering key journal)).2) := by
  rw [once_eq_attempt]
  split
  · rfl
  · have attempted : Task.attempt collect tree (entering key journal) = _ :=
      Task.attempt_eq collect (entering key journal)
    rcases ran : collect tree (entering key journal) with ⟨failure | members, after⟩
    all_goals
      rw [ran] at attempted
      exact Task.bind_of_ok attempted

theorem once_returns {key : Path × Nat} {members : Members TypeTerm} {after : Journal Session}
    (fresh : journal.state.expanding.contains key = false)
    (ran : once key collect tree journal = (.ok members, after)) :
    ∃ between, collect tree (entering key journal) = (.ok members, between) ∧
      after = leaving key between := by
  rw [once_eq, fresh, if_neg Bool.false_ne_true] at ran
  rcases collected : collect tree (entering key journal) with ⟨outcome, between⟩
  rw [collected] at ran
  cases ran
  exact ⟨between, rfl, rfl⟩

theorem once_of_returns {key : Path × Nat} {members : Members TypeTerm}
    {between : Journal Session} (fresh : journal.state.expanding.contains key = false)
    (ran : collect tree (entering key journal) = (.ok members, between)) :
    once key collect tree journal = (.ok members, leaving key between) := by
  rw [once_eq, fresh, if_neg Bool.false_ne_true, ran]

theorem entering_matches {twin : Journal Session}
    (holds : Matches edition links journal.state twin.state) (key : Path × Nat) :
    Matches edition links (entering key journal).state
      (entering (edition.moved key) twin).state :=
  ⟨holds.fromTree.of_eq rfl rfl, holds.otherFromTree.of_eq rfl rfl,
    congrArg (edition.moved key :: ·) holds.expanding, holds.cells, holds.lists,
    holds.cellsOneToOne, holds.listsOneToOne⟩

theorem leaving_matches {twin : Journal Session} (faithful : edition.Faithful)
    (holds : Matches edition links journal.state twin.state) (key : Path × Nat) :
    Matches edition links (leaving key journal).state
      (leaving (edition.moved key) twin).state := by
  refine ⟨holds.fromTree.of_eq rfl rfl, holds.otherFromTree.of_eq rfl rfl, ?_, holds.cells,
    holds.lists, holds.cellsOneToOne, holds.listsOneToOne⟩
  change twin.state.expanding.filter _ = _
  rw [holds.expanding]
  exact Edition.filter_moved faithful _ key

/-- Two ways to collect the members of one declaration come to what is alike, unless the members are
being collected already. -/
theorem followed_once {other : Task Session (Members TypeTerm)} (faithful : edition.Faithful)
    (followed : Followed edition links (AlikeMembers edition.revision) collect other)
    (key : Path × Nat) :
    Followed edition links (AlikeMembers edition.revision) (once key collect)
      (once (edition.moved key) other) := by
  intro journal twin outcome after holds ran
  have together : twin.state.expanding.contains (edition.moved key) =
      journal.state.expanding.contains key := by
    rw [holds.expanding, Edition.contains_moved faithful]
  cases unknown : journal.state.expanding.contains key with
  | true =>
    rw [once_eq, if_pos unknown] at ran
    cases ran
    refine ⟨links, .ok .none, twin, ?_, .refl _ _, holds, .ok ⟨.nil, .nil⟩⟩
    rw [once_eq, if_pos (together.trans unknown)]
  | false =>
    rw [once_eq, unknown, if_neg Bool.false_ne_true] at ran
    rcases collected : collect edition.tree (entering key journal) with ⟨found, between⟩
    rw [collected] at ran
    cases ran
    obtain ⟨more, answer, twinBetween, twinCollected, touches, matched, outcomes⟩ :=
      followed _ _ _ between (entering_matches holds key) collected
    refine ⟨more, answer, leaving (edition.moved key) twinBetween, ?_,
      ⟨touches.below, leaving_expanding unknown touches.expanding, touches.cells, touches.lists⟩,
      leaving_matches faithful matched key, outcomes⟩
    rw [once_eq, together, unknown, if_neg Bool.false_ne_true, twinCollected]

/-- Where a declaration is known to stand in the other edition. -/
theorem moved_key {scope twin : Scope TypeTerm} {node copy : Node}
    (scopes : AlikeScope edition.revision links scope twin)
    (placed : copy.start = edition.revision.move scope.source.path node.start) :
    (twin.source.path, copy.start) = edition.moved (scope.source.path, node.start) := by
  obtain ⟨_, _, revised⟩ := scopes
  rw [placed, Edition.moved, revised.path]

/-- Related declarations have related members. -/
theorem followed_collectMembers (faithful : edition.Faithful)
    {find otherFind : TypeTerm → Task Session (List (Property TypeTerm))}
    {source twin : MemberSource TypeTerm} (finds : FindsAlike edition links find otherFind)
    (related :
      MemberSource.Like edition.revision (Alike edition.revision links) links.lists source twin) :
    Followed edition links (AlikeMembers edition.revision) (collectMembers find source)
      (collectMembers otherFind twin) := by
  cases related with
  | known related => exact followed_pure related
  | body copied scopes =>
    exact (followed_memberScope scopes).bind fun _ _ _ _ scopes =>
      followed_bodyMembers scopes (interleaved_body copied)
  | interface scopes placed stand =>
    unfold collectMembers
    dsimp only
    rw [moved_key scopes placed]
    refine followed_once faithful ?_ _
    refine (followed_interfaceParts scopes stand).bind ?_
    rintro more below ⟨own, bases⟩ ⟨otherOwn, otherBases⟩ ⟨⟨properties, signatures⟩, basesRelated⟩
    refine (followed_inherit (finds.mono below) basesRelated
      (mergeProperties_related .nil properties)).map fun most further _ _ merged => ?_
    exact ⟨merged, signatures_mono further signatures⟩
  | @«class» declaration declarationCopy scope twinScope scopes placed copied =>
    have finish : ∀ {members copies : List Node},
        Interleaved (Copied edition.revision.anywhere) members copies →
        Followed edition links (AlikeMembers edition.revision)
          (once (scope.source.path, declaration.start) do
            let own ← classProperties scope [] members
            return ⟨← inherit find own (← classBases scope declaration), []⟩)
          (once (twinScope.source.path, declarationCopy.start) do
            let own ← classProperties twinScope [] copies
            return ⟨← inherit otherFind own (← classBases twinScope declarationCopy), []⟩) := by
      intro members copies interleaved
      rw [moved_key scopes placed]
      refine followed_once faithful ?_ _
      refine (followed_classProperties scopes .nil interleaved).bind
        fun more below own otherOwn related => ?_
      refine (followed_classBases (scope_mono below scopes) copied).bind
        fun most further _ _ bases => ?_
      exact (followed_inherit (finds.mono (below.trans further)) bases
        (properties_mono further related)).map fun _ _ _ _ merged => ⟨merged, .nil⟩
    unfold collectMembers
    dsimp only
    rcases optionRel_cases (copied.child? "body") with
      ⟨none, noCopy⟩ | ⟨body, bodyCopy, found, copyFound, bodyCopied⟩
    · rw [none, noCopy]
      exact finish .nil
    · rw [found, copyFound]
      exact finish (interleaved_body bodyCopied)

/-! ## Members of types -/

section Targets

variable {type twin : TypeTerm} (faithful : edition.Faithful)

include faithful

variable (related : Alike edition.revision links type twin)

include related

/-- Related types have related members, whatever fuel is left. -/
theorem followed_membersWith (fuel : Nat) :
    Followed edition links (AlikeMembers edition.revision) (membersWith fuel type)
      (membersWith fuel twin) := by
  induction fuel generalizing links type twin with
  | zero => exact followed_pure ⟨.nil, .nil⟩
  | succ fuel ih =>
    have finds : FindsAlike edition links
        (fun base => do return (← membersWith fuel base).properties)
        (fun base => do return (← membersWith fuel base).properties) :=
      fun _ _ _ _ alike => followed_properties (ih alike)
    refine (followed_structureOf faithful related).bind fun more below target other alike => ?_
    cases alike with
    | object linked source =>
      refine (followed_cellOf linked).bind fun most further known otherKnown cellRelated => ?_
      obtain ⟨_, membersRelated, _⟩ := cellRelated
      cases membersRelated with
      | some members => exact followed_pure members
      | none =>
        refine (followed_collectMembers faithful (finds.mono (below.trans further))
          (source_mono further source)).bind fun last beyond members others collected => ?_
        have isLinked := beyond.cells _ _ (further.cells _ _ linked)
        refine (followed_setCell isLinked ?_).map fun _ later _ _ _ =>
          persists_members _ _ later _ _ collected
        rintro _ _ ⟨targetRelated, _, fixed⟩
        exact ⟨targetRelated, .some collected, fixed⟩
    | primitive | literal | verbatim | array | tuple | union | intersection | function
    | reference => exact followed_pure ⟨.nil, .nil⟩

/-- Types that are alike have members that are alike. -/
theorem followed_membersOf :
    Followed edition links (AlikeMembers edition.revision) (membersOf type) (membersOf twin) := by
  refine (followed_sizeBound faithful).bind ?_
  rintro more below bound _ rfl
  exact followed_membersWith faithful (related.mono below) _

theorem followed_propertiesOf :
    Followed edition links (fun links => Listwise (AlikeProperty edition.revision links))
      (propertiesOf type) (propertiesOf twin) :=
  followed_properties (followed_membersOf faithful related)

theorem followed_isObject :
    Followed edition links (fun _ => Eq) (isObject type) (isObject twin) := by
  refine (followed_structureOf faithful related).bind fun more below target other alike => ?_
  cases alike <;> exact followed_pure rfl

end Targets
end Types
end ModuleAtlas
