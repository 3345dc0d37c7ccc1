import ModuleAtlas.Proofs.Types.ReadingTwins

/-!
# The structure of types in twin runs

References that are alike stand for types that are alike, and object types that are alike have
members that are alike.  What is found is kept in linked cells of both sessions, so that a later
look finds what is alike again.
-/

namespace ModuleAtlas
namespace Types

open Node Session Spelling

variable {edition : Edition} {links more : Links}

/-! ## Exports -/

section Exports

variable {modules : SourceModule → SourceModule → Prop}
  {declared : Path → Declaration → Declaration → Prop}

/-- Declarations in modules that are taken for each other. -/
structure FoundAlike (modules : SourceModule → SourceModule → Prop)
    (declared : Path → Declaration → Declaration → Prop) (found other : Found) : Prop where
  sources : modules found.2 other.2
  declarations : Listwise (declared found.2.path) found.1 other.1

/-- The same answer in both editions, after the same questions. -/
structure Answered (modules : SourceModule → SourceModule → Prop)
    (declared : Path → Declaration → Declaration → Prop) (answer other : Option Found × Asked) :
    Prop where
  found : Option.Rel (FoundAlike modules declared) answer.1 other.1
  asked : answer.2 = other.2

/-- Two ways to search for what modules export that come to the same. -/
def FindsExports (edition : Edition) (modules : SourceModule → SourceModule → Prop)
    (declared : Path → Declaration → Declaration → Prop)
    (find other : Asked → SourceModule → String → Task Session (Option Found × Asked)) : Prop :=
  ∀ links asked source copy name, modules source copy →
    Followed edition links (fun _ => Answered modules declared) (find asked source name)
      (other asked copy name)

variable (paired : Paired edition modules declared) {source copy : SourceModule}

include paired

/-- Re-exports are searched side by side. -/
theorem followed_findAmong
    {find other : Asked → SourceModule → String → Task Session (Option Found × Asked)}
    (finds : FindsExports edition modules declared find other) (sources : modules source copy)
    (name : String) (entries : List ReExport) (asked : Asked) :
    Followed edition links (fun _ => Answered modules declared)
      (findAmong find source name asked entries) (findAmong other copy name asked entries) := by
  induction entries generalizing links asked with
  | nil => exact followed_pure ⟨.none, rfl⟩
  | cons entry rest ih =>
    unfold findAmong
    split
    · exact ih asked
    · refine (followed_load paired _ (paired.path sources)).bind
        fun more _ loaded answer related => ?_
      cases related with
      | none => exact ih asked
      | some targets =>
        refine (finds more asked _ _ _ targets).bind ?_
        rintro most _ ⟨found, after⟩ ⟨otherFound, _⟩ ⟨foundRelated, rfl⟩
        cases foundRelated with
        | some both => exact followed_pure ⟨.some both, rfl⟩
        | none => exact ih _

/-- What a module exports itself under a name. -/
theorem listwise_ownDeclarations (sources : modules source copy) (name : String) :
    Listwise (declared source.path)
      ((source.exports.filter fun entry => entry.1 == name).map (·.2))
      ((copy.exports.filter fun entry => entry.1 == name).map (·.2)) := by
  have entries : Listwise (Named (declared source.path))
      (source.exports.filter fun entry => entry.1 == name)
      (copy.exports.filter fun entry => entry.1 == name) := by
    refine (paired.exports sources).filter ?_
    rintro _ _ ⟨_⟩
    rfl
  refine entries.map ?_
  rintro _ _ ⟨both⟩
  exact both

/-- Related modules find related exports, whatever fuel is left. -/
theorem findsExports_findWith (fuel : Nat) :
    FindsExports edition modules declared (findWith fuel) (findWith fuel) := by
  induction fuel with
  | zero => exact fun _ _ _ _ _ _ => followed_pure ⟨.none, rfl⟩
  | succ fuel ih =>
    intro links asked source copy name sources
    unfold findWith
    rw [← paired.path sources, ← paired.reExports sources]
    split
    · exact followed_pure ⟨.none, rfl⟩
    · have own := listwise_ownDeclarations paired sources name
      revert own
      generalize List.map _ (source.exports.filter _) = declarations
      generalize List.map _ (copy.exports.filter _) = others
      intro own
      cases own with
      | nil => exact followed_findAmong paired ih sources name _ _
      | cons head tail => exact followed_pure ⟨.some ⟨sources, .cons head tail⟩, rfl⟩

/-- A name is exported by the same declarations of the same module in both editions. -/
theorem followed_findExport (sources : modules source copy) (name : String) :
    Followed edition links (fun _ => Option.Rel (FoundAlike modules declared))
      (findExport source name) (findExport copy name) := by
  refine (followed_sizeBound paired.faithful).bind ?_
  rintro more _ bound _ rfl
  exact (findsExports_findWith paired _ more [] source copy name sources).map
    fun _ _ _ _ answered => answered.found

end Exports

/-! ## Declarations -/

section Declarations

variable {change : Change} {node copy : Node} {source target : SourceModule}
  {arguments twins : List TypeTerm}

/-- Type parameters are listed in both editions in the same order. -/
theorem revised_typeParameters (copied : Copied change node copy) :
    Listwise (fun parameter other => Copied change parameter other ∧
        parameter.kind = "type_parameter")
      (typeParameters node) (typeParameters copy) := by
  unfold typeParameters
  rcases optionRel_cases (copied.child? "type_parameters") with
    ⟨none, noCopy⟩ | ⟨list, listCopy, found, copyFound, listCopied⟩
  · rw [none, noCopy]
    exact .nil
  · rw [found, copyFound]
    refine (listCopied.named_ofKind (by decide)).with_origin.mono ?_
    rintro parameter other ⟨part, member⟩
    exact ⟨part.copied, eq_of_beq (List.mem_filter.mp member).2⟩

/-- What stands as the value of an alias or as the default of a type parameter is a type. -/
theorem writtenValue (copied : Copied change node copy)
    (ofKind : node.kind = "type_alias_declaration" ∨ node.kind = "type_parameter") :
    Option.Rel (CopiedType change) (node.child? "value") (copy.child? "value") := by
  refine copied.child?_value ?_
  have reads : valueContexts.contains node.kind = true := by
    rcases ofKind with same | same <;> rw [same] <;> decide
  rcases context_cases reads node.role with list | kind
  · rw [list]
    decide
  · rw [kind]
    rcases ofKind with same | same <;> rw [same] <;> decide

/-- The names of a type parameter in both editions stand for each other. -/
theorem nameable_parameterName (copied : Copied change node copy)
    (isParameter : node.kind = "type_parameter") :
    change.spelling.nameable (parameterName node) (parameterName copy) := by
  obtain ⟨_, revised⟩ := id copied
  unfold parameterName textOf
  rcases revised.usual with usual | isSame
  · rw [isUsual, isParameter, beq_self_eq_true, Bool.or_true, Bool.and_true, bne_self_eq_false,
      Bool.false_or, Bool.and_eq_true, Bool.not_eq_true'] at usual
    have ofKind : context node.kind node.role = "type_parameter" := by
      have reads : valueContexts.contains "type_parameter" = true := by decide
      rw [context, usual.1, isParameter, reads, Bool.not_true, Bool.and_false,
        if_neg Bool.false_ne_true, if_neg Bool.false_ne_true]
    have named := copied.child?_part "name"
    rw [ofKind] at named
    rcases optionRel_cases named with ⟨none, _⟩ | ⟨name, other, found, copyFound, part, ofRole⟩
    · unfold Node.child? at none
      rw [List.find?_eq_none] at none
      obtain ⟨child, member, isName⟩ := List.any_eq_true.mp usual.2
      exact absurd isName (none child member)
    · rw [found, copyFound]
      exact (part.kept_of_role ofRole (by decide)).parameter ofRole rfl
  · rcases optionRel_cases (copied.child?_part "name") with
      ⟨none, noCopy⟩ | ⟨name, other, found, copyFound, part, ofRole⟩
    · rw [none, noCopy]
      exact isSame.nameable ""
    · have spelled := (part.kept_of_role ofRole (by decide)).spelled
      rw [found, copyFound, Option.map_some, Option.map_some, isSame.eq_of_spelled spelled]
      exact isSame.nameable _

/-- A name that is spelled in one way under the same type parameters. -/
theorem put_nameable {bound others : List (String × TypeTerm)} {name other : String}
    {value answer : TypeTerm} (related : AlikeValues edition.revision links bound others)
    (names : edition.revision.spelling.nameable name other)
    (alike : Alike edition.revision links value answer) :
    AlikeValues edition.revision links (Keyed.put name value bound)
      (Keyed.put other answer others) :=
  related.put_assigned alike names fun _ _ known => edition.revision.spelling.unique
    (edition.revision.spelling.spelled_of_nameable known)
    (edition.revision.spelling.spelled_of_nameable names)

/-- Parameters are bound to related types. -/
theorem followed_bindParameters {pending other : Nat} {bound others : List (String × TypeTerm)}
    {parameters copies : List Node} (linked : links.lists pending other)
    (sources : Sources edition source target)
    (listed : Listwise (fun parameter other => Copied edition.revision.anywhere parameter other ∧
      parameter.kind = "type_parameter") parameters copies)
    (argumentsRelated : Listwise (Alike edition.revision links) arguments twins)
    (related : AlikeValues edition.revision links bound others) :
    Followed edition links (AlikeValues edition.revision)
      (bindParameters source pending bound arguments parameters)
      (bindParameters target other others twins copies) := by
  induction listed generalizing links arguments twins bound others with
  | nil => cases argumentsRelated <;> exact followed_pure related
  | cons both _ ih =>
    obtain ⟨inner, isParameter⟩ := both
    have names := nameable_parameterName inner isParameter
    cases argumentsRelated with
    | cons head tail => exact ih linked tail (put_nameable related names head)
    | nil =>
      rw [bindParameters, bindParameters]
      rcases optionRel_cases (writtenValue inner (.inr isParameter)) with
        ⟨none, noCopy⟩ | ⟨value, valueCopy, found, copyFound, written⟩
      · rw [none, noCopy]
        exact ih linked .nil related
      · rw [found, copyFound]
        refine (followed_typeOf ⟨related, .some linked, sources⟩ written).bind ?_
        intro more below _ _ alike
        exact ih (below.lists _ _ linked) .nil
          (put_nameable (values_mono below related) names alike)

/-- Scopes that are alike, the first of them in a module. -/
def ScopesIn (edition : Edition) (source : SourceModule) (links : Links)
    (scope twin : Scope TypeTerm) : Prop :=
  AlikeScope edition.revision links scope twin ∧ scope.source = source

theorem followed_scopeOf (sources : Sources edition source target)
    (copied : Copied edition.revision.anywhere node copy)
    (related : Listwise (Alike edition.revision links) arguments twins) :
    Followed edition links (ScopesIn edition source) (scopeOf node source arguments)
      (scopeOf copy target twins) := by
  refine followed_newParameterList.bind fun more below pending other linked => ?_
  refine (followed_bindParameters linked sources (revised_typeParameters copied)
    (alikes_mono below related) .nil).bind fun most further bound others boundRelated => ?_
  refine (followed_keepParameters (further.lists _ _ linked) boundRelated).map ?_
  exact fun _ last _ _ _ => ⟨⟨values_mono last boundRelated, .none, sources⟩, rfl⟩

theorem followed_nameAlias {type twin : TypeTerm} (related : Alike edition.revision links type twin)
    {name : String} (fixed : edition.revision.spelling.Fixed name) :
    Followed edition links (fun _ _ _ => True) (nameAlias name type) (nameAlias name twin) := by
  cases related with
  | @object cell otherCell code _ known source other linked _ _ _ =>
    cases known with
    | some _ => exact followed_pure trivial
    | none =>
      refine (followed_cellOf linked).bind fun more below known twin cellRelated => ?_
      obtain ⟨_, _, _⟩ := cellRelated
      dsimp only
      split
      · refine followed_setCell (below.cells _ _ linked) ?_
        rintro _ _ ⟨target, members, _⟩
        refine ⟨target, members, ?_⟩
        rintro _ ⟨⟩
        exact fixed
      · exact followed_pure trivial
  | primitive | literal | verbatim | array | tuple | union | intersection | function | reference =>
    exact followed_pure trivial

/-- The members of an enumeration have no cells. -/
theorem alike_enumMembers (copied : Copied edition.revision.anywhere node copy) {name : String}
    (fixed : edition.revision.spelling.Fixed name) :
    Listwise (Alike edition.revision links) (enumMembers node name) (enumMembers copy name) := by
  unfold enumMembers
  rcases optionRel_cases (copied.child?_part "body") with
    ⟨none, noCopy⟩ | ⟨body, bodyCopy, found, copyFound, bodyPart, ofRole⟩
  · rw [none, noCopy]
    exact .nil
  rw [found, copyFound]
  have isRead : ∀ role, isValuePlace (context body.kind body.role) role = true := by
    intro role
    rw [ofRole, isValuePlace, reads_body, Bool.true_or]
  have member : ∀ {property other : Option Node},
      Option.Rel (CopiedName edition.revision.anywhere) property other →
      Alike edition.revision links (.literal (name ++ "." ++ propertyName property))
        (.literal (name ++ "." ++ propertyName other)) := by
    intro property other named
    have memberFixed := fixed_propertyName named
    rw [propertyName_eq_of_copied named] at memberFixed ⊢
    exact .literal (parted fixed memberFixed (by decide))
  refine bodyPart.copied.namedChildren.filterMap_related (fun child other part => ?_)
    fun _ _ _ => rfl
  have childCopied := part.copied
  rw [childCopied.kind_eq]
  split
  · rename_i isAssignment
    refine .some (member (childCopied.child?_name "name" (by decide) fun _ => ?_))
    rw [childCopied.kind_eq, eq_of_beq isAssignment]
    decide
  · split
    · rename_i isName
      rw [Bool.or_eq_true, beq_iff_eq, beq_iff_eq] at isName
      have named := part.name_of_value (by
        rcases isName with kind | kind <;> rw [childCopied.kind_eq, kind] <;> decide)
        (.inr (isRead _))
      exact .some (member (.some ⟨childCopied, named⟩))
    · exact .none

theorem revised_kind_eq {declaration other : Declaration}
    (revised : Declaration.Revised change declaration other) :
    declaration.node.kind = other.node.kind :=
  revised.node.kind_eq

/-- Related declarations make related types. -/
theorem followed_declared {declarations copies : List Declaration} {name : String}
    (sources : Sources edition source target)
    (stand : Listwise (Declaration.Revised (edition.revision.inFile source.path)) declarations
      copies)
    (related : Listwise (Alike edition.revision links) arguments twins)
    (fixed : edition.revision.spelling.Fixed name) :
    Followed edition links (Alike edition.revision) (declared declarations source arguments name)
      (declared copies target twins name) := by
  have structures : Listwise (Declaration.Revised (edition.revision.inFile source.path))
      (declarations.filter fun declaration => structureKinds.contains declaration.node.kind)
      (copies.filter fun declaration => structureKinds.contains declaration.node.kind) :=
    stand.filter fun _ _ both => by rw [revised_kind_eq both]
  have isNamed : ∀ known, some name = some known → edition.revision.spelling.Fixed known := by
    rintro _ ⟨⟩
    exact fixed
  unfold declared
  revert structures
  generalize List.filter _ declarations = structures
  generalize List.filter _ copies = structureCopies
  intro structures
  cases structures with
  | nil => exact followed_pure (.verbatim fixed)
  | @cons first firstCopy rest restCopies head tail =>
    have placed := head.node.placed
    have inner : Copied edition.revision.anywhere first.node firstCopy.node :=
      head.node.mono fun _ _ _ => trivial
    refine (followed_scopeOf sources inner related).bind ?_
    rintro more below scope twin ⟨scopes, rfl⟩
    dsimp only
    rw [revised_kind_eq head]
    split
    · refine followed_newObject (.interface scopes placed ?_) fixed isNamed
      refine ((Listwise.cons head tail).filter fun _ _ both => ?_).mono fun _ _ both =>
        both.mono fun _ _ _ => trivial
      rw [revised_kind_eq both]
    · rename_i isAlias
      rcases optionRel_cases (writtenValue inner (.inl ((revised_kind_eq head).trans isAlias))) with
        ⟨none, noCopy⟩ | ⟨value, valueCopy, found, copyFound, written⟩
      · rw [none, noCopy]
        exact followed_pure (.verbatim fixed)
      · rw [found, copyFound]
        refine (followed_typeOf scopes written).bind fun most further type other alike => ?_
        exact (followed_nameAlias alike fixed).map fun _ last _ _ _ => alike.mono last
    · exact followed_pure (.union (alike_enumMembers inner fixed) fixed)
    · exact followed_newObject (.class scopes placed inner) fixed isNamed

end Declarations

/-! ## References -/

section References

variable {source target : SourceModule} {arguments twins : List TypeTerm}

/-- A name that a module does not know stands for nothing. -/
theorem named?_of_unknown {name : String} (unknown : ¬source.Indexes name) :
    named? name source arguments = pure none := by
  unfold SourceModule.Indexes at unknown
  rw [not_or, not_not, Bool.not_eq_true, Option.isSome_eq_false_iff, Option.isNone_iff_eq_none]
    at unknown
  unfold named? SourceModule.lookupType
  rw [unknown.1, unknown.2]
  rfl

section

variable (faithful : edition.Faithful)

include faithful

variable (sources : Sources edition source target)
  (related : Listwise (Alike edition.revision links) arguments twins)

include sources related

theorem followed_imported? {name : String} (binding : Binding)
    (exported : String) (fixed : edition.revision.spelling.Fixed name) :
    Followed edition links (fun links => Option.Rel (Alike edition.revision links))
      (imported? binding exported name source arguments)
      (imported? binding exported name target twins) := by
  have paired := paired_sources faithful
  unfold imported?
  refine (followed_load paired _ sources.path).bind fun more below loaded answer targets => ?_
  cases targets with
  | none => exact followed_pure .none
  | some targets =>
    refine (followed_findExport paired targets exported).bind
      fun most further found other both => ?_
    cases both with
    | none => exact followed_pure .none
    | some both =>
      have still := alikes_mono (below.trans further) related
      exact (followed_declared both.sources both.declarations still fixed).map
        fun _ _ _ _ => .some

/-- A member of a namespace stands for related types. -/
theorem followed_qualified? {member : String} (nameSpace : String)
    (fixed : edition.revision.spelling.Fixed member) :
    Followed edition links (fun links => Option.Rel (Alike edition.revision links))
      (qualified? nameSpace member source arguments)
      (qualified? nameSpace member target twins) := by
  unfold qualified?
  rw [sources.binding]
  split
  · split
    · exact followed_imported? faithful sources related _ _ fixed
    · exact followed_pure .none
  · exact followed_pure .none

theorem followed_named? {name otherName : String}
    (names : edition.revision.spelling.Names name otherName) :
    Followed edition links (fun links => Option.Rel (Alike edition.revision links))
      (named? name source arguments) (named? otherName target twins) := by
  have known : (¬source.Indexes name ∧ ¬target.Indexes otherName) ∨ name = otherName := by
    rcases names with renamed | ⟨same, _⟩
    · rcases sources.hides _ _ renamed with same | ⟨unknown, otherUnknown⟩
      · exact .inr same
      · exact .inl ⟨unknown, mt (sources.indexes_iff otherName).mpr otherUnknown⟩
    · exact .inr same
  rcases known with ⟨unknown, otherUnknown⟩ | rfl
  · rw [named?_of_unknown unknown, named?_of_unknown otherUnknown]
    exact followed_pure .none
  have fixed : edition.revision.spelling.Fixed name := names.spelled
  have declarations : Listwise (Declaration.Revised (edition.revision.inFile source.path))
      (source.lookupType name) (target.lookupType name) :=
    (sources.lookup name).filter fun declaration other both => by
      unfold Declaration.isType
      rw [revised_kind_eq both]
  unfold named?
  rw [sources.binding]
  revert declarations
  generalize source.lookupType name = listed
  generalize target.lookupType name = copies
  intro declarations
  cases declarations with
  | nil =>
    dsimp only
    split
    · exact followed_imported? faithful sources related _ _ fixed
    · exact followed_pure .none
  | cons head tail =>
    exact (followed_declared sources (.cons head tail) related fixed).map fun _ _ _ _ => .some

end

theorem followed_orBuiltin {found twin : Option TypeTerm} {code otherCode name otherName : String}
    (related : Option.Rel (Alike edition.revision links) found twin)
    (spelled : edition.revision.spelling.spelled code otherCode)
    (named : edition.revision.spelling.spelled name otherName) :
    Followed edition links (Alike edition.revision) (targetOf.orBuiltin code name found)
      (targetOf.orBuiltin otherCode otherName twin) := by
  cases related with
  | some related => exact followed_pure related
  | none =>
    unfold targetOf.orBuiltin
    dsimp only
    rw [contains_own named (show builtinNames ⊆ ownTexts by decide),
      contains_own named (show primitiveNames ⊆ ownTexts by decide)]
    split
    · exact followed_pure (.primitive named)
    · exact followed_pure (.verbatim spelled)

end References

section Scopes

variable {scope twin : Scope TypeTerm} {arguments copies : List Node}
  {code otherCode name otherName : String}

/-- References stand for related types. -/
theorem followed_targetOf (faithful : edition.Faithful)
    (scopes : AlikeScope edition.revision links scope twin)
    (spelled : edition.revision.spelling.spelled code otherCode)
    (names : edition.revision.spelling.Names name otherName)
    (written : Listwise (CopiedType edition.revision.anywhere) arguments copies) :
    Followed edition links (Alike edition.revision) (targetOf code name scope arguments)
      (targetOf otherCode otherName twin copies) := by
  have read : Followed edition links (fun links => Listwise (Alike edition.revision links))
      (arguments.mapM (typeOf scope)) (copies.mapM (typeOf twin)) :=
    followed_mapM persists_alike written fun _ below _ _ =>
      followed_typeOf (scope_mono below scopes)
  have sources : Sources edition scope.source twin.source := by
    obtain ⟨_, _, revised⟩ := scopes
    exact revised
  refine read.bind fun more below types others related => ?_
  have found : Option.Rel (Alike edition.revision more) (Keyed.find? name scope.parameters)
      (Keyed.find? otherName twin.parameters) := by
    obtain ⟨parameters, _, _⟩ := scopes
    exact (values_mono below parameters).find?_assigned names.unique
  have plain : Followed edition more (Alike edition.revision)
      (do targetOf.orBuiltin code name (← named? name scope.source types))
      (do targetOf.orBuiltin otherCode otherName (← named? otherName twin.source others)) :=
    (followed_named? faithful sources related names).bind fun _ _ _ _ found =>
      followed_orBuiltin found spelled names.spelled
  rcases names.cut_cases with ⟨⟨nameSpace, member⟩, cut, rfl⟩ | ⟨noDot, otherNoDot⟩
  · have fixed := edition.revision.spelling.lastName names.spelled
    unfold lastName at fixed
    rw [cut] at fixed ⊢
    refine (followed_qualified? faithful sources related _ fixed).map fun _ _ _ _ found => ?_
    cases found with
    | none => exact .verbatim spelled
    | some alike => exact alike
  · rw [noDot, otherNoDot, contains_own names.spelled (show arrayNames ⊆ ownTexts by decide)]
    dsimp only
    revert found
    generalize Keyed.find? name scope.parameters = value
    generalize Keyed.find? otherName twin.parameters = answer
    intro found
    cases related with
    | nil =>
      cases found with
      | none => exact plain
      | some alike => exact followed_pure alike
    | cons head tail =>
      cases tail with
      | nil =>
        cases found
        all_goals
          dsimp only
          split
          · exact followed_pure (.array head)
          · exact plain
      | cons next rest => cases found <;> exact plain

/-- Linked cells are filled with related targets. -/
theorem followed_step (faithful : edition.Faithful) {cell other : Nat}
    (linked : links.cells cell other) (scopes : AlikeScope edition.revision links scope twin)
    (spelled : edition.revision.spelling.spelled code otherCode)
    (names : edition.revision.spelling.Names name otherName)
    (written : Listwise (CopiedType edition.revision.anywhere) arguments copies) :
    Followed edition links (Alike edition.revision) (step cell code name scope arguments)
      (step other otherCode otherName twin copies) := by
  refine (followed_cellOf linked).bind fun more below known twin cellRelated => ?_
  obtain ⟨targetRelated, _, _⟩ := cellRelated
  cases targetRelated with
  | some related => exact followed_pure related
  | none =>
    refine (followed_targetOf faithful (scope_mono below scopes) spelled names written).bind ?_
    intro most further target answer related
    have isLinked := further.cells _ _ (below.cells _ _ linked)
    refine (followed_setCell isLinked ?_).map fun _ last _ _ _ => related.mono last
    rintro _ _ ⟨_, membersRelated, fixed⟩
    exact ⟨.some related, membersRelated, fixed⟩

end Scopes

/-! ## What types stand for -/

section Targets

variable {type twin : TypeTerm}

/-- Only references are followed. -/
theorem structureFrom_eq_pure {start : TypeTerm} (settled : type.kind ≠ "reference") (hops : Nat) :
    structureFrom start hops type = pure type := by
  cases type with
  | reference => exact absurd rfl settled
  | primitive | literal | verbatim | array | tuple | union | intersection | function | object =>
    cases hops <;> rfl

variable (faithful : edition.Faithful)

include faithful

/-- Chains of references lead to related types. -/
theorem followed_structureFrom {start startTwin : TypeTerm}
    (spelled : edition.revision.spelling.spelled start.text startTwin.text)
    (related : Alike edition.revision links type twin) (hops : Nat) :
    Followed edition links (Alike edition.revision) (structureFrom start hops type)
      (structureFrom startTwin hops twin) := by
  induction hops generalizing links type twin with
  | zero =>
    by_cases settled : type.kind = "reference"
    · cases related with
      | reference linked scopes written code names =>
        exact (followed_step faithful linked scopes code names written).map fun _ _ _ _ _ =>
          .verbatim spelled
      | primitive | literal | verbatim | array | tuple | union | intersection | function
      | object => simp [TypeTerm.kind] at settled
    · rw [structureFrom_eq_pure settled,
        structureFrom_eq_pure (TypeTerm.kind_eq related ▸ settled)]
      exact followed_pure related
  | succ hops ih =>
    by_cases settled : type.kind = "reference"
    · cases related with
      | reference linked scopes written code names =>
        exact (followed_step faithful linked scopes code names written).bind fun _ _ _ _ => ih
      | primitive | literal | verbatim | array | tuple | union | intersection | function
      | object => simp [TypeTerm.kind] at settled
    · rw [structureFrom_eq_pure settled,
        structureFrom_eq_pure (TypeTerm.kind_eq related ▸ settled)]
      exact followed_pure related

/-- What types that are alike stand for is alike. -/
theorem followed_structureOf (related : Alike edition.revision links type twin) :
    Followed edition links (Alike edition.revision) (structureOf type) (structureOf twin) :=
  followed_structureFrom faithful (TypeTerm.text_spelled related) related hopLimit

omit faithful in
theorem followed_ownName (related : Alike edition.revision links type twin) :
    Followed edition links (fun _ => Option.Rel edition.revision.spelling.spelled) (ownName type)
      (ownName twin) := by
  cases related with
  | @object _ _ _ _ name _ _ linked _ _ fixed =>
    cases name with
    | some name => exact followed_pure (.some (fixed name rfl))
    | none =>
      refine (followed_cellOf linked).map ?_
      rintro _ _ _ _ @⟨name, _, _, _, _, _, _, fixed⟩
      cases name with
      | none => exact .none
      | some name => exact .some (fixed name rfl)
  | reference _ _ _ _ names =>
    exact followed_pure (.some (edition.revision.spelling.lastName names.spelled))
  | primitive | literal | verbatim | array | tuple | union | intersection | function =>
    exact followed_pure .none

/-- Types that are alike have names that stand for each other. -/
theorem followed_symbolOf (related : Alike edition.revision links type twin) :
    Followed edition links (fun _ => Option.Rel edition.revision.spelling.spelled) (symbolOf type)
      (symbolOf twin) := by
  refine (followed_ownName related).bind fun more below name other names => ?_
  have alike := related.mono below
  have shown : Option.Rel edition.revision.spelling.spelled (name.filter (!·.isEmpty))
      (other.filter (!·.isEmpty)) := by
    cases names with
    | none => exact .none
    | some spelled =>
      rw [Option.filter_some, Option.filter_some, isEmpty_eq spelled]
      split
      · exact .some spelled
      · exact .none
  revert shown
  generalize name.filter _ = shownName
  generalize other.filter _ = otherShown
  intro shown
  cases shown with
  | some spelled => exact followed_pure (.some spelled)
  | none =>
    cases alike with
    | reference linked scopes written spelled names =>
      exact (followed_structureOf faithful (.reference linked scopes written spelled names)).bind
        fun _ _ _ _ => followed_ownName
    | primitive | literal | verbatim | array | tuple | union | intersection | function | object =>
      exact followed_pure .none

end Targets
end Types
end ModuleAtlas
