import ModuleAtlas.Proofs.Shape.Cycles
import ModuleAtlas.Proofs.Types.HandleReading
import ModuleAtlas.Proofs.Types.Interfaces

/-!
# What is looked up is handed out

Following references, looking up exports and collecting members keeps sessions sound, and what is
found is handed out.
-/

namespace ModuleAtlas

open Session

variable {tree : FileTree} {origins more : Origins} {scope : Scope TypeTerm} {source : SourceModule}
  {type : TypeTerm} {α : Type} {kind : Origins → α → Prop} {task : Task Session α}

/-- What a task answers was the answer of a run. -/
theorem Gives.ran (gives : Gives tree origins kind task) :
    Gives tree origins
      (fun more value => kind more value ∧ ∃ before after, task tree before = (.ok value, after))
      task := by
  intro journal sound
  obtain ⟨more, below, ended, ofKind⟩ := gives journal sound
  exact ⟨more, below, ended, fun value found =>
    ⟨ofKind value found, journal, (task tree journal).2, Prod.ext found rfl⟩⟩

namespace Types

/-- What a cell knows is of a kind, and so is what is found out for it. -/
theorem gives_kept {known : Cell → Option α} {keep : α → Cell → Cell} {index : Nat}
    (stays : Stays kind)
    (found : ∀ {more}, origins.Below more → ∀ cell : Cell, cell.IsSound tree more (more index) →
      ∀ value ∈ known cell, kind more value)
    (keeps : ∀ {more}, origins.Below more → ∀ value, kind more value → ∀ cell : Cell,
      cell.IsSound tree more (more index) → (keep value cell).IsSound tree more (more index))
    (gives : ∀ {more}, origins.Below more → Gives tree more kind task) :
    Gives tree origins kind (kept known keep index task) := by
  refine (gives_cellOf index).bind fun below cell sound => ?_
  split
  · rename_i value isKnown
    exact gives_pure (found below cell sound value isKnown)
  · refine (gives below).bind fun further value ofKind => ?_
    exact (gives_setCell (keeps (below.trans further) value ofKind)).map
      fun last _ _ => stays last value ofKind

/-! ## Modules -/

theorem gives_load (specifier : String) (importer : SourceModule) :
    Gives tree origins (fun _ _ => True) (load specifier importer) := by
  have resolves : ∀ {more : Origins} (path : Path),
      Gives tree more (fun _ _ => True) (Task.resolvePath path) := by
    refine fun path => gives_of_leaves fun journal => ?_
    rw [(Task.steady_resolvePath path).state_eq rfl]
    exact ⟨rfl, rfl⟩
  have reads : ∀ {more : Origins} (canonical : Path),
      Gives tree more (fun _ _ => True) (readModule canonical) :=
    fun canonical => gives_of_leaves fun journal =>
      ⟨(readModule_leaves canonical journal).1, (readModule_leaves canonical journal).2.1⟩
  have resolving : Gives tree origins (fun _ _ => True)
      (resolving (Resolver.resolve specifier importer.path)) :=
    gives_of_leaves fun _ => ⟨rfl, rfl⟩
  refine resolving.bind fun _ resolution _ => ?_
  split
  · exact gives_pure trivial
  · split
    · exact ((resolves _).bind fun _ canonical _ => reads canonical).image
    · exact gives_pure trivial

theorem gives_sizeBound : Gives tree origins (fun _ _ => True) sizeBound :=
  gives_of_leaves fun _ => ⟨rfl, rfl⟩

theorem gives_findAmong {find : Asked → SourceModule → String → Task Session (Option Found × Asked)}
    (finds : ∀ {more : Origins} asked source name,
      Gives tree more (fun _ _ => True) (find asked source name))
    (source : SourceModule) (name : String) (asked : Asked) (entries : List ReExport) :
    Gives tree origins (fun _ _ => True) (findAmong find source name asked entries) := by
  induction entries generalizing asked origins with
  | nil => exact gives_pure trivial
  | cons entry rest ih =>
    unfold findAmong
    split
    · exact ih asked
    · refine (gives_load _ _).bind fun _ target _ => ?_
      split
      · exact ih asked
      · refine (finds _ _ _).bind fun _ found _ => ?_
        split
        · exact gives_pure trivial
        · exact ih _

/-- A search hands out nothing. -/
theorem gives_findWith (fuel : Nat) (asked : Asked) (source : SourceModule) (name : String) :
    Gives tree origins (fun _ _ => True) (findWith fuel asked source name) := by
  induction fuel generalizing asked source name origins with
  | zero => exact gives_pure trivial
  | succ fuel ih =>
    unfold findWith
    split
    · exact gives_pure trivial
    · dsimp only
      split
      · exact gives_findAmong ih source name _ _
      · exact gives_pure trivial

theorem gives_findExport (source : SourceModule) (name : String) :
    Gives tree origins (fun _ _ => True) (findExport source name) :=
  gives_sizeBound.bind fun _ _ _ => (gives_findWith _ _ source name).image

/-! ## Declarations -/

/-- Values of type parameters that are handed out. -/
abbrev HandledValues (origins : Origins) (values : List (String × TypeTerm)) : Prop :=
  ∀ value ∈ values, IsHandle origins value.2

/-- Types that are handed out. -/
abbrev HandledTypes (origins : Origins) (types : List TypeTerm) : Prop :=
  ∀ type ∈ types, IsHandle origins type

theorem stays_values : Stays HandledValues :=
  fun below _ all value member => (all value member).mono below

/-- Type parameters are bound to handles. -/
theorem gives_bindParameters {pending : Nat} {parameters : List Node} {arguments : List TypeTerm}
    {bound : List (String × TypeTerm)}
    (held : HandledValues origins bound) (given : HandledTypes origins arguments) :
    Gives tree origins HandledValues
      (bindParameters source pending bound arguments parameters) := by
  induction parameters generalizing bound arguments origins with
  | nil => cases arguments <;> exact gives_pure held
  | cons parameter rest ih =>
    cases arguments with
    | cons argument arguments =>
      obtain ⟨ofArgument, others⟩ := List.forall_mem_cons.mp given
      exact ih (Keyed.forall_mem_put ofArgument held _) others
    | nil =>
      unfold bindParameters
      split
      · refine (gives_typeOf (.mk held) _).bind fun below type ofType => ?_
        exact ih (Keyed.forall_mem_put ofType (stays_values below _ held) _) (List.forall_mem_nil _)
      · exact ih held (List.forall_mem_nil _)

theorem gives_newParameterList : Gives tree origins (fun _ _ => True) newParameterList := by
  refine gives_state.bind fun _ session _ => (gives_update fun session sound => ?_).image
  refine ⟨sound.room, sound.coded, sound.scopes, sound.cells, fun index values found => ?_⟩
  rw [Array.getElem?_push] at found
  split at found
  · cases found
    exact List.forall_mem_nil _
  · exact sound.lists index values found

theorem gives_keepParameters
    {bound : List (String × TypeTerm)} (held : HandledValues origins bound) (list : Nat) :
    Gives tree origins (fun _ _ => True) (keepParameters list bound) := by
  refine gives_update fun session sound => ?_
  refine ⟨sound.room, sound.coded, sound.scopes, sound.cells, fun index values found => ?_⟩
  rw [Array.getElem?_modify] at found
  split at found
  · obtain ⟨_, _, rfl⟩ := Option.map_eq_some_iff.mp found
    exact held
  · exact sound.lists index values found

theorem gives_scopeOf
    {arguments : List TypeTerm} (given : HandledTypes origins arguments) (node : Node) :
    Gives tree origins HandledScope (scopeOf node source arguments) := by
  refine gives_newParameterList.bind fun below pending _ => ?_
  refine (gives_bindParameters (List.forall_mem_nil _) (stays_isHandle.all below _ given)).bind
    fun _ bound held => ?_
  exact (gives_keepParameters held pending).map fun further _ _ =>
    .mk (stays_values further _ held)

theorem isHandle_enumMembers (node : Node) (name : String) :
    HandledTypes origins (enumMembers node name) := by
  intro type member
  unfold enumMembers at member
  obtain ⟨part, _, found⟩ := List.mem_filterMap.mp member
  split at found
  · cases found
    exact .literal
  · split at found
    · cases found
      exact .literal
    · cases found

theorem gives_nameAlias (name : String) (target : TypeTerm) :
    Gives tree origins (fun _ _ => True) (nameAlias name target) := by
  unfold nameAlias
  split
  · refine (gives_cellOf _).bind fun _ known _ => ?_
    split
    · exact gives_setCell fun known sound => ⟨sound.target, sound.followed, sound.members⟩
    · exact gives_pure trivial
  · exact gives_pure trivial

/-- What declarations stand for is handed out. -/
theorem gives_declared {arguments : List TypeTerm} (given : HandledTypes origins arguments)
    (declarations : List Declaration) (source : SourceModule) (name : String) :
    Gives tree origins IsHandle (declared declarations source arguments name) := by
  unfold declared
  split
  · exact gives_pure .verbatim
  · refine (gives_scopeOf given _).bind fun _ scope ofScope => ?_
    split
    · exact gives_newObject (.interface ofScope) _ _
    · split
      · exact gives_pure .verbatim
      · refine (gives_typeOf ofScope _).bind fun _ target ofTarget => ?_
        exact (gives_nameAlias name target).map fun further _ _ => ofTarget.mono further
    · exact gives_pure (.union (isHandle_enumMembers _ _))
    · exact gives_newObject (.class ofScope) _ _

/-! ## References -/

/-- A type that is handed out, if there is one. -/
abbrev HandledOption (origins : Origins) (found : Option TypeTerm) : Prop :=
  ∀ type ∈ found, IsHandle origins type

theorem handled_found (handle : IsHandle origins type) : HandledOption origins (some type) := by
  rintro _ ⟨⟩
  exact handle

section

variable {arguments : List TypeTerm} (given : HandledTypes origins arguments)

include given

theorem gives_imported? (binding : Binding) (exported name : String) (source : SourceModule) :
    Gives tree origins HandledOption (imported? binding exported name source arguments) := by
  refine (gives_load _ source).bind fun below target _ => ?_
  split
  · exact gives_pure nofun
  · refine (gives_findExport _ exported).bind fun further found _ => ?_
    split
    · exact gives_pure nofun
    · exact (gives_declared (stays_isHandle.all (below.trans further) _ given) _ _ name).map
        fun _ _ => handled_found

theorem gives_qualified? (nameSpace member : String) (source : SourceModule) :
    Gives tree origins HandledOption (qualified? nameSpace member source arguments) := by
  unfold qualified?
  split
  · split
    · exact gives_imported? given _ _ _ source
    · exact gives_pure nofun
  · exact gives_pure nofun

theorem gives_named? (name : String) (source : SourceModule) :
    Gives tree origins HandledOption (named? name source arguments) := by
  unfold named?
  split
  · split
    · exact gives_imported? given _ _ _ source
    · exact gives_pure nofun
  · exact (gives_declared given _ source name).map fun _ _ => handled_found

end

/-- What a reference stands for is a handle. -/
theorem gives_targetOf
    (ofScope : HandledScope origins scope) (code name : String) (arguments : List Node) :
    Gives tree origins IsHandle (targetOf code name scope arguments) := by
  have values : ∀ {value : TypeTerm}, Keyed.find? name scope.parameters = some value →
      IsHandle origins value := by
    intro value found
    obtain ⟨each⟩ := ofScope
    exact each (name, value) (mem_of_lookup_eq_some found)
  refine (gives_mapM stays_isHandle fun below argument _ =>
    gives_typeOf (scopeEach_mono below ofScope) argument).bind fun below types given => ?_
  have builtin : ∀ {more : Origins} {found : Option TypeTerm}, HandledOption more found →
      Gives tree more IsHandle (targetOf.orBuiltin code name found) := by
    intro more found ofFound
    unfold targetOf.orBuiltin
    split
    · exact gives_pure (ofFound _ rfl)
    · refine gives_pure ?_
      split
      · exact .primitive
      · exact .verbatim
  have plain : Gives tree _ IsHandle
      (do targetOf.orBuiltin code name (← named? name scope.source types)) :=
    (gives_named? given name scope.source).bind fun _ _ => builtin
  split
  · refine (gives_qualified? given _ _ scope.source).map fun _ found ofFound => ?_
    cases found with
    | none => exact .verbatim
    | some type => exact ofFound type rfl
  · split
    · rename_i found
      exact gives_pure ((values found).mono below)
    · split
      · split
        · exact gives_pure (.array (given _ List.mem_cons_self))
        · exact plain
      · exact plain

/-- A step along a reference leads to what following it has given once. -/
theorem gives_step {cell : Nat} {code name : String} {arguments : List Node}
    (made : origins cell = some ⟨code, name, scope, arguments⟩) :
    Gives tree origins
      (fun more target => IsHandle more target ∧
        Origin.LeadsTo tree ⟨code, name, scope, arguments⟩ target)
      (step cell code name scope arguments) := by
  have stepped : HandledScope origins scope → Gives tree origins
      (fun more target => IsHandle more target ∧
        Origin.LeadsTo tree ⟨code, name, scope, arguments⟩ target)
      (step cell code name scope arguments) := by
    intro ofScope
    rw [step_eq_kept]
    refine gives_kept (fun below _ ofTarget => ⟨ofTarget.1.mono below, ofTarget.2⟩) ?_ ?_ ?_
    · intro more below known sound target found
      rw [below cell _ made] at sound
      exact ⟨sound.target target found, sound.followed _ rfl target found⟩
    · rintro more below target ⟨handle, followed⟩ known sound
      rw [below cell _ made] at sound ⊢
      refine ⟨?_, ?_, sound.members⟩
      · rintro _ ⟨⟩
        exact handle
      · rintro _ ⟨⟩ _ ⟨⟩
        exact followed
    · exact fun below => (gives_targetOf (scopeEach_mono below ofScope) code name arguments).ran
  exact fun journal sound => stepped (sound.scopes cell _ made) journal sound

/-- What a chain of references leads to is a handle. -/
theorem gives_structureFrom {start : TypeTerm} (hops : Nat) (handle : IsHandle origins type) :
    Gives tree origins IsHandle (structureFrom start hops type) := by
  induction hops generalizing type origins with
  | zero =>
    cases type with
    | reference =>
      cases handle with
      | reference made => exact (gives_step made).map fun _ _ _ => .verbatim
    | _ => exact gives_pure handle
  | succ hops ih =>
    cases type with
    | reference =>
      cases handle with
      | reference made =>
        exact (gives_step made).bind fun _ target ofTarget => ih ofTarget.1
    | _ => exact gives_pure handle

theorem gives_structureOf (handle : IsHandle origins type) :
    Gives tree origins IsHandle (structureOf type) :=
  gives_structureFrom hopLimit handle

/-! ## Members -/

/-- Members with types that are handed out. -/
abbrev HandledMembers (origins : Origins) (members : Members TypeTerm) : Prop :=
  members.Each (IsHandle origins)

theorem handled_none : HandledMembers origins .none :=
  .mk (List.forall_mem_nil _) (List.forall_mem_nil _)

theorem gives_signatureProperty (ofScope : HandledScope origins scope) (member : Node) :
    Gives tree origins HandledProperty (signatureProperty scope member) := by
  unfold signatureProperty
  split
  · split
    · exact (gives_typeOf ofScope _).map fun _ _ => handled_some
    · exact (gives_pure IsHandle.primitive).map fun _ _ => handled_some
  · exact (gives_signature ofScope member).map fun _ _ ofSignature =>
      handled_some (.function (List.forall_mem_singleton.mpr ofSignature))
  · split
    · exact (gives_typeOf ofScope _).map fun _ _ => handled_some
    · exact gives_pure nofun
  · exact gives_pure nofun

theorem gives_bodyMembers (ofScope : HandledScope origins scope) (members : List Node) :
    Gives tree origins HandledMembers (bodyMembers scope members) := by
  induction members generalizing origins with
  | nil => exact gives_pure handled_none
  | cons member rest ih =>
    unfold bodyMembers
    split
    · refine (gives_signature ofScope member).bind fun below call ofCall => ?_
      refine (ih (scopeEach_mono below ofScope)).map fun further more each => ?_
      exact .mk each.properties
        (List.forall_mem_cons.mpr ⟨signatureEach_mono further ofCall, each.signatures⟩)
    · refine (gives_signatureProperty ofScope member).bind fun below property ofProperty => ?_
      refine (ih (scopeEach_mono below ofScope)).map fun further more each => ?_
      refine .mk (List.forall_mem_append.mpr ⟨fun found inside => ?_, each.properties⟩)
        each.signatures
      exact (ofProperty found (Option.mem_toList.mp inside)).mono further

/-- Members are read in a scope that knows handles only. -/
theorem gives_memberScope (ofScope : HandledScope origins scope) :
    Gives tree origins HandledScope (memberScope scope) := by
  obtain ⟨values⟩ := ofScope
  unfold memberScope
  split
  · exact gives_pure (.mk values)
  · rename_i pending _
    have listed : Gives tree origins
        (fun more found => ∀ list ∈ found, HandledValues more list) (parametersIn pending) :=
      gives_state.map fun _ _ sound list found => sound.lists pending list found
    refine listed.map fun below found each => .mk ?_
    cases found with
    | none => exact stays_values below _ values
    | some list => exact each list rfl

/-- What is merged is among what there was. -/
theorem mergeProperties_subset (own other : List (Property TypeTerm)) :
    mergeProperties own other ⊆ own ++ other := by
  induction other generalizing own with
  | nil => exact List.subset_append_left own []
  | cons property rest ih =>
    rw [mergeProperties_cons]
    refine List.Subset.trans (ih _) ?_
    split
    · exact List.append_subset.mpr ⟨List.subset_append_left _ _,
        List.Subset.trans (List.subset_cons_self _ _) (List.subset_append_right _ _)⟩
    · rw [List.append_assoc]
      exact List.Subset.refl _

theorem handled_merge {own other : List (Property TypeTerm)}
    (ofOwn : HandledProperties origins own) (ofOther : HandledProperties origins other) :
    HandledProperties origins (mergeProperties own other) :=
  fun property member =>
    List.forall_mem_append.mpr ⟨ofOwn, ofOther⟩ property (mergeProperties_subset own other member)

/-- The members and bases of an interface are handles. -/
theorem gives_interfaceParts
    (ofScope : HandledScope origins scope) (declarations : List Declaration) :
    Gives tree origins
      (fun more parts => HandledMembers more parts.1 ∧ HandledTypes more parts.2)
      (interfaceParts scope declarations) := by
  induction declarations generalizing origins with
  | nil => exact gives_pure ⟨handled_none, List.forall_mem_nil _⟩
  | cons declaration rest ih =>
    have later : ∀ {more : Origins}, origins.Below more → ∀ own, HandledMembers more own →
        Gives tree more
          (fun more parts => HandledMembers more parts.1 ∧ HandledTypes more parts.2) (do
            let bases ← ((declaration.node.namedChildren.filter fun child =>
              child.kind == "extends_type_clause").flatMap Node.namedChildren).mapM (typeOf scope)
            let others ← interfaceParts scope rest
            return ((⟨own.properties ++ others.1.properties,
              own.signatures ++ others.1.signatures⟩ : Members TypeTerm),
              bases ++ others.2)) := by
      intro more below own ofOwn
      refine (gives_mapM stays_isHandle fun further base _ =>
        gives_typeOf (scopeEach_mono (below.trans further) ofScope) base).bind
          fun further bases ofBases => ?_
      refine (ih (scopeEach_mono (below.trans further) ofScope)).map ?_
      rintro most last ⟨others, otherBases⟩ ⟨ofOthers, ofOtherBases⟩
      have ofOwn := membersEach_mono (further.trans last) ofOwn
      exact ⟨.mk (List.forall_mem_append.mpr ⟨ofOwn.properties, ofOthers.properties⟩)
        (List.forall_mem_append.mpr ⟨ofOwn.signatures, ofOthers.signatures⟩),
        List.forall_mem_append.mpr ⟨stays_isHandle.all last _ ofBases, ofOtherBases⟩⟩
    unfold interfaceParts
    split
    · exact (gives_bodyMembers ofScope _).bind later
    · exact (gives_pure handled_none).bind later

theorem gives_memberType (ofScope : HandledScope origins scope) (member : Node) :
    Gives tree origins HandledOption (memberType scope member) := by
  have method : Gives tree origins HandledOption (do
      if member.hasChild "set" then return none
      else
        let call ← signature scope member
        return some (if member.hasChild "get" then call.returns else .function "" [call])) := by
    split
    · exact gives_pure nofun
    · refine (gives_signature ofScope member).map fun _ call ofCall => handled_found ?_
      split
      · obtain ⟨_, _, ofReturns⟩ := ofCall
        exact ofReturns
      · exact .function (List.forall_mem_singleton.mpr ofCall)
  unfold memberType
  split
  · split
    · exact (gives_typeOf ofScope _).map fun _ _ => handled_found
    · exact (gives_valueType ofScope _ _).map fun _ _ => handled_found
    · exact gives_pure (handled_found .primitive)
  · exact method
  · exact method
  · exact method
  · exact gives_pure nofun

/-- The properties of a class have handles for types. -/
theorem gives_classProperties
    (ofScope : HandledScope origins scope) {found : List (Property TypeTerm)}
    (ofFound : HandledProperties origins found) (members : List Node) :
    Gives tree origins HandledProperties (classProperties scope found members) := by
  induction members generalizing found origins with
  | nil => exact gives_pure ofFound
  | cons member rest ih =>
    unfold classProperties
    split
    · exact ih ofScope ofFound
    · split
      · exact ih ofScope ofFound
      · refine (gives_memberType ofScope member).bind fun below type ofType => ?_
        have later := scopeEach_mono below ofScope
        have known := stays_properties below _ ofFound
        split
        · exact ih later known
        · refine ih later (List.forall_mem_append.mpr ⟨known, ?_⟩)
          exact List.forall_mem_singleton.mpr (ofType _ rfl)

theorem gives_classBases (ofScope : HandledScope origins scope) (node : Node) :
    Gives tree origins HandledTypes (classBases scope node) := by
  refine (gives_mapM (stays_isHandle.option) fun below clause _ => ?_).map
    fun _ bases each type member => ?_
  · split
    · split
      · exact (gives_newReference _ (scopeEach_mono below ofScope) (.inl rfl)).map
          fun _ _ => handled_found
      · exact gives_pure nofun
    · exact gives_pure nofun
  · obtain ⟨_, inside, rfl⟩ := List.mem_filterMap.mp member
    exact each _ inside type rfl

/-- Inherited properties have handles for types. -/
theorem gives_inherit {properties : TypeTerm → Task Session (List (Property TypeTerm))}
    (finds : ∀ {more}, origins.Below more → ∀ type, IsHandle more type →
      Gives tree more HandledProperties (properties type))
    {found : List (Property TypeTerm)} (ofFound : HandledProperties origins found)
    {bases : List TypeTerm} (ofBases : HandledTypes origins bases) :
    Gives tree origins HandledProperties (inherit properties found bases) := by
  induction bases generalizing found origins with
  | nil => exact gives_pure ofFound
  | cons base rest ih =>
    obtain ⟨ofBase, others⟩ := List.forall_mem_cons.mp ofBases
    refine (finds (.refl _) base ofBase).bind fun below inherited ofInherited => ?_
    exact ih (fun further => finds (below.trans further))
      (handled_merge (stays_properties below _ ofFound) ofInherited)
      (stays_isHandle.all below _ others)

theorem gives_once {collect : Task Session (Members TypeTerm)}
    (gives : Gives tree origins HandledMembers collect) (key : Path × Nat) :
    Gives tree origins HandledMembers (once key collect) := by
  intro journal sound
  rw [once_eq]
  split
  · refine ⟨origins, .refl _, sound, fun members none => ?_⟩
    cases none
    exact handled_none
  · obtain ⟨more, below, ended, each⟩ := gives (entering key journal) (sound.of_eq rfl rfl)
    exact ⟨more, below, ended.of_eq rfl rfl, each⟩

/-- Collected members have handles for types. -/
theorem gives_collectMembers {properties : TypeTerm → Task Session (List (Property TypeTerm))}
    (finds : ∀ {more}, origins.Below more → ∀ type, IsHandle more type →
      Gives tree more HandledProperties (properties type))
    {source : MemberSource TypeTerm} (ofSource : source.Each (IsHandle origins)) :
    Gives tree origins HandledMembers (collectMembers properties source) := by
  cases ofSource with
  | known ofMembers => exact gives_pure ofMembers
  | body ofScope =>
    exact (gives_memberScope ofScope).bind fun _ scope ofScope => gives_bodyMembers ofScope _
  | interface ofScope =>
    refine gives_once ((gives_interfaceParts ofScope _).bind ?_) _
    rintro more below ⟨own, bases⟩ ⟨ofOwn, ofBases⟩
    have merged := handled_merge (List.forall_mem_nil _) ofOwn.properties
    exact (gives_inherit (fun further => finds (below.trans further)) merged ofBases).map
      fun further _ each => .mk each (membersEach_mono further ofOwn).signatures
  | «class» ofScope =>
    refine gives_once ?_ _
    refine (gives_classProperties ofScope (List.forall_mem_nil _) _).bind fun below own ofOwn => ?_
    refine (gives_classBases (scopeEach_mono below ofScope) _).bind fun further bases ofBases => ?_
    exact (gives_inherit (fun last => finds ((below.trans further).trans last))
      (stays_properties further _ ofOwn) ofBases).map
        fun _ _ each => .mk each (List.forall_mem_nil _)

/-- The members of a handle have handles for types. -/
theorem gives_membersWith (fuel : Nat) (handle : IsHandle origins type) :
    Gives tree origins HandledMembers (membersWith fuel type) := by
  induction fuel generalizing type origins with
  | zero => exact gives_pure handled_none
  | succ fuel ih =>
    rw [membersWith_succ]
    refine (gives_structureOf handle).bind fun below target ofTarget => ?_
    cases ofTarget with
    | object ofSource =>
      refine gives_kept (fun further _ => membersEach_mono further) ?_ ?_ ?_
      · exact fun _ _ sound => sound.members
      · rintro more _ members each known sound
        refine ⟨sound.target, sound.followed, ?_⟩
        rintro _ ⟨⟩
        exact each
      · exact fun further => gives_collectMembers
          (fun _ base ofBase => (ih ofBase).map
            fun _ _ => Members.Each.properties)
          (sourceEach_mono further ofSource)
    | _ => exact gives_pure handled_none

/-- The members of a type have types that are handed out. -/
theorem gives_membersOf (handle : IsHandle origins type) :
    Gives tree origins HandledMembers (membersOf type) :=
  gives_sizeBound.bind fun below _ _ => gives_membersWith _ (handle.mono below)

/-! ## Types of declarations -/

theorem handledScope_module (source : SourceModule) :
    HandledScope origins ⟨source, [], none⟩ := .mk (List.forall_mem_nil _)

/-- The type of a declaration is handed out. -/
theorem gives_declarationType (declaration : Declaration) (source : SourceModule) :
    Gives tree origins IsHandle (declarationType declaration source) := by
  have ofScope : ∀ {more : Origins}, HandledScope more ⟨source, [], none⟩ :=
    handledScope_module source
  have alone : Gives tree origins IsHandle (declared [declaration] source [] declaration.name) :=
    gives_declared (List.forall_mem_nil _) _ source _
  unfold declarationType
  dsimp only
  split
  · generalize (if (declaration.name == "default") = true then
      Node.textOf (declaration.node.child? "name") else declaration.name) = name
    split
    · exact alone
    · refine gives_newReference [] ofScope ?_
      split
      · exact .inr (.inl rfl)
      · exact .inr (.inr ⟨_, rfl⟩)
  · split
    · unfold variableType
      split
      · exact gives_typeOf ofScope _
      · exact gives_valueType ofScope _ _
      · exact gives_pure .primitive
    · split
      · exact (gives_signature ofScope _).map fun _ _ ofSignature =>
          .function (List.forall_mem_singleton.mpr ofSignature)
      · split
        · exact alone
        · exact gives_valueType ofScope _ _

end Types

/-! ## All that an analysis hands out -/

/-- The types in members. -/
def Members.types (members : Members TypeTerm) : List TypeTerm :=
  members.properties.map Property.type ++ members.signatures.flatMap Signature.types

namespace Types

/-- What can be asked for when some types have been handed out: the types of syntax, values and
declarations of a module, and of what was handed out its parts, what it stands for and its members.
Whatever else is done changes neither cells nor values of type parameters. -/
inductive Asks (types : List TypeTerm) : Task Session (List TypeTerm) → Prop where
  | syntaxOf (source : SourceModule) (node : Node) :
      Asks types (do return [← typeOf ⟨source, [], none⟩ node])
  | valueOf (source : SourceModule) (constant : Bool) (node : Node) :
      Asks types (do return [← valueType ⟨source, [], none⟩ constant node])
  | declaration (declaration : Declaration) (source : SourceModule) :
      Asks types (do return [← declarationType declaration source])
  | parts {type : TypeTerm} (member : type ∈ types) : Asks types (pure type.parts)
  | structure {type : TypeTerm} (member : type ∈ types) :
      Asks types (do return [← structureOf type])
  | members {type : TypeTerm} (member : type ∈ types) :
      Asks types (do return (← membersOf type).types)
  | elsewhere {task : Task Session Unit}
      (leaves : ∀ (tree : FileTree) (journal : Journal Session),
        (task tree journal).2.state.cells = journal.state.cells ∧
          (task tree journal).2.state.parameterLists = journal.state.parameterLists) :
      Asks types (do
        task
        return [])

/-- In a session the types have been handed out since its analysis began. -/
inductive HandedOut (tree : FileTree) : Journal Session → List TypeTerm → Prop where
  | start (root : Path) (notices : List Notice) : HandedOut tree ⟨.fresh root, notices⟩ []
  | asked {journal after : Journal Session} {types : List TypeTerm}
      {task : Task Session (List TypeTerm)} {outcome : Except Failure (List TypeTerm)}
      (handed : HandedOut tree journal types) (asks : Asks types task)
      (ran : task tree journal = (outcome, after)) :
      HandedOut tree after (outcome.toOption.getD [] ++ types)

variable {types : List TypeTerm}

theorem handled_signatureTypes {signature : Signature TypeTerm}
    (each : HandledSignature origins signature) : HandledTypes origins signature.types := by
  obtain ⟨parameterTypes, bound, ofReturns⟩ := each
  refine List.forall_mem_append.mpr ⟨fun type inside => ?_, List.forall_mem_singleton.mpr ofReturns⟩
  obtain ⟨parameter, member, here⟩ := List.mem_flatMap.mp inside
  rcases List.mem_cons.mp here with rfl | inBound
  · exact parameterTypes parameter member
  · obtain ⟨property, found, rfl⟩ := List.mem_map.mp inBound
    exact bound parameter member property found

theorem handled_signaturesTypes {signatures : List (Signature TypeTerm)}
    (each : ∀ signature ∈ signatures, HandledSignature origins signature) :
    HandledTypes origins (signatures.flatMap Signature.types) := by
  intro type inside
  obtain ⟨signature, member, here⟩ := List.mem_flatMap.mp inside
  exact handled_signatureTypes (each signature member) type here

theorem handled_memberTypes {members : Members TypeTerm} (each : HandledMembers origins members) :
    HandledTypes origins members.types :=
  List.forall_mem_append.mpr
    ⟨List.forall_mem_map.mpr each.properties, handled_signaturesTypes each.signatures⟩

theorem handled_parts (handle : IsHandle origins type) : HandledTypes origins type.parts := by
  cases handle with
  | array ofElement => exact List.forall_mem_singleton.mpr ofElement
  | tuple each | union each | intersection each => exact each
  | function each => exact handled_signaturesTypes each
  | primitive | literal | verbatim | object | reference => exact List.forall_mem_nil _

/-- Whatever is asked of handles, the answer hands out handles. -/
theorem gives_asks {task : Task Session (List TypeTerm)}
    (handed : HandledTypes origins types) (asks : Asks types task) :
    Gives tree origins HandledTypes task := by
  have single : ∀ {more : Origins} (type : TypeTerm),
      IsHandle more type → HandledTypes more [type] :=
    fun _ => List.forall_mem_singleton.mpr
  cases asks with
  | syntaxOf source node =>
    exact (gives_typeOf (handledScope_module source) node).map fun _ => single
  | valueOf source constant node =>
    exact (gives_valueType (handledScope_module source) constant node).map fun _ => single
  | declaration declaration source =>
    exact (gives_declarationType declaration source).map fun _ => single
  | parts member => exact gives_pure (handled_parts (handed _ member))
  | «structure» member => exact (gives_structureOf (handed _ member)).map fun _ => single
  | members member => exact (gives_membersOf (handed _ member)).map fun _ _ => handled_memberTypes
  | elsewhere leaves =>
    exact (gives_of_leaves (leaves tree)).bind fun _ _ _ => gives_pure (List.forall_mem_nil _)

/-- Whatever is asked for, sessions stay sound and all types in them are handed out. -/
theorem HandedOut.exists_origins
    {journal : Journal Session} (handed : HandedOut tree journal types) :
    ∃ origins, journal.state.IsSound tree origins ∧ HandledTypes origins types := by
  induction handed with
  | start root notices => exact ⟨_, isSound_fresh tree root, List.forall_mem_nil _⟩
  | @asked journal after types task outcome _ asks ran ih =>
    obtain ⟨origins, sound, each⟩ := ih
    obtain ⟨more, below, ended, ofAnswer⟩ := gives_asks each asks journal sound
    rw [ran] at ended ofAnswer
    refine ⟨more, ended, List.forall_mem_append.mpr ⟨?_, stays_isHandle.all below _ each⟩⟩
    cases outcome with
    | error failure => exact List.forall_mem_nil _
    | ok found => exact ofAnswer found rfl

end Types
end ModuleAtlas
