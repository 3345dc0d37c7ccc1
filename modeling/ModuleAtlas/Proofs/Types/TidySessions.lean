import ModuleAtlas.Proofs.Types.TidyReading

/-!
# Following tidy types

In a file tree of tidy modules every session stays tidy: the modules that specifiers lead to, what
references stand for and the members of object types all come from tidy syntax.  An object type has
each of its properties under a name of its own, whether they are read from one body, merged from
several or inherited.
-/

namespace ModuleAtlas

open ModuleAtlas.Types

/-- No name is repeated in the modules of a file tree. -/
def FileTree.Tidy (tree : FileTree) : Prop :=
  ∀ path source, Session.moduleAt tree path = .ok source → source.Tidy

namespace SourceModule

/-- What the statements of a file declare or export by themselves. -/
def statedDeclarations (root : Node) : List Declaration :=
  (Contribution.ofStatements root.namedChildren).declarations
    ++ (Contribution.ofStatements root.namedChildren).exports.map Prod.snd

/-- A module declares and exports nothing but what its statements do. -/
theorem tidy_ofTree {root : Node}
    (stated : ∀ declaration ∈ statedDeclarations root, declaration.node.DeclaresTidily)
    (path : Path) (language : Language) :
    (ofTree path language root).Tidy := by
  obtain ⟨declared, exported⟩ := List.forall_mem_append.mp stated
  have listed : ∀ name, ∀ declaration ∈ (ofTree path language root).lookup name,
      declaration.node.DeclaresTidily := by
    intro name declaration member
    rw [lookup_ofTree] at member
    exact declared declaration (List.mem_filter.mp member).1
  rintro declaration (⟨name, member⟩ | ⟨name, member⟩)
  · exact listed name declaration member
  · rw [exports_ofTree] at member
    rcases List.mem_append.mp member with direct | clause
    · exact exported declaration (List.mem_map.mpr ⟨_, direct, rfl⟩)
    · obtain ⟨names, _, settled⟩ := List.mem_flatMap.mp clause
      obtain ⟨target, targetMember, same⟩ := List.mem_map.mp settled
      cases same
      exact listed names.2 _ targetMember

end SourceModule

/-- A tree is tidy if what its files declare is. -/
theorem FileTree.tidy_of_trees {tree : FileTree}
    (stated : ∀ parsed ∈ tree.root.trees, ∀ declaration ∈ SourceModule.statedDeclarations parsed,
      declaration.node.DeclaresTidily) :
    tree.Tidy := by
  intro path source read
  unfold Session.moduleAt at read
  split at read
  · cases read
  · split at read
    · rename_i parsed found
      rw [← Except.ok.inj read]
      cases parsed with
      | none =>
        refine SourceModule.tidy_ofTree (fun declaration member => ?_) _ _
        cases member
      | some parsed =>
        obtain ⟨_, known, _⟩ := FileTree.resolve?_of_lookup found
        exact SourceModule.tidy_ofTree (stated parsed (Entry.mem_trees known)) _ _
    · cases read

variable {tree : FileTree} {α : Type}

namespace Session

/-! ## Modules -/

/-- A session holds nothing that its resolver could make untidy. -/
theorem tidies_resolving (task : Task Resolver α) :
    Tidies tree (fun _ => True) (resolving task) := by
  intro journal held
  rcases ran : task tree ⟨journal.state.resolver, journal.notices⟩ with ⟨outcome, inner⟩
  refine ⟨outcome, ⟨{ journal.state with resolver := inner.state }, inner.notices⟩, ?_, ?_,
    held.modules, held.cells, held.lists⟩
  · simp only [resolving, Task.within, ran]
  · cases outcome
    · exact .error trivial
    · exact .ok trivial

theorem tidies_sizeBound : Tidies tree (fun _ => True) sizeBound :=
  Tidies.bind Task.ends_files fun _ _ => Tidies.bind Task.ends_state fun _ _ => tidies_pure trivial

variable (tidy : tree.Tidy)

include tidy

theorem tidies_readModule (canonical : Path) :
    Tidies tree (fun outcome => ∀ source, outcome = .ok source → source.Tidy)
      (readModule canonical) := by
  refine Tidies.bind Task.ends_state fun session held => ?_
  split
  · rename_i known found
    refine tidies_pure ?_
    rintro _ ⟨⟩
    obtain ⟨early, late, same, _⟩ := List.lookup_eq_some_iff.mp found
    exact held.modules (canonical, known) (by simp [same])
  · refine Tidies.bind Task.ends_files ?_
    rintro _ rfl
    split
    · exact tidies_pure fun _ impossible => by cases impossible
    · rename_i indexed found
      have ofModule := tidy canonical indexed found
      refine Tidies.bind (tidies_update fun session known => ?_) fun _ _ => tidies_pure ?_
      · exact ⟨List.forall_mem_cons.mpr ⟨ofModule, known.modules⟩, known.cells, known.lists⟩
      · rintro _ ⟨⟩
        exact ofModule

theorem tidies_parse (path : Path) :
    Tidies tree (fun outcome => ∀ source, outcome = .ok source → source.Tidy) (parse path) :=
  Tidies.bind (Task.ends_resolvePath path (fun _ => trivial) fun _ => trivial)
    fun canonical _ => tidies_readModule tidy canonical

theorem tidies_load (specifier : String) (importer : SourceModule) :
    Tidies tree (fun found => ∀ source ∈ found, source.Tidy) (load specifier importer) := by
  have nothing : Tidies tree (fun found => ∀ source ∈ found, source.Tidy)
      (pure none : Task Session (Option SourceModule)) :=
    tidies_pure fun _ impossible => by cases impossible
  refine (tidies_resolving _).bind fun resolution _ => ?_
  split
  · exact nothing
  · split
    · refine (tidies_parse tidy _).map fun outcome ofOutcome source found => ofOutcome source ?_
      cases outcome with
      | ok value =>
        cases found
        rfl
      | error fault => cases found
    · exact nothing

end Session

namespace Types

open Session

/-! ## Exports -/

/-- Tidy declarations in a tidy module. -/
structure TidyFound (found : Found) : Prop where
  declarations : ∀ declaration ∈ found.1, declaration.node.DeclaresTidily
  source : found.2.Tidy

section

variable (tidy : tree.Tidy)

include tidy

theorem tidies_findAmong
    {find : Asked → SourceModule → String → Task Session (Option Found × Asked)}
    (finds : ∀ asked {source : SourceModule} name, source.Tidy →
      Tidies tree (fun answer => ∀ found ∈ answer.1, TidyFound found) (find asked source name))
    (source : SourceModule) (name : String) (asked : Asked) (entries : List ReExport) :
    Tidies tree (fun answer => ∀ found ∈ answer.1, TidyFound found)
      (findAmong find source name asked entries) := by
  induction entries generalizing asked with
  | nil => exact tidies_pure fun _ impossible => by cases impossible
  | cons entry rest ih =>
    unfold findAmong
    split
    · exact ih asked
    · refine (tidies_load tidy _ _).bind fun target ofTarget => ?_
      split
      · exact ih asked
      · refine (finds asked _ (ofTarget _ rfl)).bind fun answer ofAnswer => ?_
        split
        · exact tidies_pure ofAnswer
        · exact ih _

/-- A search in tidy modules finds tidy declarations, whatever fuel is left. -/
theorem tidies_findWith
    (fuel : Nat) (asked : Asked) {source : SourceModule} (name : String) (ofSource : source.Tidy) :
    Tidies tree (fun answer => ∀ found ∈ answer.1, TidyFound found)
      (findWith fuel asked source name) := by
  induction fuel generalizing asked source name with
  | zero => exact tidies_pure fun _ impossible => by cases impossible
  | succ fuel ih =>
    unfold findWith
    split
    · exact tidies_pure fun _ impossible => by cases impossible
    · dsimp only
      split
      · exact tidies_findAmong tidy ih source name _ _
      · refine tidies_pure ?_
        rintro _ ⟨⟩
        refine ⟨fun declaration member => ofSource declaration (.inr ?_), ofSource⟩
        obtain ⟨⟨exported, _⟩, entryMember, rfl⟩ := List.mem_map.mp member
        exact ⟨exported, (List.mem_filter.mp entryMember).1⟩

theorem tidies_findExport {source : SourceModule} (name : String) (ofSource : source.Tidy) :
    Tidies tree (fun answer => ∀ found ∈ answer, TidyFound found) (findExport source name) :=
  tidies_sizeBound.bind fun _ _ => (tidies_findWith tidy _ _ name ofSource).map fun _ => id

/-- Tidy declarations with the modules that they stand in. -/
def TidyExports (exports : List Export) : Prop :=
  ∀ found ∈ exports, found.declaration.node.DeclaresTidily ∧ found.source.Tidy

theorem tidies_namedExports
    {target : SourceModule} (names : List (String × String)) (ofTarget : target.Tidy) :
    Tidies tree TidyExports (namedExports target names) := by
  induction names with
  | nil => exact tidies_pure fun _ impossible => absurd impossible List.not_mem_nil
  | cons name rest ih =>
    have later : ∀ here, TidyExports here → Tidies tree TidyExports (do
        return here ++ (← namedExports target rest)) :=
      fun here ofHere => ih.map fun others ofOthers =>
        List.forall_mem_append.mpr ⟨ofHere, ofOthers⟩
    obtain ⟨exported, imported⟩ := name
    refine (tidies_findExport tidy imported ofTarget).bind fun found ofFound => ?_
    split
    · rename_i declarations source
      have ofDeclarations := ofFound _ rfl
      refine (tidies_pure rfl).bind fun here (same : declarations.map _ = here) => later here ?_
      subst same
      intro handed member
      obtain ⟨declaration, declarationMember, rfl⟩ := List.mem_map.mp member
      exact ⟨ofDeclarations.declarations declaration declarationMember, ofDeclarations.source⟩
    · refine (tidies_pure rfl).bind fun here (same : [] = here) => later here ?_
      subst same
      exact fun _ impossible => absurd impossible List.not_mem_nil

theorem tidies_exportsAmong
    {list : List Path → SourceModule → Task Session (List Export × List Path)}
    (lists : ∀ seen {source : SourceModule}, source.Tidy →
      Tidies tree (fun answer => TidyExports answer.1) (list seen source))
    (source : SourceModule) (seen : List Path) (entries : List ReExport) :
    Tidies tree (fun answer => TidyExports answer.1) (exportsAmong list source seen entries) := by
  have nothing : TidyExports [] := fun _ impossible => absurd impossible List.not_mem_nil
  induction entries generalizing seen with
  | nil => exact tidies_pure nothing
  | cons entry rest ih =>
    have later : ∀ here : List Export × List Path, TidyExports here.1 →
        Tidies tree (fun answer => TidyExports answer.1) (do
          let others ← exportsAmong list source here.2 rest
          return (here.1 ++ others.1, others.2)) :=
      fun here ofHere => (ih here.2).map fun others ofOthers =>
        List.forall_mem_append.mpr ⟨ofHere, ofOthers⟩
    have after : ∀ (here : List Export) (seen : List Path), TidyExports here →
        Tidies tree (fun answer => TidyExports answer.1) (do
          let found ← pure (here, seen)
          let others ← exportsAmong list source found.2 rest
          return (found.1 ++ others.1, others.2)) :=
      fun here seen ofHere => (tidies_pure rfl).bind fun found (same : (here, seen) = found) =>
        later found (same ▸ ofHere)
    unfold exportsAmong
    refine (tidies_load tidy _ _).bind fun target ofTarget => ?_
    split
    · exact after [] seen nothing
    · rename_i target
      have tidyTarget := ofTarget target rfl
      split
      · exact after [] seen nothing
      · refine (lists seen tidyTarget).bind fun answer ofAnswer => ?_
        exact after _ _ fun found member => ofAnswer found (List.mem_filter.mp member).1
      · refine (tidies_namedExports tidy _ tidyTarget).bind fun found ofFound => ?_
        exact after _ _ ofFound

/-- Tidy modules list tidy exports, whatever fuel is left. -/
theorem tidies_exportsWith (fuel : Nat) (seen : List Path) {source : SourceModule}
    (ofSource : source.Tidy) :
    Tidies tree (fun answer => TidyExports answer.1) (exportsWith fuel seen source) := by
  have nothing : TidyExports [] := fun _ impossible => absurd impossible List.not_mem_nil
  induction fuel generalizing seen source with
  | zero => exact tidies_pure nothing
  | succ fuel ih =>
    unfold exportsWith
    split
    · exact tidies_pure nothing
    · refine (tidies_exportsAmong tidy ih source _ _).map fun others ofOthers =>
        List.forall_mem_append.mpr ⟨fun found member => ?_, ofOthers⟩
      obtain ⟨⟨name, declaration⟩, exported, rfl⟩ := List.mem_map.mp member
      exact ⟨ofSource declaration (.inr ⟨name, exported⟩), ofSource⟩

theorem tidies_moduleExports {source : SourceModule} (ofSource : source.Tidy) :
    Tidies tree TidyExports (moduleExports source) :=
  tidies_sizeBound.bind fun _ _ => (tidies_exportsWith tidy _ _ ofSource).map fun _ => id

end

/-! ## Cells and lists of parameter values -/

theorem tidies_cellOf (cell : Nat) : Tidies tree Cell.Tidy (cellOf cell) := by
  refine Tidies.map Task.ends_state fun session held => ?_
  rw [Array.getD_eq_getD_getElem?]
  cases found : session.cells[cell]? with
  | some known => exact held.cells cell known found
  | none => exact ⟨by simp, by simp⟩

theorem tidies_setCell
    {change : Cell → Cell} (kept : ∀ known : Cell, known.Tidy → (change known).Tidy) (cell : Nat) :
    Tidies tree (fun _ => True) (setCell cell change) := by
  refine tidies_update fun session held => ⟨held.modules, fun index known found => ?_, held.lists⟩
  rw [Array.getElem?_modify] at found
  split at found
  · obtain ⟨former, foundFormer, rfl⟩ := Option.map_eq_some_iff.mp found
    exact kept former (held.cells index former foundFormer)
  · exact held.cells index known found

theorem tidies_newParameterList : Tidies tree (fun _ => True) newParameterList := by
  refine Tidies.bind Task.ends_state fun session _ => Tidies.bind (tidies_update fun session held =>
    ⟨held.modules, held.cells, fun index list found => ?_⟩) fun _ _ => tidies_pure trivial
  rw [Array.getElem?_push] at found
  split at found
  · cases found
    exact fun _ impossible => absurd impossible List.not_mem_nil
  · exact held.lists index list found

theorem tidies_keepParameters
    {bound : List (String × TypeTerm)} (ofBound : ∀ parameter ∈ bound, parameter.2.Tidy)
    (list : Nat) :
    Tidies tree (fun _ => True) (keepParameters list bound) := by
  refine tidies_update fun session held => ⟨held.modules, held.cells, fun index known found => ?_⟩
  rw [Array.getElem?_modify] at found
  split at found
  · obtain ⟨_, _, rfl⟩ := Option.map_eq_some_iff.mp found
    exact ofBound
  · exact held.lists index known found

/-! ## Declarations -/

variable {arguments : List TypeTerm}

/-- Tidy parameters are bound to tidy types. -/
theorem tidies_bindParameters {source : SourceModule} (ofSource : source.Tidy) (pending : Nat)
    {bound : List (String × TypeTerm)} {parameters : List Node}
    (ofBound : ∀ parameter ∈ bound, parameter.2.Tidy)
    (ofArguments : ∀ argument ∈ arguments, argument.Tidy)
    (tidy : ∀ parameter ∈ parameters, parameter.Tidy) :
    Tidies tree (fun found => ∀ parameter ∈ found, parameter.2.Tidy)
      (bindParameters source pending bound arguments parameters) := by
  induction parameters generalizing bound arguments with
  | nil => cases arguments <;> exact tidies_pure ofBound
  | cons parameter rest ih =>
    obtain ⟨first, others⟩ := List.forall_mem_cons.mp tidy
    cases arguments with
    | cons argument arguments =>
      obtain ⟨ofArgument, ofRest⟩ := List.forall_mem_cons.mp ofArguments
      exact ih (Keyed.forall_mem_put ofArgument ofBound _) ofRest others
    | nil =>
      unfold bindParameters
      split
      · refine (tidies_typeOf (.mk ofSource ofBound) (first.child? ‹_›)).bind
          fun type ofType => ?_
        exact ih (Keyed.forall_mem_put ofType ofBound _) ofArguments others
      · exact ih ofBound ofArguments others

theorem tidies_scopeOf {node : Node} {source : SourceModule}
    (tidy : node.DeclaresTidily) (ofSource : source.Tidy)
    (ofArguments : ∀ argument ∈ arguments, argument.Tidy) :
    Tidies tree (TidyScope TypeTerm.Tidy) (scopeOf node source arguments) := by
  have ofParameters : ∀ parameter ∈ typeParameters node, parameter.Tidy := by
    intro parameter member
    unfold typeParameters at member
    split at member
    · rename_i list found
      have below := (List.mem_filter.mp (List.mem_filter.mp member).1).1
      exact tidy.part (List.mem_of_find?_eq_some found) below
    · cases member
  refine tidies_newParameterList.bind fun pending _ => ?_
  refine (tidies_bindParameters ofSource pending (by simp) ofArguments ofParameters).bind
    fun bound ofBound => ?_
  exact (tidies_keepParameters ofBound pending).map fun _ _ => .mk ofSource ofBound

theorem tidies_nameAlias (name : String) (target : TypeTerm) :
    Tidies tree (fun _ => True) (nameAlias name target) := by
  unfold nameAlias
  split
  · refine (tidies_cellOf _).bind fun known _ => ?_
    split
    · refine tidies_setCell ?_ _
      exact fun known ofKnown => ⟨ofKnown.target, ofKnown.members⟩
    · exact tidies_pure trivial
  · exact tidies_pure trivial

theorem tidies_declared
    {declarations : List Declaration} {source : SourceModule}
    (tidy : ∀ declaration ∈ declarations, declaration.node.DeclaresTidily) (ofSource : source.Tidy)
    (ofArguments : ∀ argument ∈ arguments, argument.Tidy) (name : String) :
    Tidies tree TypeTerm.Tidy (declared declarations source arguments name) := by
  unfold declared
  split
  · exact tidies_pure (.verbatim _)
  rename_i first rest structures
  have each : ∀ declaration ∈ first :: rest, declaration.node.DeclaresTidily :=
    fun declaration member => tidy declaration
      (List.mem_filter.mp (structures ▸ member)).1
  have ofFirst := each first List.mem_cons_self
  refine (tidies_scopeOf ofFirst ofSource ofArguments).bind fun scope ofScope => ?_
  split
  · refine tidies_newObject (.interface (fun declaration member => ?_) ofScope) _ _
    exact each declaration (List.mem_filter.mp member).1
  · rename_i kind
    split
    · exact tidies_pure (.verbatim _)
    · have below := (ofFirst.tidy (by simp [kind])).child? ‹_›
      refine (tidies_typeOf ofScope below).bind fun target ofTarget => ?_
      exact (tidies_nameAlias name target).map fun _ _ => ofTarget
  · refine tidies_pure (.union fun member inside => ?_)
    unfold enumMembers at inside
    obtain ⟨_, _, named⟩ := List.mem_filterMap.mp inside
    split at named
    · cases named
      exact .literal _
    · split at named
      · cases named
        exact .literal _
      · cases named
  · exact tidies_newObject (.class ofFirst ofScope) _ _

/-! ## References -/

section

variable (tidy : tree.Tidy) {source : SourceModule} {arguments : List TypeTerm}
  (ofArguments : ∀ argument ∈ arguments, argument.Tidy)

include tidy ofArguments

theorem tidies_imported? (binding : Binding) (exported name : String) :
    Tidies tree (fun found => ∀ type ∈ found, type.Tidy)
      (imported? binding exported name source arguments) := by
  have nothing : Tidies tree (fun found => ∀ type ∈ found, type.Tidy)
      (pure none : Task Session (Option TypeTerm)) :=
    tidies_pure fun _ impossible => by cases impossible
  refine (tidies_load tidy _ source).bind fun target ofTarget => ?_
  split
  · exact nothing
  · refine (tidies_findExport tidy exported (ofTarget _ rfl)).bind fun found ofFound => ?_
    split
    · exact nothing
    · have ofDeclarations := ofFound _ rfl
      refine (tidies_declared ofDeclarations.declarations ofDeclarations.source ofArguments
        name).map ?_
      rintro type ofType _ ⟨⟩
      exact ofType

theorem tidies_qualified? (nameSpace member : String) :
    Tidies tree (fun found => ∀ type ∈ found, type.Tidy)
      (qualified? nameSpace member source arguments) := by
  unfold qualified?
  split
  · split
    · exact tidies_imported? tidy ofArguments _ _ _
    · exact tidies_pure fun _ impossible => by cases impossible
  · exact tidies_pure fun _ impossible => by cases impossible

theorem tidies_named? (ofSource : source.Tidy) (name : String) :
    Tidies tree (fun found => ∀ type ∈ found, type.Tidy) (named? name source arguments) := by
  unfold named?
  split
  · split
    · exact tidies_imported? tidy ofArguments _ _ _
    · exact tidies_pure fun _ impossible => by cases impossible
  · refine (tidies_declared (fun declaration member => ?_) ofSource ofArguments name).map ?_
    · exact ofSource declaration (.inl ⟨name, (List.mem_filter.mp member).1⟩)
    · rintro type ofType _ ⟨⟩
      exact ofType

end

section

variable (tidy : tree.Tidy) {scope : Scope TypeTerm}

include tidy

/-- References in tidy scopes stand for tidy types. -/
theorem tidies_targetOf
    {arguments : List Node} (ofScope : TidyScope TypeTerm.Tidy scope)
    (ofArguments : ∀ argument ∈ arguments, argument.Tidy) (code name : String) :
    Tidies tree TypeTerm.Tidy (targetOf code name scope arguments) := by
  have orBuiltin : ∀ found : Option TypeTerm, (∀ type ∈ found, type.Tidy) →
      Tidies tree TypeTerm.Tidy (targetOf.orBuiltin code name found) := by
    intro found ofFound
    unfold targetOf.orBuiltin
    split
    · exact tidies_pure (ofFound _ rfl)
    · refine tidies_pure ?_
      split
      · exact .primitive _
      · exact .verbatim _
  refine (tidies_mapM_all fun argument member =>
    tidies_typeOf ofScope (ofArguments argument member)).bind fun types ofTypes => ?_
  obtain ⟨ofSource, values⟩ := ofScope
  have plain := (tidies_named? tidy ofTypes ofSource name).bind orBuiltin
  split
  · refine (tidies_qualified? tidy ofTypes _ _).map fun found ofFound => ?_
    cases found with
    | none => exact .verbatim _
    | some type => exact ofFound type rfl
  · split
    · rename_i found
      exact tidies_pure (values (name, _) (mem_of_lookup_eq_some found))
    · split
      · split
        · exact tidies_pure (.array (ofTypes _ List.mem_cons_self))
        · exact plain
      · exact plain

theorem tidies_step
    {arguments : List Node} (ofScope : TidyScope TypeTerm.Tidy scope)
    (ofArguments : ∀ argument ∈ arguments, argument.Tidy) (cell : Nat) (code name : String) :
    Tidies tree TypeTerm.Tidy (step cell code name scope arguments) := by
  refine (tidies_cellOf cell).bind fun known ofKnown => ?_
  split
  · exact tidies_pure (ofKnown.target _ ‹_›)
  · refine (tidies_targetOf tidy ofScope ofArguments code name).bind fun target ofTarget => ?_
    refine Tidies.map (tidies_setCell ?_ cell) fun _ _ => ofTarget
    refine fun known ofCell => ⟨?_, ofCell.members⟩
    rintro _ ⟨⟩
    exact ofTarget

variable {type : TypeTerm}

/-- Chains of references lead from tidy types to tidy types. -/
theorem tidies_structureFrom (start : TypeTerm) (hops : Nat) (ofType : type.Tidy) :
    Tidies tree TypeTerm.Tidy (structureFrom start hops type) := by
  induction hops generalizing type with
  | zero =>
    cases ofType with
    | reference ofScope ofArguments =>
      exact (tidies_step tidy ofScope ofArguments _ _ _).map fun _ _ => .verbatim _
    | _ => exact tidies_pure (by constructor <;> assumption)
  | succ hops ih =>
    cases ofType with
    | reference ofScope ofArguments =>
      exact (tidies_step tidy ofScope ofArguments _ _ _).bind fun _ => ih
    | _ => exact tidies_pure (by constructor <;> assumption)

theorem tidies_structureOf (ofType : type.Tidy) : Tidies tree TypeTerm.Tidy (structureOf type) :=
  tidies_structureFrom tidy type _ ofType

omit tidy in
theorem tidies_ownName (type : TypeTerm) : Tidies tree (fun _ => True) (ownName type) := by
  cases type with
  | object cell code name source =>
    cases name with
    | some name => exact tidies_pure trivial
    | none => exact (tidies_cellOf cell).image
  | _ => exact tidies_pure trivial

theorem tidies_symbolOf (ofType : type.Tidy) : Tidies tree (fun _ => True) (symbolOf type) := by
  refine (tidies_ownName type).bind fun name _ => ?_
  split
  · exact tidies_pure trivial
  · split
    · exact (tidies_structureOf tidy ofType).bind fun target _ => tidies_ownName target
    · exact tidies_pure trivial

theorem tidies_isObject (ofType : type.Tidy) : Tidies tree (fun _ => True) (isObject type) := by
  refine (tidies_structureOf tidy ofType).bind fun target _ => ?_
  split <;> exact tidies_pure trivial

/-! ## Members -/

omit tidy in
/-- Members of a tidy scope are read in a tidy scope. -/
theorem tidies_memberScope (ofScope : TidyScope TypeTerm.Tidy scope) :
    Tidies tree (TidyScope TypeTerm.Tidy) (memberScope scope) := by
  unfold memberScope
  split
  · exact tidies_pure ofScope
  · rename_i pending _
    obtain ⟨ofSource, values⟩ := ofScope
    have looked : Tidies tree
        (fun list => ∀ found ∈ list, ∀ parameter ∈ found, parameter.2.Tidy)
        (parametersIn pending) :=
      Tidies.map Task.ends_state fun session held => held.lists pending
    refine looked.bind fun found ofFound => tidies_pure (.mk ofSource ?_)
    cases found with
    | none => exact values
    | some list => exact ofFound list rfl

omit tidy in
theorem tidies_inherit {properties : TypeTerm → Task Session (List (Property TypeTerm))}
    (finds : ∀ {type : TypeTerm}, type.Tidy → Tidies tree TidyProperties (properties type))
    {found : List (Property TypeTerm)} {bases : List TypeTerm}
    (known : TidyProperties found) (ofBases : ∀ base ∈ bases, base.Tidy) :
    Tidies tree TidyProperties (inherit properties found bases) := by
  induction bases generalizing found with
  | nil => exact tidies_pure known
  | cons base rest ih =>
    obtain ⟨first, others⟩ := List.forall_mem_cons.mp ofBases
    exact (finds first).bind fun more ofMore =>
      ih (known.merge ofMore.plainly) others

omit tidy in
theorem tidyMembers_none : TidyMembers TypeTerm.Tidy (Members.none : Members TypeTerm) :=
  .mk ⟨List.nodup_nil, by simp⟩ (by simp) (by simp)

omit tidy in
/-- Which declarations are being collected makes nothing untidy. -/
theorem tidies_once {collect : Task Session (Members TypeTerm)}
    (tidies : Tidies tree (TidyMembers TypeTerm.Tidy) collect) (key : Path × Nat) :
    Tidies tree (TidyMembers TypeTerm.Tidy) (once key collect) := by
  intro journal held
  rw [once_eq]
  cases journal.state.expanding.contains key with
  | true => exact ⟨_, _, rfl, .ok tidyMembers_none, held⟩
  | false =>
    obtain ⟨outcome, between, ran, ofOne, kept⟩ :=
      tidies (entering key journal) ⟨held.modules, held.cells, held.lists⟩
    rw [ran]
    exact ⟨outcome, leaving key between, rfl, ofOne, kept.modules, kept.cells, kept.lists⟩

omit tidy in
/-- Tidy declarations have tidy members. -/
theorem tidies_collectMembers {properties : TypeTerm → Task Session (List (Property TypeTerm))}
    (finds : ∀ {type : TypeTerm}, type.Tidy → Tidies tree TidyProperties (properties type))
    {source : MemberSource TypeTerm} (ofSource : TidySource TypeTerm.Tidy source) :
    Tidies tree (TidyMembers TypeTerm.Tidy) (collectMembers properties source) := by
  unfold collectMembers
  cases ofSource with
  | known ofMembers => exact tidies_pure ofMembers
  | @body node scope nodeTidy isList ofScope =>
    refine (tidies_memberScope ofScope).bind fun scope scopeTidy => ?_
    have ofMembers : ∀ member ∈ node.namedChildren, member.Tidy := fun _ => nodeTidy.named
    refine (tidies_bodyMembers scopeTidy ofMembers).mono ?_
    rintro ⟨own, signatures⟩ ⟨⟨given, ofGiven, rfl⟩, ofSignatures⟩
    have ofOwn := tidyProperties_of_given (nodeTidy.self.members isList) ofMembers ofGiven
    exact .mk ofOwn.toNamesApart ofOwn.types ofSignatures
  | interface declared ofScope =>
    refine tidies_once ?_ _
    refine (tidies_interfaceParts ofScope declared).bind ?_
    rintro ⟨own, bases⟩ ⟨ownPlain, ofSignatures, ofBases⟩
    refine (tidies_inherit finds (TidyProperties.nil.merge ownPlain) ofBases).map
      fun merged ofMerged => ?_
    exact .mk ofMerged.toNamesApart ofMerged.types ofSignatures
  | @«class» node scope declared ofScope =>
    refine tidies_once ?_ _
    have ofMembers : ∀ member ∈ bodyNodes node, member.Tidy := by
      intro member inside
      unfold bodyNodes at inside
      split at inside
      · rename_i body found
        exact declared.part (List.mem_of_find?_eq_some found) (List.mem_filter.mp inside).1
      · cases inside
    refine (tidies_classProperties ofScope .nil ofMembers).bind fun own ofOwn => ?_
    refine (tidies_classBases ofScope declared).bind fun bases ofBases => ?_
    refine (tidies_inherit finds ofOwn ofBases).map fun merged ofMerged => ?_
    exact .mk ofMerged.toNamesApart ofMerged.types (by simp)

/-- Tidy types have tidy members, whatever fuel is left. -/
theorem tidies_membersWith (fuel : Nat) (ofType : type.Tidy) :
    Tidies tree (TidyMembers TypeTerm.Tidy) (membersWith fuel type) := by
  induction fuel generalizing type with
  | zero => exact tidies_pure tidyMembers_none
  | succ fuel ih =>
    refine (tidies_structureOf tidy ofType).bind fun target ofTarget => ?_
    cases ofTarget with
    | object ofSource =>
      refine (tidies_cellOf _).bind fun known ofKnown => ?_
      split
      · exact tidies_pure (ofKnown.members _ ‹_›)
      · refine (tidies_collectMembers (fun baseTidy => ?_) ofSource).bind
          fun members ofMembers => ?_
        · refine (ih baseTidy).map ?_
          rintro _ ⟨apart, types, _⟩
          exact ⟨apart, types⟩
        · refine Tidies.map (tidies_setCell ?_ _) fun _ _ => ofMembers
          refine fun known ofCell => ⟨ofCell.target, ?_⟩
          rintro _ ⟨⟩
          exact ofMembers
    | _ => exact tidies_pure tidyMembers_none

/-- The properties of a type have names of their own. -/
theorem tidies_propertiesOf (ofType : type.Tidy) :
    Tidies tree TidyProperties (propertiesOf type) := by
  refine (tidies_sizeBound.bind fun bound _ => tidies_membersWith tidy _ ofType).map ?_
  rintro _ ⟨apart, types, _⟩
  exact ⟨apart, types⟩

end

/-! ## Types of declarations -/

theorem tidies_declarationType {declaration : Declaration} {source : SourceModule}
    (tidy : declaration.node.DeclaresTidily) (ofSource : source.Tidy) :
    Tidies tree TypeTerm.Tidy (declarationType declaration source) := by
  have ofScope : TidyScope TypeTerm.Tidy (⟨source, [], none⟩ : Scope TypeTerm) :=
    .mk ofSource (by simp)
  have alone : Tidies tree TypeTerm.Tidy (declared [declaration] source [] declaration.name) :=
    tidies_declared (List.forall_mem_singleton.mpr tidy) ofSource (List.forall_mem_nil _) _
  unfold declarationType
  dsimp only
  split
  · generalize (if (declaration.name == "default") = true then
      Node.textOf (declaration.node.child? "name") else declaration.name) = name
    split
    · exact alone
    · exact tidies_newReference ofScope (by simp) _ _
  · rename_i notType
    have all : declaration.node.Tidy := tidy.tidy fun isInterface => notType (by
      rw [isInterface]
      rfl)
    split
    · unfold variableType
      split
      · exact tidies_typeOf ofScope (all.child? ‹_›)
      · exact tidies_valueType ofScope _ (all.child? ‹_›)
      · exact tidies_pure tidy_any
    · split
      · exact (tidies_signature ofScope all).map fun _ ofSignature =>
          .function (List.forall_mem_singleton.mpr ofSignature)
      · split
        · exact alone
        · exact tidies_valueType ofScope true all

end Types
end ModuleAtlas
