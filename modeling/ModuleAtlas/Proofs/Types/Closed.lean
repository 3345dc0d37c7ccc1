import ModuleAtlas.Proofs.Types.Reads
import ModuleAtlas.Proofs.Resolve.Completeness
import ModuleAtlas.Proofs.Types.MemberTwins

/-!
# Properties of all reading

What holds of all reading when it holds of the single steps, and what stops reading.
-/

namespace ModuleAtlas

/-!
## What holds of all reading

A property of tasks that the single steps of reading types have, and that sequences of tasks keep,
holds of all reading: of types and values, of exports, of what references stand for and of members.
So a property is proved for the steps alone, and for reading it follows.
-/

/-- A cell that keeps what a reference stands for. -/
def Cell.keepTarget (target : TypeTerm) (known : Cell) : Cell :=
  { known with target := some target }

/-- A cell that keeps the members of an object type. -/
def Cell.keepMembers (members : Members TypeTerm) (known : Cell) : Cell :=
  { known with members := some members }

namespace Types

/-- What a cell knows, or else what is found out for it, which the cell keeps from then on. -/
def kept {α : Type}
    (known : Cell → Option α) (keep : α → Cell → Cell) (cell : Nat) (find : Task Session α) :
    Task Session α := do
  match known (← cellOf cell) with
  | some value => return value
  | none =>
    let value ← find
    setCell cell (keep value)
    return value

/-- The cell of a reference keeps its target. -/
theorem step_eq_kept
    (cell : Nat) (code name : String) (scope : Scope TypeTerm) (arguments : List Node) :
    step cell code name scope arguments =
      kept Cell.target Cell.keepTarget cell (targetOf code name scope arguments) := by
  unfold step kept
  refine bind_congr fun known => ?_
  cases known.target <;> rfl

/-- The cell of an object type keeps its members. -/
theorem membersWith_succ (fuel : Nat) (type : TypeTerm) :
    membersWith (fuel + 1) type = (do
      match ← structureOf type with
      | .object cell _ _ source =>
        kept Cell.members Cell.keepMembers cell
          (collectMembers (fun base => do return (← membersWith fuel base).properties) source)
      | _ => return .none) := by
  rw [membersWith]
  refine bind_congr fun target => ?_
  cases target with
  | object cell code name source =>
    refine bind_congr fun known => ?_
    cases known.members <;> rfl
  | _ => rfl

end Types

open ModuleAtlas.Types

/-- A property of tasks that the steps of reading have and that sequences of tasks keep.  A step
looks at the state, makes a new cell, gives one the name of an alias, keeps in one what was found
out for it, binds type parameters, leads to another module, or refuses a replacement. -/
structure Closed (holds : ∀ α : Type, Task Session α → Prop) : Prop extends Sequential holds where
  state : holds Session Task.state
  newCell : holds _ newCell
  nameAlias (name : String) (target : TypeTerm) : holds _ (nameAlias name target)
  keepTarget {find : Task Session TypeTerm} (cell : Nat) :
    holds _ find → holds _ (kept Cell.target Cell.keepTarget cell find)
  keepMembers {collect : Task Session (Members TypeTerm)} (cell : Nat) :
    holds _ collect → holds _ (kept Cell.members Cell.keepMembers cell collect)
  newParameterList : holds _ newParameterList
  keepParameters (list : Nat) (bound : List (String × TypeTerm)) :
    holds _ (keepParameters list bound)
  once {collect : Task Session (Members TypeTerm)} (key : Path × Nat) :
    holds _ collect → holds _ (Types.once key collect)
  load (specifier : String) (importer : SourceModule) : holds _ (Session.load specifier importer)
  sizeBound : holds _ Session.sizeBound
  refuse {α : Type} {expression : Regex.Expression} {template text : String} {fault : Regex.Fault}
    (refused : expression.replace template text = .error fault) :
    holds α (Task.fail (.replacement fault))

variable {holds : ∀ α : Type, Task Session α → Prop} {α β : Type}

namespace Types

/-- Replacing type parameters is refused only by the text of one of their values. -/
theorem exists_of_substituted_error
    {parameters : List (String × TypeTerm)} {code : String} {fault : Regex.Fault}
    (refused : substituted parameters code = .error fault) :
    ∃ expression template text,
      Regex.Expression.replace expression template text = .error fault := by
  induction parameters generalizing code with
  | nil => cases refused
  | cons parameter rest ih =>
    unfold substituted at refused
    rw [List.foldlM_cons] at refused
    cases replaced : Regex.Expression.replace ⟨wholeWord parameter.1, 0, []⟩
        parameter.2.text code with
    | error other =>
      rw [replaced] at refused
      cases refused
      exact ⟨_, _, _, replaced⟩
    | ok text =>
      rw [replaced] at refused
      exact ih refused

theorem holds_codeOf (closed : Closed holds) (scope : Scope TypeTerm) (node : Node) :
    holds _ (codeOf scope node) := by
  unfold codeOf
  split
  · exact closed.pure _
  · rename_i fault refused
    obtain ⟨_, _, _, replaced⟩ := exists_of_substituted_error refused
    exact closed.refuse replaced

end Types

/-- Reading in a scope takes such steps only. -/
theorem Closed.reads (closed : Closed holds) (scope : Scope TypeTerm) : Reads holds scope :=
  ⟨closed.toSequential, closed.newCell, holds_codeOf closed scope⟩

namespace Types

variable (closed : Closed holds)

include closed

/-! ### Reading -/

theorem holds_newObject (code : String) (name : Option String) (source : MemberSource TypeTerm) :
    holds _ (newObject code name source) :=
  closed.map closed.newCell

theorem holds_newReference (scope : Scope TypeTerm) (name code : String) (arguments : List Node) :
    holds _ (newReference scope name code arguments) :=
  closed.map closed.newCell

theorem holds_typeOf (scope : Scope TypeTerm) (node : Node) : holds _ (typeOf scope node) :=
  reads_typeOf (closed.reads scope) node

theorem holds_valueType (scope : Scope TypeTerm) (constant : Bool) (node : Node) :
    holds _ (valueType scope constant node) :=
  reads_valueType (closed.reads scope) constant node

theorem holds_signature (scope : Scope TypeTerm) (node : Node) : holds _ (signature scope node) :=
  reads_signature (closed.reads scope) node

/-! ### Exports -/

/-- What holds of the steps of a search holds of searching the re-exports. -/
theorem holds_findAmong {find : Asked → SourceModule → String → Task Session (Option Found × Asked)}
    (finds : ∀ asked source name, holds _ (find asked source name))
    (source : SourceModule) (name : String) (asked : Asked) (entries : List ReExport) :
    holds _ (findAmong find source name asked entries) := by
  induction entries generalizing asked with
  | nil => exact closed.pure _
  | cons entry rest ih =>
    unfold findAmong
    split
    · exact ih asked
    · refine closed.bind (closed.load _ _) fun target => ?_
      split
      · exact ih asked
      · refine closed.bind (finds _ _ _) fun found => ?_
        split
        · exact closed.pure _
        · exact ih _

/-- What holds of the steps of a search holds of the search, whatever fuel is left. -/
theorem holds_findWith (fuel : Nat) (asked : Asked) (source : SourceModule) (name : String) :
    holds _ (findWith fuel asked source name) := by
  induction fuel generalizing asked source name with
  | zero => exact closed.pure _
  | succ fuel ih =>
    unfold findWith
    split
    · exact closed.pure _
    · dsimp only
      split
      · exact holds_findAmong closed ih source name _ _
      · exact closed.pure _

theorem holds_findExport (source : SourceModule) (name : String) :
    holds _ (findExport source name) :=
  closed.bind closed.sizeBound fun _ => closed.map (holds_findWith closed _ _ source name)

theorem holds_namedExports (target : SourceModule) (names : List (String × String)) :
    holds _ (namedExports target names) := by
  induction names with
  | nil => exact closed.pure _
  | cons name rest ih =>
    refine closed.bind (holds_findExport closed target _) fun found => ?_
    split
    · exact closed.bind (closed.pure _) fun _ => closed.map ih
    · exact closed.bind (closed.pure _) fun _ => closed.map ih

theorem holds_exportsAmong
    {list : List Path → SourceModule → Task Session (List Export × List Path)}
    (lists : ∀ seen source, holds _ (list seen source))
    (source : SourceModule) (seen : List Path) (entries : List ReExport) :
    holds _ (exportsAmong list source seen entries) := by
  induction entries generalizing seen with
  | nil => exact closed.pure _
  | cons entry rest ih =>
    have later : ∀ here : List Export × List Path, holds _ (do
        let others ← exportsAmong list source here.2 rest
        return (here.1 ++ others.1, others.2)) :=
      fun here => closed.map (ih here.2)
    unfold exportsAmong
    refine closed.bind (closed.load _ _) fun target => ?_
    split
    · exact closed.bind (closed.pure _) later
    · split
      · exact closed.bind (closed.pure _) later
      · refine closed.bind (lists _ _) fun found => ?_
        exact closed.bind (closed.pure _) later
      · refine closed.bind (holds_namedExports closed _ _) fun found => ?_
        exact closed.bind (closed.pure _) later

theorem holds_exportsWith (fuel : Nat) (seen : List Path) (source : SourceModule) :
    holds _ (exportsWith fuel seen source) := by
  induction fuel generalizing seen source with
  | zero => exact closed.pure _
  | succ fuel ih =>
    unfold exportsWith
    split
    · exact closed.pure _
    · exact closed.map (holds_exportsAmong closed ih source _ _)

theorem holds_moduleExports (source : SourceModule) : holds _ (moduleExports source) :=
  closed.bind closed.sizeBound fun _ => closed.map (holds_exportsWith closed _ _ source)

/-! ### Declarations -/

/-- What holds of the steps of reading holds of binding type parameters. -/
theorem holds_bindParameters (source : SourceModule) (pending : Nat)
    (bound : List (String × TypeTerm)) (arguments : List TypeTerm) (parameters : List Node) :
    holds _ (bindParameters source pending bound arguments parameters) := by
  induction parameters generalizing bound arguments with
  | nil => cases arguments <;> exact closed.pure _
  | cons parameter rest ih =>
    cases arguments with
    | cons argument arguments => exact ih _ arguments
    | nil =>
      unfold bindParameters
      split
      · exact closed.bind (holds_typeOf closed _ _) fun _ => ih _ []
      · exact ih bound []

theorem holds_scopeOf (node : Node) (source : SourceModule) (arguments : List TypeTerm) :
    holds _ (scopeOf node source arguments) := by
  refine closed.bind closed.newParameterList fun pending => ?_
  refine closed.bind (holds_bindParameters closed source pending _ _ _) fun bound => ?_
  exact closed.map (closed.keepParameters pending bound)

theorem holds_declared (declarations : List Declaration) (source : SourceModule)
    (arguments : List TypeTerm) (name : String) :
    holds _ (declared declarations source arguments name) := by
  unfold declared
  split
  · exact closed.pure _
  · refine closed.bind (holds_scopeOf closed _ source arguments) fun scope => ?_
    split
    · exact holds_newObject closed _ _ _
    · split
      · exact closed.pure _
      · refine closed.bind (holds_typeOf closed scope _) fun target => ?_
        exact closed.map (closed.nameAlias name target)
    · exact closed.pure _
    · exact holds_newObject closed _ _ _

/-! ### References -/

theorem holds_cellOf (cell : Nat) : holds _ (cellOf cell) :=
  closed.map closed.state

theorem holds_imported? (binding : Binding) (exported name : String) (source : SourceModule)
    (arguments : List TypeTerm) :
    holds _ (imported? binding exported name source arguments) := by
  refine closed.bind (closed.load _ source) fun target => ?_
  split
  · exact closed.pure _
  · refine closed.bind (holds_findExport closed _ exported) fun found => ?_
    split
    · exact closed.pure _
    · exact closed.map (holds_declared closed _ _ arguments name)

theorem holds_qualified?
    (nameSpace member : String) (source : SourceModule) (arguments : List TypeTerm) :
    holds _ (qualified? nameSpace member source arguments) := by
  unfold qualified?
  split
  · split
    · exact holds_imported? closed _ _ _ source arguments
    · exact closed.pure _
  · exact closed.pure _

theorem holds_named? (name : String) (source : SourceModule) (arguments : List TypeTerm) :
    holds _ (named? name source arguments) := by
  unfold named?
  split
  · split
    · exact holds_imported? closed _ _ _ source arguments
    · exact closed.pure _
  · exact closed.map (holds_declared closed _ source arguments name)

theorem holds_orBuiltin (code name : String) (found : Option TypeTerm) :
    holds _ (targetOf.orBuiltin code name found) := by
  unfold targetOf.orBuiltin
  split
  · exact closed.pure _
  · split
    · exact closed.pure _
    · exact closed.pure _

/-- What holds of the steps of reading holds of looking a reference up. -/
theorem holds_targetOf (code name : String) (scope : Scope TypeTerm) (arguments : List Node) :
    holds _ (targetOf code name scope arguments) := by
  refine closed.bind (closed.mapM (holds_typeOf closed scope) arguments) fun types => ?_
  have plain : holds _ (do targetOf.orBuiltin code name (← named? name scope.source types)) :=
    closed.bind (holds_named? closed name scope.source types) (holds_orBuiltin closed code name)
  split
  · exact closed.map (holds_qualified? closed _ _ scope.source types)
  · split
    · exact closed.pure _
    · split
      · split
        · exact closed.pure _
        · exact plain
      · exact plain

theorem holds_step
    (cell : Nat) (code name : String) (scope : Scope TypeTerm) (arguments : List Node) :
    holds _ (step cell code name scope arguments) := by
  rw [step_eq_kept]
  exact closed.keepTarget cell (holds_targetOf closed code name scope arguments)

/-- What holds of a step along the chain holds of following it. -/
theorem holds_structureFrom (start : TypeTerm) (hops : Nat) (type : TypeTerm) :
    holds _ (structureFrom start hops type) := by
  induction hops generalizing type with
  | zero =>
    cases type with
    | reference cell code name scope arguments =>
      exact closed.map (holds_step closed cell code name scope arguments)
    | _ => exact closed.pure _
  | succ hops ih =>
    cases type with
    | reference cell code name scope arguments =>
      exact closed.bind (holds_step closed cell code name scope arguments) ih
    | _ => exact closed.pure _

theorem holds_structureOf (type : TypeTerm) : holds _ (structureOf type) :=
  holds_structureFrom closed type _ type

theorem holds_ownName (type : TypeTerm) : holds _ (ownName type) := by
  cases type with
  | object cell code name source =>
    cases name with
    | some name => exact closed.pure _
    | none => exact closed.map (holds_cellOf closed cell)
  | _ => exact closed.pure _

theorem holds_symbolOf (type : TypeTerm) : holds _ (symbolOf type) := by
  refine closed.bind (holds_ownName closed type) fun name => ?_
  split
  · exact closed.pure _
  · split
    · exact closed.bind (holds_structureOf closed _) (holds_ownName closed)
    · exact closed.pure _

/-! ### Members -/

theorem holds_memberScope (scope : Scope TypeTerm) : holds _ (memberScope scope) := by
  unfold memberScope
  split
  · exact closed.pure _
  · exact closed.map (closed.map closed.state)

theorem holds_inherit {properties : TypeTerm → Task Session (List (Property TypeTerm))}
    (finds : ∀ type, holds _ (properties type))
    (found : List (Property TypeTerm)) (bases : List TypeTerm) :
    holds _ (inherit properties found bases) := by
  induction bases generalizing found with
  | nil => exact closed.pure _
  | cons base rest ih =>
    exact closed.bind (finds base) fun _ => ih _

/-- What holds of the steps of collecting holds of collecting the members. -/
theorem holds_collectMembers {properties : TypeTerm → Task Session (List (Property TypeTerm))}
    (finds : ∀ type, holds _ (properties type)) (source : MemberSource TypeTerm) :
    holds _ (collectMembers properties source) := by
  unfold collectMembers
  split
  · exact closed.pure _
  · exact closed.bind (holds_memberScope closed _) fun scope =>
      reads_bodyMembers (closed.reads scope) _
  · refine closed.once _ (closed.bind (reads_interfaceParts (closed.reads _) _) fun parts => ?_)
    exact closed.map (holds_inherit closed finds _ _)
  · refine closed.once _ (closed.bind (reads_classProperties (closed.reads _) _ _) fun own => ?_)
    refine closed.bind (reads_classBases (closed.reads _) _) fun bases => ?_
    exact closed.map (holds_inherit closed finds _ _)

theorem holds_membersWith (fuel : Nat) (type : TypeTerm) : holds _ (membersWith fuel type) := by
  induction fuel generalizing type with
  | zero => exact closed.pure _
  | succ fuel ih =>
    rw [membersWith_succ]
    refine closed.bind (holds_structureOf closed type) fun target => ?_
    split
    · refine closed.keepMembers _ (holds_collectMembers closed (fun base => ?_) _)
      exact closed.map (ih base)
    · exact closed.pure _

theorem holds_propertiesOf (type : TypeTerm) : holds _ (propertiesOf type) :=
  closed.map (closed.bind closed.sizeBound fun _ => holds_membersWith closed _ type)

theorem holds_isObject (type : TypeTerm) : holds _ (isObject type) := by
  refine closed.bind (holds_structureOf closed type) fun target => ?_
  split
  · exact closed.pure _
  · exact closed.pure _

theorem holds_declarationType (declaration : Declaration) (source : SourceModule) :
    holds _ (declarationType declaration source) := by
  unfold declarationType
  dsimp only
  split
  · generalize (if (declaration.name == "default") = true then
      Node.textOf (declaration.node.child? "name") else declaration.name) = name
    split
    · exact holds_declared closed _ _ _ _
    · exact holds_newReference closed _ _ _ _
  · split
    · unfold variableType
      split
      · exact holds_typeOf closed _ _
      · exact holds_valueType closed _ _ _
      · exact closed.pure _
    · split
      · exact closed.map (holds_signature closed _ _)
      · split
        · exact holds_declared closed _ _ _ _
        · exact holds_valueType closed _ _ _

end Types

/-!
## What stops reading

Reading types, exports and members stops at what stops a resolution, and where the text of a type
is taken for a replacement template and is none.  Nothing else stops it, and all that does is a
fault that no user is told.  Whether it is stopped or not, reading leaves a session that reads from
the same file tree and is collecting the members of the same declarations as before.
-/

/-! ### Templates -/

namespace Regex

/-- A template without backslashes stands for itself. -/
theorem Template.parts_of_plain {expression : Expression} {template : List Char} {fuel : Nat}
    (plain : '\\' ∉ template) (room : template.length < fuel) :
    parts expression fuel template = .ok (template.map fun c => .fixed [c]) := by
  induction template generalizing fuel with
  | nil =>
    cases fuel with
    | zero => exact absurd room (Nat.not_lt_zero _)
    | succ fuel => rfl
  | cons c rest ih =>
    cases fuel with
    | zero => exact absurd room (Nat.not_lt_zero _)
    | succ fuel =>
      obtain ⟨other, plainRest⟩ := not_or.mp (fun member => plain (List.mem_cons.mpr member))
      have restParts := ih plainRest (Nat.lt_of_succ_lt_succ room)
      rw [parts, restParts]
      · rfl
      · exact fun same => other same.symm

/-- Only a template with a backslash is refused. -/
theorem Expression.escaped_of_replace_error
    {expression : Expression} {template text : String} {fault : Fault}
    (refused : expression.replace template text = .error fault) :
    '\\' ∈ template.toList := by
  by_contra plain
  unfold replace at refused
  dsimp only at refused
  rw [Template.parts_of_plain plain (Nat.lt_add_one _)] at refused
  cases refused

end Regex

namespace Session

open ModuleAtlas.Types

variable {tree : FileTree} {root : Path} {failure : Failure}

/-- What stops an analysis of exports: a defect on the way of a resolution, a text that is taken for
a template and is none, or a path that the file system does not allow. -/
inductive Fault (tree : FileTree) (root : Path) : Failure → Prop where
  | resolution {start : Path} {specifier : String} {failure : Failure}
      (defect : Resolver.Defect tree root start specifier failure) :
      Fault tree root failure
  | long {path : Path} (refused : tree.lookup path = .error .tooLong) :
      Fault tree root (.tooLong path)
  | loop {path : Path} (endless : tree.resolve? path = none) :
      Fault tree root (.linkLoop path)
  | null {path : Path} (holds : path.hasNull = true) :
      Fault tree root (.nullCharacter path)
  | replacement {expression : Regex.Expression} {template text : String} {fault : Regex.Fault}
      (escaped : '\\' ∈ template.toList)
      (refused : expression.replace template text = .error fault) :
      Fault tree root (.replacement fault)

/-- No user is told a fault. -/
theorem Fault.untold (fault : Fault tree root failure) : failure.message? = none := by
  cases fault with
  | resolution defect => exact defect.untold
  | long | loop | null | replacement => rfl

/-- A session that reads from a file tree while the members of some declarations are being
collected. -/
structure Collecting
    (tree : FileTree) (root : Path) (expanding : List (Path × Nat)) (session : Session) : Prop where
  fromTree : FromTree tree root session
  expanding_eq : session.expanding = expanding

variable {expanding : List (Path × Nat)}

theorem asksCoherence_collecting : AsksCoherence tree root (Collecting tree root expanding) :=
  ⟨fun _ held => held.fromTree.coherent.resolver, fun session resolver held coherent =>
    ⟨asksCoherence_fromTree.kept session resolver held.fromTree coherent, held.expanding_eq⟩⟩

/-- A task is orderly when only faults stop it and it leaves its session in order. -/
def Orderly (tree : FileTree) (root : Path) (task : Task Session α) : Prop :=
  ∀ expanding, Task.Ends tree (Collecting tree root expanding) (fun _ => True) (Fault tree root)
    task

/-- What only defects stop in a resolver, only faults stop in a session. -/
theorem ends_resolving
    {start : Path} {specifier : String} {task : Task Resolver α} {kind : α → Prop}
    (stopped : Resolver.Stopped tree root start specifier kind task) :
    Task.Ends tree (Collecting tree root expanding) kind (Fault tree root) (resolving task) :=
  (stopped.imp (fun _ => id) fun _ => .resolution).within asksCoherence_collecting.coherent
    fun session resolver => asksCoherence_collecting.kept session resolver

theorem ends_readModule (canonical : Path) :
    Task.Ends tree (Collecting tree root expanding)
      (fun found => found = moduleAt tree canonical) (Fault tree root) (readModule canonical) := by
  intro journal held
  obtain ⟨after, ran, fromTree⟩ := settles_readModule_fromTree canonical journal held.fromTree
  have leaves : (readModule canonical tree journal).2.state.expanding = journal.state.expanding :=
    (readModule_leaves canonical journal).2.2
  rw [ran] at leaves
  exact ⟨_, after, ran, .ok rfl, fromTree, leaves.trans held.expanding_eq⟩

theorem ends_resolvePath (path : Path) :
    Task.Ends tree (Collecting tree root expanding)
      (fun resolved => path.hasNull = false ∧ tree.resolve? path = some resolved)
      (Fault tree root) (Task.resolvePath path) :=
  Task.ends_resolvePath path .null .loop

theorem ends_parse (path : Path) :
    Task.Ends tree (Collecting tree root expanding)
      (fun found => ∃ canonical, tree.resolve? path = some canonical ∧
        found = moduleAt tree canonical)
      (Fault tree root) (parse path) := by
  refine (ends_resolvePath path).bind fun canonical found => ?_
  refine (ends_readModule canonical).imp ?_ fun _ => id
  rintro _ rfl
  exact ⟨canonical, found.2, rfl⟩

theorem orderly_load (specifier : String) (importer : SourceModule) :
    Orderly tree root (load specifier importer) := by
  intro expanding
  refine (ends_resolving (Resolver.stopped_resolve importer.path)).bind fun resolution _ => ?_
  split
  · exact Task.ends_pure trivial
  · split
    · exact (ends_parse _).map fun _ _ => trivial
    · exact Task.ends_pure trivial

/-- Collecting the members of a declaration ends it whatever comes of it. -/
theorem orderly_once {collect : Task Session (Members TypeTerm)}
    (orderly : Orderly tree root collect) (key : Path × Nat) :
    Orderly tree root (once key collect) := by
  intro _ journal held
  rw [once_eq]
  cases known : journal.state.expanding.contains key with
  | true => exact ⟨_, _, rfl, .ok trivial, held⟩
  | false =>
    obtain ⟨outcome, between, ran, ofOne, kept⟩ :=
      orderly _ (entering key journal) ⟨held.fromTree.of_eq rfl rfl, rfl⟩
    rw [ran]
    refine ⟨outcome, leaving key between, rfl, ofOne, kept.fromTree.of_eq rfl rfl, ?_⟩
    rw [leaving_expanding known kept.expanding_eq, held.expanding_eq]

theorem orderly_sizeBound : Orderly tree root sizeBound :=
  fun _ _ held => ⟨_, _, held.fromTree.sizeBound_eq, .ok trivial, held⟩

/-- Changing cells and lists of parameter values leaves a session in order. -/
theorem orderly_update {change : Session → Session}
    (sameModules : ∀ session, (change session).modules = session.modules)
    (sameResolver : ∀ session, (change session).resolver = session.resolver)
    (sameExpanding : ∀ session, (change session).expanding = session.expanding) :
    Orderly tree root (Task.update change) :=
  fun _ => Task.ends_update fun _ held => ⟨held.fromTree.of_eq (sameModules _) (sameResolver _),
    (sameExpanding _).trans held.expanding_eq⟩

theorem Orderly.bind {task : Task Session α} {next : α → Task Session β}
    (first : Orderly tree root task) (second : ∀ value, Orderly tree root (next value)) :
    Orderly tree root (task >>= next) :=
  fun expanding => (first expanding).bind fun value _ => second value expanding

theorem orderly_pure (value : α) : Orderly tree root (pure value) :=
  fun _ => Task.ends_pure trivial

theorem orderly_state : Orderly tree root Task.state :=
  fun _ => Task.ends_state.anyhow

theorem orderly_setCell (cell : Nat) (change : Cell → Cell) :
    Orderly tree root (setCell cell change) :=
  orderly_update (fun _ => rfl) (fun _ => rfl) fun _ => rfl

theorem orderly_cellOf (cell : Nat) : Orderly tree root (cellOf cell) :=
  orderly_state.bind fun _ => orderly_pure _

theorem orderly_nameAlias (name : String) (target : TypeTerm) :
    Orderly tree root (nameAlias name target) := by
  unfold nameAlias
  split
  · refine (orderly_cellOf _).bind fun known => ?_
    split
    · exact orderly_setCell _ _
    · exact orderly_pure _
  · exact orderly_pure _

/-- What a cell keeps is found out in order. -/
theorem orderly_kept {find : Task Session α} (orderly : Orderly tree root find)
    (known : Cell → Option α) (keep : α → Cell → Cell) (cell : Nat) :
    Orderly tree root (kept known keep cell find) := by
  refine (orderly_cellOf cell).bind fun found => ?_
  split
  · exact orderly_pure _
  · exact orderly.bind fun _ => (orderly_setCell cell _).bind fun _ => orderly_pure _

/-- Reading is orderly as its steps are. -/
theorem closed_orderly : Closed fun _ => Orderly tree root where
  pure := orderly_pure
  bind := .bind
  state := orderly_state
  newCell := by
    refine orderly_state.bind fun session => Orderly.bind ?_ fun _ => orderly_pure _
    exact orderly_update (fun _ => rfl) (fun _ => rfl) fun _ => rfl
  nameAlias := orderly_nameAlias
  keepTarget cell orderly := orderly_kept orderly _ _ cell
  keepMembers cell orderly := orderly_kept orderly _ _ cell
  newParameterList := by
    refine orderly_state.bind fun session => Orderly.bind ?_ fun _ => orderly_pure _
    exact orderly_update (fun _ => rfl) (fun _ => rfl) fun _ => rfl
  keepParameters _ _ := orderly_update (fun _ => rfl) (fun _ => rfl) fun _ => rfl
  once key orderly := orderly_once orderly key
  load := orderly_load
  sizeBound := orderly_sizeBound
  refuse refused _ :=
    Task.ends_fail (.replacement (Regex.Expression.escaped_of_replace_error refused) refused)

end Session
end ModuleAtlas
