import ModuleAtlas.Proofs.Types.ExportListing
import ModuleAtlas.Proofs.Types.HeirReading

/-!
# Following bases

A base is followed from the reference that was read for it to the object type of its declaration,
through the module or its imports.  The object type has a cell of its own, in which nothing is known
yet; nothing stops the search but a value of a type parameter whose text is taken for a replacement
template.
-/

namespace ModuleAtlas
namespace Types

open Session

variable {tree : FileTree} {root : Path} {source : SourceModule} {scope : Scope TypeTerm}
  {journal : Journal Session} {generic : Prop} {heir : Heir} {found : Found}

/-! ## Where declarations stand -/

/-- Declarations of a module that stands in the file tree. -/
structure StandIn (tree : FileTree) (found : Found) : Prop where
  source : found.2.StandsIn tree
  declarations : ∀ declaration ∈ found.1, found.2.Has declaration

/-- Going through the re-exports finds the same again. -/
theorem steady_findAmong
    {find : Asked → SourceModule → String → Task Session (Option Found × Asked)}
    (finds : ∀ asked source name, source.StandsIn tree →
      Task.Steady tree (FromTree tree root)
        (fun answer => ∀ found, answer.1 = some found → StandIn tree found)
        (find asked source name))
    (source : SourceModule) (name : String) (asked : Asked) (entries : List ReExport) :
    Task.Steady tree (FromTree tree root)
      (fun answer => ∀ found, answer.1 = some found → StandIn tree found)
      (findAmong find source name asked entries) := by
  induction entries generalizing asked with
  | nil => exact Task.steady_pure nofun
  | cons entry rest ih =>
    unfold findAmong
    split
    · exact ih asked
    · refine (steady_load _ source).bind fun target stands => ?_
      split
      · exact ih asked
      · rename_i target
        refine (finds asked target _ (stands target rfl)).bind fun answer standIn => ?_
        split
        · exact Task.steady_pure standIn
        · exact ih _

/-- A search finds the same again, whatever fuel is left. -/
theorem steady_findWith (fuel : Nat) (asked : Asked) (name : String)
    (stands : source.StandsIn tree) :
    Task.Steady tree (FromTree tree root)
      (fun answer => ∀ found, answer.1 = some found → StandIn tree found)
      (findWith fuel asked source name) := by
  induction fuel generalizing asked source name with
  | zero => exact Task.steady_pure nofun
  | succ fuel ih =>
    unfold findWith
    split
    · exact Task.steady_pure nofun
    · dsimp only
      split
      · exact steady_findAmong (fun asked _ name stands => ih asked name stands)
          source name _ _
      · refine Task.steady_pure ?_
        rintro _ ⟨rfl⟩
        refine ⟨stands, fun declaration member => ?_⟩
        obtain ⟨⟨exported, _⟩, entryMember, rfl⟩ := List.mem_map.mp member
        exact .inr ⟨exported, (List.mem_filter.mp entryMember).1⟩

/-- The declarations behind an export are declarations of a module of the file tree. -/
theorem steady_findExport (name : String) (stands : source.StandsIn tree) :
    Task.Steady tree (FromTree tree root)
      (fun answer => ∀ found, answer = some found → StandIn tree found)
      (findExport source name) :=
  Task.SteadyAmong.bind ((settles_sizeBound tree root).steady rfl) fun _ _ =>
    (steady_findWith _ _ name stands).map fun _ standIn => standIn

theorem Finds.standIn {specifier exported : String}
    (finds : Finds tree root source specifier exported found) :
    StandIn tree found := by
  obtain ⟨target, loads, exports⟩ := finds
  have stands := (steady_load _ source).kind_of_settles fromTree_fresh loads target rfl
  exact (steady_findExport exported stands).kind_of_settles fromTree_fresh exports found rfl

theorem Resolves.standIn {name : String} (stands : source.StandsIn tree)
    (resolves : Resolves tree root source name found) :
    StandIn tree found := by
  cases resolves with
  | declared _ known =>
    refine ⟨stands, fun declaration member => .inl ⟨name, ?_⟩⟩
    rw [← known] at member
    exact (List.mem_filter.mp member).1
  | imported _ _ _ finds => exact finds.standIn
  | qualified _ _ _ finds => exact finds.standIn

namespace Heir

/-- The declaration is one of a module that stands in the file tree. -/
structure Placed (tree : FileTree) (heir : Heir) : Prop where
  source : heir.source.StandsIn tree
  has : ∃ declaration, heir.source.Has declaration ∧ heir.node = declaration.node

theorem Placed.key_mem_keys (placed : heir.Placed tree) : heir.key ∈ tree.keys := by
  obtain ⟨declaration, has, same⟩ := placed.has
  rw [key, same]
  exact placed.source.key_mem_keys has

theorem placed_of_heirOf? (standIn : StandIn tree found)
    (heirs : heirOf? found = some heir) :
    heir.Placed tree := by
  obtain ⟨sameSource, declaration, member, sameNode⟩ := mem_of_heirOf? heirs
  refine ⟨sameSource ▸ standIn.source, declaration, ?_, sameNode⟩
  exact sameSource ▸ standIn.declarations declaration member

theorem Opens.inside (opens : heir.Opens tree scope) :
    scope.source = heir.source ∧ scope.pending = none ∧
      ∀ name ∈ scope.parameters.map Prod.fst,
        name ∈ (typeParameters heir.node).map parameterName := by
  obtain ⟨arguments, journal, after, ran⟩ := opens
  exact returns_scopeOf_parameters _ _ _ tree journal scope after ran

theorem Opens.typeParameters_ne_nil (opens : heir.Opens tree scope)
    (isGeneric : scope.parameters ≠ []) :
    typeParameters heir.node ≠ [] := by
  obtain ⟨name, member⟩ := List.exists_mem_of_ne_nil _ isGeneric
  intro none
  have named := opens.inside.2.2 _ (List.mem_map_of_mem member)
  rw [none] at named
  cases named

end Heir

/-! ## From a base to its declaration -/

/-- An object type whose members are those of a declaration and have not been collected yet. -/
def Uncollected (tree : FileTree) (session : Session) (heir : Heir) (cell : Nat) (type : TypeTerm) :
    Prop :=
  ∃ code name scope, type = .object cell code name (heir.body scope) ∧ heir.Opens tree scope ∧
    session.cell cell = ⟨none, none, none⟩

/-- A run touches no cell and comes to an object type for a declaration, with a cell of its own. -/
structure Creates (tree : FileTree) (root : Path) (heir : Heir) (session : Session)
    (type : TypeTerm) (after : Session) : Prop where
  adds : Adds tree root (fun _ => False) session after
  uncollected : ∃ cell, session.cells.size ≤ cell ∧ Uncollected tree after heir cell type

theorem Creates.after {session between after : Session} {type : TypeTerm}
    (creates : Creates tree root heir between type after)
    (adds : Adds tree root (fun _ => False) session between) :
    Creates tree root heir session type after := by
  obtain ⟨further, cell, new, uncollected⟩ := creates
  exact ⟨adds.trans further fun _ _ => id, cell, Nat.le_trans adds.size new, uncollected⟩

theorem comes_newObject (opens : heir.Opens tree scope)
    (code : String) (name : Option String) (fromTree : FromTree tree root journal.state) :
    Task.Comes tree (Refusal generic) journal (newObject code name (heir.body scope))
      fun type after => Creates tree root heir journal.state type after.state :=
  Task.comes_of_ok rfl ⟨adds_allocated fromTree, journal.state.cells.size, Nat.le_refl _, code,
    name, scope, rfl, opens, cell_allocated journal⟩

/-- An interface or a class is declared as an object type with a cell of its own. -/
theorem comes_declared (heirs : heirOf? found = some heir)
    (allowed : typeParameters heir.node ≠ [] → generic) (arguments : List TypeTerm) (name : String)
    (fromTree : FromTree tree root journal.state) :
    Task.Comes tree (Refusal generic) journal (declared found.1 found.2 arguments name)
      fun type after => Creates tree root heir journal.state type after.state := by
  obtain ⟨sameSource, -⟩ := mem_of_heirOf? heirs
  have inside : Task.Comes tree (Refusal generic) journal (scopeOf heir.node found.2 arguments)
      fun scope between => Adds tree root (fun _ => False) journal.state between.state ∧
        heir.Opens tree scope :=
    (additive_scopeOf allowed found.2 arguments journal fromTree).imp fun scope between ran adds =>
      ⟨adds, arguments, journal, between, sameSource ▸ ran⟩
  unfold heirOf? at heirs
  unfold declared
  generalize (found.1.filter fun declaration =>
    structureKinds.contains declaration.node.kind) = structures at heirs ⊢
  cases structures with
  | nil => cases heirs
  | cons first rest =>
    dsimp only at heirs ⊢
    by_cases isInterface : first.node.kind = "interface_declaration"
    · rw [dif_pos isInterface] at heirs
      cases heirs
      refine inside.bind ?_
      rintro scope between ⟨adds, opens⟩
      simp only [isInterface, List.filter_cons, beq_self_eq_true, if_true]
      exact (comes_newObject opens name (some name) adds.fromTree).imp fun _ _ _ creates =>
        creates.after adds
    · rw [dif_neg isInterface] at heirs
      by_cases other : first.node.kind = "type_alias_declaration" ∨
          first.node.kind = "enum_declaration"
      · rw [if_pos other] at heirs
        cases heirs
      · rw [if_neg other] at heirs
        cases heirs
        refine inside.bind ?_
        rintro scope between ⟨adds, opens⟩
        split
        · exact absurd ‹_› isInterface
        · exact absurd (.inl ‹_›) other
        · exact absurd (.inr ‹_›) other
        · exact (comes_newObject opens name (some name) adds.fromTree).imp fun _ _ _ creates =>
            creates.after adds

/-- What an import binds is declared where its specifier leads to. -/
theorem comes_imported? {binding : Binding} {exported : String}
    (finds : Finds tree root source binding.specifier exported found)
    (heirs : heirOf? found = some heir) (allowed : typeParameters heir.node ≠ [] → generic)
    (arguments : List TypeTerm) (name : String) (fromTree : FromTree tree root journal.state) :
    Task.Comes tree (Refusal generic) journal (imported? binding exported name source arguments)
      fun answer after => ∃ type, answer = some type ∧
        Creates tree root heir journal.state type after.state := by
  obtain ⟨target, loads, exports⟩ := finds
  have paired := paired_same tree root
  refine (comes_of_settles loads (followed_load paired _ rfl) fromTree).bind ?_
  rintro _ middle ⟨rfl, loaded⟩
  refine (comes_of_settles exports (followed_findExport paired rfl _) loaded.fromTree).bind ?_
  rintro _ between ⟨rfl, searched⟩
  refine (comes_declared heirs allowed arguments name searched.fromTree).map ?_
  exact fun type after creates => ⟨type, rfl, (creates.after searched).after loaded⟩

/-- A use of a type that stands for a declaration. -/
structure Refers (tree : FileTree) (root : Path) (scope : Scope TypeTerm) (use : Use)
    (heir : Heir) : Prop where
  unbound : use.name ∉ scope.parameters.map Prod.fst
  notArray : arrayNames.contains use.name = true → use.arguments.length ≠ 1
  resolves : ∃ found, Resolves tree root scope.source use.name found ∧ heirOf? found = some heir

section Names

variable {name : String} {found : Found} {heir : Heir} (arguments : List TypeTerm)

/-- A plain name leads to its declaration. -/
theorem comes_named? (plain : Text.cutLast? '.' name.toList = none)
    (resolves : Resolves tree root source name found) (heirs : heirOf? found = some heir)
    (allowed : typeParameters heir.node ≠ [] → generic)
    (fromTree : FromTree tree root journal.state) :
    Task.Comes tree (Refusal generic) journal (named? name source arguments)
      fun answer after => ∃ type, answer = some type ∧
        Creates tree root heir journal.state type after.state := by
  unfold named?
  cases resolves with
  | declared _ known =>
    rw [known]
    exact (comes_declared heirs allowed arguments name fromTree).map fun type after creates =>
      ⟨type, rfl, creates⟩
  | imported _ unknown bound finds =>
    rw [unknown, bound]
    exact comes_imported? finds heirs allowed arguments name fromTree
  | qualified cut _ _ _ =>
    rw [plain] at cut
    cases cut

/-- A qualified name leads to its declaration. -/
theorem comes_qualified? {nameSpace member : List Char}
    (cut : Text.cutLast? '.' name.toList = some (nameSpace, member))
    (resolves : Resolves tree root source name found) (heirs : heirOf? found = some heir)
    (allowed : typeParameters heir.node ≠ [] → generic)
    (fromTree : FromTree tree root journal.state) :
    Task.Comes tree (Refusal generic) journal
      (qualified? (String.ofList nameSpace) (String.ofList member) source arguments)
      fun answer after => ∃ type, answer = some type ∧
        Creates tree root heir journal.state type after.state := by
  unfold qualified?
  cases resolves with
  | declared plain _ =>
    rw [plain] at cut
    cases cut
  | imported plain _ _ _ =>
    rw [plain] at cut
    cases cut
  | qualified again bound whole finds =>
    rw [cut] at again
    cases again
    rw [bound]
    simp only [whole, beq_self_eq_true, if_true]
    exact comes_imported? finds heirs allowed arguments _ fromTree

end Names

/-- What a use of a type stands for is declared where its name leads to. -/
theorem comes_targetOf {use : Use} (refers : Refers tree root scope use heir)
    (allowed : scope.parameters ≠ [] → generic)
    (heirAllowed : typeParameters heir.node ≠ [] → generic) (code : String)
    (fromTree : FromTree tree root journal.state) :
    Task.Comes tree (Refusal generic) journal (targetOf code use.name scope use.arguments)
      fun type after => Creates tree root heir journal.state type after.state := by
  obtain ⟨unbound, notArray, found, resolves, heirs⟩ := refers
  have reads : Reads (fun _ => Additive tree root generic) scope := reads_additive allowed
  have lengths : Task.Returns (use.arguments.mapM (typeOf scope)) fun types =>
      types.map (fun _ => ()) = use.arguments.map fun _ => () :=
    Task.returns_mapM (fun _ _ _ _ _ _ => rfl) _
  have counted : Task.Comes tree (Refusal generic) journal (use.arguments.mapM (typeOf scope))
      fun types after => Adds tree root (fun _ => False) journal.state after.state ∧
        types.length = use.arguments.length :=
    (reads.mapM (reads_typeOf reads) use.arguments journal fromTree).imp fun types after ran adds =>
      ⟨adds, by simpa using congrArg List.length (lengths tree journal types after ran)⟩
  refine counted.bind fun types between ⟨before, sameLength⟩ => ?_
  split
  case h_1 nameSpace member cut =>
    refine (comes_qualified? types cut resolves heirs heirAllowed before.fromTree).map ?_
    rintro _ after ⟨type, rfl, creates⟩
    exact creates.after before
  case h_2 plain =>
    have goesOn : Task.Comes tree (Refusal generic) between
        (do targetOf.orBuiltin code use.name (← named? use.name scope.source types))
        fun type after => Creates tree root heir journal.state type after.state := by
      refine (comes_named? types plain resolves heirs heirAllowed before.fromTree).bind ?_
      rintro _ after ⟨type, rfl, creates⟩
      exact Task.comes_pure (creates.after before)
    rw [find?_parameters_eq_none unbound]
    dsimp only
    split
    · rw [if_neg fun isArray => notArray isArray sameLength.symm]
      exact goesOn
    · exact goesOn

/-! ## Following a base -/

/-- A type whose members are those of a declaration that have not been collected yet: the object
type of the declaration, or a reference to it that was not followed yet. -/
inductive Promises (tree : FileTree) (root : Path) (generic : Prop) (session : Session)
    (heir : Heir) (cell : Nat) : TypeTerm → Prop where
  | object {type : TypeTerm}
      (uncollected : Uncollected tree session heir cell type) :
      Promises tree root generic session heir cell type
  | reference {code : String} {scope : Scope TypeTerm} {use : Use}
      (refers : Refers tree root scope use heir)
      (allowed : scope.parameters ≠ [] → generic)
      (present : cell < session.cells.size)
      (unknown : session.cell cell = ⟨none, none, none⟩) :
      Promises tree root generic session heir cell
        (.reference cell code use.name scope use.arguments)

/-- What a cell does not know yet is found out and kept. -/
theorem comes_kept
    {find : Task Session α} {known : Cell → Option α} {keep : α → Cell → Cell} {cell : Nat}
    {fits : α → Journal Session → Prop} {cause : Failure → Prop}
    (unknown : known (journal.state.cell cell) = none)
    (finds : Task.Comes tree cause journal find fits) :
    Task.Comes tree cause journal (kept known keep cell find) fun value after =>
      ∃ between, fits value between ∧ after.state =
        { between.state with cells := between.state.cells.modify cell (keep value) } := by
  have read : cellOf cell tree journal = (.ok (journal.state.cell cell), journal) := rfl
  have first : Task.Comes tree cause journal (cellOf cell) fun found after =>
      found = journal.state.cell cell ∧ after = journal := Task.comes_of_ok read ⟨rfl, rfl⟩
  unfold kept
  refine first.bind ?_
  rintro _ _ ⟨rfl, rfl⟩
  rw [unknown]
  refine finds.bind fun value between fit => ?_
  exact Task.comes_of_ok rfl ⟨between, fit, rfl⟩

theorem cell_modify_of_ne {session : Session} {index changed : Nat} (apart : index ≠ changed)
    (change : Cell → Cell) :
    ({ session with cells := session.cells.modify changed change } : Session).cell index =
      session.cell index := by
  unfold cell
  rw [Array.getD_eq_getD_getElem?, Array.getD_eq_getD_getElem?, Array.getElem?_modify,
    if_neg (Ne.symm apart)]

/-- Following a reference comes to the object type of the declaration. -/
theorem comes_structureOf {cell : Nat} {type : TypeTerm}
    (promises : Promises tree root generic journal.state heir cell type)
    (heirAllowed : typeParameters heir.node ≠ [] → generic)
    (fromTree : FromTree tree root journal.state) :
    Task.Comes tree (Refusal generic) journal (structureOf type) fun target after =>
      Adds tree root (· = cell) journal.state after.state ∧
        ∃ own, (own = cell ∨ journal.state.cells.size ≤ own) ∧
          Uncollected tree after.state heir own target := by
  cases promises with
  | object uncollected =>
    obtain ⟨code, name, scope, rfl, opens, unknown⟩ := uncollected
    rw [structureOf, structureFrom_eq_pure (by simp [TypeTerm.kind])]
    exact Task.comes_pure ⟨.refl fromTree, cell, .inl rfl, code, name, scope, rfl, opens, unknown⟩
  | @reference code scope use refers allowed present unknown =>
    change Task.Comes tree _ journal (do structureFrom _ 31 (← step _ _ _ _ _)) _
    rw [step_eq_kept]
    have finds := comes_targetOf refers allowed heirAllowed code fromTree
    refine (comes_kept (by rw [unknown]) finds).bind ?_
    rintro _ after ⟨between, ⟨adds, own, new, code, name, scope, rfl, opens, fresh⟩, same⟩
    rw [structureFrom_eq_pure (by simp [TypeTerm.kind])]
    refine Task.comes_pure ⟨?_, own, .inr new, code, name, scope, rfl, opens, ?_⟩
    · have kept : Adds tree root (· = cell) journal.state between.state :=
        adds.mono fun _ _ => False.elim
      rw [same]
      exact kept.modify (fun _ => rfl) _
    · rw [same, cell_modify_of_ne (Nat.ne_of_gt (Nat.lt_of_lt_of_le present new)), fresh]

end Types
end ModuleAtlas
