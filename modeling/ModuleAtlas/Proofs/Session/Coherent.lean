import ModuleAtlas.Session
import ModuleAtlas.Proofs.Resolve.Coherent
import ModuleAtlas.Proofs.Source.Index

/-!
# Coherent sessions

A session keeps the modules that it has read and what its resolver has found out.  It is coherent
when it answers as a fresh session does and its resolver is coherent.  From coherent sessions a path
always parses to the same module.
-/

namespace ModuleAtlas
namespace Session

variable {tree : FileTree} {root : Path}

/-- What a session answers for a canonical path: the module that it keeps, or else the one in the
file tree. -/
def moduleFor (session : Session) (tree : FileTree) (canonical : Path) :
    Except SourceFault SourceModule :=
  match Keyed.find? canonical session.modules with
  | some known => .ok known
  | none => moduleAt tree canonical

/-- All that a session keeps is what a fresh one would find out. -/
structure Coherent (tree : FileTree) (root : Path) (session : Session) : Prop where
  modules : ∀ path, session.moduleFor tree path = moduleAt tree path
  resolver : Resolver.Coherent tree root session.resolver

theorem coherent_fresh : Coherent tree root (fresh root) :=
  ⟨fun _ => rfl, Resolver.coherent_fresh⟩

/-- A property of sessions that asks of their resolver to be coherent and nothing else. -/
structure AsksCoherence (tree : FileTree) (root : Path) (good : Session → Prop) : Prop where
  coherent : ∀ session, good session → Resolver.Coherent tree root session.resolver
  kept : ∀ session resolver, good session → Resolver.Coherent tree root resolver →
    good { session with resolver := resolver }

theorem asksCoherence_coherent : AsksCoherence tree root (Coherent tree root) :=
  ⟨fun _ coherent => coherent.resolver, fun _ _ coherent resolver => ⟨coherent.modules, resolver⟩⟩

theorem AsksCoherence.steady_resolving
    {good : Session → Prop} {task : Task Resolver α} {kind : α → Prop}
    (asks : AsksCoherence tree root good)
    (steady : Task.Steady tree (Resolver.Coherent tree root) kind task) :
    Task.Steady tree good kind (resolving task) :=
  steady.within asks.coherent asks.kept

/-- Keeping a module that the session would answer with anyway changes no answer. -/
theorem moduleFor_remember {session : Session} {canonical : Path} {indexed : SourceModule}
    (same : session.moduleFor tree canonical = .ok indexed) (path : Path) :
    moduleFor { session with modules := (canonical, indexed) :: session.modules } tree path =
      session.moduleFor tree path := by
  unfold moduleFor at same ⊢
  simp only [Keyed.find?, List.lookup_cons] at same ⊢
  cases equal : path == canonical with
  | true =>
    rw [eq_of_beq equal]
    exact same.symm
  | false => rfl

/-- Reading a module answers as the session does, and changes neither its answers nor its resolver.
-/
theorem readModule_runs (canonical : Path) (journal : Journal Session) :
    ∃ after, readModule canonical tree journal =
        (.ok (journal.state.moduleFor tree canonical), after) ∧
      after.state.resolver = journal.state.resolver ∧
      ∀ path, after.state.moduleFor tree path = journal.state.moduleFor tree path := by
  have asked : (Task.state : Task Session Session) tree journal = (.ok journal.state, journal) :=
    rfl
  have looked : (Task.files : Task Session FileTree) tree journal = (.ok tree, journal) := rfl
  unfold readModule
  rw [Task.bind_of_ok asked]
  cases remembered : Keyed.find? canonical journal.state.modules with
  | some known =>
    have answer : journal.state.moduleFor tree canonical = .ok known := by
      simp [moduleFor, remembered]
    rw [answer]
    exact ⟨journal, rfl, rfl, fun _ => rfl⟩
  | none =>
    have answer : journal.state.moduleFor tree canonical = moduleAt tree canonical := by
      simp [moduleFor, remembered]
    dsimp only
    rw [Task.bind_of_ok looked, answer]
    cases right : moduleAt tree canonical with
    | error fault => exact ⟨journal, rfl, rfl, fun _ => rfl⟩
    | ok indexed =>
      exact ⟨_, rfl, rfl, moduleFor_remember (answer.trans right)⟩

/-- A coherent session answers with the module in the file tree. -/
theorem settles_readModule (canonical : Path) :
    Task.Settles tree (Coherent tree root) (readModule canonical)
      (.ok (moduleAt tree canonical)) := by
  intro journal coherent
  obtain ⟨after, ran, sameResolver, sameModules⟩ := readModule_runs canonical journal
  rw [coherent.modules canonical] at ran
  refine ⟨after, ran, fun path => (sameModules path).trans (coherent.modules path), ?_⟩
  rw [sameResolver]
  exact coherent.resolver

theorem steady_parse (path : Path) :
    Task.Steady tree (Coherent tree root)
      (fun parsed => ∃ canonical, tree.resolve? path = some canonical ∧
        parsed = moduleAt tree canonical)
      (parse path) := by
  refine (Task.steady_resolvePath path).bind ?_
  rintro canonical ⟨_, known⟩
  exact (settles_readModule canonical).steady ⟨canonical, known, rfl⟩

end Session

/-!
## Sessions that read from a file tree

The modules of a session stand in the file tree when none of them has changed since it was read.
Such sessions all have the same bound for their walks over modules and declarations.
-/

namespace Session

variable {tree : FileTree} {root : Path}

/-- A coherent session whose modules are all those that stand in the file tree. -/
structure FromTree (tree : FileTree) (root : Path) (session : Session) : Prop where
  coherent : Coherent tree root session
  read : ∀ entry ∈ session.modules, moduleAt tree entry.1 = .ok entry.2

theorem fromTree_fresh : FromTree tree root (fresh root) :=
  ⟨coherent_fresh, fun _ impossible => absurd impossible (by simp [fresh])⟩

/-- Only the modules of a session and its resolver count. -/
theorem asksCoherence_fromTree : AsksCoherence tree root (FromTree tree root) :=
  ⟨fun _ fromTree => fromTree.coherent.resolver, fun _ _ fromTree resolver =>
    ⟨⟨fromTree.coherent.modules, resolver⟩, fromTree.read⟩⟩

theorem FromTree.of_eq {session after : Session} (fromTree : FromTree tree root session)
    (sameModules : after.modules = session.modules)
    (sameResolver : after.resolver = session.resolver) :
    FromTree tree root after := by
  refine ⟨⟨fun path => ?_, ?_⟩, ?_⟩
  · unfold moduleFor
    rw [sameModules]
    exact fromTree.coherent.modules path
  · rw [sameResolver]
    exact fromTree.coherent.resolver
  · rw [sameModules]
    exact fromTree.read

/-- Reading a module leaves a session as it is, or adds the module that stands in the file tree. -/
theorem readModule_after (tree : FileTree) (canonical : Path) (journal : Journal Session) :
    ∃ outcome after, readModule canonical tree journal = (outcome, after) ∧
      (after.state = journal.state ∨
        ∃ indexed, moduleAt tree canonical = .ok indexed ∧
          after.state =
            { journal.state with modules := (canonical, indexed) :: journal.state.modules }) := by
  have asked : (Task.state : Task Session Session) tree journal = (.ok journal.state, journal) :=
    rfl
  have looked : (Task.files : Task Session FileTree) tree journal = (.ok tree, journal) := rfl
  unfold readModule
  rw [Task.bind_of_ok asked]
  cases Keyed.find? canonical journal.state.modules with
  | some known => exact ⟨_, journal, rfl, .inl rfl⟩
  | none =>
    dsimp only
    rw [Task.bind_of_ok looked]
    cases found : moduleAt tree canonical with
    | error fault => exact ⟨_, journal, rfl, .inl rfl⟩
    | ok indexed => exact ⟨_, _, rfl, .inr ⟨indexed, rfl, rfl⟩⟩

/-- Whatever has been read before, a module is what its file in the tree holds. -/
theorem settles_readModule_fromTree (canonical : Path) :
    Task.Settles tree (FromTree tree root) (readModule canonical)
      (.ok (moduleAt tree canonical)) := by
  intro journal fromTree
  obtain ⟨after, ran, coherent⟩ := settles_readModule canonical journal fromTree.coherent
  refine ⟨after, ran, coherent, ?_⟩
  obtain ⟨outcome, same, sameRan, states⟩ := readModule_after tree canonical journal
  rw [ran] at sameRan
  cases sameRan
  rcases states with unchanged | ⟨indexed, found, added⟩
  · rw [unchanged]
    exact fromTree.read
  · rw [added]
    intro entry member
    rcases List.mem_cons.mp member with rfl | old
    · exact found
    · exact fromTree.read entry old

/-- Reading a module leaves all cells as they are. -/
theorem readModule_leaves (canonical : Path) (journal : Journal Session) :
    (readModule canonical tree journal).2.state.cells = journal.state.cells ∧
      (readModule canonical tree journal).2.state.parameterLists = journal.state.parameterLists ∧
      (readModule canonical tree journal).2.state.expanding = journal.state.expanding := by
  obtain ⟨outcome, after, ran, unchanged | ⟨indexed, _, added⟩⟩ :=
    readModule_after tree canonical journal
  · rw [ran, unchanged]
    exact ⟨rfl, rfl, rfl⟩
  · rw [ran, added]
    exact ⟨rfl, rfl, rfl⟩

theorem excess_eq_zero {entry : Path × SourceModule} (read : moduleAt tree entry.1 = .ok entry.2) :
    excess tree entry = 0 := by
  unfold moduleAt at read
  unfold excess sizeAt
  split at read
  · cases read
  · split at read
    · rw [← Except.ok.inj read, SourceModule.ofTree_root]
      simp
    · cases read

/-- The bound for walks over the modules and declarations of a file tree. -/
def walkBound (tree : FileTree) : Nat :=
  total (tree.root.trees.map fun parsed => parsed.substance.length) + tree.root.count + 1

/-- All sessions that read from a file tree have the same bound for their walks. -/
theorem FromTree.sizeBound_eq {journal : Journal Session}
    (fromTree : FromTree tree root journal.state) :
    sizeBound tree journal = (.ok (walkBound tree), journal) := by
  have none : journal.state.modules.map (excess tree) =
      List.replicate journal.state.modules.length 0 :=
    List.eq_replicate_iff.mpr ⟨List.length_map _, fun size member => by
      obtain ⟨entry, entryMember, rfl⟩ := List.mem_map.mp member
      exact excess_eq_zero (fromTree.read entry entryMember)⟩
  have nothing : ∀ count, total (List.replicate count 0) = 0 := by
    intro count
    induction count with
    | zero => rfl
    | succ count ih => simpa [List.replicate_succ] using ih
  change (Except.ok (_ + total (journal.state.modules.map (excess tree)) + _ + 1), journal) = _
  rw [none, nothing]
  rfl

end Session
end ModuleAtlas
