import ModuleAtlas.Proofs.Graph.Closure
import ModuleAtlas.Proofs.Source.Comments

/-!
# Comments and dependencies

The dependencies of a file are what its imports lead to, so comments that keep the imports keep the
dependencies.  Comments take imports away exactly when they hide the first argument of a call, and
they never add any.
-/

namespace ModuleAtlas

namespace Session

/-- A session in which the module at a path, when the path leads anywhere, has a tree of some sort.
-/
structure Sees
    (tree : FileTree) (root path : Path) (sort : Node → Prop) (session : Session) : Prop where
  module : ∀ canonical, tree.resolve? path = some canonical →
    ∃ source, session.moduleFor tree canonical = .ok source ∧ sort source.root
  resolver : Resolver.Coherent tree root session.resolver

variable {tree : FileTree} {root path : Path} {sort : Node → Prop}

theorem Sees.mono {wider : Node → Prop} {session : Session}
    (sees : Sees tree root path sort session) (implied : ∀ node, sort node → wider node) :
    Sees tree root path wider session := by
  refine ⟨fun canonical known => ?_, sees.resolver⟩
  obtain ⟨source, answer, ofSort⟩ := sees.module canonical known
  exact ⟨source, answer, implied source.root ofSort⟩

theorem asksCoherence_sees : AsksCoherence tree root (Sees tree root path sort) :=
  ⟨fun _ sees => sees.resolver, fun _ _ sees resolver => ⟨sees.module, resolver⟩⟩

/-- Reading the module at the path gives a module with a tree of the sort that the session sees. -/
theorem Sees.readModule_runs {canonical : Path} {journal : Journal Session}
    (sees : Sees tree root path sort journal.state) (known : tree.resolve? path = some canonical) :
    ∃ source after, readModule canonical tree journal = (.ok (.ok source), after) ∧
      sort source.root ∧ Sees tree root path sort after.state := by
  obtain ⟨source, answer, ofSort⟩ := sees.module canonical known
  obtain ⟨after, ran, sameResolver, sameModules⟩ := Session.readModule_runs canonical journal
  rw [answer] at ran
  refine ⟨source, after, ran, ofSort, ?_, sameResolver ▸ sees.resolver⟩
  intro other otherKnown
  rw [sameModules]
  exact sees.module other otherKnown

end Session

namespace Project

open Node

variable {tree : FileTree}

theorem specifiers_eq (root : Node) :
    root.imports.map (·.specifier) = root.importPairs.map Prod.fst := by
  unfold importPairs
  rw [List.map_map]
  rfl

/-- All sessions that see the same imports of a file settle its dependencies in the same way. -/
theorem steady_dependencies_of_sees
    (project : Project) (file : File) (pairs : List (String × ImportKind)) :
    Task.Steady tree
      (Session.Sees tree project.root file.path fun root => root.importPairs = pairs)
      (fun _ => True) (project.dependencies file) := by
  let good : Session → Prop :=
    Session.Sees tree project.root file.path fun root => root.importPairs = pairs
  have told : Task.Steady tree good (fun _ => True)
      (do return (.ok (← project.targetsOf file.path (pairs.map Prod.fst)) :
        Except SourceFault (List File))) :=
    (steady_targetsOf Session.asksCoherence_sees file.path _).map fun _ _ => trivial
  obtain ⟨outcome, settles, _⟩ := told.exists_settles
  unfold dependencies
  split
  · exact Task.steady_pure trivial
  · unfold Session.parse
    rw [bind_assoc]
    refine (Task.steady_resolvePath file.path).bind ?_
    rintro canonical ⟨_, known⟩
    have runs : ∀ journal : Journal Session, good journal.state →
        ∃ parsed after, Session.readModule canonical tree journal = (.ok parsed, after) ∧
          (∃ source, parsed = .ok source ∧ source.root.importPairs = pairs) ∧
          good after.state := by
      intro journal sees
      obtain ⟨source, after, ran, imports, stillSees⟩ := sees.readModule_runs known
      exact ⟨_, after, ran, ⟨source, rfl, imports⟩, stillSees⟩
    refine Task.steady_of_settles (?_ : Task.Settles tree good _ outcome) fun _ _ => trivial
    refine Task.settles_bind_of_runs runs ?_
    rintro _ ⟨source, rfl, imports⟩
    dsimp only
    rw [specifiers_eq, imports]
    exact settles

/-- Trees with the same imports have the same dependencies. -/
theorem outcomeFrom_dependencies_eq
    {project : Project} {file : File} {node other : Node} {session otherSession : Session}
    (sees : session.Sees tree project.root file.path (· = node))
    (otherSees : otherSession.Sees tree project.root file.path (· = other))
    (same : other.importPairs = node.importPairs) :
    (project.dependencies file).outcomeFrom tree otherSession =
      (project.dependencies file).outcomeFrom tree session := by
  obtain ⟨outcome, settles, _⟩ :=
    (project.steady_dependencies_of_sees file node.importPairs).exists_settles
  have before := settles.outcomeFrom_eq (sees.mono fun root isNode => by rw [isNode])
  have after := settles.outcomeFrom_eq (otherSees.mono fun root isOther => by rw [isOther, same])
  rw [before, after]

/-- Comments take imports away exactly when they hide the first argument of a call, and otherwise
the dependencies of the file stay what they are. -/
theorem comments_only_hide_imports {node other : Node} (commented : Commented node other) :
    other.importPairs.Sublist node.importPairs ∧
      (other.importPairs = node.importPairs ↔ other.hiddenMentions = node.hiddenMentions) ∧
      (other.hiddenMentions = node.hiddenMentions →
        ∀ (tree : FileTree) (project : Project) (file : File) (session otherSession : Session),
          session.Sees tree project.root file.path (· = node) →
          otherSession.Sees tree project.root file.path (· = other) →
          (project.dependencies file).outcomeFrom tree otherSession =
            (project.dependencies file).outcomeFrom tree session) := by
  have exactly := commented.importPairs_eq_iff
  refine ⟨commented.importPairs_sublist, exactly, ?_⟩
  intro hiddenSame tree project file session otherSession sees otherSees
  exact outcomeFrom_dependencies_eq sees otherSees (exactly.mpr hiddenSame)

/-! ## Comments in imports -/

/-- The tree of a file that imports a specifier, with a comment on top and one in the statement. -/
def notedImportTree (specifier : String) : Node :=
  .mk "program" true none 0 1 "" [
    comment 0 1 "// above",
    .mk "import_statement" true none 9 2 "" [
      comment 16 2 "/* within */",
      .mk "string" true (some "source") 29 2 ("'" ++ specifier ++ "'") []]]

theorem commented_notedImportTree (specifier : String) :
    Commented (importTree specifier) (notedImportTree specifier) := by
  have literal : Commented (.mk "string" true (some "source") 0 1 ("'" ++ specifier ++ "'") [])
      (.mk "string" true (some "source") 29 2 ("'" ++ specifier ++ "'") []) :=
    .mk (fun _ => rfl) .nil
  have statement : CommentedAll
      [.mk "string" true (some "source") 0 1 ("'" ++ specifier ++ "'") []]
      [comment 16 2 "/* within */",
        .mk "string" true (some "source") 29 2 ("'" ++ specifier ++ "'") []] :=
    .insert 16 2 "/* within */" (.cons literal .nil)
  exact .mk (fun _ => rfl)
    (.insert 0 1 "// above" (.cons (.mk (fun _ => rfl) statement) .nil))

/-- A session that has read the first file of the pair with comments in it. -/
def notedSession : Session :=
  { Session.fresh (.ofRoot []) with
    modules := [(.ofRoot ["a.ts"], .bare (.ofRoot ["a.ts"]) .plain (notedImportTree "./b"))] }

theorem pair_resolve?_a : pairTree.resolve? (.ofRoot ["a.ts"]) = some (.ofRoot ["a.ts"]) := by
  decide +kernel

theorem sees_fresh :
    (Session.fresh (.ofRoot [])).Sees pairTree (.ofRoot []) (.ofRoot ["a.ts"])
      (· = importTree "./b") := by
  refine ⟨fun canonical known => ?_, Resolver.coherent_fresh⟩
  rw [pair_resolve?_a] at known
  cases known
  exact ⟨_, rfl, rfl⟩

theorem sees_notedSession :
    notedSession.Sees pairTree (.ofRoot []) (.ofRoot ["a.ts"]) (· = notedImportTree "./b") := by
  refine ⟨fun canonical known => ?_, Resolver.coherent_fresh⟩
  rw [pair_resolve?_a] at known
  cases known
  exact ⟨_, rfl, rfl⟩

theorem noted_dependencies :
    (rootProject.dependencies (rootFile "a.ts")).outcomeFrom pairTree notedSession =
      .ok (.ok [rootFile "b.ts"]) := by
  have hidden : (notedImportTree "./b").hiddenMentions = (importTree "./b").hiddenMentions := by
    decide +kernel
  have same := (comments_only_hide_imports (commented_notedImportTree "./b")).2.2 hidden
    pairTree rootProject (rootFile "a.ts") (.fresh (.ofRoot [])) notedSession sees_fresh
    sees_notedSession
  rw [same]
  rfl

/-- The arguments of a dynamic import, with some nodes before the specifier. -/
def laterArguments (before : List Node) : Node :=
  .mk "arguments" true (some "arguments") 6 1 "" (
    .mk "(" false none 6 1 "(" [] :: (before ++ [
    .mk "string" true none 7 1 "'./b'" [],
    .mk ")" false none 12 1 ")" []]))

/-- The tree of a file that imports a module dynamically, with some nodes before the specifier. -/
def laterTree (before : List Node) : Node :=
  .mk "program" true none 0 1 "" [
    .mk "expression_statement" true none 0 1 "" [
      .mk "call_expression" true none 0 1 "" [
        .mk "import" true (some "function") 0 1 "import" [],
        laterArguments before]]]

theorem commented_laterTree (start line : Nat) (text : String) :
    Commented (laterTree []) (laterTree [comment start line text]) := by
  have arguments : Commented (laterArguments []) (laterArguments [comment start line text]) :=
    .mk (fun _ => rfl) (.cons (.refl _) (.insert start line text (.refl _)))
  have call := CommentedAll.cons (.refl (.mk "import" true (some "function") 0 1 "import" []))
    (.cons arguments .nil)
  exact .mk (fun _ => rfl)
    (.cons (.mk (fun _ => rfl) (.cons (.mk (fun _ => rfl) call) .nil)) .nil)

/-- A comment before the argument of a dynamic import takes the import away. -/
theorem comment_hides_import :
    ¬∀ node other : Node, Commented node other → other.importPairs = node.importPairs := by
  intro always
  have same := always _ _ (commented_laterTree 7 1 "/* later */")
  have lost : (laterTree [comment 7 1 "/* later */"]).importPairs = [] := by
    decide +kernel
  have found : (laterTree []).importPairs = [("./b", .dynamic)] := by
    decide +kernel
  rw [lost, found] at same
  cases same

end Project
end ModuleAtlas
