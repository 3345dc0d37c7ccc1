import Mathlib.Algebra.Order.Ring.Nat
import Mathlib.Data.Finset.Prod
import Mathlib.Logic.Relation
import Mathlib.Tactic.Linarith
import ModuleAtlas.Proofs.Graph.Dependencies
import ModuleAtlas.Proofs.Session.Coherent
import ModuleAtlas.Types.Exports

/-!
# Where re-exports lead

A re-export leads from a module of a file tree to another one of its modules.  The names that
re-exports ask for are written in the files.  So there are only finitely many questions that a
search through re-exports can ask, no more than the square of the bound for walks over the file
tree.
-/

namespace ModuleAtlas

open Relation

/-! ## Modules of a file tree -/

namespace Entry

theorem mem_treesOf {entries : List (String × Entry)} {name : String} {entry : Entry} {node : Node}
    (child : entries.lookup name = some entry) (member : node ∈ entry.trees) :
    node ∈ treesOf entries := by
  induction entries with
  | nil => cases child
  | cons pair rest ih =>
    obtain ⟨other, otherEntry⟩ := pair
    rw [treesOf]
    rw [List.lookup_cons] at child
    split at child
    · cases child
      exact List.mem_append_left _ member
    · exact List.mem_append_right _ (ih child)

/-- The syntax tree of a file is among the trees of its file tree. -/
theorem mem_trees {names : List String} {entry : Entry} {bytes : ByteArray} {node : Node}
    (known : entry.at? names = some (.file bytes (some node))) :
    node ∈ entry.trees := by
  induction names generalizing entry with
  | nil =>
    cases known
    exact List.mem_singleton_self node
  | cons name rest ih =>
    rw [at?_cons, Option.bind_eq_some_iff] at known
    obtain ⟨child, childKnown, restKnown⟩ := known
    cases entry with
    | directory entries => exact mem_treesOf childKnown (ih restKnown)
    | file bytes tree => cases childKnown
    | link target => cases childKnown

end Entry

namespace SourceModule

/-- A module that stands in a file tree under its canonical path. -/
structure StandsIn (source : SourceModule) (tree : FileTree) : Prop where
  canonical : tree.IsCanonicalFile source.path
  read : Session.moduleAt tree source.path = .ok source

end SourceModule

namespace Session

variable {tree : FileTree} {root : Path}

theorem path_of_moduleAt {path : Path} {source : SourceModule}
    (read : moduleAt tree path = .ok source) :
    source.path = path := by
  unfold moduleAt at read
  split at read
  · cases read
  · split at read
    · rw [← Except.ok.inj read, SourceModule.ofTree_path]
    · cases read

/-- What a specifier leads to is a module of the file tree. -/
theorem steady_load (specifier : String) (importer : SourceModule) :
    Task.Steady tree (FromTree tree root)
      (fun found => ∀ target, found = some target → target.StandsIn tree)
      (load specifier importer) := by
  refine (asksCoherence_fromTree.steady_resolving
    (Resolver.steady_resolve specifier importer.path).alone).bind fun resolution settled => ?_
  cases found : resolution.file with
  | none => exact Task.steady_pure nofun
  | some path =>
    dsimp only
    split
    · obtain ⟨written, isFile, known⟩ := settled path found
      have canonical := FileTree.isCanonicalFile_of_passes isFile known
      have parsed : Task.Steady tree (FromTree tree root)
          (fun outcome => outcome = moduleAt tree path) (parse path) := by
        refine (Task.steady_resolvePath path).bind ?_
        rintro again ⟨_, resolved⟩
        rw [canonical.resolve?_eq] at resolved
        cases resolved
        exact (settles_readModule_fromTree _).steady rfl
      refine parsed.map ?_
      intro outcome parses target equal
      rw [parses] at equal
      cases read : moduleAt tree path with
      | error fault =>
        rw [read] at equal
        cases equal
      | ok source =>
        rw [read] at equal
        cases equal
        have same := path_of_moduleAt read
        subst same
        exact ⟨canonical, read⟩
    · exact Task.steady_pure nofun

variable {source : SourceModule}

theorem settles_resolvePath_standsIn (stands : source.StandsIn tree) :
    Task.Settles tree (FromTree tree root) (Task.resolvePath source.path) (.ok source.path) := by
  refine Task.settles_resolvePath ?_ stands.canonical.resolve?_eq
  have read := stands.read
  by_contra null
  rw [Bool.not_eq_false] at null
  unfold moduleAt FileTree.lookup at read
  rw [if_pos null] at read
  split at read <;> cases read

/-- A module that stands in the file tree is what its path parses to. -/
theorem settles_parse (stands : source.StandsIn tree) :
    Task.Settles tree (FromTree tree root) (parse source.path) (.ok (.ok source)) := by
  refine (settles_resolvePath_standsIn stands).bind ?_
  rw [← stands.read]
  exact settles_readModule_fromTree source.path

theorem settles_load (tree : FileTree) (root : Path) (specifier : String)
    (importer : SourceModule) :
    Task.Settles tree (FromTree tree root) (load specifier importer)
      ((load specifier importer).outcomeFrom tree (fresh root)) :=
  (steady_load specifier importer).settles_outcomeFrom fromTree_fresh

theorem settles_sizeBound (tree : FileTree) (root : Path) :
    Task.Settles tree (FromTree tree root) sizeBound (.ok (walkBound tree)) :=
  fun journal fromTree => ⟨journal, fromTree.sizeBound_eq, fromTree⟩

end Session

/-! ## Where re-exports lead -/

namespace SourceModule

variable {tree : FileTree} {root : Path} {source target : SourceModule} {entry : ReExport}

/-- A re-export of a module leads to another module. -/
def Leads (tree : FileTree) (root : Path) (source : SourceModule) (entry : ReExport)
    (target : SourceModule) : Prop :=
  (Session.load entry.specifier source).outcomeFrom tree (Session.fresh root) = .ok (some target)

/-- A module hands on exports of another one. -/
def HandsOnFrom (tree : FileTree) (root : Path) (source target : SourceModule) : Prop :=
  ∃ entry ∈ source.reExports, source.Leads tree root entry target

/-- Going along re-exports from a module, no specifier makes resolving fail.  A specifier that leads
nowhere is none that does. -/
def Followable (tree : FileTree) (root : Path) (source : SourceModule) : Prop :=
  ∀ other, ReflTransGen (HandsOnFrom tree root) source other → ∀ entry ∈ other.reExports,
    ∃ found, (Session.load entry.specifier other).outcomeFrom tree (Session.fresh root) = .ok found

theorem Followable.next (followable : source.Followable tree root)
    (member : entry ∈ source.reExports) (leads : source.Leads tree root entry target) :
    target.Followable tree root :=
  fun other reaches => followable other (.head ⟨entry, member, leads⟩ reaches)

/-- The module that a re-export leads to is found from every session that reads from the tree. -/
theorem Followable.settles_load (followable : source.Followable tree root)
    (member : entry ∈ source.reExports) :
    ∃ found, Task.Settles tree (Session.FromTree tree root) (Session.load entry.specifier source)
        (.ok found) ∧
      ∀ other, found = some other ↔ source.Leads tree root entry other := by
  obtain ⟨found, answers⟩ := followable source .refl entry member
  have settles := Session.settles_load tree root entry.specifier source
  refine ⟨found, answers ▸ settles, fun other => ?_⟩
  unfold Leads
  rw [answers, Except.ok.injEq]

theorem Leads.standsIn (leads : source.Leads tree root entry target) : target.StandsIn tree := by
  have settles := Session.settles_load tree root entry.specifier source
  rw [leads] at settles
  exact (Session.steady_load entry.specifier source).kind_of_settles Session.fromTree_fresh settles
    target rfl

/-- A re-export leads to one module only. -/
theorem Leads.unique {other : SourceModule} (leads : source.Leads tree root entry target)
    (others : source.Leads tree root entry other) :
    target = other := by
  unfold Leads at leads others
  rw [leads] at others
  exact Option.some.inj (Except.ok.inj others)

/-- Only one module stands at a path. -/
theorem StandsIn.unique (stands : source.StandsIn tree) (others : target.StandsIn tree)
    (same : source.path = target.path) :
    source = target := by
  have read := stands.read
  rw [same, others.read] at read
  exact (Except.ok.inj read).symm

/-- The module of a file is the index of a syntax tree of the file tree, or of no text at all. -/
theorem StandsIn.eq_ofTree (stands : source.StandsIn tree) :
    ∃ language parsed, source = ofTree source.path language parsed ∧
      (parsed = Session.emptyTree ∨ parsed ∈ tree.root.trees) := by
  have read := stands.read
  unfold Session.moduleAt at read
  split at read
  · cases read
  · rename_i language _
    split at read
    · rename_i names bytes parsed found
      refine ⟨language, parsed.getD Session.emptyTree, (Except.ok.inj read).symm, ?_⟩
      cases parsed with
      | none => exact .inl rfl
      | some node =>
        obtain ⟨_, known, _⟩ := FileTree.resolve?_of_lookup found
        exact .inr (Entry.mem_trees known)
    · cases read

theorem StandsIn.nameSpace (stands : source.StandsIn tree) (member : entry ∈ source.reExports)
    (hasNameSpace : entry.nameSpace.isSome) :
    entry.names = none := by
  obtain ⟨language, parsed, same, _⟩ := stands.eq_ofTree
  rw [same] at member
  exact names_eq_none member hasNameSpace

end SourceModule

/-! ## Questions -/

namespace FileTree

variable {tree : FileTree}

/-- The names that the files of a tree can ask each other for. -/
def importedNames (tree : FileTree) : Finset String :=
  (tree.root.trees.flatMap SourceModule.importedNames).toFinset

theorem mem_importedNames
    {source : SourceModule} {entry : ReExport} {names : List (String × String)}
    {pair : String × String} (stands : source.StandsIn tree) (member : entry ∈ source.reExports)
    (named : entry.names = some names) (pairMember : pair ∈ names) :
    pair.2 ∈ tree.importedNames := by
  obtain ⟨language, parsed, same, rfl | listed⟩ := stands.eq_ofTree
  · rw [same] at member
    cases member
  · rw [same] at member
    have written := SourceModule.reExports_mem_importedNames member named pairMember
    exact List.mem_toFinset.mpr (List.mem_flatMap.mpr ⟨parsed, listed, written⟩)

theorem length_writtenNames (trees : List Node) :
    (trees.flatMap SourceModule.writtenNames).length =
      total (trees.map fun parsed => parsed.substance.length) := by
  induction trees with
  | nil => rfl
  | cons parsed rest ih =>
    rw [List.flatMap_cons, List.length_append, ih, SourceModule.writtenNames, List.length_map,
      List.map_cons, total_cons]

/-- All files ask for a default and for whole modules by the same two names. -/
theorem importedNames_subset (tree : FileTree) :
    tree.importedNames ⊆
      insert "default" (insert "*"
        (tree.root.trees.flatMap SourceModule.writtenNames).toFinset) := by
  intro name member
  simp only [importedNames, SourceModule.importedNames, List.mem_toFinset, List.mem_flatMap,
    List.mem_cons, Finset.mem_insert] at member ⊢
  obtain ⟨parsed, listed, isDefault | isWhole | written⟩ := member
  · exact .inl isDefault
  · exact .inr (.inl isWhole)
  · exact .inr (.inr ⟨parsed, listed, written⟩)

theorem card_importedNames_le (tree : FileTree) :
    tree.importedNames.card ≤
      total (tree.root.trees.map fun parsed => parsed.substance.length) + 2 := by
  refine (Finset.card_le_card tree.importedNames_subset).trans ?_
  refine (Finset.card_insert_le _ _).trans (Nat.succ_le_succ ?_)
  refine (Finset.card_insert_le _ _).trans (Nat.succ_le_succ ?_)
  exact (List.toFinset_card_le _).trans_eq (length_writtenNames _)

/-- The questions that a search for a name can ask: every file for the name, or for one of those
that are written in the files. -/
def questions (tree : FileTree) (name : String) : Finset (Path × String) :=
  tree.located ×ˢ insert name tree.importedNames

theorem mem_questions {source : SourceModule} {name asked : String} (stands : source.StandsIn tree)
    (known : asked ∈ insert name tree.importedNames) :
    (source.path, asked) ∈ tree.questions name :=
  Finset.mem_product.mpr ⟨stands.canonical.mem_located, known⟩

/-- A search can ask no more questions than the square of the bound for walks. -/
theorem card_questions_le (tree : FileTree) (name : String) :
    (tree.questions name).card ≤ Session.walkBound tree * Session.walkBound tree := by
  have places := tree.card_located_le
  have names : (insert name tree.importedNames).card ≤
      total (tree.root.trees.map fun parsed => parsed.substance.length) + 3 :=
    (Finset.card_insert_le _ _).trans (Nat.succ_le_succ tree.card_importedNames_le)
  unfold questions Session.walkBound
  rw [Finset.card_product]
  generalize total _ = nodes at names ⊢
  generalize tree.root.count = count at places ⊢
  refine (Nat.mul_le_mul places names).trans ?_
  zify
  nlinarith [sq_nonneg ((count : ℤ) - 1)]

end FileTree

/-! ## Provided names -/

namespace Types

variable {tree : FileTree} {root : Path}

/-- A module exports a name itself, or a re-export of it leads to a module that provides the name
under which it is handed on. -/
inductive Provides (tree : FileTree) (root : Path) : SourceModule → String → Prop where
  | own {source : SourceModule} {name : String}
      (member : name ∈ source.exports.map Prod.fst) :
      Provides tree root source name
  | handed {source target : SourceModule} {entry : ReExport} {name imported : String}
      (member : entry ∈ source.reExports)
      (named : ReExport.sourceName? entry name = some imported)
      (leads : source.Leads tree root entry target)
      (provides : Provides tree root target imported) :
      Provides tree root source name

end Types
end ModuleAtlas
