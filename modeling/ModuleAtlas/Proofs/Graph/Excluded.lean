import ModuleAtlas.Proofs.Graph.Closure

/-!
# What a graph leaves out

Files that are ignored or lie in a directory for installed packages are no targets of edges.  Seeds
and source files are tested under the path by which they are found, so an excluded file is a node
exactly when a path that is not excluded leads to it through a link.
-/

namespace ModuleAtlas
namespace Project

open ModuleAtlas.Graph Relation

variable {tree : FileTree} {project : Project}

/-- The names of a path that matter for where it lies: those below the root, or all outside. -/
def namesBelow (project : Project) (path : Path) : List String :=
  if Path.isWithin project.root path then path.names.drop project.root.names.length
  else path.parts

/-- A path lies in a directory for installed packages. -/
def LiesInstalled (project : Project) (path : Path) : Prop :=
  ∃ name ∈ (project.namesBelow path).dropLast, project.dependencyDirs.contains name = true

/-- A path that has no place in a graph: it is ignored or lies in a directory for installed
packages. -/
def Excludes (project : Project) (path : Path) : Prop :=
  project.ignore.ignores path false = true ∨ project.LiesInstalled path

theorem not_liesInstalled_of_outside {path : Path} (outside : project.isInstalled path = false) :
    ¬project.LiesInstalled path := by
  rintro ⟨name, member, contained⟩
  have found : project.isInstalled path = true := by
    unfold isInstalled
    exact List.any_eq_true.mpr ⟨name, List.dropLast_subset _ member, contained⟩
  rw [found] at outside
  cases outside

theorem not_excludes_of_admits {path : Path} (admitted : project.admits path = true) :
    ¬project.Excludes path := by
  simp only [admits, Bool.and_eq_true, Bool.not_eq_true'] at admitted
  rintro (ignored | installed)
  · rw [admitted.2] at ignored
    cases ignored
  · exact not_liesInstalled_of_outside admitted.1 installed

/-- The walk through the root finds no excluded path. -/
theorem IsWritten.not_excludes {names : List String} {path : Path}
    (written : project.IsWritten project.root names path) :
    ¬project.Excludes path := by
  rintro (ignored | ⟨name, member, contained⟩)
  · rw [written.kept] at ignored
    cases ignored
  · have below : project.namesBelow path = names := by
      unfold namesBelow
      rw [written.below]
      simp [Path.isWithin]
    rw [below] at member
    rw [written.outside name member] at contained
    cases contained

theorem not_excludes_of_leads {source target : Path}
    (leads : Imports.Leads (project.importsIn tree) source target) :
    ¬project.Excludes target := by
  obtain ⟨targets, told, member⟩ := leads
  obtain ⟨file, fileMember, rfl⟩ := File.mem_paths.mp member
  exact not_excludes_of_admits (isSeen_of_importsIn told fileMember).admitted

/-- Dots in a path do not matter for whether it is ignored. -/
theorem ignores_congr {rules : Ignore.RuleSet} {path other : Path} {isDirectory : Bool}
    (same : Path.normalNames path.names = Path.normalNames other.names) :
    rules.ignores path isDirectory = rules.ignores other isDirectory := by
  unfold Ignore.RuleSet.ignores Ignore.RuleSet.ignoresBy
  rw [same]

/-- An excluded node of the forward graph of what patterns stand for is an ignored seed. -/
theorem excluded_forward_iff {patterns : List String} {seeds : List File} {forward : Graph}
    (expanded : project.Gives tree (project.expand patterns) seeds)
    (built : project.Gives tree (project.forwardGraph seeds) forward) (path : Path) :
    path ∈ File.paths forward.nodes ∧ project.Excludes path ↔
      ∃ written, project.IsExpanded tree patterns written path ∧
        project.ignore.ignores path false = true ∧
        Imports.Parses (project.importsIn tree) path := by
  have areExpanded : project.AreExpanded tree patterns seeds :=
    (steady_expand patterns).kind_of_settles Session.coherent_fresh expanded
  rw [(isClosure_of_gives built).node_iff]
  constructor
  · rintro ⟨⟨seed, seedMember, parses, way⟩, excluded⟩
    rcases ReflTransGen.cases_tail way with same | ⟨before, _, leads⟩
    · subst same
      obtain ⟨written, isExpanded⟩ :=
        (areExpanded.path_iff _).mp (File.mem_paths_of_mem seedMember)
      rcases excluded with ignored | installed
      · exact ⟨written, isExpanded, ignored, parses⟩
      · exact absurd installed (not_liesInstalled_of_outside isExpanded.outside)
    · exact absurd excluded (not_excludes_of_leads leads)
  · rintro ⟨written, isExpanded, ignored, parses⟩
    obtain ⟨seed, seedMember, rfl⟩ :=
      File.mem_paths.mp ((areExpanded.path_iff path).mpr ⟨written, isExpanded⟩)
    exact ⟨⟨seed, seedMember, parses, .refl⟩, .inl ignored⟩

/-- An excluded node of the graph of a project is a source file that is found by another path. -/
theorem excluded_whole_iff {whole : Graph} {failures : List (File × SourceFault)}
    (built : project.Gives tree project.wholeGraph (whole, failures)) (path : Path) :
    path ∈ File.paths whole.nodes ∧ project.Excludes path ↔
      ∃ written ∈ project.sourcePaths tree, tree.resolve? written = some path ∧
        project.Excludes path := by
  obtain ⟨files, _, isWhole⟩ := isWhole_of_gives built
  rw [mem_paths_nodes, isWhole.collects.node_iff, isWhole.sources.path_iff]
  constructor
  · rintro ⟨⟨written, member, known⟩ | ⟨source, _, leads⟩, excluded⟩
    · exact ⟨written, member, known, excluded⟩
    · exact absurd excluded (not_excludes_of_leads leads)
  · rintro ⟨written, member, known, excluded⟩
    exact ⟨.inl ⟨written, member, known⟩, excluded⟩

/-- Excluded nodes come in through links only.  In the forward graph they are the seeds that are
ignored although the path that a pattern stands for is not, even with its dots taken out, and in the
graph of a project the source files that are excluded although the path that the walk finds is not.
No other file that is excluded is a node. -/
theorem excluded_nodes_come_through_links (project : Project) (tree : FileTree) :
    (∀ (patterns : List String) (seeds : List File) (forward : Graph),
      project.Gives tree (project.expand patterns) seeds →
      project.Gives tree (project.forwardGraph seeds) forward →
      ∀ path, path ∈ File.paths forward.nodes ∧ project.Excludes path ↔
        ∃ written, Path.normalNames written.names ≠ Path.normalNames path.names ∧
          project.IsExpanded tree patterns written path ∧
          project.ignore.ignores path false = true ∧
          Imports.Parses (project.importsIn tree) path) ∧
    (∀ (whole : Graph) (failures : List (File × SourceFault)),
      project.Gives tree project.wholeGraph (whole, failures) →
      ∀ path, path ∈ File.paths whole.nodes ∧ project.Excludes path ↔
        ∃ written ∈ project.sourcePaths tree, written ≠ path ∧
          tree.resolve? written = some path ∧ project.Excludes path) := by
  constructor
  · intro patterns seeds forward expanded built path
    rw [excluded_forward_iff expanded built]
    constructor
    · rintro ⟨written, isExpanded, ignored, parses⟩
      refine ⟨written, fun same => ?_, isExpanded, ignored, parses⟩
      have kept := isExpanded.kept
      rw [ignores_congr same, ignored] at kept
      cases kept
    · rintro ⟨written, _, rest⟩
      exact ⟨written, rest⟩
  · intro whole failures built path
    rw [excluded_whole_iff built]
    constructor
    · rintro ⟨written, member, known, excluded⟩
      refine ⟨written, member, ?_, known, excluded⟩
      rintro rfl
      obtain ⟨_, _, names, _, _, isWritten⟩ := isWritten_of_mem_sourcePaths member
      exact isWritten.not_excludes excluded
    · rintro ⟨written, member, _, known, excluded⟩
      exact ⟨written, member, known, excluded⟩

/-! ## A link to an ignored file -/

/-- A file tree in which a link leads to an ignored file. -/
def linkTree : FileTree :=
  ⟨.directory [("link.ts", .link "secret.ts"), ("secret.ts", .file .empty none)], []⟩

/-- A project at the root that ignores the secret file. -/
def secretProject : Project where
  root := .ofRoot []
  ignore := {
    root := .ofRoot []
    rules := []
    patterns := ["secret.ts"]
    matchers := (Ignore.Matcher.compile "secret.ts").toOption.join.toList }
  dependencyDirs := ["node_modules"]

theorem secret_excluded : secretProject.Excludes (.ofRoot ["secret.ts"]) := by
  left
  decide +kernel

theorem gives_link_seeds :
    secretProject.Gives linkTree (secretProject.expand ["link.ts"]) [rootFile "secret.ts"] :=
  gives_of_outcomeFrom (steady_expand _) (by decide +kernel)

theorem gives_link_forward :
    secretProject.Gives linkTree (secretProject.forwardGraph [rootFile "secret.ts"])
      ⟨[(rootFile "secret.ts", [])]⟩ :=
  gives_of_outcomeFrom (steady_forwardGraph _ _) (by decide +kernel)

theorem gives_link_whole :
    secretProject.Gives linkTree secretProject.wholeGraph (⟨[(rootFile "secret.ts", [])]⟩, []) :=
  gives_of_outcomeFrom (steady_wholeGraph _ _) (by decide +kernel)

theorem secret_is_node :
    Path.ofRoot ["secret.ts"] ∈ File.paths (Graph.nodes ⟨[(rootFile "secret.ts", [])]⟩) :=
  mem_paths_nodes.mpr (hasNode_iff.mpr ⟨_, List.mem_singleton_self _, rfl⟩)

/-- Neither graph is always free of excluded files: the ignored file is a node of both. -/
theorem excluded_secret_is_node :
    ¬∀ (project : Project) (tree : FileTree) (patterns : List String) (seeds : List File)
      (forward whole : Graph) (failures : List (File × SourceFault)),
      project.Gives tree (project.expand patterns) seeds →
      project.Gives tree (project.forwardGraph seeds) forward →
      project.Gives tree project.wholeGraph (whole, failures) →
      (∀ path ∈ File.paths forward.nodes, ¬project.Excludes path) ∨
        ∀ path ∈ File.paths whole.nodes, ¬project.Excludes path := by
  intro never
  rcases never _ _ _ _ _ _ _ gives_link_seeds gives_link_forward gives_link_whole with
    forward | whole
  · exact forward _ secret_is_node secret_excluded
  · exact whole _ secret_is_node secret_excluded

theorem secret_comes_from_link :
    (∃ written, Path.normalNames written.names ≠ ["secret.ts"] ∧
      secretProject.IsExpanded linkTree ["link.ts"] written (.ofRoot ["secret.ts"])) ∧
    ∃ written ∈ secretProject.sourcePaths linkTree, written ≠ .ofRoot ["secret.ts"] ∧
      linkTree.resolve? written = some (.ofRoot ["secret.ts"]) := by
  obtain ⟨forward, whole⟩ := excluded_nodes_come_through_links secretProject linkTree
  constructor
  · obtain ⟨written, different, isExpanded, _⟩ :=
      (forward _ _ _ gives_link_seeds gives_link_forward _).mp ⟨secret_is_node, secret_excluded⟩
    exact ⟨written, different, isExpanded⟩
  · obtain ⟨written, member, different, known, _⟩ :=
      (whole _ _ gives_link_whole _).mp ⟨secret_is_node, secret_excluded⟩
    exact ⟨written, member, different, known⟩

end Project
end ModuleAtlas
