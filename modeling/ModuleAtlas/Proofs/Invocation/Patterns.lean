import ModuleAtlas.Invocation
import ModuleAtlas.Proofs.Graph.Closure
import ModuleAtlas.Proofs.Ignore.Scopes

/-!
# The order of patterns

Patterns are a set: neither their order nor how often one is given decides what an analysis of a
project answers, or whether it answers at all.  The project of the patterns and the files that they
stand for are the same, and from there on an analysis is steady.
-/

namespace ModuleAtlas

/-! ## The files that patterns stand for -/

namespace File

/-- Files that are seen from one root at proper paths are sorted in one way only. -/
theorem sort_distinct_eq (root : Path) {first second : List File} (same : SameElements first second)
    (seen : ∀ file ∈ first, file = seenFrom root file.path ∧ file.path.IsProper) :
    sort (distinct first) = sort (distinct second) := by
  have listed : SameElements (distinct first) (distinct second) := by
    intro file
    rw [mem_distinct_of_seen fun file member => (seen file member).1, same file,
      mem_distinct_of_seen fun file member => (seen file ((same file).mpr member)).1]
  refine listed.mergeSort_eq (nodup_distinct first) (nodup_distinct second) nameLe_trans
    nameLe_total ?_
  intro a aMember b bMember below above
  rw [decide_eq_true_eq] at below above
  exact eq_of_name_eq (seen a (mem_of_mem_distinct aMember)) (seen b (mem_of_mem_distinct bMember))
    (String.le_antisymm below above)

end File

namespace Project

variable {σ : Type} {good : σ → Prop} {tree : FileTree} {project : Project}
  {first second : List String}

theorem areFree_of_mem_pathsOf {pattern : String} {written : Path}
    (rootProper : project.root.IsProper) (member : written ∈ project.pathsOf tree pattern) :
    FileTree.AreFree (tree.fullNames written) := by
  have rootFree : FileTree.AreFree (tree.fullNames project.root) := rootProper.fullNames_free
  unfold pathsOf at member
  split at member
  · obtain ⟨found, _, rfl⟩ := List.mem_map.mp member
    exact FileTree.areFree_fullNames_append rootFree (FileTree.areFree_ofText _)
  · rw [List.mem_singleton.mp member]
    exact FileTree.areFree_fullNames_child rootFree pattern

/-- The files that patterns stand for depend on which patterns these are and on nothing else. -/
theorem agree_expand (same : SameElements first second) (rootProper : project.root.IsProper) :
    Task.Agree tree good Eq (project.expand first) (project.expand second) := by
  unfold expand
  refine Task.steady_files.agree.bind ?_
  rintro found _ ⟨rfl, rfl⟩
  refine (Task.agree_mapM steady_fileAt? (same.flatMap (project.pathsOf found))).map ?_
  rintro files others ⟨sameFiles, each⟩
  refine File.sort_distinct_eq project.root (sameFiles.filterMap id) fun file member => ?_
  obtain ⟨option, optionMember, rfl⟩ := List.mem_filterMap.mp member
  obtain ⟨written, matched, stands⟩ := each _ optionMember
  obtain ⟨pattern, _, writtenMember⟩ := List.mem_flatMap.mp matched
  obtain ⟨_, known, _, _, seen⟩ := stands.sound file rfl
  exact ⟨seen,
    FileTree.isProper_of_resolve? (areFree_of_mem_pathsOf rootProper writtenMember) known⟩

/-! ## Analyses in a project -/

/-- The closure does not depend on the order of the patterns. -/
theorem agree_closure (same : SameElements first second) (rootProper : project.root.IsProper) :
    Task.Agree tree (Session.Coherent tree project.root) Eq
      (project.closure first) (project.closure second) := by
  unfold closure
  refine (agree_expand same rootProper).bind ?_
  rintro seeds _ rfl
  split
  · exact (Task.agree_note _ _).bind fun _ _ _ => Task.agree_pure rfl
  · refine (project.steady_forwardGraph seeds).agree.bind ?_
    rintro graph _ ⟨rfl, _⟩
    dsimp only
    split
    · exact (Task.agree_note _ _).bind fun _ _ _ => Task.agree_pure rfl
    · exact Task.agree_pure rfl

theorem agree_dependents (same : SameElements first second) (rootProper : project.root.IsProper) :
    Task.Agree tree (Session.Coherent tree project.root) Eq
      (project.dependents first) (project.dependents second) := by
  unfold dependents
  refine (agree_expand same rootProper).bind ?_
  rintro targets _ rfl
  split
  · exact (Task.agree_note _ _).bind fun _ _ _ => Task.agree_pure rfl
  · refine (project.steady_wholeGraph tree).agree.bind ?_
    rintro outcome _ ⟨rfl, _⟩
    exact Task.agree_pure rfl

end Project

namespace FileAnalysis

variable {tree : FileTree} {root : Path}

theorem steady_ofFile (file : File) :
    Task.Steady tree (Session.Coherent tree root) (fun _ => True) (ofFile file) := by
  unfold ofFile
  refine (Session.steady_parse file.path).bind fun parsed _ => ?_
  cases parsed with
  | ok source => exact Task.steady_pure trivial
  | error fault => exact (Task.steady_note _).bind fun _ _ => Task.steady_pure trivial

end FileAnalysis

/-! ## Invocations -/

namespace Invocation

variable {σ α : Type} {good : σ → Prop} {tree : FileTree} {root : Path} {first second : List String}

/-- The project of patterns depends on which patterns these are and on nothing else. -/
theorem agree_project (invocation : Invocation) (same : SameElements first second)
    (rootProper : root.IsProper) :
    Task.Agree tree good (fun project other => project = other ∧ project.root = root)
      (invocation.project root first) (invocation.project root second) := by
  unfold project
  refine (Ignore.agree_searchDirectories same rootProper).bind ?_
  rintro searched others ⟨sameSearched, free⟩
  refine (Ignore.agree_collect sameSearched rootProper.fullNames_free free _).map ?_
  rintro ignore _ rfl
  exact ⟨rfl, rfl⟩

/-- Analyses that agree in every project agree in the project of the patterns. -/
theorem agree_inSession (invocation : Invocation) {task other : Project → Task Session α}
    (same : SameElements first second) (rootFree : FileTree.AreFree (tree.fullNames root))
    (agrees : ∀ project : Project, project.root.IsProper →
      Task.Agree tree (Session.Coherent tree project.root) Eq (task project) (other project)) :
    Task.Agree tree good Eq
      (invocation.inSession root first task) (invocation.inSession root second other) := by
  unfold inSession
  refine (Task.steady_resolvePath root).agree.bind ?_
  rintro base _ ⟨rfl, _, known⟩
  have baseProper := FileTree.isProper_of_resolve? rootFree known
  have fresh : Session.Coherent tree base (Session.fresh base) := Session.coherent_fresh
  refine Task.Agree.withState ?_ fresh
  refine (agree_project invocation same baseProper).bind ?_
  rintro project _ ⟨rfl, rfl⟩
  exact agrees project baseProper

/-- The analysis does not depend on the order of the patterns. -/
theorem agree_analyze (invocation : Invocation) (same : SameElements first second)
    (rootFree : FileTree.AreFree (tree.fullNames invocation.root)) :
    Task.Agree tree good Eq (invocation.analyze first) (invocation.analyze second) := by
  refine invocation.agree_inSession same rootFree fun project rootProper => ?_
  refine (Project.agree_expand same rootProper).bind ?_
  rintro files _ rfl
  have analyses : Task.Steady tree (Session.Coherent tree project.root) (fun _ => True)
      ((files.filter fun file => !Text.endsWith Project.declarationEnding file.name).mapM
        FileAnalysis.ofFile) :=
    (Task.steady_mapM fun file _ => FileAnalysis.steady_ofFile file).anyhow
  dsimp only
  split
  · exact (Task.agree_note _ _).bind fun _ _ _ => analyses.agree.mono fun _ _ related => related.1
  · exact analyses.agree.mono fun _ _ related => related.1

/-- Where no name on the way to the root holds a slash, as in every file system, what patterns stand
for, what depends on that and what is declared there is the same for all lists of the same patterns,
and an analysis answers for one list when it answers for another. -/
theorem answers_for_same_patterns (invocation : Invocation) (tree : FileTree) (root : Path)
    {first second : List String} (same : ∀ pattern, pattern ∈ first ↔ pattern ∈ second)
    (invocationFree : FileTree.AreFree (tree.fullNames invocation.root))
    (rootFree : FileTree.AreFree (tree.fullNames root)) (journal other : Journal σ) :
    (∀ names, (invocation.closure first tree journal).1 = .ok names ↔
      (invocation.closure second tree other).1 = .ok names) ∧
    (∀ names, (invocation.dependents first root tree journal).1 = .ok names ↔
      (invocation.dependents second root tree other).1 = .ok names) ∧
    ∀ analyses, (invocation.analyze first tree journal).1 = .ok analyses ↔
      (invocation.analyze second tree other).1 = .ok analyses := by
  have closures : Task.Agree tree (fun _ : σ => True) Eq
      (invocation.closure first) (invocation.closure second) :=
    invocation.agree_inSession same invocationFree fun _ => Project.agree_closure same
  have dependents : Task.Agree tree (fun _ : σ => True) Eq
      (invocation.dependents first root) (invocation.dependents second root) :=
    invocation.agree_inSession same rootFree fun _ => Project.agree_dependents same
  have analyses : Task.Agree tree (fun _ : σ => True) Eq
      (invocation.analyze first) (invocation.analyze second) :=
    invocation.agree_analyze same invocationFree
  exact ⟨closures.ok_iff trivial trivial, dependents.ok_iff trivial trivial,
    analyses.ok_iff trivial trivial⟩

/-! ## Two patterns for one file -/

/-- A file tree with a file that imports one that is not there. -/
def loneTree : FileTree := ⟨.directory [("a.ts", Project.importing "./b")], []⟩

/-- An invocation at the root with the default settings. -/
def atRoot : Invocation := ⟨.ofRoot [], Settings.default⟩

/-- The name of the file and a pattern for it, in one order and in another with a repetition. -/
theorem lone_answers_for_both_orders :
    (∀ pattern, pattern ∈ ["a.ts", "*.ts"] ↔ pattern ∈ ["*.ts", "a.ts", "*.ts"]) ∧
      FileTree.AreFree (loneTree.fullNames atRoot.root) ∧
      (atRoot.closure ["a.ts", "*.ts"]).outcomeFrom loneTree () = .ok ["a.ts"] ∧
      (atRoot.closure ["*.ts", "a.ts", "*.ts"]).outcomeFrom loneTree () = .ok ["a.ts"] := by
  have same : ∀ pattern, pattern ∈ ["a.ts", "*.ts"] ↔ pattern ∈ ["*.ts", "a.ts", "*.ts"] := by
    intro pattern
    simp only [List.mem_cons, List.not_mem_nil, or_false]
    tauto
  have free : FileTree.AreFree (loneTree.fullNames atRoot.root) := by
    intro name member
    cases member
  have answers : (atRoot.closure ["a.ts", "*.ts"]).outcomeFrom loneTree () = .ok ["a.ts"] := by
    decide +kernel
  refine ⟨same, free, answers, ?_⟩
  exact ((atRoot.answers_for_same_patterns loneTree atRoot.root same free free ⟨(), []⟩
    ⟨(), []⟩).1 ["a.ts"]).mp answers

end Invocation
end ModuleAtlas
