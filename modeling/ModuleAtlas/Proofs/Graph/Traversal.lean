import ModuleAtlas.Graph.Dependencies
import ModuleAtlas.Proofs.Graph.Structure
import ModuleAtlas.Proofs.Listwise
import ModuleAtlas.Proofs.Task.Steady
import Mathlib.Logic.Relation

/-!
# What a forward traversal finds

A traversal asks an oracle for the targets of files.  Whatever the targets are and wherever they
cannot be told, in every order of the seeds and with repetitions among them, its graph holds the
seeds whose targets can be told and all that they lead to, with all edges between them.

The invariant says where a traversal stands: it has taken up some files, others wait on its stack,
every edge from a file taken up leads to one of these or those, and all of them lie behind a seed.
Each step takes up one more file, so the number of files bounds the traversal.
-/

namespace ModuleAtlas
namespace Graph

open Relation

/-! ## Imports -/

/-- What files lead to, by their canonical paths: the targets, or why they cannot be told. -/
abbrev Imports := Path → Except SourceFault (List File)

namespace Imports

/-- The targets of a path can be told. -/
def Parses (imports : Imports) (path : Path) : Prop :=
  ∃ targets, imports path = .ok targets

/-- A path leads to another one in one step. -/
def Leads (imports : Imports) (source target : Path) : Prop :=
  ∃ targets, imports source = .ok targets ∧ target ∈ File.paths targets

/-- A path is that of a seed whose targets can be told, or some such seed leads to it. -/
def Reaches (imports : Imports) (seeds : List File) (path : Path) : Prop :=
  ∃ seed ∈ seeds, imports.Parses seed.path ∧ ReflTransGen imports.Leads seed.path path

variable {imports : Imports}

theorem leads_iff {source : Path} {targets : List File}
    (told : imports source = .ok targets) {target : Path} :
    imports.Leads source target ↔ target ∈ File.paths targets := by
  constructor
  · rintro ⟨others, toldOthers, member⟩
    rw [told] at toldOthers
    cases toldOthers
    exact member
  · exact fun member => ⟨targets, told, member⟩

theorem not_leads {source : Path} {fault : SourceFault}
    (untold : imports source = .error fault) (target : Path) :
    ¬imports.Leads source target := by
  rintro ⟨targets, told, _⟩
  rw [untold] at told
  cases told

theorem reaches_append {first second : List File} {path : Path} :
    imports.Reaches (first ++ second) path ↔
      imports.Reaches first path ∨ imports.Reaches second path := by
  simp only [Reaches, List.mem_append, or_and_right, exists_or]

end Imports

/-- A graph holds exactly what some seeds lead to: the nodes are the seeds whose targets can be told
and all that they lead to, the edges are those of the nodes, and each is there once. -/
structure IsClosure (imports : Imports) (seeds : List File) (graph : Graph) : Prop where
  node_iff : ∀ path, path ∈ File.paths graph.nodes ↔ imports.Reaches seeds path
  edge_iff : ∀ source target, (source, target) ∈ ends graph.edges ↔
    source ∈ File.paths graph.nodes ∧ imports.Leads source target
  nodup_nodes : (File.paths graph.nodes).Nodup
  nodup_edges : (ends graph.edges).Nodup

/-- A graph has the nodes and the edges of two others and no more. -/
structure IsUnion (graph firstGraph secondGraph : Graph) : Prop where
  node_iff : ∀ path, path ∈ File.paths graph.nodes ↔
    path ∈ File.paths firstGraph.nodes ∨ path ∈ File.paths secondGraph.nodes
  edge_iff : ∀ edge, edge ∈ ends graph.edges ↔
    edge ∈ ends firstGraph.edges ∨ edge ∈ ends secondGraph.edges

/-- The graph of two lists of seeds is the union of their graphs. -/
theorem IsClosure.append
    {imports : Imports} {first second : List File} {graph firstGraph secondGraph : Graph}
    (whole : IsClosure imports (first ++ second) graph) (left : IsClosure imports first firstGraph)
    (right : IsClosure imports second secondGraph) :
    IsUnion graph firstGraph secondGraph := by
  have nodes : ∀ path, path ∈ File.paths graph.nodes ↔
      path ∈ File.paths firstGraph.nodes ∨ path ∈ File.paths secondGraph.nodes := by
    intro path
    rw [whole.node_iff, left.node_iff, right.node_iff, Imports.reaches_append]
  refine ⟨nodes, ?_⟩
  rintro ⟨source, target⟩
  rw [whole.edge_iff, left.edge_iff, right.edge_iff, nodes, or_and_right]

/-! ## The invariant -/

namespace Trace

/-- Where a traversal stands that has set out from some paths: which files it has taken up, and
which wait on its stack. -/
structure Exploring
    (imports : Imports) (start : Path → Prop) (trace : Trace) (stack : List File) : Prop where
  distinct : trace.graph.Distinct
  node_of_visited : ∀ path ∈ File.paths trace.visited, trace.graph.HasNode path
  visited_or_waiting : ∀ path, trace.graph.HasNode path →
    path ∈ File.paths trace.visited ∨ path ∈ File.paths stack
  edge_iff : ∀ source target, trace.graph.HasEdge source target ↔
    source ∈ File.paths trace.visited ∧ imports.Leads source target
  target_or_waiting : ∀ source ∈ File.paths trace.visited, ∀ target,
    imports.Leads source target →
      target ∈ File.paths trace.visited ∨ target ∈ File.paths stack
  reached : ∀ path, path ∈ File.paths trace.visited ∨ path ∈ File.paths stack →
    ∃ origin, start origin ∧ ReflTransGen imports.Leads origin path

theorem exploring_start (imports : Imports) (start : Path → Prop) :
    Exploring imports start .start [] where
  distinct := distinct_empty
  node_of_visited := by simp [Trace.start]
  visited_or_waiting := by simp [Trace.start]
  edge_iff := by simp [Trace.start]
  target_or_waiting := by simp [Trace.start]
  reached := by simp [Trace.start]

variable {imports : Imports} {start : Path → Prop} {trace : Trace} {stack : List File}

theorem Exploring.mono {wider : Path → Prop} (exploring : Exploring imports start trace stack)
    (implied : ∀ path, start path → wider path) :
    Exploring imports wider trace stack :=
  { exploring with
    reached := fun path found => by
      obtain ⟨origin, begun, way⟩ := exploring.reached path found
      exact ⟨origin, implied origin begun, way⟩ }

/-- Only which files wait matters, and only of those that are not taken up yet. -/
theorem Exploring.restack {other : List File} (exploring : Exploring imports start trace stack)
    (same : ∀ path, path ∈ File.paths trace.visited ∨ path ∈ File.paths other ↔
      path ∈ File.paths trace.visited ∨ path ∈ File.paths stack) :
    Exploring imports start trace other :=
  { exploring with
    visited_or_waiting := fun path node => (same path).mpr (exploring.visited_or_waiting path node)
    target_or_waiting := fun source member target leads =>
      (same target).mpr (exploring.target_or_waiting source member target leads)
    reached := fun path found => exploring.reached path ((same path).mp found) }

/-- A file that a traversal may set out from can wait on the stack. -/
theorem Exploring.push (exploring : Exploring imports start trace stack)
    {file : File} (begun : start file.path) :
    Exploring imports start trace (file :: stack) :=
  { exploring with
    visited_or_waiting := fun path node =>
      (exploring.visited_or_waiting path node).imp_right (List.mem_cons_of_mem _)
    target_or_waiting := fun source member target leads =>
      (exploring.target_or_waiting source member target leads).imp_right (List.mem_cons_of_mem _)
    reached := fun path found => by
      rw [File.paths_cons, List.mem_cons] at found
      rcases found with visited | rfl | waiting
      · exact exploring.reached path (.inl visited)
      · exact ⟨_, begun, .refl⟩
      · exact exploring.reached path (.inr waiting) }

/-! ## Steps -/

/-- Taking up a file whose targets cannot be told. -/
theorem Exploring.visit {file : File} {fault : SourceFault}
    (exploring : Exploring imports start trace (file :: stack))
    (untold : imports file.path = .error fault) :
    Exploring imports start (trace.visit file) stack where
  distinct := exploring.distinct.addNode file
  node_of_visited := by
    intro path member
    rw [Trace.visit, File.paths_cons, List.mem_cons] at member
    apply hasNode_addNode.mpr
    rcases member with rfl | old
    · exact .inr rfl
    · exact .inl (exploring.node_of_visited path old)
  visited_or_waiting := by
    intro path node
    simp only [Trace.visit, File.paths_cons, List.mem_cons]
    rcases hasNode_addNode.mp node with old | rfl
    · have found := exploring.visited_or_waiting path old
      rw [File.paths_cons, List.mem_cons] at found
      tauto
    · exact .inl (.inl rfl)
  edge_iff := by
    intro source target
    simp only [Trace.visit, hasEdge_addNode, exploring.edge_iff, File.paths_cons, List.mem_cons]
    constructor
    · exact fun edge => ⟨.inr edge.1, edge.2⟩
    · rintro ⟨rfl | old, leads⟩
      · exact absurd leads (Imports.not_leads untold target)
      · exact ⟨old, leads⟩
  target_or_waiting := by
    intro source member target leads
    simp only [Trace.visit, File.paths_cons, List.mem_cons] at member ⊢
    rcases member with rfl | old
    · exact absurd leads (Imports.not_leads untold target)
    · have found := exploring.target_or_waiting source old target leads
      rw [File.paths_cons, List.mem_cons] at found
      tauto
  reached := by
    intro path found
    apply exploring.reached
    simp only [Trace.visit, File.paths_cons, List.mem_cons] at found ⊢
    tauto

/-- Taking up a file and its edges: its targets wait from then on. -/
theorem Exploring.link {file : File} {targets : List File}
    (exploring : Exploring imports start trace (file :: stack))
    (told : imports file.path = .ok targets) :
    Exploring imports start ((trace.visit file).link file targets) (targets ++ stack) where
  distinct := (exploring.distinct.addNode file).foldl_addEdge file targets
  node_of_visited := by
    intro path member
    have present : (trace.graph.addNode file).HasNode file.path := hasNode_addNode.mpr (.inr rfl)
    apply (hasNode_foldl_addEdge present).mpr
    simp only [Trace.link, Trace.visit, File.paths_cons, List.mem_cons] at member
    rcases member with rfl | old
    · exact .inl present
    · exact .inl (hasNode_addNode.mpr (.inl (exploring.node_of_visited path old)))
  visited_or_waiting := by
    intro path node
    have present : (trace.graph.addNode file).HasNode file.path := hasNode_addNode.mpr (.inr rfl)
    simp only [Trace.link, Trace.visit, File.paths_cons, File.paths_append, List.mem_cons,
      List.mem_append]
    rcases (hasNode_foldl_addEdge present).mp node with before | new
    · rcases hasNode_addNode.mp before with old | rfl
      · have found := exploring.visited_or_waiting path old
        rw [File.paths_cons, List.mem_cons] at found
        tauto
      · exact .inl (.inl rfl)
    · exact .inr (.inl new)
  edge_iff := by
    intro source target
    simp only [Trace.link, Trace.visit, hasEdge_foldl_addEdge, hasEdge_addNode,
      exploring.edge_iff, File.paths_cons, List.mem_cons]
    constructor
    · rintro (⟨old, leads⟩ | ⟨rfl, member⟩)
      · exact ⟨.inr old, leads⟩
      · exact ⟨.inl rfl, (Imports.leads_iff told).mpr member⟩
    · rintro ⟨rfl | old, leads⟩
      · exact .inr ⟨rfl, (Imports.leads_iff told).mp leads⟩
      · exact .inl ⟨old, leads⟩
  target_or_waiting := by
    intro source member target leads
    simp only [Trace.link, Trace.visit, File.paths_cons, File.paths_append, List.mem_cons,
      List.mem_append] at member ⊢
    rcases member with rfl | old
    · exact .inr (.inl ((Imports.leads_iff told).mp leads))
    · have found := exploring.target_or_waiting source old target leads
      rw [File.paths_cons, List.mem_cons] at found
      tauto
  reached := by
    intro path found
    simp only [Trace.link, Trace.visit, File.paths_cons, File.paths_append, List.mem_cons,
      List.mem_append] at found
    rcases found with (rfl | old) | new | waiting
    · exact exploring.reached _ (.inr (by simp))
    · exact exploring.reached path (.inl old)
    · obtain ⟨origin, begun, way⟩ := exploring.reached file.path (.inr (by simp))
      exact ⟨origin, begun, way.tail ((Imports.leads_iff told).mpr new)⟩
    · exact exploring.reached path (.inr (by simp [waiting]))

end Trace

/-! ## Runs -/

/-- What asking for the targets of paths comes to: targets, a reason why they cannot be told, or a
failure that ends the traversal. -/
abbrev Answer := Path → Except Failure (Except SourceFault (List File))

/-- From every state with a property, an oracle gives the same answer for each path in a scope and
keeps the property. -/
structure Oracle.Answers {σ : Type}
    (oracle : Oracle (Task σ)) (tree : FileTree) (good : σ → Prop) (scope : Path → Prop)
    (answer : Answer) : Prop where
  targets : ∀ file : File, scope file.path →
    Task.Settles tree good (oracle.targets file) (answer file.path)
  seedFailed : ∀ file fault, Task.Settles tree good (oracle.seedFailed file fault) (.ok ())
  fileFailed : ∀ file fault, Task.Settles tree good (oracle.fileFailed file fault) (.ok ())

/-- The answers for the paths in a scope are what these paths lead to, unless they are failures. -/
def Answer.Agrees (answer : Answer) (scope : Path → Prop) (imports : Imports) : Prop :=
  ∀ path told, scope path → answer path = .ok told → imports path = told

/-- A task ends with the failure that a path in a scope is answered with. -/
def Breaks {σ α : Type} (tree : FileTree) (good : σ → Prop) (scope : Path → Prop) (answer : Answer)
    (task : Task σ α) : Prop :=
  ∃ path failure, scope path ∧ answer path = .error failure ∧
    Task.Settles tree good task (.error failure)

variable {scope : Path → Prop} {tree : FileTree} {answer : Answer}

theorem Breaks.bind
    {σ α β : Type} {good : σ → Prop}
    {task : Task σ α} {next : α → Task σ β} (breaks : Breaks tree good scope answer task) :
    Breaks tree good scope answer (task >>= next) := by
  obtain ⟨path, failure, inScope, failed, settles⟩ := breaks
  exact ⟨path, failure, inScope, failed, settles.bind_error⟩

theorem Breaks.after
    {σ α β : Type} {good : σ → Prop}
    {task : Task σ α} {next : α → Task σ β} {value : α}
    (first : Task.Settles tree good task (.ok value))
    (breaks : Breaks tree good scope answer (next value)) :
    Breaks tree good scope answer (task >>= next) := by
  obtain ⟨path, failure, inScope, failed, settles⟩ := breaks
  exact ⟨path, failure, inScope, failed, first.bind settles⟩

namespace Trace

variable {σ : Type} {tree : FileTree} {good : σ → Prop} {scope : Path → Prop}
  {oracle : Oracle (Task σ)} {answer : Answer} {imports : Imports} {start : Path → Prop}
  {files : Finset Path} {trace : Trace}

/-- Dropping files that are taken up from the top of a stack loses nothing. -/
private theorem mem_dropWhile_iff (visited stack : List File) (path : Path) :
    path ∈ File.paths visited ∨
        path ∈ File.paths (stack.dropWhile fun file => file.isIn visited) ↔
      path ∈ File.paths visited ∨ path ∈ File.paths stack := by
  induction stack with
  | nil => simp
  | cons file rest ih =>
    rw [List.dropWhile_cons]
    split
    · rename_i known
      rw [File.isIn_iff] at known
      rw [ih, File.paths_cons, List.mem_cons]
      constructor
      · tauto
      · rintro (visited | rfl | later)
        · exact .inl visited
        · exact .inl known
        · exact .inr later
    · exact Iff.rfl

/-- The targets not yet taken up, the last one first, wait in place of all targets. -/
private theorem mem_unseen_iff (visited targets rest : List File) (path : Path) :
    path ∈ File.paths visited ∨ path ∈ File.paths
        ((targets.filter fun target => !target.isIn visited).reverse ++ rest) ↔
      path ∈ File.paths visited ∨ path ∈ File.paths (targets ++ rest) := by
  simp only [File.mem_paths, List.mem_append, List.mem_reverse, List.mem_filter,
    Bool.not_eq_true', File.isIn_eq_false_iff]
  constructor
  · rintro (seen | ⟨file, ⟨member, _⟩ | later, equal⟩)
    · exact .inl seen
    · exact .inr ⟨file, .inl member, equal⟩
    · exact .inr ⟨file, .inr later, equal⟩
  · rintro (seen | ⟨file, member | later, equal⟩)
    · exact .inl seen
    · by_cases known : file.path ∈ File.paths visited
      · exact .inl (by rw [← equal]; exact File.mem_paths.mp known)
      · exact .inr ⟨file, .inl ⟨member, fun found => known (File.mem_paths.mpr found)⟩, equal⟩
    · exact .inr ⟨file, .inr later, equal⟩

/-- What a traversal comes to when nothing waits any more: all that was taken up and all that waited
is taken up. -/
private def Completes (imports : Imports) (start : Path → Prop) (trace : Trace)
    (stack : List File) (result : Trace) : Prop :=
  Exploring imports start result [] ∧
    ∀ path, path ∈ File.paths trace.visited ∨ path ∈ File.paths stack →
      path ∈ File.paths result.visited

private theorem completes_of_visited {stack : List File}
    (exploring : Exploring imports start trace stack)
    (visited : ∀ path ∈ File.paths stack, path ∈ File.paths trace.visited) :
    Completes imports start trace stack trace := by
  refine ⟨exploring.restack fun path => ?_, ?_⟩
  · have included := visited path
    simp only [File.paths_nil, List.not_mem_nil, or_false]
    tauto
  · rintro path (done | waiting)
    · exact done
    · exact visited path waiting

/-- The next file on a stack is not taken up yet.  Once it is, only what is left on the stack waits.
-/
private theorem next_of_dropWhile {visited stack rest : List File} {file : File}
    (remaining : (stack.dropWhile fun file => file.isIn visited) = file :: rest) :
    file.path ∉ File.paths visited ∧
      (∀ path ∈ File.paths (file :: rest), path ∈ File.paths stack) ∧
      ∀ path, path ∈ File.paths visited ∨ path ∈ File.paths stack →
        path ∈ File.paths (file :: visited) ∨ path ∈ File.paths rest := by
  refine ⟨?_, ?_, ?_⟩
  · have test := List.head?_dropWhile_not (fun file : File => file.isIn visited) stack
    rw [remaining] at test
    simpa using test
  · rw [← remaining]
    exact fun path member => ((List.dropWhile_sublist _).map _).subset member
  · intro path found
    have kept := (mem_dropWhile_iff visited stack path).mpr found
    rw [remaining, File.paths_cons, List.mem_cons] at kept
    rw [File.paths_cons, List.mem_cons]
    tauto

/-- What comes on the stack stays in a scope that imports do not leave. -/
private theorem inScope_unseen
    (closed : ∀ source target, scope source → imports.Leads source target →
      scope target ∧ target ∈ files)
    {source : Path} (sourceScope : scope source)
    {targets : List File} (told : imports source = .ok targets) (visited : List File)
    {rest : List File} (restScope : ∀ path ∈ File.paths rest, scope path ∧ path ∈ files) :
    ∀ path ∈ File.paths ((targets.filter fun target => !target.isIn visited).reverse ++ rest),
      scope path ∧ path ∈ files := by
  intro path member
  rw [File.paths_append, List.mem_append] at member
  rcases member with new | later
  · apply closed source path sourceScope
    apply (Imports.leads_iff told).mpr
    obtain ⟨target, targetMember, rfl⟩ := File.mem_paths.mp new
    exact File.mem_paths_of_mem (List.mem_filter.mp (List.mem_reverse.mp targetMember)).1
  · exact restScope path later

/-- With fuel for all files in scope a walk settles, and its invariant holds at the end. -/
theorem walk_settles (answers : oracle.Answers tree good scope answer)
    (agrees : answer.Agrees scope imports)
    (closed : ∀ source target, scope source → imports.Leads source target →
      scope target ∧ target ∈ files)
    (fuel : Nat) (trace : Trace) (stack : List File)
    (exploring : Exploring imports start trace stack)
    (inScope : ∀ path ∈ File.paths stack, scope path ∧ path ∈ files)
    (enough : remaining files (File.paths trace.visited) ≤ fuel) :
    (∃ result, Task.Settles tree good (walk oracle fuel trace stack) (.ok result) ∧
      Completes imports start trace stack result) ∨
    Breaks tree good scope answer (walk oracle fuel trace stack) := by
  induction fuel generalizing trace stack with
  | zero =>
    have allVisited : ∀ path ∈ File.paths stack, path ∈ File.paths trace.visited :=
      fun path member => mem_of_remaining_le_zero enough (inScope path member).2
    exact .inl ⟨trace, Task.settles_pure trace, completes_of_visited exploring allVisited⟩
  | succ fuel ih =>
    have dropped := exploring.restack (mem_dropWhile_iff trace.visited stack)
    unfold walk
    cases onTop : stack.dropWhile fun file => file.isIn trace.visited with
    | nil =>
      have allVisited : ∀ path ∈ File.paths stack, path ∈ File.paths trace.visited := by
        intro path member
        have kept := (mem_dropWhile_iff trace.visited stack path).mpr (.inr member)
        rw [onTop] at kept
        simpa using kept
      exact .inl ⟨trace, Task.settles_pure trace, completes_of_visited exploring allVisited⟩
    | cons file rest =>
      rw [onTop] at dropped
      obtain ⟨fresh, suffix, covers⟩ := next_of_dropWhile onTop
      have fileScope := inScope file.path (suffix _ (by simp))
      have restScope : ∀ path ∈ File.paths rest, scope path ∧ path ∈ files :=
        fun path member => inScope path (suffix path (by simp [member]))
      have asked := answers.targets file fileScope.1
      rcases answered : answer file.path with failure | fault | targets
      · rw [answered] at asked
        exact .inr ⟨file.path, failure, fileScope.1, answered, asked.bind_error⟩
      · rw [answered] at asked
        have untold := agrees file.path _ fileScope.1 answered
        have fewer : remaining files (File.paths (trace.visit file).visited) <
            remaining files (File.paths trace.visited) :=
          remaining_cons_lt fileScope.2 fresh
        have noted := answers.fileFailed file fault
        rcases ih (trace.visit file) rest (dropped.visit untold) restScope
          (by omega) with ⟨result, settles, complete, includes⟩ | breaks
        · refine .inl ⟨result, asked.bind (noted.bind settles), complete, ?_⟩
          exact fun path found => includes path (covers path found)
        · exact .inr (.after asked (.after noted breaks))
      · rw [answered] at asked
        have told := agrees file.path _ fileScope.1 answered
        have fewer :
            remaining files (File.paths ((trace.visit file).link file targets).visited) <
              remaining files (File.paths trace.visited) :=
          remaining_cons_lt fileScope.2 fresh
        have same := mem_unseen_iff (file :: trace.visited) targets rest
        have nextScope :=
          inScope_unseen closed fileScope.1 told (file :: trace.visited) restScope
        rcases ih ((trace.visit file).link file targets) _
          ((dropped.link told).restack same) nextScope (by omega) with
          ⟨result, settles, complete, includes⟩ | breaks
        · refine .inl ⟨result, asked.bind settles, complete, ?_⟩
          intro path found
          apply includes
          rcases covers path found with visited | later
          · exact .inl visited
          · exact .inr (by simp [later])
        · exact .inr (.after asked breaks)

/-- Where a traversal sets out: at the seeds whose targets can be told. -/
private def Origin (imports : Imports) (seeds : List File) (path : Path) : Prop :=
  ∃ seed ∈ seeds, imports.Parses seed.path ∧ seed.path = path

/-- What is taken up once some seeds are done with: what they lead to, so far as their targets can
be told. -/
private def Finished (imports : Imports) (seeds : List File) (trace : Trace) : Prop :=
  Exploring imports (Origin imports seeds) trace [] ∧
    ∀ seed ∈ seeds, imports.Parses seed.path → seed.path ∈ File.paths trace.visited

/-- A finished traversal has drawn the closure of its seeds. -/
private theorem Finished.isClosure {seeds : List File}
    (finished : Finished imports seeds trace) :
    IsClosure imports seeds trace.graph := by
  obtain ⟨exploring, includes⟩ := finished
  have node_iff : ∀ path, trace.graph.HasNode path ↔ path ∈ File.paths trace.visited := by
    intro path
    constructor
    · intro node
      simpa using exploring.visited_or_waiting path node
    · exact exploring.node_of_visited path
  have closed : ∀ source target, source ∈ File.paths trace.visited →
      ReflTransGen imports.Leads source target → target ∈ File.paths trace.visited := by
    intro source target member way
    induction way with
    | refl => exact member
    | tail _ leads ih =>
      simpa using exploring.target_or_waiting _ ih _ leads
  refine ⟨?_, ?_, exploring.distinct.nodup_paths_nodes, exploring.distinct.nodup_ends_edges⟩
  · intro path
    rw [mem_paths_nodes, node_iff]
    constructor
    · intro member
      obtain ⟨_, ⟨seed, seedMember, parses, rfl⟩, way⟩ := exploring.reached path (.inl member)
      exact ⟨seed, seedMember, parses, way⟩
    · rintro ⟨seed, seedMember, parses, way⟩
      exact closed seed.path path (includes seed seedMember parses) way
  · intro source target
    rw [mem_ends_edges exploring.distinct, mem_paths_nodes, node_iff]
    exact exploring.edge_iff source target

/-- Taking up one more seed. -/
private theorem addSeed_settles (answers : oracle.Answers tree good scope answer)
    (agrees : answer.Agrees scope imports)
    (closed : ∀ source target, scope source → imports.Leads source target →
      scope target ∧ target ∈ files)
    {fuel : Nat} (enough : files.card ≤ fuel)
    {done : List File} (finished : Finished imports done trace)
    (seed : File) (seedScope : scope seed.path) :
    (∃ result, Task.Settles tree good (addSeed oracle fuel trace seed) (.ok result) ∧
      Finished imports (done ++ [seed]) result) ∨
    Breaks tree good scope answer (addSeed oracle fuel trace seed) := by
  obtain ⟨exploring, includes⟩ := finished
  have wider : Exploring imports (Origin imports (done ++ [seed])) trace [] := by
    refine exploring.mono ?_
    rintro path ⟨other, member, parses⟩
    exact ⟨other, by simp [member], parses⟩
  unfold addSeed
  by_cases known : seed.path ∈ File.paths trace.visited
  · rw [if_pos (File.isIn_iff.mpr known)]
    refine .inl ⟨trace, Task.settles_pure trace, wider, ?_⟩
    intro other member parses
    rcases List.mem_append.mp member with old | new
    · exact includes other old parses
    · rw [List.mem_singleton] at new
      rw [new]
      exact known
  · rw [if_neg (by rwa [File.isIn_iff])]
    have asked := answers.targets seed seedScope
    rcases answered : answer seed.path with failure | fault | targets
    · rw [answered] at asked
      exact .inr ⟨seed.path, failure, seedScope, answered, asked.bind_error⟩
    · rw [answered] at asked
      have untold := agrees seed.path _ seedScope answered
      refine .inl ⟨trace,
        asked.bind ((answers.seedFailed seed fault).bind (Task.settles_pure trace)), wider, ?_⟩
      intro other member parses
      rcases List.mem_append.mp member with old | new
      · exact includes other old parses
      · obtain ⟨targets, told⟩ := parses
        rw [List.mem_singleton.mp new, untold] at told
        cases told
    · rw [answered] at asked
      have told := agrees seed.path _ seedScope answered
      have begun : Origin imports (done ++ [seed]) seed.path :=
        ⟨seed, by simp, ⟨targets, told⟩, rfl⟩
      have linked : Exploring imports (Origin imports (done ++ [seed]))
          ((trace.visit seed).link seed targets) targets.reverse := by
        refine ((wider.push begun).link told).restack ?_
        intro path
        simp [File.paths, List.map_reverse]
      have stackScope : ∀ path ∈ File.paths targets.reverse, scope path ∧ path ∈ files := by
        intro path member
        apply closed seed.path path seedScope
        apply (Imports.leads_iff told).mpr
        simpa [File.paths, List.map_reverse] using member
      rcases walk_settles answers agrees closed fuel ((trace.visit seed).link seed targets)
        targets.reverse linked stackScope ((Finset.card_filter_le _ _).trans enough) with
        ⟨result, settles, complete, covers⟩ | breaks
      · refine .inl ⟨result, asked.bind settles, complete, ?_⟩
        intro other member parses
        apply covers
        left
        rcases List.mem_append.mp member with old | new
        · exact List.mem_cons_of_mem _ (includes other old parses)
        · rw [List.mem_singleton.mp new]
          exact List.mem_cons_self
      · exact .inr (.after asked breaks)

/-- Seed after seed is followed, each from what those before it have drawn. -/
private theorem foldlM_addSeed_settles (answers : oracle.Answers tree good scope answer)
    (agrees : answer.Agrees scope imports)
    (closed : ∀ source target, scope source → imports.Leads source target →
      scope target ∧ target ∈ files)
    {fuel : Nat} (enough : files.card ≤ fuel)
    (seeds : List File) (seedScope : ∀ seed ∈ seeds, scope seed.path)
    {done : List File} (finished : Finished imports done trace) :
    (∃ result, Task.Settles tree good (seeds.foldlM (addSeed oracle fuel) trace) (.ok result) ∧
      Finished imports (done ++ seeds) result) ∨
    Breaks tree good scope answer (seeds.foldlM (addSeed oracle fuel) trace) := by
  induction seeds generalizing done trace with
  | nil =>
    rw [List.append_nil]
    exact .inl ⟨trace, Task.settles_pure trace, finished⟩
  | cons seed rest ih =>
    rw [List.foldlM_cons]
    rcases addSeed_settles answers agrees closed enough finished seed
      (seedScope seed (by simp)) with ⟨between, settles, finishedNext⟩ | breaks
    · rcases ih (fun other member => seedScope other (by simp [member]))
        finishedNext with ⟨result, settlesRest, finishedAll⟩ | breaks
      · rw [List.append_assoc, List.singleton_append] at finishedAll
        exact .inl ⟨result, settles.bind settlesRest, finishedAll⟩
      · exact .inr (.after settles breaks)
    · exact .inr breaks.bind

end Trace

/-- A traversal ends with the closure of its seeds, in every scope that contains what its paths lead
to, when its fuel is the number of these at least; only a failure that a path is answered with keeps
it from that. -/
theorem forward_settles {σ : Type} {good : σ → Prop}
    {oracle : Oracle (Task σ)} {imports : Imports}
    (answers : oracle.Answers tree good scope answer) (agrees : answer.Agrees scope imports)
    {files : Finset Path}
    (closed : ∀ source target, scope source → imports.Leads source target →
      scope target ∧ target ∈ files)
    {fuel : Nat} (enough : files.card ≤ fuel)
    (seeds : List File) (seedScope : ∀ seed ∈ seeds, scope seed.path) :
    (∃ graph, Task.Settles tree good (forward oracle fuel seeds) (.ok graph) ∧
      IsClosure imports seeds graph) ∨
    Breaks tree good scope answer (forward oracle fuel seeds) := by
  have start : Trace.Finished imports [] .start :=
    ⟨Trace.exploring_start imports _, by simp⟩
  rcases Trace.foldlM_addSeed_settles answers agrees closed enough seeds seedScope start with
    ⟨result, settles, finished⟩ | breaks
  · exact .inl ⟨result.graph, settles.bind (Task.settles_pure _), finished.isClosure⟩
  · exact .inr breaks.bind

end Graph
end ModuleAtlas
