import ModuleAtlas.Proofs.Graph.Search
import Mathlib.Data.Prod.Basic

/-!
# Graphs built from changes

A graph is built from the empty one by adding nodes and edges.  Its nodes are the files that the
changes mention and its edges are those that the changes draw, however often and in whatever order
they come.  Turning it round keeps the nodes and turns each edge, so the turned graph has as many
edges, turning twice changes nothing, and what a file reaches is what reaches it in the turned
graph.
-/

namespace ModuleAtlas
namespace Graph

open Relation

/-- A node or an edge that is added to a graph. -/
inductive Change where
  | node (file : File)
  | edge (source target : File)

namespace Change

/-- The graph after a change. -/
def apply (graph : Graph) : Change → Graph
  | .node file => graph.addNode file
  | .edge source target => graph.addEdge source target

/-- A change mentions a file. -/
def Mentions : Change → Path → Prop
  | .node file, path => path = file.path
  | .edge source target, path => path = source.path ∨ path = target.path

/-- A change draws an edge. -/
def Draws : Change → Path → Path → Prop
  | .node _, _, _ => False
  | .edge source target, a, b => a = source.path ∧ b = target.path

variable {change : Change}

theorem Draws.mentions {a b : Path} (draws : change.Draws a b) : change.Mentions b := by
  cases change with
  | node file => cases draws
  | edge source target => exact .inr draws.2

theorem hasNode_apply {graph : Graph} {path : Path} :
    (change.apply graph).HasNode path ↔ graph.HasNode path ∨ change.Mentions path := by
  cases change with
  | node file => exact hasNode_addNode
  | edge source target => exact hasNode_addEdge

theorem hasEdge_apply {graph : Graph} {a b : Path} :
    (change.apply graph).HasEdge a b ↔ graph.HasEdge a b ∨ change.Draws a b := by
  cases change with
  | node file => simp [apply, Draws]
  | edge source target => exact hasEdge_addEdge

theorem distinct_apply {graph : Graph} (distinct : graph.Distinct) (change : Change) :
    (change.apply graph).Distinct := by
  cases change with
  | node file => exact distinct.addNode file
  | edge source target => exact distinct.addEdge source target

end Change

/-- The graph after changes, one after the other. -/
def after (graph : Graph) (changes : List Change) : Graph := changes.foldl Change.apply graph

/-- The graph that changes build from the empty one. -/
def built (changes : List Change) : Graph := empty.after changes

variable {graph : Graph} {changes : List Change}

variable {path a b : Path}

theorem hasNode_after :
    (graph.after changes).HasNode path ↔
      graph.HasNode path ∨ ∃ change ∈ changes, change.Mentions path := by
  unfold after
  induction changes generalizing graph with
  | nil => simp
  | cons change rest ih =>
    rw [List.foldl_cons, ih, Change.hasNode_apply, or_assoc]
    simp only [List.mem_cons, exists_eq_or_imp]

theorem hasEdge_after :
    (graph.after changes).HasEdge a b ↔
      graph.HasEdge a b ∨ ∃ change ∈ changes, change.Draws a b := by
  unfold after
  induction changes generalizing graph with
  | nil => simp
  | cons change rest ih =>
    rw [List.foldl_cons, ih, Change.hasEdge_apply, or_assoc]
    simp only [List.mem_cons, exists_eq_or_imp]

theorem Distinct.after (distinct : graph.Distinct) (changes : List Change) :
    (graph.after changes).Distinct := by
  unfold Graph.after
  induction changes generalizing graph with
  | nil => exact distinct
  | cons change rest ih =>
    exact ih (Change.distinct_apply distinct change)

theorem hasNode_built :
    (built changes).HasNode path ↔ ∃ change ∈ changes, change.Mentions path := by
  simp [built, hasNode_after]

theorem hasEdge_built : (built changes).HasEdge a b ↔ ∃ change ∈ changes, change.Draws a b := by
  simp [built, hasEdge_after]

theorem distinct_built (changes : List Change) : (built changes).Distinct :=
  distinct_empty.after changes

/-! ## Graphs whose edges lead to nodes -/

/-- Each edge leads to a node. -/
def LeadsToNodes (graph : Graph) : Prop := ∀ a b, graph.HasEdge a b → graph.HasNode b

theorem leadsToNodes_built (changes : List Change) : (built changes).LeadsToNodes := by
  intro a b edge
  obtain ⟨change, member, draws⟩ := hasEdge_built.mp edge
  exact hasNode_built.mpr ⟨change, member, draws.mentions⟩

theorem LeadsToNodes.hasNode_transpose_iff (leads : graph.LeadsToNodes) :
    graph.transpose.HasNode path ↔ graph.HasNode path := by
  rw [hasNode_transpose, or_iff_left_iff_imp]
  rintro ⟨source, edge⟩
  exact leads source path edge

theorem LeadsToNodes.transpose (leads : graph.LeadsToNodes) : graph.transpose.LeadsToNodes := by
  intro a b edge
  exact leads.hasNode_transpose_iff.mpr (hasEdge_transpose.mp edge).hasNode

/-- Two graphs have the same nodes and the same edges, by canonical paths. -/
structure Alike (graph other : Graph) : Prop where
  nodes : (File.paths graph.nodes).Perm (File.paths other.nodes)
  edges : (ends graph.edges).Perm (ends other.edges)

theorem nodes_perm_of_hasNode_iff {other : Graph} (distinct : graph.Distinct)
    (otherDistinct : other.Distinct) (same : ∀ path, graph.HasNode path ↔ other.HasNode path) :
    (File.paths graph.nodes).Perm (File.paths other.nodes) := by
  rw [List.perm_ext_iff_of_nodup distinct.nodup_paths_nodes otherDistinct.nodup_paths_nodes]
  intro path
  rw [mem_paths_nodes, mem_paths_nodes]
  exact same path

theorem LeadsToNodes.nodes_transpose_perm (leads : graph.LeadsToNodes) (distinct : graph.Distinct) :
    (File.paths graph.transpose.nodes).Perm (File.paths graph.nodes) :=
  nodes_perm_of_hasNode_iff (distinct_transpose graph) distinct fun _ => leads.hasNode_transpose_iff

/-- The edges of a turned graph are the edges of the graph, each turned and each once. -/
theorem Distinct.edges_transpose_perm (distinct : graph.Distinct) :
    (ends graph.transpose.edges).Perm ((ends graph.edges).map Prod.swap) := by
  have turnedDistinct := distinct_transpose graph
  -- Neither list repeats an edge, so it is enough to compare members.
  rw [List.perm_ext_iff_of_nodup turnedDistinct.nodup_ends_edges
    (distinct.nodup_ends_edges.map Prod.swap_injective)]
  rintro ⟨source, target⟩
  have turned : (source, target) ∈ (ends graph.edges).map Prod.swap ↔
      (target, source) ∈ ends graph.edges :=
    List.mem_map_of_injective (a := (target, source)) Prod.swap_injective
  rw [mem_ends_edges turnedDistinct, hasEdge_transpose, turned, mem_ends_edges distinct]

/-- Turning round twice gives the graph that was there. -/
theorem LeadsToNodes.alike_transpose_transpose (leads : graph.LeadsToNodes)
    (distinct : graph.Distinct) :
    graph.transpose.transpose.Alike graph where
  nodes := (leads.transpose.nodes_transpose_perm (distinct_transpose graph)).trans
    (leads.nodes_transpose_perm distinct)
  edges := by
    have once := distinct.edges_transpose_perm
    have twice := (distinct_transpose graph).edges_transpose_perm.trans (once.map Prod.swap)
    rwa [List.map_map, Prod.swap_swap_eq, List.map_id] at twice

/-! ## The number of edges -/

theorem length_flatMap_eq_total {α β : Type} (parts : α → List β) (values : List α) :
    (values.flatMap parts).length = total (values.map fun value => (parts value).length) := by
  induction values with
  | nil => rfl
  | cons value rest ih =>
    rw [List.flatMap_cons, List.length_append, ih, List.map_cons, total_cons]

/-- The edges that are listed are as many as are counted. -/
theorem Distinct.length_edges (distinct : graph.Distinct) :
    graph.edges.length = graph.edgeCount := by
  have perEntry : ∀ entry ∈ graph.entries,
      (graph.successors entry.1).length = entry.2.length := by
    intro entry member
    rw [successors, (File.sort_perm _).length_eq, targets_eq_of_mem distinct member rfl]
  have inOrder : graph.nodes.Perm (graph.entries.map (·.1)) := File.sort_perm _
  unfold edges edgeCount
  rw [(inOrder.flatMap_right _).length_eq, length_flatMap_eq_total, List.map_map]
  simp only [List.length_map]
  exact congrArg total (List.map_congr_left perEntry)

theorem Distinct.edgeCount_transpose (distinct : graph.Distinct) :
    graph.transpose.edgeCount = graph.edgeCount := by
  have length := distinct.edges_transpose_perm.length_eq
  rw [← (distinct_transpose graph).length_edges, ← distinct.length_edges]
  simpa only [ends, List.length_map] using length

/-! ## What is reached -/

/-- A search comes to one end only. -/
theorem Finishes.unique {seen queue found other : List File}
    (finishes : graph.Finishes seen queue found) (otherwise : graph.Finishes seen queue other) :
    found = other := by
  induction finishes with
  | done =>
    cases otherwise with
    | done => rfl
  | skip known goesOn ih =>
    cases otherwise with
    | skip _ other => exact ih other
    | expand fresh _ => exact absurd known fresh
  | expand fresh goesOn ih =>
    cases otherwise with
    | skip known _ => exact absurd known fresh
    | expand _ other => exact ih other

/-- What is found is found once. -/
theorem Finishes.nodup {graph : Graph} {seen queue found : List File}
    (finishes : graph.Finishes seen queue found) (nodup : (File.paths seen).Nodup) :
    (File.paths found).Nodup := by
  induction finishes with
  | done => exact nodup
  | skip known goesOn ih => exact ih nodup
  | @expand seen rest found file fresh goesOn ih =>
    refine ih ?_
    rw [File.paths_append, File.paths_cons, File.paths_nil, ← List.concat_eq_append]
    exact nodup.concat fresh

/-- Changes draw a way of at least one edge. -/
def DrawWay (changes : List Change) : Path → Path → Prop :=
  TransGen fun a b => ∃ change ∈ changes, change.Draws a b

theorem transGen_built : TransGen (built changes).HasEdge a b ↔ DrawWay changes a b := by
  have same : (built changes).HasEdge = fun a b => ∃ change ∈ changes, change.Draws a b := by
    funext a b
    exact propext hasEdge_built
  rw [same, DrawWay]

/-- Reachability and turning round are exact, whatever changes build a graph.  Search from a file
comes to its one end, finds each file once, and finds a file exactly when the changes draw a way of
at least one edge to it.  The turned graph has the nodes of the graph, exactly its edges turned
round and as many of them; turning it again gives the graph.  A file finds another exactly when the
other finds it in the turned graph. -/
theorem reachability_duality (changes : List Change) :
    let graph := built changes
    (∀ start found, graph.Finishes [] (graph.targets start) found ↔
      found = graph.reachable start) ∧
    (∀ start, (File.paths (graph.reachable start)).Nodup) ∧
    (∀ a b : File, b.isIn (graph.reachable a) = true ↔ DrawWay changes a.path b.path) ∧
    (∀ path, path ∈ File.paths graph.nodes ↔ ∃ change ∈ changes, change.Mentions path) ∧
    (∀ a b, (a, b) ∈ ends graph.edges ↔ ∃ change ∈ changes, change.Draws a b) ∧
    (File.paths graph.transpose.nodes).Perm (File.paths graph.nodes) ∧
    (ends graph.transpose.edges).Perm ((ends graph.edges).map Prod.swap) ∧
    graph.transpose.edgeCount = graph.edgeCount ∧
    graph.transpose.transpose.Alike graph ∧
    (∀ a b : File, b.isIn (graph.reachable a) = a.isIn (graph.transpose.reachable b)) := by
  intro graph
  have distinct : graph.Distinct := distinct_built changes
  have leads : graph.LeadsToNodes := leadsToNodes_built changes
  have reached : ∀ a b : File, b.isIn (graph.reachable a) = true ↔
      TransGen graph.HasEdge a.path b.path := by
    intro a b
    rw [File.isIn_iff, mem_paths_reachable distinct]
  refine ⟨?_, ?_, ?_, ?_, ?_, leads.nodes_transpose_perm distinct, distinct.edges_transpose_perm,
    distinct.edgeCount_transpose, leads.alike_transpose_transpose distinct, ?_⟩
  · intro start found
    constructor
    · exact fun finishes => finishes.unique (graph.finishes_reachable start)
    · rintro rfl
      exact graph.finishes_reachable start
  · exact fun start => (graph.finishes_reachable start).nodup List.nodup_nil
  · intro a b
    rw [reached, transGen_built]
  · intro path
    rw [mem_paths_nodes, hasNode_built]
  · intro a b
    rw [mem_ends_edges distinct, hasEdge_built]
  · intro a b
    rw [Bool.eq_iff_iff, reached, File.isIn_iff, mem_paths_reachable (distinct_transpose graph),
      transGen_transpose]

end Graph
end ModuleAtlas
