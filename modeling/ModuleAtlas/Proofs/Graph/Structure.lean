import ModuleAtlas.Graph.Basic
import Mathlib.Data.List.Nodup

/-!
# Nodes and edges

What the operations on graphs do to nodes and edges, both told by canonical paths.  Graphs that are
built from the empty one by adding nodes and edges hold each node and each edge once, so looking a
node up by its path finds all of its edges.
-/

namespace ModuleAtlas

namespace File

/-- The canonical paths of files. -/
def paths (files : List File) : List Path := files.map (·.path)

@[simp] theorem paths_nil : paths [] = [] := rfl

@[simp] theorem paths_cons (file : File) (rest : List File) :
    paths (file :: rest) = file.path :: paths rest := rfl

@[simp] theorem paths_append (first second : List File) :
    paths (first ++ second) = paths first ++ paths second :=
  List.map_append

variable {files : List File} {path : Path} {file : File}

theorem mem_paths : path ∈ paths files ↔ ∃ file ∈ files, file.path = path :=
  List.mem_map

theorem mem_paths_of_mem (member : file ∈ files) : file.path ∈ paths files :=
  List.mem_map_of_mem member

@[simp] theorem same_iff {a b : File} : a.same b = true ↔ a.path = b.path := by
  simp [same]

@[simp] theorem isIn_iff :
    file.isIn files = true ↔ file.path ∈ paths files := by
  simp only [isIn, List.any_eq_true, same_iff, mem_paths]
  constructor
  · rintro ⟨other, member, equal⟩
    exact ⟨other, member, equal.symm⟩
  · rintro ⟨other, member, equal⟩
    exact ⟨other, member, equal.symm⟩

@[simp] theorem isIn_eq_false_iff :
    file.isIn files = false ↔ file.path ∉ paths files := by
  rw [Bool.eq_false_iff, ne_eq, isIn_iff]

theorem mem_addTo {other : File} (member : other ∈ file.addTo files) :
    other ∈ files ∨ other = file := by
  unfold addTo at member
  split at member
  · exact .inl member
  · simpa using member

theorem mem_paths_addTo :
    path ∈ paths (file.addTo files) ↔ path ∈ paths files ∨ path = file.path := by
  unfold addTo
  split
  · rename_i present
    constructor
    · exact .inl
    · rintro (member | rfl)
      · exact member
      · exact isIn_iff.mp present
  · simp

theorem nodup_paths_addTo (nodup : (paths files).Nodup) : (paths (file.addTo files)).Nodup := by
  unfold addTo
  split
  · exact nodup
  · rename_i absent
    rw [isIn_iff] at absent
    rw [paths_append, List.nodup_append]
    refine ⟨nodup, by simp, ?_⟩
    intro path member other otherMember equal
    simp only [paths_cons, paths_nil, List.mem_singleton] at otherMember
    exact absent (by rwa [← otherMember, ← equal])

/-! ## Lists of distinct files -/

theorem mem_of_mem_foldl_addTo {found : List File} {other : File}
    (member : other ∈ files.foldl (fun found file => file.addTo found) found) :
    other ∈ found ∨ other ∈ files := by
  induction files generalizing found with
  | nil => exact .inl member
  | cons file rest ih =>
    rcases ih member with early | late
    · rcases mem_addTo early with before | equal
      · exact .inl before
      · exact .inr (by simp [equal])
    · exact .inr (by simp [late])

theorem mem_of_mem_distinct (member : file ∈ distinct files) : file ∈ files := by
  rcases mem_of_mem_foldl_addTo member with impossible | found
  · simp at impossible
  · exact found

theorem mem_paths_foldl_addTo {found : List File} :
    path ∈ paths (files.foldl (fun found file => file.addTo found) found) ↔
      path ∈ paths found ∨ path ∈ paths files := by
  induction files generalizing found with
  | nil => simp
  | cons file rest ih =>
    rw [List.foldl_cons, ih, mem_paths_addTo, paths_cons, List.mem_cons, or_assoc]

theorem mem_paths_distinct : path ∈ paths (distinct files) ↔ path ∈ paths files := by
  unfold distinct
  rw [mem_paths_foldl_addTo]
  simp

/-- Where files are known by their paths, none of them gets lost. -/
theorem mem_distinct_of_seen {root : Path} (seen : ∀ file ∈ files, file = seenFrom root file.path) :
    file ∈ distinct files ↔ file ∈ files := by
  refine ⟨mem_of_mem_distinct, fun member => ?_⟩
  obtain ⟨other, otherMember, samePath⟩ :=
    mem_paths.mp (mem_paths_distinct.mpr (mem_paths_of_mem member))
  rwa [seen file member, ← samePath, ← seen other (mem_of_mem_distinct otherMember)]

theorem nodup_distinct (files : List File) : (distinct files).Nodup := by
  have nodup : ∀ found, (paths found).Nodup →
      (paths (files.foldl (fun found file => file.addTo found) found)).Nodup := by
    induction files with
    | nil => exact fun _ foundNodup => foundNodup
    | cons file rest ih =>
      exact fun found foundNodup => ih _ (nodup_paths_addTo foundNodup)
  exact (nodup [] List.nodup_nil).of_map _

/-! ## Sorted files -/

theorem sort_perm (files : List File) : (sort files).Perm files :=
  List.mergeSort_perm files _

theorem nameLe_trans (a b c : File) (before : decide (a.name ≤ b.name) = true)
    (after : decide (b.name ≤ c.name) = true) :
    decide (a.name ≤ c.name) = true := by
  rw [decide_eq_true_eq] at *
  exact String.le_trans before after

theorem nameLe_total (a b : File) :
    (decide (a.name ≤ b.name) || decide (b.name ≤ a.name)) = true := by
  simpa using String.le_total a.name b.name

/-- Sorted files are in the order of their names. -/
theorem pairwise_sort (files : List File) :
    (sort files).Pairwise fun a b => a.name ≤ b.name :=
  (List.pairwise_mergeSort nameLe_trans nameLe_total files).imp of_decide_eq_true

@[simp] theorem mem_sort : file ∈ sort files ↔ file ∈ files :=
  (sort_perm files).mem_iff

theorem paths_sort_perm (files : List File) : (paths (sort files)).Perm (paths files) :=
  (sort_perm files).map _

@[simp] theorem mem_paths_sort :
    path ∈ paths (sort files) ↔ path ∈ paths files :=
  (paths_sort_perm files).mem_iff

end File

namespace Graph

/-- A path is that of a node. -/
def HasNode (graph : Graph) (path : Path) : Prop :=
  path ∈ File.paths (graph.entries.map (·.1))

/-- Two paths are those of the ends of an edge. -/
def HasEdge (graph : Graph) (source target : Path) : Prop :=
  ∃ entry ∈ graph.entries, entry.1.path = source ∧ target ∈ File.paths entry.2

/-- Each node and each edge is there once. -/
structure Distinct (graph : Graph) : Prop where
  nodes : (File.paths (graph.entries.map (·.1))).Nodup
  targets : ∀ entry ∈ graph.entries, (File.paths entry.2).Nodup

/-- All files that are mentioned in a graph have a property. -/
def All (property : File → Prop) (graph : Graph) : Prop :=
  ∀ entry ∈ graph.entries, property entry.1 ∧ ∀ target ∈ entry.2, property target

variable {graph : Graph} {path : Path} {file source target : File} {property : File → Prop}

theorem hasNode_iff : graph.HasNode path ↔ ∃ entry ∈ graph.entries, entry.1.path = path := by
  simp [HasNode, File.mem_paths]

theorem HasEdge.hasNode {source target : Path} (edge : graph.HasEdge source target) :
    graph.HasNode source := by
  obtain ⟨entry, member, equal, _⟩ := edge
  exact hasNode_iff.mpr ⟨entry, member, equal⟩

@[simp] theorem not_hasNode_empty (path : Path) : ¬empty.HasNode path := by
  simp [HasNode, empty]

@[simp] theorem not_hasEdge_empty (source target : Path) : ¬empty.HasEdge source target := by
  simp [HasEdge, empty]

theorem distinct_empty : empty.Distinct :=
  ⟨List.nodup_nil, by simp [empty]⟩

theorem all_empty (property : File → Prop) : empty.All property := by
  simp [All, empty]

@[simp] theorem contains_iff :
    graph.contains file = true ↔ graph.HasNode file.path := by
  simp only [contains, List.any_eq_true, File.same_iff, hasNode_iff]
  constructor
  · rintro ⟨entry, member, equal⟩
    exact ⟨entry, member, equal.symm⟩
  · rintro ⟨entry, member, equal⟩
    exact ⟨entry, member, equal.symm⟩

/-! ## Adding a node -/

theorem hasNode_addNode :
    (graph.addNode file).HasNode path ↔ graph.HasNode path ∨ path = file.path := by
  unfold addNode
  split
  · rename_i present
    rw [contains_iff] at present
    constructor
    · exact .inl
    · rintro (member | rfl)
      · exact member
      · exact present
  · simp [HasNode]

@[simp] theorem hasEdge_addNode {source target : Path} :
    (graph.addNode file).HasEdge source target ↔ graph.HasEdge source target := by
  unfold addNode
  split
  · exact Iff.rfl
  · constructor
    · rintro ⟨entry, member, equal, targetMember⟩
      rcases List.mem_append.mp member with old | new
      · exact ⟨entry, old, equal, targetMember⟩
      · rw [List.mem_singleton] at new
        subst new
        simp at targetMember
    · rintro ⟨entry, member, equal, targetMember⟩
      exact ⟨entry, List.mem_append_left _ member, equal, targetMember⟩

/-- A file is added once, whatever its name. -/
theorem Distinct.addNode (distinct : graph.Distinct) (file : File) :
    (graph.addNode file).Distinct := by
  unfold Graph.addNode
  split
  · exact distinct
  · rename_i absent
    rw [contains_iff] at absent
    constructor
    · rw [List.map_append, File.paths_append, List.nodup_append]
      refine ⟨distinct.nodes, by simp, ?_⟩
      intro path member other otherMember equal
      simp only [List.map_cons, List.map_nil, File.paths_cons, File.paths_nil,
        List.mem_singleton] at otherMember
      apply absent
      rw [← otherMember, ← equal]
      exact member
    · intro entry member
      rcases List.mem_append.mp member with old | new
      · exact distinct.targets entry old
      · rw [List.mem_singleton] at new
        subst new
        exact List.nodup_nil

theorem All.addNode (all : graph.All property) (holds : property file) :
    (graph.addNode file).All property := by
  unfold Graph.addNode
  split
  · exact all
  · intro entry member
    rcases List.mem_append.mp member with old | new
    · exact all entry old
    · rw [List.mem_singleton] at new
      subst new
      exact ⟨holds, by simp⟩

/-! ## Adding an edge -/

/-- The graph with a target added to the edges of a node that is there. -/
private def extend (graph : Graph) (source target : File) : Graph :=
  ⟨graph.entries.map fun entry =>
    if source.same entry.1 then (entry.1, target.addTo entry.2) else entry⟩

private theorem addEdge_eq (graph : Graph) (source target : File) :
    graph.addEdge source target = ((graph.addNode source).addNode target).extend source target :=
  rfl

private theorem nodes_extend (graph : Graph) (source target : File) :
    (graph.extend source target).entries.map (·.1) = graph.entries.map (·.1) := by
  simp only [extend, List.map_map]
  apply List.map_congr_left
  intro entry _
  simp only [Function.comp_apply]
  split <;> rfl

variable {a b : Path} {targets : List File}

/-- Extending a graph draws the one edge if its source is a node. -/
private theorem hasEdge_extend (present : graph.HasNode source.path) :
    (graph.extend source target).HasEdge a b ↔
      graph.HasEdge a b ∨ (a = source.path ∧ b = target.path) := by
  constructor
  · rintro ⟨entry, member, equal, targetMember⟩
    obtain ⟨before, beforeMember, rfl⟩ := List.mem_map.mp member
    by_cases same : source.same before.1
    · simp only [same, if_true] at equal targetMember
      rcases File.mem_paths_addTo.mp targetMember with old | new
      · exact .inl ⟨before, beforeMember, equal, old⟩
      · exact .inr ⟨by rw [← equal, File.same_iff.mp same], new⟩
    · simp only [same] at equal targetMember
      exact .inl ⟨before, beforeMember, equal, targetMember⟩
  · rintro (⟨entry, member, equal, targetMember⟩ | ⟨rfl, rfl⟩)
    · refine ⟨_, List.mem_map_of_mem member, ?_⟩
      split
      · exact ⟨equal, File.mem_paths_addTo.mpr (.inl targetMember)⟩
      · exact ⟨equal, targetMember⟩
    · obtain ⟨entry, member, equal⟩ := hasNode_iff.mp present
      refine ⟨_, List.mem_map_of_mem member, ?_⟩
      rw [if_pos (File.same_iff.mpr equal.symm)]
      exact ⟨equal, File.mem_paths_addTo.mpr (.inr rfl)⟩

theorem hasNode_addEdge :
    (graph.addEdge source target).HasNode path ↔
      graph.HasNode path ∨ path = source.path ∨ path = target.path := by
  rw [addEdge_eq, HasNode, nodes_extend, ← HasNode, hasNode_addNode, hasNode_addNode, or_assoc]

theorem hasEdge_addEdge :
    (graph.addEdge source target).HasEdge a b ↔
      graph.HasEdge a b ∨ (a = source.path ∧ b = target.path) := by
  have present : ((graph.addNode source).addNode target).HasNode source.path :=
    hasNode_addNode.mpr (.inl (hasNode_addNode.mpr (.inr rfl)))
  rw [addEdge_eq, hasEdge_extend present, hasEdge_addNode, hasEdge_addNode]

theorem Distinct.addEdge (distinct : graph.Distinct) (source target : File) :
    (graph.addEdge source target).Distinct := by
  have before : ((graph.addNode source).addNode target).Distinct :=
    (distinct.addNode source).addNode target
  rw [addEdge_eq]
  constructor
  · rw [nodes_extend]
    exact before.nodes
  · intro entry member
    obtain ⟨old, oldMember, rfl⟩ := List.mem_map.mp member
    split
    · exact File.nodup_paths_addTo (before.targets old oldMember)
    · exact before.targets old oldMember

/-- Nothing comes in by an edge but its two ends. -/
theorem All.addEdge (all : graph.All property) (sourceHolds : property source)
    (targetHolds : property target) : (graph.addEdge source target).All property := by
  have before := (all.addNode sourceHolds).addNode targetHolds
  rw [addEdge_eq]
  intro entry member
  obtain ⟨old, oldMember, rfl⟩ := List.mem_map.mp member
  split
  · refine ⟨(before old oldMember).1, ?_⟩
    intro other otherMember
    rcases File.mem_addTo otherMember with early | equal
    · exact (before old oldMember).2 other early
    · rw [equal]
      exact targetHolds
  · exact before old oldMember

/-! ## Adding edges from one file -/

/-- Adding targets one after the other adds them all and nothing else. -/
theorem hasNode_foldl {add : Graph → File → Graph}
    (adds : ∀ graph target path, (add graph target).HasNode path ↔
      graph.HasNode path ∨ path = file.path ∨ path = target.path)
    (present : graph.HasNode file.path) :
    (targets.foldl add graph).HasNode path ↔ graph.HasNode path ∨ path ∈ File.paths targets := by
  induction targets generalizing graph with
  | nil => simp
  | cons target rest ih =>
    rw [List.foldl_cons, ih ((adds _ _ _).mpr (.inl present)), adds, File.paths_cons, List.mem_cons]
    constructor
    · rintro ((old | rfl | rfl) | later)
      · exact .inl old
      · exact .inl present
      · exact .inr (.inl rfl)
      · exact .inr (.inr later)
    · rintro (old | rfl | later)
      · exact .inl (.inl old)
      · exact .inl (.inr (.inr rfl))
      · exact .inr later

theorem hasNode_foldl_addEdge (present : graph.HasNode file.path) :
    (targets.foldl (fun graph target => graph.addEdge file target) graph).HasNode path ↔
      graph.HasNode path ∨ path ∈ File.paths targets :=
  hasNode_foldl (fun _ _ _ => hasNode_addEdge) present

theorem hasEdge_foldl_addEdge :
    (targets.foldl (fun graph target => graph.addEdge file target) graph).HasEdge a b ↔
      graph.HasEdge a b ∨ (a = file.path ∧ b ∈ File.paths targets) := by
  induction targets generalizing graph with
  | nil => simp
  | cons target rest ih =>
    rw [List.foldl_cons, ih, hasEdge_addEdge, File.paths_cons, List.mem_cons,
      or_assoc, ← and_or_left]

theorem Distinct.foldl_addEdge (distinct : graph.Distinct) (file : File) (targets : List File) :
    (targets.foldl (fun graph target => graph.addEdge file target) graph).Distinct := by
  induction targets generalizing graph with
  | nil => exact distinct
  | cons target rest ih => exact ih (distinct.addEdge file target)

theorem All.foldl_addEdge (all : graph.All property) (holds : property file)
    (targetsHold : ∀ target ∈ targets, property target) :
    (targets.foldl (fun graph target => graph.addEdge file target) graph).All property := by
  induction targets generalizing graph with
  | nil => exact all
  | cons target rest ih =>
    exact ih (all.addEdge holds (targetsHold target (by simp)))
      fun other member => targetsHold other (by simp [member])

/-! ## Looking nodes and edges up -/

/-- A file has the targets of the one entry with its path. -/
theorem targets_eq_of_mem (distinct : graph.Distinct) {entry : File × List File}
    (member : entry ∈ graph.entries) (same : file.path = entry.1.path) :
    graph.targets file = entry.2 := by
  have nodup := distinct.nodes
  unfold targets
  generalize graph.entries = entries at member nodup
  induction entries with
  | nil => simp at member
  | cons first rest ih =>
    rw [List.map_cons, File.paths_cons, List.nodup_cons] at nodup
    rcases List.mem_cons.mp member with rfl | later
    · have found : file.same entry.1 = true := File.same_iff.mpr same
      simp only [List.find?_cons, found]
    · have different : file.same first.1 = false := by
        rw [Bool.eq_false_iff]
        intro equal
        apply nodup.1
        rw [← File.same_iff.mp equal, same]
        exact File.mem_paths_of_mem (List.mem_map_of_mem later)
      simp only [List.find?_cons, different]
      exact ih later nodup.2

theorem mem_entries_of_mem_targets (member : target ∈ graph.targets file) :
    ∃ entry ∈ graph.entries, entry.1.path = file.path ∧ target ∈ entry.2 := by
  unfold targets at member
  split at member
  · rename_i entry found
    have same := List.find?_some found
    exact ⟨entry, List.mem_of_find?_eq_some found, (File.same_iff.mp same).symm, member⟩
  · simp at member

theorem mem_paths_targets (distinct : graph.Distinct) :
    path ∈ File.paths (graph.targets file) ↔ graph.HasEdge file.path path := by
  constructor
  · intro member
    obtain ⟨target, targetMember, rfl⟩ := File.mem_paths.mp member
    obtain ⟨entry, entryMember, same, found⟩ := mem_entries_of_mem_targets targetMember
    exact ⟨entry, entryMember, same, File.mem_paths_of_mem found⟩
  · rintro ⟨entry, member, same, found⟩
    rw [targets_eq_of_mem distinct member same.symm]
    exact found

theorem All.of_mem_targets (all : graph.All property) (member : target ∈ graph.targets file) :
    property target := by
  obtain ⟨entry, entryMember, _, found⟩ := mem_entries_of_mem_targets member
  exact (all entry entryMember).2 target found

@[simp] theorem mem_paths_nodes :
    path ∈ File.paths graph.nodes ↔ graph.HasNode path :=
  File.mem_paths_sort

theorem Distinct.nodup_paths_nodes (distinct : graph.Distinct) : (File.paths graph.nodes).Nodup :=
  (File.paths_sort_perm _).nodup_iff.mpr distinct.nodes

/-- The canonical paths of the ends of edges. -/
def ends (edges : List (File × File)) : List (Path × Path) :=
  edges.map fun edge => (edge.1.path, edge.2.path)

/-- The edges that are listed are those that the graph has. -/
theorem mem_ends_edges (distinct : graph.Distinct) {source target : Path} :
    (source, target) ∈ ends graph.edges ↔ graph.HasEdge source target := by
  simp only [ends, edges, List.mem_map, List.mem_flatMap, Prod.mk.injEq]
  constructor
  · rintro ⟨edge, ⟨node, _, other, otherMember, rfl⟩, rfl, rfl⟩
    apply (mem_paths_targets distinct).mp
    exact File.mem_paths_of_mem (File.mem_sort.mp otherMember)
  · intro edge
    obtain ⟨node, nodeMember, rfl⟩ := File.mem_paths.mp (mem_paths_nodes.mpr edge.hasNode)
    obtain ⟨other, otherMember, rfl⟩ :=
      File.mem_paths.mp ((mem_paths_targets distinct).mpr edge)
    exact ⟨(node, other), ⟨node, nodeMember, other, File.mem_sort.mpr otherMember, rfl⟩, rfl, rfl⟩

theorem Distinct.nodup_paths_targets (distinct : graph.Distinct) (file : File) :
    (File.paths (graph.targets file)).Nodup := by
  unfold Graph.targets
  split
  · rename_i entry found
    exact distinct.targets entry (List.mem_of_find?_eq_some found)
  · exact List.nodup_nil

theorem Distinct.nodup_ends_edges (distinct : graph.Distinct) : (ends graph.edges).Nodup := by
  unfold ends edges
  rw [List.map_flatMap, List.nodup_flatMap]
  constructor
  · intro node _
    rw [List.map_map]
    have targetsNodup : (File.paths (graph.successors node)).Nodup :=
      (File.paths_sort_perm _).nodup_iff.mpr (distinct.nodup_paths_targets node)
    have paired := targetsNodup.map (f := fun path => (node.path, path)) fun _ _ equal => by
      simpa using equal
    simpa only [File.paths, List.map_map, Function.comp_def] using paired
  · refine List.Pairwise.imp ?_ (List.pairwise_map.mp distinct.nodup_paths_nodes)
    intro first second different pair firstMember secondMember
    simp only [List.map_map, List.mem_map, Function.comp_apply] at firstMember secondMember
    obtain ⟨_, _, rfl⟩ := firstMember
    obtain ⟨_, _, equal⟩ := secondMember
    exact different (congrArg Prod.fst equal).symm

end Graph

end ModuleAtlas
