import ModuleAtlas.Proofs.Graph.Structure
import Mathlib.Logic.Relation

/-!
# Turned graphs and breadth-first search

Turning a graph round turns each of its edges round.  Breadth-first search from a file finds exactly
the files that a path of at least one edge leads to, itself included when it lies on a cycle: every
edge is followed at most once, so the number of edges bounds the search.
-/

namespace ModuleAtlas
namespace Graph

open Relation

/-! ## Turning round -/

variable {entries : List (File × List File)} {graph : Graph} {file : File} {path : Path}
  {seen queue : List File}

variable {a b : Path} {property : File → Prop} {rest found : List File}

private theorem foldl_addNode_hasEdge :
    (entries.foldl (fun turned entry => turned.addNode entry.1) graph).HasEdge a b ↔
      graph.HasEdge a b := by
  induction entries generalizing graph with
  | nil => exact Iff.rfl
  | cons entry rest ih =>
    rw [List.foldl_cons, ih, hasEdge_addNode]

private theorem turnEntry_hasEdge {targets : List File} :
    (targets.foldl (fun turned target => turned.addEdge target file) graph).HasEdge a b ↔
      graph.HasEdge a b ∨ (b = file.path ∧ a ∈ File.paths targets) := by
  induction targets generalizing graph with
  | nil => simp
  | cons target rest ih =>
    rw [List.foldl_cons, ih, hasEdge_addEdge, File.paths_cons, List.mem_cons,
      or_assoc, and_comm (a := a = target.path), ← and_or_left]

/-- Turning entries adds just their edges, the other way round. -/
private theorem turnEntries_hasEdge :
    (entries.foldl (fun turned entry =>
        entry.2.foldl (fun turned target => turned.addEdge target entry.1) turned) graph).HasEdge
          a b ↔
      graph.HasEdge a b ∨ HasEdge ⟨entries⟩ b a := by
  induction entries generalizing graph with
  | nil => simp [HasEdge]
  | cons entry rest ih =>
    rw [List.foldl_cons, ih, turnEntry_hasEdge, or_assoc]
    apply or_congr_right
    simp only [HasEdge, List.mem_cons, exists_eq_or_imp]
    rw [eq_comm (a := b)]

@[simp] theorem hasEdge_transpose {graph : Graph} {source target : Path} :
    graph.transpose.HasEdge source target ↔ graph.HasEdge target source := by
  unfold transpose
  simp only [turnEntries_hasEdge, foldl_addNode_hasEdge, not_hasEdge_empty, false_or]

/-- A way in the turned graph is a way back in the graph. -/
theorem transGen_transpose {source target : Path} :
    TransGen graph.transpose.HasEdge source target ↔ TransGen graph.HasEdge target source := by
  have same : graph.transpose.HasEdge = Function.swap graph.HasEdge := by
    funext a b
    exact propext hasEdge_transpose
  rw [same, transGen_swap]

private theorem foldl_addNode_hasNode :
    (entries.foldl (fun turned entry => turned.addNode entry.1) graph).HasNode path ↔
      graph.HasNode path ∨ HasNode ⟨entries⟩ path := by
  induction entries generalizing graph with
  | nil => simp [HasNode]
  | cons entry rest ih =>
    rw [List.foldl_cons, ih, hasNode_addNode, or_assoc]
    apply or_congr_right
    simp only [HasNode, List.map_cons, File.paths_cons, List.mem_cons]

private theorem turnEntry_hasNode {targets : List File} (present : graph.HasNode file.path) :
    (targets.foldl (fun turned target => turned.addEdge target file) graph).HasNode path ↔
      graph.HasNode path ∨ path ∈ File.paths targets :=
  hasNode_foldl (fun _ _ _ => hasNode_addEdge.trans (or_congr_right or_comm)) present

/-- Turning entries adds just the targets of their edges as nodes. -/
private theorem turnEntries_hasNode (present : ∀ entry ∈ entries, graph.HasNode entry.1.path) :
    (entries.foldl (fun turned entry =>
        entry.2.foldl (fun turned target => turned.addEdge target entry.1) turned) graph).HasNode
          path ↔
      graph.HasNode path ∨ ∃ source, HasEdge ⟨entries⟩ source path := by
  induction entries generalizing graph with
  | nil => simp [HasEdge]
  | cons entry rest ih =>
    have here := present entry List.mem_cons_self
    have stillPresent : ∀ other ∈ rest, (entry.2.foldl
        (fun turned target => turned.addEdge target entry.1) graph).HasNode other.1.path :=
      fun other member =>
        (turnEntry_hasNode here).mpr (.inl (present other (List.mem_cons_of_mem _ member)))
    rw [List.foldl_cons, ih stillPresent, turnEntry_hasNode here, or_assoc]
    apply or_congr_right
    simp only [HasEdge, List.mem_cons, exists_eq_or_imp, exists_or, exists_eq_left']

/-- Turning round keeps the nodes; the targets of edges become nodes if they are none. -/
theorem hasNode_transpose :
    graph.transpose.HasNode path ↔ graph.HasNode path ∨ ∃ source, graph.HasEdge source path := by
  have present : ∀ entry ∈ graph.entries, (graph.entries.foldl
      (fun turned entry => turned.addNode entry.1) empty).HasNode entry.1.path :=
    fun entry member => foldl_addNode_hasNode.mpr (.inr (hasNode_iff.mpr ⟨entry, member, rfl⟩))
  unfold transpose
  rw [turnEntries_hasNode present, foldl_addNode_hasNode]
  simp only [not_hasNode_empty, false_or]

/-- What each step of a fold keeps, the fold keeps. -/
private theorem foldl_keeps {α β : Type} {holds : β → Prop} {step : β → α → β}
    {entries : List α} {start : β} (held : holds start)
    (keeps : ∀ value, ∀ entry ∈ entries, holds value → holds (step value entry)) :
    holds (entries.foldl step start) := by
  induction entries generalizing start with
  | nil => exact held
  | cons entry rest ih =>
    exact ih (keeps start entry (by simp) held)
      fun value other member => keeps value other (by simp [member])

theorem distinct_transpose (graph : Graph) : graph.transpose.Distinct := by
  unfold transpose
  refine foldl_keeps ?_ fun turned entry _ distinct => ?_
  · exact foldl_keeps distinct_empty fun turned entry _ distinct => distinct.addNode entry.1
  · exact foldl_keeps distinct fun turned target _ distinct => distinct.addEdge target entry.1

theorem All.transpose (all : graph.All property) : graph.transpose.All property := by
  unfold Graph.transpose
  refine foldl_keeps ?_ fun turned entry entryMember turnedAll => ?_
  · exact foldl_keeps (all_empty property) fun turned entry member turnedAll =>
      turnedAll.addNode (all entry member).1
  · exact foldl_keeps turnedAll fun turned target targetMember turnedAll =>
      turnedAll.addEdge ((all entry entryMember).2 target targetMember) (all entry entryMember).1

/-! ## Breadth-first search -/

/-- The number of edges that leave files not yet seen. -/
def unfollowed (seen : List File) (entries : List (File × List File)) : Nat :=
  total ((entries.filter fun entry => !entry.1.isIn seen).map fun entry => entry.2.length)

private theorem unfollowed_cons_of_mem {entry : File × List File} {rest : List (File × List File)}
    (known : entry.1.path ∈ File.paths seen) :
    unfollowed seen (entry :: rest) = unfollowed seen rest := by
  unfold unfollowed
  rw [List.filter_cons_of_neg]
  rw [Bool.not_eq_true', Bool.not_eq_false, File.isIn_iff]
  exact known

private theorem unfollowed_cons_of_not_mem {entry : File × List File}
    {rest : List (File × List File)} (fresh : entry.1.path ∉ File.paths seen) :
    unfollowed seen (entry :: rest) = entry.2.length + unfollowed seen rest := by
  unfold unfollowed
  rw [List.filter_cons_of_pos, List.map_cons, total_cons]
  rw [Bool.not_eq_true', File.isIn_eq_false_iff]
  exact fresh

private theorem unfollowed_le (seen : List File) (entries : List (File × List File)) :
    unfollowed seen entries ≤ total (entries.map fun entry => entry.2.length) := by
  induction entries with
  | nil => simp [unfollowed]
  | cons entry rest ih =>
    rw [List.map_cons, total_cons]
    by_cases known : entry.1.path ∈ File.paths seen
    · rw [unfollowed_cons_of_mem known]
      omega
    · rw [unfollowed_cons_of_not_mem known]
      omega

private theorem unfollowed_append_le (seen more : List File) (entries : List (File × List File)) :
    unfollowed (seen ++ more) entries ≤ unfollowed seen entries := by
  induction entries with
  | nil => simp [unfollowed]
  | cons entry rest ih =>
    by_cases known : entry.1.path ∈ File.paths seen
    · rw [unfollowed_cons_of_mem known, unfollowed_cons_of_mem (by simp [known])]
      exact ih
    · rw [unfollowed_cons_of_not_mem known]
      by_cases knownThen : entry.1.path ∈ File.paths (seen ++ more)
      · rw [unfollowed_cons_of_mem knownThen]
        omega
      · rw [unfollowed_cons_of_not_mem knownThen]
        omega

/-- Following the edges of a file that is not yet seen uses them up. -/
private theorem targets_add_unfollowed_le (graph : Graph) (fresh : file.path ∉ File.paths seen) :
    (graph.targets file).length + unfollowed (seen ++ [file]) graph.entries ≤
      unfollowed seen graph.entries := by
  unfold targets
  generalize graph.entries = entries
  induction entries with
  | nil => simp [unfollowed]
  | cons entry rest ih =>
    rw [List.find?_cons]
    cases same : file.same entry.1 with
    | true =>
      have equal : file.path = entry.1.path := File.same_iff.mp same
      have after := unfollowed_append_le seen [file] rest
      rw [unfollowed_cons_of_mem (by simp [equal]),
        unfollowed_cons_of_not_mem (by rwa [← equal])]
      simp only
      omega
    | false =>
      have different : entry.1.path ≠ file.path := by
        intro equal
        rw [File.same_iff.mpr equal.symm] at same
        cases same
      simp only
      by_cases known : entry.1.path ∈ File.paths seen
      · rw [unfollowed_cons_of_mem known, unfollowed_cons_of_mem (by simp [known])]
        exact ih
      · rw [unfollowed_cons_of_not_mem known,
          unfollowed_cons_of_not_mem (by simp [known, different])]
        omega

/-- What waits after a file has been taken from the queue: what waited, and its targets that are
not yet seen. -/
private theorem mem_paths_queue (distinct : graph.Distinct) :
    path ∈ File.paths (rest ++ (graph.targets file).filter fun next => !next.isIn seen) ↔
      path ∈ File.paths rest ∨ (graph.HasEdge file.path path ∧ path ∉ File.paths seen) := by
  rw [File.paths_append, List.mem_append, ← mem_paths_targets distinct]
  apply or_congr_right
  simp only [File.mem_paths, List.mem_filter, Bool.not_eq_true', Bool.eq_false_iff, ne_eq,
    File.isIn_iff]
  constructor
  · rintro ⟨next, ⟨member, fresh⟩, rfl⟩
    exact ⟨⟨next, member, rfl⟩, fresh⟩
  · rintro ⟨⟨next, member, rfl⟩, fresh⟩
    exact ⟨next, ⟨member, fresh⟩, rfl⟩

/-- The search runs to its end: from what is seen and what waits in the queue it comes to what is
found when nothing waits any more. -/
inductive Finishes (graph : Graph) : List File → List File → List File → Prop where
  | done {seen : List File} : Finishes graph seen [] seen
  | skip {seen rest found : List File} {file : File}
      (known : file.path ∈ File.paths seen) (goesOn : Finishes graph seen rest found) :
      Finishes graph seen (file :: rest) found
  | expand {seen rest found : List File} {file : File}
      (fresh : file.path ∉ File.paths seen)
      (goesOn : Finishes graph (seen ++ [file])
        (rest ++ (graph.targets file).filter fun next => !next.isIn (seen ++ [file])) found) :
      Finishes graph seen (file :: rest) found

/-- With fuel for what waits and for all edges that are not yet followed, the search ends before the
fuel does. -/
theorem finishes_search (graph : Graph) {fuel : Nat}
    (enough : queue.length + unfollowed seen graph.entries < fuel) :
    graph.Finishes seen queue (graph.search fuel seen queue) := by
  induction fuel generalizing seen queue with
  | zero => omega
  | succ fuel ih =>
    cases queue with
    | nil => exact .done
    | cons file rest =>
      rw [List.length_cons] at enough
      rw [search]
      by_cases known : file.path ∈ File.paths seen
      · rw [if_pos (File.isIn_iff.mpr known)]
        exact .skip known (ih (by omega))
      · rw [if_neg (by rwa [File.isIn_iff])]
        have used := targets_add_unfollowed_le graph known
        have kept := List.length_filter_le
          (fun next => !next.isIn (seen ++ [file])) (graph.targets file)
        refine .expand known (ih ?_)
        rw [List.length_append]
        omega

theorem finishes_reachable (graph : Graph) (start : File) :
    graph.Finishes [] (graph.targets start) (graph.reachable start) := by
  have bound := unfollowed_le [] graph.entries
  refine graph.finishes_search ?_
  unfold edgeCount
  omega

/-- What is found was seen before or lies behind the queue. -/
private theorem Finishes.behind (distinct : graph.Distinct)
    (finishes : graph.Finishes seen queue found) :
    ∀ a ∈ File.paths found, a ∈ File.paths seen ∨
      ∃ b ∈ File.paths queue, ReflTransGen graph.HasEdge b a := by
  induction finishes with
  | done => exact fun a member => .inl member
  | skip known goesOn ih =>
    intro a member
    rcases ih a member with old | ⟨b, later, way⟩
    · exact .inl old
    · exact .inr ⟨b, by simp [later], way⟩
  | @expand seen rest found file fresh goesOn ih =>
    intro a member
    rcases ih a member with found | ⟨b, queued, way⟩
    · rw [File.paths_append, List.mem_append, File.paths_cons, File.paths_nil,
        List.mem_singleton] at found
      rcases found with old | rfl
      · exact .inl old
      · exact .inr ⟨_, by simp, .refl⟩
    · rcases (mem_paths_queue distinct).mp queued with later | ⟨edge, _⟩
      · exact .inr ⟨b, by simp [later], way⟩
      · exact .inr ⟨file.path, by simp, .head edge way⟩

/-- Where a search stands: each edge from a file that is seen leads to one that is seen or
waits. -/
private def Frontier (graph : Graph) (seen queue : List File) : Prop :=
  ∀ a ∈ File.paths seen, ∀ b, graph.HasEdge a b → b ∈ File.paths seen ∨ b ∈ File.paths queue

private theorem Frontier.skip (frontier : graph.Frontier seen (file :: rest))
    (known : file.path ∈ File.paths seen) : graph.Frontier seen rest := by
  intro a member b edge
  have found := frontier a member b edge
  rw [File.paths_cons, List.mem_cons] at found
  rcases found with old | rfl | later
  · exact .inl old
  · exact .inl known
  · exact .inr later

/-- Following a file moves it from the frontier to what has been seen. -/
private theorem Frontier.expand (distinct : graph.Distinct)
    (frontier : graph.Frontier seen (file :: rest)) :
    graph.Frontier (seen ++ [file])
      (rest ++ (graph.targets file).filter fun next => !next.isIn (seen ++ [file])) := by
  intro a member b edge
  by_cases found : b ∈ File.paths (seen ++ [file])
  · exact .inl found
  · right
    rw [mem_paths_queue distinct]
    rw [File.paths_append, List.mem_append, File.paths_cons, File.paths_nil,
      List.mem_singleton] at member
    rcases member with old | rfl
    · have reached := frontier a old b edge
      rw [File.paths_cons, List.mem_cons] at reached
      rcases reached with seenBefore | rfl | later
      · exact absurd (by simp [seenBefore]) found
      · exact absurd (by simp) found
      · exact .inl later
    · exact .inr ⟨edge, found⟩

/-- The search finds all that is seen or waits, and what is found is closed under edges. -/
private theorem Finishes.complete (distinct : graph.Distinct)
    (finishes : graph.Finishes seen queue found) (frontier : graph.Frontier seen queue) :
    (∀ a, a ∈ File.paths seen ∨ a ∈ File.paths queue → a ∈ File.paths found) ∧
    (∀ a ∈ File.paths found, ∀ b, graph.HasEdge a b → b ∈ File.paths found) := by
  induction finishes with
  | done =>
    refine ⟨by simp, fun a member b edge => ?_⟩
    simpa using frontier a member b edge
  | skip known goesOn ih =>
    obtain ⟨start, closed⟩ := ih (frontier.skip known)
    refine ⟨fun a member => start a ?_, closed⟩
    rw [File.paths_cons, List.mem_cons] at member
    rcases member with old | rfl | later
    · exact .inl old
    · exact .inl known
    · exact .inr later
  | expand fresh goesOn ih =>
    obtain ⟨start, closed⟩ := ih (frontier.expand distinct)
    refine ⟨fun a member => start a ?_, closed⟩
    rw [File.paths_cons, List.mem_cons] at member
    rcases member with old | rfl | later
    · exact .inl (by simp [old])
    · exact .inl (by simp)
    · exact .inr ((mem_paths_queue distinct).mpr (.inl later))

/-- Search finds exactly the files that a path of at least one edge leads to. -/
theorem mem_paths_reachable (distinct : graph.Distinct) {start : File} :
    path ∈ File.paths (graph.reachable start) ↔ TransGen graph.HasEdge start.path path := by
  have finishes := graph.finishes_reachable start
  constructor
  · intro member
    rcases finishes.behind distinct path member with impossible | ⟨b, successor, way⟩
    · simp at impossible
    · exact TransGen.head' ((mem_paths_targets distinct).mp successor) way
  · intro way
    obtain ⟨first, closed⟩ := finishes.complete distinct (by simp [Frontier])
    induction way with
    | single edge => exact first _ (.inr ((mem_paths_targets distinct).mpr edge))
    | tail _ edge ih => exact closed _ ih _ edge

/-- What is found when the search ends holds a property that all files of the graph have, if what is
seen and what waits does. -/
private theorem Finishes.holds (all : graph.All property)
    (finishes : graph.Finishes seen queue found) (seenHold : ∀ file ∈ seen, property file)
    (queueHolds : ∀ file ∈ queue, property file) : ∀ file ∈ found, property file := by
  induction finishes with
  | done => exact seenHold
  | skip known goesOn ih =>
    exact ih seenHold fun file member => queueHolds file (by simp [member])
  | expand fresh goesOn ih =>
    refine ih ?_ ?_
    · intro file member
      rcases List.mem_append.mp member with old | new
      · exact seenHold file old
      · exact queueHolds file (by simp [List.mem_singleton.mp new])
    · intro file member
      rcases List.mem_append.mp member with old | new
      · exact queueHolds file (by simp [old])
      · exact all.of_mem_targets (List.mem_filter.mp new).1

theorem All.of_mem_reachable {start : File} (all : graph.All property)
    (member : file ∈ graph.reachable start) : property file :=
  (graph.finishes_reachable start).holds all (by simp) (fun _ found => all.of_mem_targets found)
    file member

end Graph
end ModuleAtlas
