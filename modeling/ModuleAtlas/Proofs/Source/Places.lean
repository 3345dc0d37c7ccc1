import ModuleAtlas.Analysis
import ModuleAtlas.Proofs.Source.Comments

/-!
# Places in syntax trees

A place leads down a tree, with the index of a child on each level.  A walk comes by every place
once, parents first and then from left to right, which is the order of places as lists of numbers.
The complexity of a body is one more than the number of places where a decision is made, so it adds
up over the parts of a body, comments do not change it, and what a nested body decides is decided in
every body around it.
-/

namespace ModuleAtlas
namespace Node

/-! ## Places -/

/-- A place in a tree: on each level the index of the child through which the way goes on. -/
abbrev Place := List Nat

/-- The node at a place. -/
def at? : Node → Place → Option Node
  | node, [] => some node
  | node, index :: rest => (node.children[index]?).bind fun child => child.at? rest

mutual

/-- The places in a tree, parents first and then from left to right. -/
def places : Node → List Place
  | .mk _ _ _ _ _ _ children => [] :: placesAmong 0 children

/-- The places in neighbouring trees, of which the first one has an index. -/
def placesAmong (index : Nat) : List Node → List Place
  | [] => []
  | node :: rest => (places node).map (index :: ·) ++ placesAmong (index + 1) rest

end

variable {root body : Node} {nodes : List Node} {place : Place} {first : Nat}

theorem at?_append (root : Node) (place further : Place) :
    root.at? (place ++ further) = (root.at? place).bind fun body => body.at? further := by
  induction place generalizing root with
  | nil => rfl
  | cons index rest ih =>
    rw [List.cons_append, at?, at?, Option.bind_assoc]
    exact congrArg _ (funext fun child => ih child)

/-- A place below some nodes is a place below one of them. -/
theorem mem_placesAmong :
    place ∈ placesAmong first nodes ↔
      ∃ index child rest, place = (first + index) :: rest ∧ nodes[index]? = some child ∧
        rest ∈ child.places := by
  induction nodes generalizing first with
  | nil => simp [placesAmong]
  | cons node others ih =>
    rw [placesAmong, List.mem_append, List.mem_map, ih]
    constructor
    · rintro (⟨rest, member, rfl⟩ | ⟨index, child, rest, rfl, known, member⟩)
      · exact ⟨0, node, rest, rfl, rfl, member⟩
      · exact ⟨index + 1, child, rest, by rw [Nat.add_right_comm, Nat.add_assoc], known, member⟩
    · rintro ⟨index, child, rest, rfl, known, member⟩
      cases index with
      | zero =>
        cases known
        exact .inl ⟨rest, member, rfl⟩
      | succ index =>
        exact .inr ⟨index, child, rest, by rw [Nat.add_right_comm, Nat.add_assoc], known, member⟩

/-- A tree has exactly the places at which there is a node. -/
theorem mem_places : place ∈ root.places ↔ (root.at? place).isSome = true := by
  induction place generalizing root with
  | nil =>
    cases root
    simp [places, at?]
  | cons index rest ih =>
    obtain ⟨kind, named, role, start, line, text, children⟩ := root
    rw [places, List.mem_cons, mem_placesAmong, at?, Option.isSome_bind]
    simp only [reduceCtorEq, false_or, Nat.zero_add, List.cons.injEq]
    constructor
    · rintro ⟨_, child, _, ⟨rfl, rfl⟩, known, member⟩
      simp only [Node.children, known]
      exact ih.mp member
    · intro found
      cases known : children[index]? with
      | none => simp [Node.children, known] at found
      | some child =>
        simp only [Node.children, known] at found
        exact ⟨index, child, rest, ⟨rfl, rfl⟩, known, ih.mpr found⟩

/-- A place comes before what is below it, and before what is further right. -/
inductive Before : Place → Place → Prop where
  | above {index : Nat} {rest : Place} : Before [] (index :: rest)
  | left {index other : Nat} {rest further : Place} (less : index < other) :
      Before (index :: rest) (other :: further)
  | inside {index : Nat} {rest further : Place} (before : Before rest further) :
      Before (index :: rest) (index :: further)

theorem Before.append {further other : Place} (before : Before further other) :
    ∀ place : Place, Before (place ++ further) (place ++ other)
  | [] => before
  | _ :: rest => .inside (before.append rest)

theorem Before.asymm {other : Place} (before : Before place other) : ¬Before other place := by
  induction before with
  | above => rintro ⟨⟩
  | left less =>
    intro after
    cases after with
    | left more => exact absurd more (Nat.lt_asymm less)
    | inside => exact absurd less (Nat.lt_irrefl _)
  | inside _ ih =>
    intro after
    cases after with
    | left more => exact absurd more (Nat.lt_irrefl _)
    | inside after => exact ih after

/-- Lists in the order of places that have the same members are the same. -/
theorem eq_of_pairwise_before {listed others : List Place} (ordered : listed.Pairwise Before)
    (othersOrdered : others.Pairwise Before) (same : ∀ place, place ∈ listed ↔ place ∈ others) :
    listed = others := by
  have distinct : ∀ {listed : List Place}, listed.Pairwise Before → listed.Nodup := fun ordered =>
    ordered.imp fun before equal => (equal ▸ before).asymm (equal ▸ before)
  have perm : listed.Perm others :=
    (List.perm_ext_iff_of_nodup (distinct ordered) (distinct othersOrdered)).mpr same
  exact perm.eq_of_pairwise (fun _ _ _ _ before after => absurd after before.asymm) ordered
    othersOrdered

mutual

/-- Places are listed in their order, so none is listed twice. -/
theorem pairwise_places : ∀ root : Node, root.places.Pairwise Before
  | .mk _ _ _ _ _ _ children => by
    rw [places]
    refine List.pairwise_cons.mpr ⟨fun place member => ?_, pairwise_placesAmong 0 children⟩
    obtain ⟨_, _, _, rfl, _⟩ := mem_placesAmong.mp member
    exact .above

theorem pairwise_placesAmong (first : Nat) :
    ∀ nodes : List Node, (placesAmong first nodes).Pairwise Before
  | [] => .nil
  | node :: rest => by
    rw [placesAmong]
    refine List.pairwise_append.mpr ⟨List.pairwise_map.mpr ?_, pairwise_placesAmong _ rest, ?_⟩
    · exact (pairwise_places node).imp .inside
    · intro place member other later
      obtain ⟨_, _, rfl⟩ := List.mem_map.mp member
      obtain ⟨index, _, _, rfl, _⟩ := mem_placesAmong.mp later
      exact .left (by omega)

end

mutual

/-- A walk comes by the nodes at all places. -/
theorem map_at?_places : ∀ root : Node, root.places.map root.at? = root.walk.map some
  | .mk kind named role start line text children => by
    rw [places, walk, List.map_cons, List.map_cons]
    exact congrArg _ (map_at?_placesAmong _ [] rfl)

/-- The places below some nodes are where their trees are walked, in the same order. -/
theorem map_at?_placesAmong (root : Node) (before : List Node) :
    ∀ {nodes : List Node}, root.children = before ++ nodes →
      (placesAmong before.length nodes).map root.at? = (walkAll nodes).map some
  | [], _ => rfl
  | node :: rest, split => by
    have here : root.children[before.length]? = some node := by simp [split]
    have further : root.children = (before ++ [node]) ++ rest := by simp [split]
    have onward := map_at?_placesAmong root (before ++ [node]) further
    rw [List.length_append, List.length_singleton] at onward
    rw [placesAmong, walkAll, List.map_append, List.map_append, onward, List.map_map,
      ← map_at?_places node]
    congr 2
    funext place
    rw [Function.comp, at?, here, Option.bind_some]

end

/-- The places below the place of a body are those of the body. -/
theorem filter_places (stands : root.at? place = some body) :
    (root.places.filter fun other => place.isPrefixOf other) = body.places.map (place ++ ·) := by
  refine eq_of_pairwise_before ((pairwise_places root).filter _)
    (List.pairwise_map.mpr ((pairwise_places body).imp fun before => before.append place)) ?_
  intro other
  rw [List.mem_filter, List.mem_map, mem_places, List.isPrefixOf_iff_prefix]
  constructor
  · rintro ⟨found, further, rfl⟩
    rw [at?_append, stands] at found
    exact ⟨further, mem_places.mpr found, rfl⟩
  · rintro ⟨further, member, rfl⟩
    rw [at?_append, stands]
    exact ⟨mem_places.mp member, further, rfl⟩

/-! ## Decisions -/

/-- A node makes a decision: it branches by its kind, or it is an operator that may leave out its
second operand. -/
inductive Decides (node : Node) : Prop where
  | branch (branches : node.kind ∈ decisionKinds)
  | operator {operator : Node} (isBinary : node.kind = "binary_expression")
      (known : node.child? "operator" = some operator)
      (shortCircuit : operator.kind = "&&" ∨ operator.kind = "||")

/-- A node counts as a decision just when it is one of the listed kinds. -/
theorem isDecision_iff {node : Node} : node.isDecision = true ↔ node.Decides := by
  unfold isDecision
  constructor
  · intro decision
    split at decision
    · rename_i branches
      exact .branch (List.contains_iff_mem.mp branches)
    · split at decision
      · rename_i isBinary
        split at decision
        · rename_i operator known
          exact .operator (eq_of_beq isBinary) known (by simpa using decision)
        · cases decision
      · cases decision
  · rintro (branches | @⟨operator, isBinary, known, shortCircuit⟩)
    · rw [if_pos (List.contains_iff_mem.mpr branches)]
    · split
      · rfl
      · rw [if_pos (beq_iff_eq.mpr isBinary), known]
        simpa using shortCircuit

instance (node : Node) : Decidable node.Decides := decidable_of_iff _ isDecision_iff

/-- The places in a tree where a decision is made. -/
def decisions (root : Node) : List Place :=
  root.places.filter fun place => (root.at? place).any isDecision

theorem complexity_eq_countP (root : Node) : root.complexity = 1 + root.walk.countP isDecision := by
  rw [complexity, visits_singleton, List.countP_eq_length_filter]

theorem complexity_eq_decisions (root : Node) : root.complexity = 1 + root.decisions.length := by
  have counted : (root.walk.map some).countP (Option.any isDecision) =
      root.walk.countP isDecision := by
    rw [List.countP_map]
    rfl
  rw [complexity_eq_countP, ← counted, ← map_at?_places, List.countP_map, decisions,
    List.countP_eq_length_filter]
  rfl

theorem countP_walkAll (nodes : List Node) :
    (walkAll nodes).countP isDecision = total (nodes.map fun node => node.complexity - 1) := by
  induction nodes with
  | nil => rfl
  | cons node rest ih =>
    rw [walkAll, List.countP_append, ih, List.map_cons, total_cons, complexity_eq_countP,
      Nat.add_sub_cancel_left]

/-- The decisions of a tree are those of its root and those of its parts. -/
theorem complexity_sub_one (root : Node) :
    root.complexity - 1 =
      (if root.Decides then 1 else 0) + total (root.children.map fun child => child.complexity - 1)
      := by
  rw [complexity_eq_countP, Nat.add_sub_cancel_left, walk_eq, List.countP_cons, countP_walkAll,
    Nat.add_comm]
  simp only [isDecision_iff]

theorem Commented.isDecision_eq {other : Node} (commented : Commented root other) :
    other.isDecision = root.isDecision := by
  unfold isDecision
  rw [commented.kind_eq]
  have operators := commented.child? "operator"
  revert operators
  generalize root.child? "operator" = operator
  generalize other.child? "operator" = otherOperator
  rintro (_ | same)
  · rfl
  · simp only [same.kind_eq]

/-- Comments make no decisions. -/
theorem Commented.complexity_eq {other : Node} (commented : Commented root other) :
    other.complexity = root.complexity := by
  have pairs : List.Forall₂ Commented (root.walk.filter Node.isDecision)
      (other.walk.filter Node.isDecision) :=
    commented.walk.filter (fun same => same.isDecision_eq) fun _ _ _ => rfl
  rw [complexity, complexity, visits_singleton, visits_singleton, pairs.length_eq]

/-- What is decided in a body is decided in every tree around it, at the places below the body. -/
theorem filter_decisions (stands : root.at? place = some body) :
    (root.decisions.filter fun other => place.isPrefixOf other) =
      body.decisions.map (place ++ ·) := by
  have below : ∀ further, (root.at? (place ++ further)).any Node.isDecision =
      (body.at? further).any Node.isDecision := fun further => by
    rw [at?_append, stands, Option.bind_some]
  rw [decisions, List.filter_comm, filter_places stands, List.filter_map, decisions]
  simp only [Function.comp_def, below]

/-- A walk with a stack ends, and it comes by the node at each place of the tree once, parents first
and then from left to right.  The complexity is at least one, and what it has more is the decision
of the root, if it makes one, and what the complexities of the parts have more.  Comments do not
change it.  It counts the places where a decision is made, and of these the ones below the place of
a body are those of the body. -/
theorem complexity_counts_decisions (root : Node) :
    visits [root] = root.walk ∧ root.walk.map some = root.places.map root.at? ∧
    root.places.Pairwise Before ∧
    (∀ place, place ∈ root.places ↔ (root.at? place).isSome = true) ∧
    1 ≤ root.complexity ∧
    root.complexity - 1 =
      (if root.Decides then 1 else 0) +
        total (root.children.map fun child => child.complexity - 1) ∧
    (∀ other, Commented root other → other.complexity = root.complexity) ∧
    root.complexity - 1 = root.decisions.length ∧
    ∀ place body, root.at? place = some body →
      (root.decisions.filter fun other => place.isPrefixOf other) =
        body.decisions.map (place ++ ·) := by
  refine ⟨visits_singleton root, (map_at?_places root).symm, pairwise_places root,
    fun _ => mem_places, Nat.le_add_right 1 _, complexity_sub_one root,
    fun _ commented => commented.complexity_eq, ?_, fun _ _ => filter_decisions⟩
  rw [complexity_eq_decisions, Nat.add_sub_cancel_left]

/-! ### A function in a function -/

/-- A function that chooses between two values. -/
def choosingFunction : Node :=
  .mk "arrow_function" true none 12 1 "() => x ? 1 : 2" [
    .mk "ternary_expression" true (some "body") 18 1 "x ? 1 : 2" []]

/-- The two operands of a conjunction with what stands between them. -/
def conjunction (between : List Node) : Node :=
  .mk "binary_expression" true none 2 1 "a && b" <|
    .mk "identifier" true (some "left") 2 1 "a" [] ::
      (between ++ [.mk "&&" false (some "operator") 4 1 "&&" [],
        .mk "identifier" true (some "right") 7 1 "b" []])

/-- A body with a conjunction and a function. -/
def bodyAround (between : List Node) : Node :=
  .mk "statement_block" true (some "body") 0 1 "a && b; () => x ? 1 : 2" [
    conjunction between, choosingFunction]

/-- The choice in the function counts in the body around it, and a comment in front of an operator
does not count. -/
theorem nested_choice_counts :
    Commented (bodyAround []) (bodyAround [comment 4 1 "/* or not */"]) ∧
    (bodyAround [comment 4 1 "/* or not */"]).complexity = (bodyAround []).complexity ∧
    (bodyAround []).at? [1] = some choosingFunction ∧
    (bodyAround []).decisions.filter (List.isPrefixOf [1]) =
      choosingFunction.decisions.map ([1] ++ ·) ∧
    (bodyAround []).complexity = 3 := by
  obtain ⟨-, -, -, -, -, -, comments, counted, nested⟩ :=
    complexity_counts_decisions (bodyAround [])
  have commented : Commented (bodyAround []) (bodyAround [comment 4 1 "/* or not */"]) :=
    .mk (fun _ => rfl) <| .cons
      (.mk (fun _ => rfl) (.cons (.refl _) (.insert 4 1 _ (CommentedAll.refl _))))
      (CommentedAll.refl _)
  have two : (bodyAround []).decisions.length = 2 := by decide
  refine ⟨commented, comments _ commented, rfl, nested [1] choosingFunction rfl, ?_⟩
  rw [complexity_eq_decisions, two]

end Node
end ModuleAtlas
