import ModuleAtlas.Proofs.Types.Recalled
import ModuleAtlas.Proofs.Types.Interfaces

/-!
# What reading adds

Reading types and binding type parameters adds cells to a session and leaves those that it has as
they are, and so does following a specifier to an export.  Only the text of a value of a type
parameter can stop it: a text that is taken for a replacement template and is none.
-/

namespace ModuleAtlas

open ModuleAtlas.Types

namespace Session

variable {tree : FileTree} {root : Path} {touched others wider : Nat → Prop}
  {session between after : Session} {generic : Prop} {α β : Type}

/-- The second session reads from the file tree, is collecting the members of the same declarations
as the first one, and has all its cells, those that were not touched as they were. -/
structure Adds
    (tree : FileTree) (root : Path) (touched : Nat → Prop) (session after : Session) : Prop where
  fromTree : FromTree tree root after
  expanding : after.expanding = session.expanding
  size : session.cells.size ≤ after.cells.size
  cells : ∀ index < session.cells.size, ¬touched index → after.cell index = session.cell index

theorem Adds.refl (fromTree : FromTree tree root session) :
    Adds tree root touched session session :=
  ⟨fromTree, rfl, Nat.le_refl _, fun _ _ _ => rfl⟩

/-- What is touched later either may be touched or is new. -/
theorem Adds.trans (first : Adds tree root touched session between)
    (second : Adds tree root others between after)
    (allowed : ∀ index < session.cells.size, others index → touched index) :
    Adds tree root touched session after := by
  refine ⟨second.fromTree, second.expanding.trans first.expanding,
    Nat.le_trans first.size second.size, fun index old untouched => ?_⟩
  rw [second.cells index (Nat.lt_of_lt_of_le old first.size) fun isOther =>
    untouched (allowed index old isOther), first.cells index old untouched]

theorem Adds.mono (adds : Adds tree root touched session after)
    (allowed : ∀ index < session.cells.size, touched index → wider index) :
    Adds tree root wider session after :=
  ⟨adds.fromTree, adds.expanding, adds.size, fun index old untouched =>
    adds.cells index old fun isTouched => untouched (allowed index old isTouched)⟩

/-- A run that touches no linked cells touches none that were there. -/
theorem Touches.adds {more : Links} (touches : Touches .empty more session after)
    (fromTree : FromTree tree root after) :
    Adds tree root touched session after := by
  refine ⟨fromTree, touches.expanding, touches.cells.grows, fun index old _ => ?_⟩
  have kept := touches.cells.kept index old fun _ => id
  unfold cell
  rw [Array.getD_eq_getD_getElem?, kept, Array.getD_eq_getD_getElem?]

/-- A changed cell is touched. -/
theorem Adds.modify {changed : Nat} (adds : Adds tree root touched session after)
    (allowed : changed < session.cells.size → touched changed) (change : Cell → Cell) :
    Adds tree root touched session
      { after with cells := after.cells.modify changed change } := by
  refine ⟨adds.fromTree.of_eq rfl rfl, adds.expanding, ?_, fun index old untouched => ?_⟩
  · rw [Array.size_modify]
    exact adds.size
  · rw [← adds.cells index old untouched]
    unfold cell
    rw [Array.getD_eq_getD_getElem?, Array.getD_eq_getD_getElem?, Array.getElem?_modify, if_neg]
    rintro rfl
    exact untouched (allowed old)

/-- What stops reading under values of type parameters: a replacement is refused, by a template with
a backslash. -/
inductive Refusal (generic : Prop) : Failure → Prop where
  | replacement {expression : Regex.Expression} {template text : String} {fault : Regex.Fault}
      (allowed : generic)
      (escaped : '\\' ∈ template.toList)
      (refused : expression.replace template text = .error fault) :
      Refusal generic (.replacement fault)

/-- From every session that reads from the file tree a task adds to the session, or is stopped by a
value of a type parameter. -/
def Additive (tree : FileTree) (root : Path) (generic : Prop) (task : Task Session α) : Prop :=
  ∀ journal, FromTree tree root journal.state →
    Task.Comes tree (Refusal generic) journal task fun _ after =>
      Adds tree root (fun _ => False) journal.state after.state

theorem additive_pure (value : α) : Additive tree root generic (pure value) :=
  fun _ fromTree => Task.comes_pure (.refl fromTree)

theorem Additive.bind {task : Task Session α} {next : α → Task Session β}
    (first : Additive tree root generic task)
    (second : ∀ value, Additive tree root generic (next value)) :
    Additive tree root generic (task >>= next) := by
  intro journal fromTree
  refine (first journal fromTree).bind fun value between adds => ?_
  refine (second value between adds.fromTree).imp fun _ _ _ further => ?_
  exact adds.trans further fun _ _ => id

theorem sequential_additive : Sequential fun _ => Additive tree root generic :=
  ⟨additive_pure, .bind⟩

theorem adds_allocated {journal : Journal Session} (fromTree : FromTree tree root journal.state) :
    Adds tree root touched journal.state (allocated journal).state := by
  refine ⟨fromTree.of_eq rfl rfl, rfl, ?_, fun index old _ => ?_⟩
  · exact Nat.le_of_lt (by simp [allocated])
  · unfold cell allocated
    rw [Array.getD_eq_getD_getElem?, Array.getD_eq_getD_getElem?, Array.getElem?_push,
      if_neg (Nat.ne_of_lt old)]

/-- Reading in a scope adds to a session. -/
theorem reads_additive {scope : Scope TypeTerm} (allowed : scope.parameters ≠ [] → generic) :
    Reads (fun _ => Additive tree root generic) scope where
  toSequential := sequential_additive
  newCell := fun _ fromTree => Task.comes_of_ok rfl (adds_allocated fromTree)
  codeOf node := by
    unfold codeOf
    split
    · exact additive_pure _
    · rename_i fault refused
      intro journal _
      obtain ⟨_, _, _, replaced⟩ := exists_of_substituted_error refused
      refine Task.comes_of_error rfl (.replacement (allowed ?_)
        (Regex.Expression.escaped_of_replace_error replaced) replaced)
      intro none
      rw [none] at refused
      cases refused

/-- What settles, and what is followed by itself whatever cells are linked, comes to its outcome and
touches no cell. -/
theorem comes_of_settles
    {task : Task Session α} {value : α} {journal : Journal Session} {cause : Failure → Prop}
    {relation : Links → α → α → Prop}
    (settles : Task.Settles tree (FromTree tree root) task (.ok value))
    (followed : Followed (.same tree root) .empty relation task task)
    (fromTree : FromTree tree root journal.state) :
    Task.Comes tree cause journal task fun found after =>
      found = value ∧ Adds tree root (fun _ => False) journal.state after.state := by
  obtain ⟨after, ran, afterFromTree⟩ := settles journal fromTree
  obtain ⟨_, _, _, _, touches, _, _⟩ :=
    followed.answers (matches_alone fromTree) ran
  exact Task.comes_of_ok ran ⟨rfl, touches.adds afterFromTree⟩

/-! ## Declarations -/

/-- Binding type parameters adds to a session. -/
theorem additive_bindParameters (source : SourceModule) (pending : Nat) {parameters : List Node}
    (allowed : parameters ≠ [] → generic)
    (bound : List (String × TypeTerm)) (arguments : List TypeTerm) :
    Additive tree root generic (bindParameters source pending bound arguments parameters) := by
  induction parameters generalizing bound arguments with
  | nil => cases arguments <;> exact additive_pure _
  | cons parameter rest ih =>
    have isGeneric := allowed (List.cons_ne_nil _ _)
    cases arguments with
    | cons argument arguments => exact ih (fun _ => isGeneric) _ arguments
    | nil =>
      unfold bindParameters
      split
      · refine Additive.bind (reads_typeOf (reads_additive fun _ => isGeneric) _) fun _ => ?_
        exact ih (fun _ => isGeneric) _ []
      · exact ih (fun _ => isGeneric) bound []

/-- A change of the lists of parameter values only. -/
theorem additive_update {change : Session → Session}
    (sameCells : ∀ session, (change session).cells = session.cells)
    (sameModules : ∀ session, (change session).modules = session.modules)
    (sameResolver : ∀ session, (change session).resolver = session.resolver)
    (sameExpanding : ∀ session, (change session).expanding = session.expanding) :
    Additive tree root generic (Task.update change) := by
  intro journal fromTree
  refine Task.comes_of_ok rfl ⟨fromTree.of_eq (sameModules _) (sameResolver _),
    sameExpanding _, Nat.le_of_eq (congrArg Array.size (sameCells _).symm), fun index _ _ => ?_⟩
  unfold cell
  rw [sameCells]

theorem additive_scopeOf {node : Node} (allowed : typeParameters node ≠ [] → generic)
    (source : SourceModule) (arguments : List TypeTerm) :
    Additive tree root generic (scopeOf node source arguments) := by
  have lists : Additive tree root generic newParameterList := by
    refine Additive.bind (fun _ fromTree => Task.comes_of_ok rfl (.refl fromTree)) fun _ => ?_
    refine Additive.bind ?_ fun _ => additive_pure _
    exact additive_update (fun _ => rfl) (fun _ => rfl) (fun _ => rfl) fun _ => rfl
  refine lists.bind fun pending => ?_
  refine (additive_bindParameters source pending allowed _ _).bind fun bound => ?_
  refine Additive.bind ?_ fun _ => additive_pure _
  exact additive_update (fun _ => rfl) (fun _ => rfl) (fun _ => rfl) fun _ => rfl

end Session

namespace Types

variable {tree : FileTree} {root : Path}

/-- Only type parameters are bound. -/
theorem returns_bindParameters (source : SourceModule) (pending : Nat)
    (bound : List (String × TypeTerm)) (arguments : List TypeTerm) (parameters : List Node) :
    Task.Returns (bindParameters source pending bound arguments parameters) fun found =>
      ∀ name ∈ found.map Prod.fst,
        name ∈ bound.map Prod.fst ∨ name ∈ parameters.map parameterName := by
  have put : ∀ (parameter : Node) (rest : List Node) (value : TypeTerm)
      (bound : List (String × TypeTerm)) (name : String),
      name ∈ (Keyed.put (parameterName parameter) value bound).map Prod.fst ∨
        name ∈ rest.map parameterName →
      name ∈ bound.map Prod.fst ∨ name ∈ (parameter :: rest).map parameterName := by
    intro parameter rest value bound name known
    rw [List.map_cons, List.mem_cons]
    refine known.elim (fun member => ?_) fun member => .inr (.inr member)
    induction bound with
    | nil => exact .inr (.inl (by simpa [Keyed.put] using member))
    | cons entry others ih =>
      rw [Keyed.put] at member
      split at member
      · exact .inl member
      · rw [List.map_cons, List.mem_cons] at member ⊢
        rcases member with here | later
        · exact .inl (.inl here)
        · exact (ih (.inl later) later).imp_left .inr
  induction parameters generalizing bound arguments with
  | nil => cases arguments <;> exact Task.returns_pure fun _ => .inl
  | cons parameter rest ih =>
    cases arguments with
    | cons argument arguments =>
      intro tree journal found after ran name member
      have known := ih _ arguments tree journal found after ran name member
      exact put _ _ _ _ _ known
    | nil =>
      unfold bindParameters
      split
      · refine (Task.returns_any _).bind fun type _ => ?_
        intro tree journal found after ran name member
        exact put _ _ _ _ _ (ih _ [] tree journal found after ran name member)
      · intro tree journal found after ran name member
        have known := ih bound [] tree journal found after ran name member
        exact known.imp_right (List.mem_cons_of_mem _)

/-- The scope inside a declaration has values for its type parameters only. -/
theorem returns_scopeOf_parameters
    (node : Node) (source : SourceModule) (arguments : List TypeTerm) :
    Task.Returns (scopeOf node source arguments) fun scope =>
      scope.source = source ∧ scope.pending = none ∧
        ∀ name ∈ scope.parameters.map Prod.fst, name ∈ (typeParameters node).map parameterName := by
  refine (Task.returns_any _).bind fun pending _ => ?_
  refine (returns_bindParameters source pending [] arguments _).bind fun bound names => ?_
  refine (Task.returns_any _).bind fun _ _ => Task.returns_pure ⟨rfl, rfl, fun name member => ?_⟩
  exact (names name member).resolve_left List.not_mem_nil

end Types
end ModuleAtlas
