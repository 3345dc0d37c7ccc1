import ModuleAtlas.Shape.Simplify
import ModuleAtlas.Proofs.Task.Steady

/-!
# Expansions and the size of shapes

Runs that carry a number of expansions, and what is bought with them.
-/

namespace ModuleAtlas
namespace Expansion

/-!
## Runs of expansions

An expansion carries the number of structured types that may still be expanded.  What its runs have
in common is told by a relation between the number before a run, what the run answers and the number
after it.  Runs that fail answer nothing and are not asked about.
-/

variable {α β : Type} {expansion : Expansion α} {value : α}

/-- Every run that returns relates the number of expansions left before it to what it answers and to
the number left after it. -/
def Relates (expansion : Expansion α) (relation : Nat → α → Nat → Prop) : Prop :=
  ∀ tree journal before value left after,
    expansion before tree journal = (.ok (value, left), after) → relation before value left

theorem Relates.mono {relation wider : Nat → α → Nat → Prop}
    (relates : Relates expansion relation)
    (implied : ∀ before value left, relation before value left → wider before value left) :
    Relates expansion wider :=
  fun tree journal before value left after ran =>
    implied before value left (relates tree journal before value left after ran)

theorem relates_pure {relation : Nat → α → Nat → Prop}
    (related : ∀ left, relation left value left) :
    Relates (pure value) relation := by
  intro tree journal before found left after ran
  cases ran
  exact related before

variable {tree : FileTree} {journal after : Journal Session} {next : α → Expansion β}
  {task : Task Session α} {failure : Failure}

/-- A run of two expansions, one after the other. -/
theorem bind_returns {before left : Nat}
    {answer : β} (ran : (expansion >>= next) before tree journal = (.ok (answer, left), after)) :
    ∃ value between middle, expansion before tree journal = (.ok (value, between), middle) ∧
      next value between tree middle = (.ok (answer, left), after) := by
  obtain ⟨⟨value, between⟩, middle, started, finished⟩ := Task.exists_of_bind_eq_ok ran
  exact ⟨value, between, middle, started, finished⟩

theorem bind_of_returns
    {middle : Journal Session} {before between : Nat}
    (started : expansion before tree journal = (.ok (value, between), middle)) :
    (expansion >>= next) before tree journal = next value between tree middle :=
  Task.bind_of_ok started

/-- A run of two expansions is stopped in the first one or in the second one. -/
theorem bind_fails {before : Nat}
    (ran : (expansion >>= next) before tree journal = (.error failure, after)) :
    expansion before tree journal = (.error failure, after) ∨
      ∃ value between middle, expansion before tree journal = (.ok (value, between), middle) ∧
        next value between tree middle = (.error failure, after) := by
  cases started : expansion before tree journal with
  | mk outcome middle =>
    cases outcome with
    | error fault =>
      have ended : (expansion >>= next) before tree journal = _ := Task.bind_of_error started
      rw [ended] at ran
      cases ran
      exact .inl rfl
    | ok answer =>
      obtain ⟨value, between⟩ := answer
      rw [bind_of_returns started] at ran
      exact .inr ⟨value, between, middle, rfl, ran⟩

theorem bind_of_fails {before : Nat}
    (started : expansion before tree journal = (.error failure, after)) :
    (expansion >>= next) before tree journal = (.error failure, after) :=
  Task.bind_of_error started

theorem Relates.bind
    {first : Nat → α → Nat → Prop} {relation : Nat → β → Nat → Prop}
    (starts : Relates expansion first)
    (goesOn : ∀ value, Relates (next value) fun between answer left =>
      ∀ before, first before value between → relation before answer left) :
    Relates (expansion >>= next) relation := by
  intro tree journal before answer left after ran
  obtain ⟨value, between, middle, started, finished⟩ := bind_returns ran
  exact goesOn value tree middle between answer left after finished before
    (starts tree journal before value between middle started)

/-- Whatever an expansion answers is of a kind. -/
def Returns (expansion : Expansion α) (kind : α → Prop) : Prop :=
  Relates expansion fun _ value _ => kind value

theorem returns_pure {kind : α → Prop} (ofKind : kind value) :
    Returns (pure value) kind :=
  relates_pure fun _ => ofKind

theorem Returns.bind
    {first : α → Prop} {kind : β → Prop} (starts : Returns expansion first)
    (goesOn : ∀ value, first value → Returns (next value) kind) :
    Returns (expansion >>= next) kind := by
  intro tree journal before answer left after ran
  obtain ⟨value, between, middle, started, finished⟩ := bind_returns ran
  have ofFirst := starts tree journal before value between middle started
  exact goesOn value ofFirst tree middle between answer left after finished

theorem returns_any (expansion : Expansion α) : Returns expansion fun _ => True :=
  fun _ _ _ _ _ _ _ => trivial

/-- A task takes none of the expansions left. -/
theorem lift_returns {before left : Nat}
    (ran : (liftM task : Expansion α) before tree journal = (.ok (value, left), after)) :
    left = before ∧ task tree journal = (.ok value, after) := by
  obtain ⟨found, middle, answered, finished⟩ := Task.exists_of_bind_eq_ok ran
  cases finished
  exact ⟨rfl, answered⟩

theorem lift_of_returns
    (ran : task tree journal = (.ok value, after)) (before : Nat) :
    (liftM task : Expansion α) before tree journal = (.ok (value, before), after) :=
  Task.bind_of_ok ran

theorem lift_fails {before : Nat}
    (ran : (liftM task : Expansion α) before tree journal = (.error failure, after)) :
    task tree journal = (.error failure, after) := by
  cases started : task tree journal with
  | mk outcome middle =>
    cases outcome with
    | error fault =>
      have ended : (liftM task : Expansion α) before tree journal = _ := Task.bind_of_error started
      rw [ended] at ran
      cases ran
      rfl
    | ok value =>
      rw [lift_of_returns started before] at ran
      cases ran

theorem lift_of_fails
    (ran : task tree journal = (.error failure, after)) (before : Nat) :
    (liftM task : Expansion α) before tree journal = (.error failure, after) :=
  Task.bind_of_error ran

theorem relates_lift (task : Task Session α) :
    Relates (liftM task : Expansion α) fun before _ left => left = before :=
  fun _ _ _ _ _ _ ran => (lift_returns ran).1

theorem Relates.after_lift
    {relation : Nat → β → Nat → Prop}
    (goesOn : ∀ value, Relates (next value) relation) :
    Relates (liftM task >>= next) relation := by
  refine (relates_lift task).bind fun value => (goesOn value).mono ?_
  rintro _ _ _ related _ rfl
  exact related

/-- Spending takes one of the expansions left, unless there is none. -/
theorem relates_spend :
    Relates spend fun before granted left => before = if granted then left + 1 else left := by
  intro tree journal before granted left after ran
  cases before with
  | zero =>
    cases ran
    rfl
  | succ before =>
    cases ran
    rfl

theorem run'_returns {expansions : Nat}
    (ran : (expansion.run' expansions : Task Session α) tree journal = (.ok value, after)) :
    ∃ left, expansion expansions tree journal = (.ok (value, left), after) := by
  obtain ⟨⟨found, left⟩, returned, rfl⟩ := Task.exists_of_map_eq_ok ran
  exact ⟨left, returned⟩

theorem run'_of_returns {expansions left : Nat}
    (ran : expansion expansions tree journal = (.ok (value, left), after)) :
    (expansion.run' expansions : Task Session α) tree journal = (.ok value, after) := by
  change (Prod.fst <$> expansion expansions) tree journal = _
  rw [map_eq_pure_bind]
  exact Task.bind_of_ok ran

theorem run'_of_error {expansions : Nat}
    (ran : expansion expansions tree journal = (.error failure, after)) :
    (expansion.run' expansions : Task Session α) tree journal = (.error failure, after) := by
  change (Prod.fst <$> expansion expansions) tree journal = _
  rw [map_eq_pure_bind]
  exact Task.bind_of_error ran

theorem run'_map (image : α → β) (expansion : Expansion α) (expansions : Nat) :
    ((image <$> expansion).run' expansions : Task Session β) =
      image <$> (expansion.run' expansions : Task Session α) := by
  change Prod.fst <$> (image <$> expansion).run expansions = image <$> Prod.fst <$> _
  rw [StateT.run_map]
  simp only [Functor.map_map]
  rfl

end Expansion

namespace Simplifier

open Expansion

/-- A type is named by a reference, which takes none of the expansions left. -/
theorem relates_nameOf (simplifier : Simplifier) (type : TypeTerm) (text : String) :
    Relates (liftM (simplifier.nameOf type text) : Expansion Shape)
      fun before shape left => left = before ∧ ∃ name, shape = .reference name := by
  intro tree journal before shape left after ran
  obtain ⟨rfl, named⟩ := lift_returns ran
  obtain ⟨_, _, _, cleaned⟩ := Task.exists_of_bind_eq_ok named
  obtain ⟨name, _, _, answered⟩ := Task.exists_of_bind_eq_ok cleaned
  cases answered
  exact ⟨rfl, name, rfl⟩

/-- Named types are shown one after the other. -/
theorem eachNamed_append
    {simplify : TypeTerm → Expansion Shape} {first second : List (String × TypeTerm)}
    {before left : Nat} {tree : FileTree} {journal after : Journal Session}
    {entries : List (String × Shape)}
    (ran : eachNamed simplify (first ++ second) before tree journal =
      (.ok (entries, left), after)) :
    ∃ shown between middle rest, eachNamed simplify first before tree journal =
        (.ok (shown, between), middle) ∧
      eachNamed simplify second between tree middle = (.ok (rest, left), after) ∧
      entries = shown ++ rest := by
  induction first generalizing before journal entries with
  | nil => exact ⟨[], before, journal, entries, rfl, ran, rfl⟩
  | cons named others ih =>
    obtain ⟨name, type⟩ := named
    obtain ⟨shape, between, middle, started, goesOn⟩ := bind_returns ran
    obtain ⟨all, _, _, finished, last⟩ := bind_returns goesOn
    cases last
    obtain ⟨shown, later, finish, rest, firstRan, secondRan, rfl⟩ := ih finished
    refine ⟨(name, shape) :: shown, later, finish, rest, ?_, secondRan, rfl⟩
    exact (bind_of_returns started).trans (bind_of_returns firstRan)

end Simplifier

/-!
## The size of shapes

A shape has no more structured nodes than types were expanded for it, and these are limited.  Each
node is paid for with one of the expansions left, wherever it stands; only the shape of a signature
is made without one, and so the shape of a function type costs what the type itself was expanded
with.
-/

namespace Shape

mutual

/-- The number of structured nodes of a shape.  Names, primitive types and literals are none. -/
def structured : Shape → Nat
  | .primitive _ | .literal _ | .reference _ => 0
  | .verbatim _ => 1
  | .array element => structured element + 1
  | .tuple elements => structuredAll elements + 1
  | .function parameters returns => structuredNamed parameters + structured returns + 1
  | .union members => structuredAll members + 1
  | .intersection members => structuredAll members + 1
  | .object properties _ => structuredNamed properties + 1

/-- The number of structured nodes of some shapes. -/
def structuredAll : List Shape → Nat
  | [] => 0
  | shape :: rest => structured shape + structuredAll rest

/-- The number of structured nodes of some named shapes. -/
def structuredNamed : List (String × Shape) → Nat
  | [] => 0
  | (_, shape) :: rest => structured shape + structuredNamed rest

end

end Shape

namespace Simplifier

open Expansion Shape ModuleAtlas.Types

variable {α β : Type}

/-- Every run of an expansion pays for what it answers, a given part of the price apart. -/
def Pays (owed : Nat) (price : α → Nat) (expansion : Expansion α) : Prop :=
  Relates expansion fun before value left => price value + left ≤ before + owed

theorem pays_pure {owed : Nat} {price : α → Nat} {value : α} (affordable : price value ≤ owed) :
    Pays owed price (pure value) :=
  relates_pure fun left => by omega

/-- A node around parts that are paid for owes its own price. -/
theorem Pays.node {price : α → Nat} {expansion : Expansion α} {image : α → Shape}
    (pays : Pays 0 price expansion) (priced : ∀ value, structured (image value) = price value + 1) :
    Pays 1 structured (do return image (← expansion)) := by
  refine Relates.bind pays fun value => relates_pure fun left before paid => ?_
  rw [priced value]
  omega

theorem Pays.after_lift
    {owed : Nat} {price : β → Nat} {task : Task Session α} {next : α → Expansion β}
    (pays : ∀ value, Pays owed price (next value)) :
    Pays owed price (liftM task >>= next) :=
  Relates.after_lift pays

/-! ### Lists of shapes -/

section Parts

variable {simplify : TypeTerm → Expansion Shape}

theorem pays_each (pays : ∀ type, Pays 0 structured (simplify type)) :
    ∀ types, Pays 0 structuredAll (each simplify types)
  | [] => pays_pure (Nat.le_refl 0)
  | type :: rest => by
    refine Relates.bind (pays type) fun shape => ?_
    refine Relates.bind (pays_each pays rest) fun shapes => ?_
    refine relates_pure fun left between restPaid before paid => ?_
    simp only [structuredAll]
    omega

theorem pays_eachNamed (pays : ∀ type, Pays 0 structured (simplify type)) :
    ∀ types, Pays 0 structuredNamed (eachNamed simplify types)
  | [] => pays_pure (Nat.le_refl 0)
  | (name, type) :: rest => by
    refine Relates.bind (pays type) fun shape => ?_
    refine Relates.bind (pays_eachNamed pays rest) fun shapes => ?_
    refine relates_pure fun left between restPaid before paid => ?_
    simp only [structuredNamed]
    omega

/-! ### One level -/

/-- The shape of a signature is not paid for by itself. -/
theorem pays_functionShape (pays : ∀ type, Pays 0 structured (simplify type))
    (signature : Signature TypeTerm) :
    Pays 1 structured (functionShape simplify signature) := by
  refine Pays.after_lift fun parameters => ?_
  refine Relates.bind (pays_eachNamed pays parameters) fun shapes => ?_
  refine Relates.bind (pays signature.returns) fun returns => ?_
  refine relates_pure fun left between returnsPaid before paid => ?_
  simp only [structured]
  omega

variable {simplifier : Simplifier} {levels : Nat}

theorem pays_objectShape (pays : ∀ type, Pays 0 structured (simplify type))
    (type target : TypeTerm) :
    Pays 1 structured (simplifier.objectShape levels simplify type target) := by
  refine Pays.after_lift fun properties => ?_
  split
  · exact pays_pure (Nat.le_refl 1)
  · refine Pays.after_lift fun name => ?_
    dsimp only
    split
    · exact pays_pure (Nat.zero_le 1)
    · exact (pays_eachNamed pays _).node fun _ => rfl

/-- The shape of an expanded type owes what the expansion of the type itself pays for. -/
theorem pays_expand {simplifySignature : Signature TypeTerm → Expansion Shape}
    (pays : ∀ type, Pays 0 structured (simplify type))
    (owes : ∀ signature, Pays 1 structured (simplifySignature signature)) (type target : TypeTerm) :
    Pays 1 structured (simplifier.expand levels simplify simplifySignature type target) := by
  have verbatim : ∀ text, Pays 1 structured (do
      return Shape.verbatim (← simplifier.clean text)) :=
    fun text => Pays.after_lift fun _ => pays_pure (Nat.le_refl 1)
  cases target with
  | primitive name => exact pays_pure (Nat.zero_le 1)
  | literal value => exact pays_pure (Nat.zero_le 1)
  | verbatim code => exact verbatim _
  | array element => exact (pays element).node fun _ => rfl
  | tuple elements => exact (pays_each pays elements).node fun _ => rfl
  | union label members => exact (pays_each pays members).node fun _ => rfl
  | intersection label members => exact (pays_each pays members).node fun _ => rfl
  | object cell code name source => exact pays_objectShape pays type _
  | reference cell code name scope arguments => exact verbatim _
  | function label signatures =>
    cases signatures with
    | nil => exact verbatim _
    | cons signature rest => exact owes signature

end Parts

/-! ### All levels -/

theorem pays_nameOf (simplifier : Simplifier) (type : TypeTerm) (text : String) :
    Pays 0 structured (liftM (simplifier.nameOf type text) : Expansion Shape) := by
  refine (simplifier.relates_nameOf type text).mono ?_
  rintro before shape left ⟨rfl, name, rfl⟩
  exact Nat.le_of_eq (Nat.zero_add _)

/-- Level by level, a shape's nodes are paid from the budget, and a signature owes one more. -/
theorem pays_shapeAt (simplifier : Simplifier) (levels : Nat) :
    (∀ visited type, Pays 0 structured (simplifier.shapeAt levels visited type)) ∧
      ∀ visited signature, Pays 1 structured (simplifier.signatureAt levels visited signature) := by
  induction levels with
  | zero => exact ⟨fun _ _ => pays_pure (Nat.le_refl 0), fun _ _ => pays_pure (Nat.zero_le 1)⟩
  | succ levels ih =>
    obtain ⟨types, signatures⟩ := ih
    refine ⟨fun visited type => ?_, fun visited => pays_functionShape (types visited)⟩
    unfold shapeAt
    dsimp only
    split
    · exact pays_nameOf simplifier type _
    split
    · exact pays_pure (Nat.le_refl 0)
    split
    · exact pays_pure (Nat.le_refl 0)
    refine relates_spend.bind fun granted => ?_
    cases granted with
    | true =>
      refine Relates.after_lift fun target => ?_
      refine (pays_expand (types _) (signatures _) type target).mono ?_
      intro between shape left paid before spent
      simp only [if_true] at spent
      omega
    | false =>
      refine (pays_nameOf simplifier type _).mono ?_
      intro between shape left paid before spent
      simp only [Bool.false_eq_true, if_false] at spent
      omega

/-! ### Whole shapes -/

/-- A shape has at most as many structured nodes as the settings let types be expanded, in all its
branches together; the shape of a signature may have one more, its root. -/
theorem structured_le_maxNodes (simplifier : Simplifier) (depth : Int) (visited : List String)
    (tree : FileTree) (journal after : Journal Session) (shape : Shape) :
    (∀ type, simplifier.simplify depth visited type tree journal = (.ok shape, after) →
      (shape.structured : Int) ≤ max simplifier.settings.maxNodes 0) ∧
    ∀ signature,
      simplifier.simplifySignature depth visited signature tree journal = (.ok shape, after) →
      (shape.structured : Int) ≤ max simplifier.settings.maxNodes 0 + 1 := by
  have available : (simplifier.expansions : Int) = max simplifier.settings.maxNodes 0 :=
    Int.toNat_eq_max _
  obtain ⟨types, signatures⟩ := simplifier.pays_shapeAt (simplifier.levelsAt depth)
  constructor
  · intro type ran
    obtain ⟨left, returned⟩ := run'_returns ran
    have paid := types visited type tree journal _ shape left after returned
    omega
  · intro signature ran
    obtain ⟨left, returned⟩ := run'_returns ran
    have paid := signatures visited signature tree journal _ shape left after returned
    omega

/-! ### A type inside itself -/

/-- A list type, known by its cell: the members that the cell holds mention the type again. -/
def listType : TypeTerm := .object 0 "List" (some "List") (.known .none)

/-- A session that has collected the members of the list type: further lists, and two rows. -/
def listSession : Session where
  modules := []
  resolver := .fresh (.ofRoot [])
  cells := #[⟨none, none, some ⟨[⟨"more", true, .array listType⟩,
    ⟨"rows", false, .tuple [.array any, .array any]⟩], []⟩⟩]
  parameterLists := #[]
  expanding := []

/-- A simplifier that expands four types, one fewer than the list type has. -/
def fourNodes : Simplifier :=
  .ofSettings { Settings.default with maxNodes := 4, wrapperRules := [] }

/-- The limit is reached by the list type, and by a signature that takes one. -/
theorem list_reaches_limit :
    (∃ shape after, fourNodes.simplify 0 [] listType default ⟨listSession, []⟩ =
        (.ok shape, after) ∧ shape.structured = 4 ∧ (shape.structured : Int) ≤ max 4 0) ∧
    ∃ shape after, fourNodes.simplifySignature 0 []
        ⟨[plainParameter "list" listType false], any⟩ default ⟨listSession, []⟩ =
        (.ok shape, after) ∧ shape.structured = 5 ∧ (shape.structured : Int) ≤ max 4 0 + 1 := by
  constructor
  · have answers : ((fourNodes.simplify 0 [] listType).outcomeFrom default listSession).map
        structured = .ok 4 := by decide +kernel
    obtain ⟨shape, after, ran, size⟩ := Task.exists_of_outcomeFrom answers
    exact ⟨shape, after, ran, size,
      (structured_le_maxNodes fourNodes 0 [] default _ after shape).1 listType ran⟩
  · have answers : ((fourNodes.simplifySignature 0 []
        ⟨[plainParameter "list" listType false], any⟩).outcomeFrom default listSession).map
        structured = .ok 5 := by decide +kernel
    obtain ⟨shape, after, ran, size⟩ := Task.exists_of_outcomeFrom answers
    exact ⟨shape, after, ran, size,
      (structured_le_maxNodes fourNodes 0 [] default _ after shape).2 _ ran⟩

end Simplifier
end ModuleAtlas
