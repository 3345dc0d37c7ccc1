import ModuleAtlas.Catalogue
import ModuleAtlas.Proofs.Types.Closed

/-!
# What holds of all describing

A property of tasks that the steps of reading have, and that sequences of tasks keep, holds of
shapes and of declaration texts as well: cleaning a text refuses what reading a type refuses, and
the number of expansions left is no matter of the session.
-/

namespace ModuleAtlas

open ModuleAtlas.Types

variable {holds : ∀ α : Type, Task Session α → Prop} {α β : Type}

namespace Expansion

/-- A property that all runs of an expansion have, with however many expansions left. -/
def Throughout (holds : ∀ α : Type, Task Session α → Prop) (expansion : Expansion α) : Prop :=
  ∀ before, holds (α × Nat) (expansion before)

variable (closed : Closed holds)

include closed

theorem throughout_pure (value : α) : Throughout holds (pure value) :=
  fun before => closed.pure (value, before)

theorem Throughout.bind {expansion : Expansion α} {next : α → Expansion β}
    (first : Throughout holds expansion) (second : ∀ value, Throughout holds (next value)) :
    Throughout holds (expansion >>= next) :=
  fun before => closed.bind (first before) fun answer => second answer.1 answer.2

theorem Throughout.map {expansion : Expansion α} {image : α → β}
    (first : Throughout holds expansion) :
    Throughout holds (do return image (← expansion)) :=
  first.bind closed fun _ => throughout_pure closed _

theorem throughout_lift {task : Task Session α} (ofTask : holds _ task) :
    Throughout holds (liftM task) :=
  fun _ => closed.map ofTask

/-- An expansion after a task. -/
theorem throughout_after {task : Task Session α} {next : α → Expansion β} (ofTask : holds _ task)
    (second : ∀ value, Throughout holds (next value)) :
    Throughout holds (liftM task >>= next) :=
  (throughout_lift closed ofTask).bind closed second

theorem throughout_spend : Throughout holds spend := by
  intro before
  cases before with
  | zero => exact closed.pure _
  | succ before => exact closed.pure _

theorem holds_run' {expansion : Expansion α} (throughout : Throughout holds expansion)
    (before : Nat) :
    holds _ (expansion.run' before) := by
  change holds _ (Prod.fst <$> expansion before)
  rw [map_eq_pure_bind]
  exact closed.map (throughout before)

end Expansion

namespace Simplifier

open Expansion

variable {simplifier : Simplifier} {levels : Nat} {simplify : TypeTerm → Expansion Shape}
  (closed : Closed holds)

/-- The cleaner refuses only what one of its rules refuses. -/
theorem exists_of_applyRules_error
    {rules : List (Regex.Expression × String)} {text : String} {fault : Regex.Fault}
    (refused : Shape.Cleaner.applyRules text rules = .error fault) :
    ∃ expression template subject,
      Regex.Expression.replace expression template subject = .error fault := by
  induction rules generalizing text with
  | nil => cases refused
  | cons rule rest ih =>
    obtain ⟨expression, replacement⟩ := rule
    unfold Shape.Cleaner.applyRules at refused
    split at refused
    · exact ih refused
    · rename_i replaced
      cases refused
      exact ⟨_, _, _, replaced⟩

include closed

theorem holds_clean (simplifier : Simplifier) (text : String) :
    holds _ (simplifier.clean text) := by
  unfold clean Shape.Cleaner.clean
  cases applied : Shape.Cleaner.applyRules
      (Shape.moduleQualifier.replaceBy "" text) simplifier.cleaner.rules with
  | ok cleaned => exact closed.pure _
  | error fault =>
    obtain ⟨_, _, _, refused⟩ := exists_of_applyRules_error applied
    exact closed.refuse refused

theorem holds_nameOf (simplifier : Simplifier) (type : TypeTerm) (text : String) :
    holds _ (simplifier.nameOf type text) :=
  closed.bind (holds_symbolOf closed type) fun _ => closed.map (holds_clean closed simplifier _)

theorem holds_patternProperties (parameter : Parameter TypeTerm) :
    holds _ (patternProperties parameter) := by
  refine closed.bind (holds_isObject closed parameter.type) fun isObject => ?_
  split
  · exact closed.map (holds_propertiesOf closed parameter.type)
  · exact closed.map (closed.pure [])

theorem holds_shownParameters (signature : Signature TypeTerm) :
    holds _ (shownParameters signature) := by
  unfold shownParameters
  split
  · split
    · exact closed.pure _
    · refine closed.bind (holds_patternProperties closed _) fun properties => ?_
      split
      · exact closed.pure _
      · exact closed.pure _
  · exact closed.pure _

/-! ## Shapes -/

section Parts

variable (throughout : ∀ type, Throughout holds (simplify type))

include throughout

theorem throughout_each (types : List TypeTerm) : Throughout holds (each simplify types) := by
  induction types with
  | nil => exact throughout_pure closed _
  | cons type rest ih =>
    exact (throughout type).bind closed fun _ => ih.map closed

theorem throughout_eachNamed (types : List (String × TypeTerm)) :
    Throughout holds (eachNamed simplify types) := by
  induction types with
  | nil => exact throughout_pure closed _
  | cons type rest ih =>
    exact (throughout type.2).bind closed fun _ => ih.map closed

theorem throughout_functionShape (signature : Signature TypeTerm) :
    Throughout holds (functionShape simplify signature) := by
  refine throughout_after closed (holds_shownParameters closed signature) fun parameters => ?_
  refine (throughout_eachNamed closed throughout parameters).bind closed fun _ => ?_
  exact (throughout signature.returns).map closed

theorem throughout_objectShape (type target : TypeTerm) :
    Throughout holds (simplifier.objectShape levels simplify type target) := by
  refine throughout_after closed (holds_propertiesOf closed target) fun properties => ?_
  split
  · exact throughout_pure closed _
  · refine throughout_after closed (holds_symbolOf closed type) fun name => ?_
    dsimp only
    split
    · exact throughout_pure closed _
    · exact (throughout_eachNamed closed throughout _).map closed

theorem throughout_expand {simplifySignature : Signature TypeTerm → Expansion Shape}
    (throughoutSignature : ∀ signature, Throughout holds (simplifySignature signature))
    (type target : TypeTerm) :
    Throughout holds (simplifier.expand levels simplify simplifySignature type target) := by
  unfold expand
  split
  · exact throughout_pure closed _
  · exact throughout_pure closed _
  · exact (throughout _).map closed
  · exact (throughout_each closed throughout _).map closed
  · exact (throughout_each closed throughout _).map closed
  · exact (throughout_each closed throughout _).map closed
  · exact throughout_objectShape closed throughout type _
  · exact throughoutSignature _
  all_goals exact (throughout_lift closed (holds_clean closed simplifier _)).map closed

end Parts

/-- What holds of the steps of the simplifier holds of all of it, level by level. -/
theorem throughout_shapeAt (simplifier : Simplifier) (levels : Nat) :
    (∀ visited type, Throughout holds (simplifier.shapeAt levels visited type)) ∧
      ∀ visited signature, Throughout holds (simplifier.signatureAt levels visited signature) := by
  induction levels with
  | zero => exact ⟨fun _ _ => throughout_pure closed _, fun _ _ => throughout_pure closed _⟩
  | succ levels ih =>
    obtain ⟨types, signatures⟩ := ih
    refine ⟨fun visited type => ?_, fun visited =>
      throughout_functionShape closed (types visited)⟩
    unfold shapeAt
    dsimp only
    split
    · exact throughout_lift closed (holds_nameOf closed simplifier type _)
    split
    · exact throughout_pure closed _
    split
    · exact throughout_pure closed _
    refine (throughout_spend closed).bind closed fun granted => ?_
    split
    · exact throughout_after closed (holds_structureOf closed type) fun target =>
        throughout_expand closed (types _) (signatures _) type target
    · exact throughout_lift closed (holds_nameOf closed simplifier type _)

theorem holds_simplify
    (simplifier : Simplifier) (depth : Int) (visited : List String) (type : TypeTerm) :
    holds _ (simplifier.simplify depth visited type) :=
  holds_run' closed ((throughout_shapeAt closed simplifier _).1 visited type) _

theorem holds_simplifySignature (simplifier : Simplifier) (depth : Int) (visited : List String)
    (signature : Signature TypeTerm) :
    holds _ (simplifier.simplifySignature depth visited signature) :=
  holds_run' closed ((throughout_shapeAt closed simplifier _).2 visited signature) _

end Simplifier

/-! ## Descriptions -/

namespace Catalogue

variable (closed : Closed holds)

include closed

variable (simplifier : Simplifier) (declaration : Declaration) (source : SourceModule)

include simplifier declaration source

theorem holds_functionText :
    holds _ (functionText simplifier declaration source) := by
  refine closed.bind (holds_signature closed _ _) fun signature => ?_
  refine closed.bind (closed.mapM (fun parameter => ?_) _) fun parameters => ?_
  · exact closed.map (simplifier.holds_clean closed _)
  · exact closed.map (simplifier.holds_clean closed _)

/-- What holds of the steps of the simplifier holds of an export's text. -/
theorem holds_declarationText :
    holds _ (declarationText simplifier declaration source) := by
  unfold declarationText
  dsimp only
  split
  · exact holds_functionText closed simplifier declaration source
  · split
    · exact closed.bind (holds_declarationType closed declaration source) fun _ =>
        closed.map (simplifier.holds_clean closed _)
    · split
      · exact closed.pure _
      · split
        · split
          · exact closed.pure _
          · exact closed.pure _
        · exact closed.pure _

theorem holds_declarationShape :
    holds _ (declarationShape simplifier declaration source) := by
  unfold declarationShape
  split
  · exact closed.bind (holds_signature closed _ _) fun _ =>
      simplifier.holds_simplifySignature closed 0 [] _
  · exact closed.bind (holds_declarationType closed declaration source) fun _ =>
      simplifier.holds_simplify closed 0 [] _

end Catalogue
end ModuleAtlas
