import ModuleAtlas.Proofs.Shape.Budget
import ModuleAtlas.Proofs.Shape.Closed

/-!
# Shapes that show less

A shape abridges another one when it is the same apart from parts that it shows by name.  Limits on
the number of properties also cut lists of properties to the first ones, which a shape tells.

What is shown by name has to be cleaned, and cleaning fails for every text as soon as one of the
replacements cannot be read, since a replacement is read before anything is searched for.
-/

namespace ModuleAtlas

/-! ## Abridged shapes -/

/-- The first shape is the second one with some parts shown by name and, where lists may be
shortened, with fewer properties in objects that tell so. -/
inductive Shape.Abridges (shortens : Prop) : Shape → Shape → Prop where
  | named {text : String} {shape : Shape} : Abridges shortens (.reference text) shape
  | primitive {text : String} : Abridges shortens (.primitive text) (.primitive text)
  | literal {text : String} : Abridges shortens (.literal text) (.literal text)
  | verbatim {text : String} : Abridges shortens (.verbatim text) (.verbatim text)
  | array {element other : Shape}
      (related : Abridges shortens element other) :
      Abridges shortens (.array element) (.array other)
  | tuple {elements others : List Shape}
      (related : Listwise (Abridges shortens) elements others) :
      Abridges shortens (.tuple elements) (.tuple others)
  | function {parameters others : List (String × Shape)} {returns other : Shape}
      (parametersRelated : Listwise (Named (Abridges shortens)) parameters others)
      (returnsRelated : Abridges shortens returns other) :
      Abridges shortens (.function parameters returns) (.function others other)
  | union {members others : List Shape}
      (related : Listwise (Abridges shortens) members others) :
      Abridges shortens (.union members) (.union others)
  | intersection {members others : List Shape}
      (related : Listwise (Abridges shortens) members others) :
      Abridges shortens (.intersection members) (.intersection others)
  | object {properties others : List (String × Shape)} {truncated : Bool}
      (related : Listwise (Named (Abridges shortens)) properties others) :
      Abridges shortens (.object properties truncated) (.object others truncated)
  | shortened {properties others : List (String × Shape)} {next : String × Shape}
      {rest : List (String × Shape)} {truncated : Bool}
      (allowed : shortens)
      (related : Listwise (Named (Abridges shortens)) properties others) :
      Abridges shortens (.object properties true) (.object (others ++ next :: rest) truncated)

namespace Shape

variable {shortens : Prop}

mutual

/-- Nothing needs to be left out. -/
theorem abridges_refl : ∀ shape, Abridges shortens shape shape
  | .primitive _ => .primitive
  | .literal _ => .literal
  | .reference _ => .named
  | .verbatim _ => .verbatim
  | .array element => .array (abridges_refl element)
  | .tuple elements => .tuple (abridge_refl elements)
  | .function parameters returns =>
    .function (abridgeNamed_refl parameters) (abridges_refl returns)
  | .union members => .union (abridge_refl members)
  | .intersection members => .intersection (abridge_refl members)
  | .object properties _ => .object (abridgeNamed_refl properties)

theorem abridge_refl : ∀ shapes, Listwise (Abridges shortens) shapes shapes
  | [] => .nil
  | shape :: rest => .cons (abridges_refl shape) (abridge_refl rest)

theorem abridgeNamed_refl : ∀ entries, Listwise (Named (Abridges shortens)) entries entries
  | [] => .nil
  | (_, shape) :: rest => .cons ⟨abridges_refl shape⟩ (abridgeNamed_refl rest)

end

theorem structuredNamed_append (entries others : List (String × Shape)) :
    structuredNamed (entries ++ others) = structuredNamed entries + structuredNamed others := by
  induction entries with
  | nil => exact (Nat.zero_add _).symm
  | cons entry rest ih =>
    simp only [List.cons_append, structuredNamed, ih]
    omega

mutual

/-- A shape that abridges another one has no more structured nodes. -/
theorem Abridges.structured_le : ∀ {shape whole : Shape}, shape.Abridges shortens whole →
    shape.structured ≤ whole.structured
  | .primitive _, _, .primitive | .literal _, _, .literal | .verbatim _, _, .verbatim =>
    Nat.le_refl _
  | .reference _, _, .named => Nat.zero_le _
  | .array _, _, .array element => Nat.succ_le_succ element.structured_le
  | .tuple _, _, .tuple elements => Nat.succ_le_succ (structuredAll_le elements)
  | .union _, _, .union members => Nat.succ_le_succ (structuredAll_le members)
  | .intersection _, _, .intersection members => Nat.succ_le_succ (structuredAll_le members)
  | .function _ _, _, .function parameters returns =>
    Nat.succ_le_succ (Nat.add_le_add (structuredNamed_le parameters) returns.structured_le)
  | .object _ _, _, .object properties => Nat.succ_le_succ (structuredNamed_le properties)
  | .object _ _, _, .shortened _ properties => by
    have fewer := structuredNamed_le properties
    simp only [structured, structuredNamed_append]
    omega

theorem structuredAll_le : ∀ {shapes wholes : List Shape},
    Listwise (Abridges shortens) shapes wholes → structuredAll shapes ≤ structuredAll wholes
  | [], _, .nil => Nat.le_refl _
  | _ :: _, _, .cons head tail => Nat.add_le_add head.structured_le (structuredAll_le tail)

theorem structuredNamed_le : ∀ {entries wholes : List (String × Shape)},
    Listwise (Named (Abridges shortens)) entries wholes →
      structuredNamed entries ≤ structuredNamed wholes
  | [], _, .nil => Nat.le_refl _
  | (_, _) :: _, _, .cons ⟨head⟩ tail =>
    Nat.add_le_add head.structured_le (structuredNamed_le tail)

end

end Shape

/-! ## Cleaners that can be used -/

namespace Shape.Cleaner

/-- The replacements of a cleaner can be read. -/
def Usable (cleaner : Cleaner) : Prop :=
  ∀ rule ∈ cleaner.rules, ∃ parts,
    Regex.Template.parts rule.1 (rule.2.toList.length + 1) rule.2.toList = .ok parts

/-- Rules whose replacements can be read are applied to every text. -/
theorem applyRules_of_readable {rules : List (Regex.Expression × String)}
    (readable : ∀ rule ∈ rules, ∃ parts,
      Regex.Template.parts rule.1 (rule.2.toList.length + 1) rule.2.toList = .ok parts)
    (text : String) :
    ∃ cleaned, applyRules text rules = .ok cleaned := by
  induction rules generalizing text with
  | nil => exact ⟨text, rfl⟩
  | cons rule rest ih =>
    obtain ⟨⟨parts, read⟩, restReadable⟩ := List.forall_mem_cons.mp readable
    unfold applyRules Regex.Expression.replace
    dsimp only
    rw [read]
    exact ih restReadable _

/-- Where the rules were applied, all their replacements can be read. -/
theorem readable_of_applyRules {rules : List (Regex.Expression × String)} {text cleaned : String}
    (applied : applyRules text rules = .ok cleaned) :
    ∀ rule ∈ rules, ∃ parts,
      Regex.Template.parts rule.1 (rule.2.toList.length + 1) rule.2.toList = .ok parts := by
  induction rules generalizing text with
  | nil => exact fun _ member => absurd member List.not_mem_nil
  | cons rule rest ih =>
    unfold applyRules Regex.Expression.replace at applied
    dsimp only at applied
    cases read : Regex.Template.parts rule.1 (rule.2.toList.length + 1) rule.2.toList with
    | error fault =>
      rw [read] at applied
      cases applied
    | ok parts =>
      rw [read] at applied
      exact List.forall_mem_cons.mpr ⟨⟨parts, read⟩, ih applied⟩

/-- A cleaner can be used when it cleans some text, and then it cleans every text. -/
theorem usable_iff (cleaner : Cleaner) (text : String) :
    cleaner.Usable ↔ ∃ cleaned, cleaner.clean text = .ok cleaned := by
  constructor
  · intro usable
    obtain ⟨cleaned, applied⟩ := applyRules_of_readable usable (moduleQualifier.replaceBy "" text)
    exact ⟨Text.collapse cleaned, by rw [clean, applied]; rfl⟩
  · rintro ⟨cleaned, ran⟩
    unfold clean at ran
    cases applied : applyRules (moduleQualifier.replaceBy "" text) cleaner.rules with
    | error fault =>
      rw [applied] at ran
      cases ran
    | ok replaced => exact readable_of_applyRules applied

end Shape.Cleaner

namespace Simplifier

theorem clean_of_usable {simplifier : Simplifier} (usable : simplifier.cleaner.Usable)
    (text : String) :
    ∃ cleaned, simplifier.clean text = pure cleaned := by
  obtain ⟨cleaned, ran⟩ := (simplifier.cleaner.usable_iff text).mp usable
  exact ⟨cleaned, by rw [clean, ran]⟩

theorem usable_of_clean {simplifier : Simplifier} {text cleaned : String} {tree : FileTree}
    {journal after : Journal Session}
    (ran : simplifier.clean text tree journal = (.ok cleaned, after)) :
    simplifier.cleaner.Usable := by
  unfold clean at ran
  cases answered : simplifier.cleaner.clean text with
  | error fault =>
    rw [answered] at ran
    cases ran
  | ok other => exact (simplifier.cleaner.usable_iff text).mpr ⟨other, answered⟩

end Simplifier
end ModuleAtlas
