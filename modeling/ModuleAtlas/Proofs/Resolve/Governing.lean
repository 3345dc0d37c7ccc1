import Mathlib.Logic.Relation
import ModuleAtlas.Proofs.Resolve.Inheritance

/-!
# The compiler options that govern a file

Aliases are in effect for a file when the nearest file of compiler options at or above its directory
sets a base for bare specifiers or patterns, or extends options that do.
-/

namespace ModuleAtlas
namespace Resolver

open Relation

variable {tree : FileTree} {root : Path}

/-! ## Options that provide aliases -/

/-- The options in a file, or others on the chain that they extend, make aliases. -/
def Provides (tree : FileTree) (root file : Path) : Prop :=
  ∃ giver, ReflTransGen (Inherits tree root) file giver ∧ HoldsAliases tree giver

/-- The first of some directories with a file of compiler options has this one. -/
inductive Nearest (tree : FileTree) : List Path → Path → Prop where
  | here {directory : Path} {above : List Path}
      (isFile : IsFileAt tree (directory.child optionsName)) :
      Nearest tree (directory :: above) (directory.child optionsName)
  | further {directory file : Path} {above : List Path}
      (noFile : ¬IsFileAt tree (directory.child optionsName))
      (nearest : Nearest tree above file) :
      Nearest tree (directory :: above) file

/-- The nearest compiler options in some directories give aliases. -/
def GivesAliases (tree : FileTree) (root : Path) (directories : List Path) : Prop :=
  ∃ file, Nearest tree directories file ∧ Provides tree root file

/-- The nearest compiler options at or above the directory of a file make aliases, or extend options
that do. -/
def Governed (tree : FileTree) (root importer : Path) : Prop :=
  ∃ directory, tree.resolve? importer.parent = some directory ∧
    GivesAliases tree root (ancestors directory)

section Chain

variable {first file : Path} {chain : List Path}

theorem reaches_of_isChain (starts : chain.head? = some first)
    (linked : chain.IsChain (Inherits tree root)) (member : file ∈ chain) :
    ReflTransGen (Inherits tree root) first file := by
  induction chain generalizing first with
  | nil => cases starts
  | cons start rest ih =>
    cases starts
    rcases List.mem_cons.mp member with rfl | later
    · exact .refl
    · cases rest with
      | nil => cases later
      | cons next rest =>
        have steps := List.isChain_cons_cons.mp linked
        exact .head steps.1 (ih rfl steps.2 later)

theorem Followed.mem_of_reaches (followed : Followed tree root first chain)
    (reaches : ReflTransGen (Inherits tree root) first file) :
    file ∈ chain := by
  induction reaches with
  | refl => exact List.mem_of_head? followed.walk.starts
  | tail _ inherits ih =>
    exact followed.stops.closed followed.walk.linked ih inherits.extendsFile

/-- A chain that was followed to its end holds all the options that provide aliases. -/
theorem Followed.provides_iff (followed : Followed tree root first chain) :
    Provides tree root first ↔ ∃ giver ∈ chain, HoldsAliases tree giver := by
  constructor
  · rintro ⟨giver, reaches, holds⟩
    exact ⟨giver, followed.mem_of_reaches reaches, holds⟩
  · rintro ⟨giver, member, holds⟩
    exact ⟨giver, reaches_of_isChain followed.walk.starts followed.linked member, holds⟩

/-- A file of compiler options gives aliases exactly when it, or a file on the chain that it
extends, makes some. -/
theorem yields_loadAliases (file : Path) :
    Yields tree root (fun found => found.isSome = true ↔ Provides tree root file)
      (loadAliases file) := by
  refine (ends_loadAliases file).imp ?_ fun _ _ => trivial
  rintro found ⟨chain, followed, gives⟩
  rw [gives.isSome_iff, followed.provides_iff]

end Chain

/-! ## The nearest options -/

theorem not_givesAliases_nil : ¬GivesAliases tree root [] := by
  rintro ⟨file, nearest, -⟩
  cases nearest

variable {directory : Path} {above : List Path}

theorem givesAliases_here (isFile : IsFileAt tree (directory.child optionsName)) :
    GivesAliases tree root (directory :: above) ↔
      Provides tree root (directory.child optionsName) := by
  constructor
  · rintro ⟨file, nearest, provides⟩
    cases nearest with
    | here => exact provides
    | further noFile => exact absurd isFile noFile
  · exact fun provides => ⟨_, .here isFile, provides⟩

theorem givesAliases_further (noFile : ¬IsFileAt tree (directory.child optionsName)) :
    GivesAliases tree root (directory :: above) ↔ GivesAliases tree root above := by
  constructor
  · rintro ⟨file, nearest, provides⟩
    cases nearest with
    | here isFile => exact absurd isFile noFile
    | further _ nearest => exact ⟨file, nearest, provides⟩
  · rintro ⟨file, nearest, provides⟩
    exact ⟨file, .further noFile nearest, provides⟩

/-- One directory of those at or above a file; what is above it is left to the others. -/
theorem yields_aliasesHere {others : Task Resolver (Option Resolve.Aliases)}
    (further : Yields tree root
      (fun found => found.isSome = true ↔ GivesAliases tree root above) others) :
    Yields tree root
      (fun found => found.isSome = true ↔ GivesAliases tree root (directory :: above)) (do
        if ← Task.isFile (directory.child optionsName) then
          loadAliases (directory.child optionsName)
        else others) := by
  refine (Task.ends_passes Entry.isFile _ fun _ => trivial).bind fun passed outcome => ?_
  cases passed with
  | true =>
    refine (yields_loadAliases _).imp ?_ fun _ => id
    intro found gives
    rw [gives, givesAliases_here outcome]
  | false =>
    have noFile : ¬IsFileAt tree (directory.child optionsName) := by
      rw [IsFileAt, outcome]
      intro impossible
      cases impossible
    refine further.imp ?_ fun _ => id
    intro found gives
    rw [gives, givesAliases_further noFile]

/-- Aliases are found just where a directory on the way up gives some. -/
theorem yields_aliasesAlong (directory : Path) :
    Yields tree root
      (fun found => found.isSome = true ↔ GivesAliases tree root (ancestors directory))
      (aliasesAlong (ancestors directory)) := by
  refine ancestors_induction (motive := fun directories =>
    Yields tree root (fun found => found.isSome = true ↔ GivesAliases tree root directories)
      (aliasesAlong directories))
    (Task.ends_pure (by simp [not_givesAliases_nil])) (fun directory above equal further => ?_)
    directory
  have steady : Task.Steady tree (Coherent tree root) (fun _ => True)
      (aliasesAlong (directory :: above)) := equal ▸ (steady_aliasesAlong directory).alone
  unfold aliasesAlong at steady ⊢
  exact (yields_aliasesHere further).recollect steady coherent_fresh rfl

/-- Aliases are in effect in the directory of a file exactly when compiler options govern it. -/
theorem yields_aliasesIn (importer : Path) :
    Yields tree root (fun found => found.isSome = true ↔ Governed tree root importer)
      (aliasesIn importer.parent) := by
  refine (Task.ends_resolvePath _ (fun _ => trivial) fun _ => trivial).bind ?_
  rintro directory ⟨-, known⟩
  refine (yields_aliasesAlong directory).imp ?_ fun _ => id
  intro found gives
  rw [gives]
  simp [Governed, known]

end Resolver
end ModuleAtlas
