import Mathlib.Data.List.Chain
import ModuleAtlas.Proofs.Resolve.Completeness

/-!
# Options that extend others

A file of compiler options may extend another one, which it names by a path or inside an installed
package.  Going from one file to the next makes a chain.  It is followed once: it has no file twice,
and it ends at the first file that cannot be read, extends none that exists, or extends one that was
met before.
-/

namespace ModuleAtlas
namespace Resolver

variable {tree : FileTree} {root first file : Path} {chain : List Path}

/-! ## The extended file -/

instance (tree : FileTree) (path : Path) : Decidable (IsFileAt tree path) :=
  inferInstanceAs (Decidable (_ = _))

/-- Where a package may be installed for a directory, nearest places first. -/
def installPlaces (name : String) (directory : Path) : List Path :=
  (ancestors directory).flatMap fun above =>
    packageDirectories.map fun packages => (above.child packages).child name

/-- The directory of the nearest installed package of a name. -/
def installedAt? (tree : FileTree) (name : String) (start : Path) : Option Path :=
  (tree.resolve? start).bind fun directory =>
    (installPlaces name directory).find? fun place => IsFileAt tree (place.child "package.json")

/-- Where the options are looked for that a file extends by a text: beside the file, or inside an
installed package. -/
def namedOptions? (tree : FileTree) (file : Path) (text : String) : Option Path :=
  if Resolve.isPathSpecifier text then some (file.parent.child text)
  else
    (installedAt? tree (Resolve.splitPackage text).1 file.parent).map fun directory =>
      let subpath := (Resolve.splitPackage text).2
      directory.child (if subpath.isEmpty then optionsName else subpath)

/-- The file of options that a path stands for: the one with this path, or else the one with the
ending of options added to it. -/
def optionsFile? (tree : FileTree) (target : Path) : Option Path :=
  if IsFileAt tree target then some target
  else if target.suffix = optionsEnding then none
  else (target.withName? (target.name ++ optionsEnding)).filter fun named => IsFileAt tree named

/-- The canonical path of the options that some options in a file extend, when these exist. -/
def extendedFile? (tree : FileTree) (file : Path) (options : Json) : Option Path := do
  let text ← extendedText? (options.get? "extends")
  let target ← namedOptions? tree file text
  let found ← optionsFile? tree target
  tree.resolve? found

/-- The options in a file extend those in another file, which exists. -/
def ExtendsFile (tree : FileTree) (file other : Path) : Prop :=
  ∃ options, HoldsOptions tree file options ∧ extendedFile? tree file options = some other

/-- The options in a file extend those in another one. -/
def Inherits (tree : FileTree) (root file base : Path) : Prop :=
  ∃ options, HoldsOptions tree file options ∧
    (extendedOptions file (options.get? "extends")).outcomeFrom tree (fresh root) = .ok (some base)

theorem HoldsOptions.unique {file : Path} {options other : Json}
    (held : HoldsOptions tree file options) (again : HoldsOptions tree file other) :
    options = other :=
  Except.ok.inj (held.symm.trans again)

theorem ExtendsFile.unique {other another : Path} (extendsOther : ExtendsFile tree file other)
    (extendsAnother : ExtendsFile tree file another) :
    other = another := by
  obtain ⟨options, held, leads⟩ := extendsOther
  obtain ⟨again, againHeld, againLeads⟩ := extendsAnother
  rw [← held.unique againHeld, leads] at againLeads
  exact Option.some.inj againLeads

/-! ## Asking for the extended file -/

/-- Whatever a task answers to a coherent resolver is of a kind. -/
abbrev Yields (tree : FileTree) (root : Path) (kind : α → Prop) (task : Task Resolver α) : Prop :=
  Task.Ends tree (Coherent tree root) kind (fun _ => True) task

theorem ends_findM?_eq
    {test : Path → Task Resolver Bool} {passed : Path → Bool} {cause : Failure → Prop}
    {paths : List Path}
    (each : ∀ path, Task.Ends tree (Coherent tree root) (fun found => found = passed path) cause
      (test path)) :
    Task.Ends tree (Coherent tree root) (fun found => found = paths.find? passed) cause
      (paths.findM? test) := by
  induction paths with
  | nil => exact Task.ends_pure rfl
  | cons path rest ih =>
    unfold List.findM?
    refine (each path).bind ?_
    rintro _ rfl
    rw [List.find?_cons]
    cases passed path with
    | true => exact Task.ends_pure rfl
    | false => exact ih

theorem yields_isFile (path : Path) :
    Yields tree root (fun passed => passed = decide (IsFileAt tree path)) (Task.isFile path) := by
  refine (Task.ends_passes Entry.isFile path fun _ => trivial).imp ?_ fun _ => id
  intro passed outcome
  cases passed <;> simp [IsFileAt, outcome]

theorem yields_resolvePath (path : Path) :
    Yields tree root (fun resolved => tree.resolve? path = some resolved)
      (Task.resolvePath path) :=
  (Task.ends_resolvePath path (fun _ => trivial) fun _ => trivial).imp (fun _ known => known.2)
    fun _ => id

theorem yields_findInstalled (name : String) (start : Path) :
    Yields tree root (fun found => found = installedAt? tree name start)
      (findInstalled name start) := by
  refine (yields_resolvePath start).bind fun directory known => ?_
  rw [installedAt?, known]
  exact ends_findM?_eq fun place => yields_isFile _

/-- Adding the ending of options leads to a file just when there are options for the path. -/
theorem yields_withOptionsEnding (target : Path) :
    Yields tree root
      (fun path => optionsFile? tree target = if IsFileAt tree path then some path else none)
      (withOptionsEnding target) := by
  refine (yields_isFile target).bind ?_
  rintro _ rfl
  by_cases isFile : IsFileAt tree target
  · simp only [isFile, decide_true, if_true]
    exact Task.ends_pure (by simp [optionsFile?, isFile])
  · simp only [isFile, decide_false, Bool.false_eq_true, if_false, bne_iff_ne, ne_eq]
    split
    · rename_i lacksEnding
      unfold withEnding
      split
      · rename_i named known
        refine Task.ends_pure ?_
        simp [optionsFile?, isFile, lacksEnding, known, Option.filter_some]
      · exact Task.ends_fail trivial
    · rename_i hasEnding
      exact Task.ends_pure (by simp [optionsFile?, isFile, Decidable.not_not.mp hasEnding])

/-- The canonical path of options, once it is known where they are looked for. -/
theorem yields_extended (target : Option Path) :
    Yields tree root
      (fun further => further = target.bind fun path =>
        if IsFileAt tree path then tree.resolve? path else none) (do
      match target with
      | none => return none
      | some target =>
        if ← Task.isFile target then return some (← Task.resolvePath target)
        else return none) := by
  cases target with
  | none => exact Task.ends_pure rfl
  | some target =>
    refine (yields_isFile target).bind ?_
    rintro _ rfl
    by_cases isFile : IsFileAt tree target
    · simp only [isFile, decide_true, if_true, Option.bind_some]
      exact (yields_resolvePath target).map fun resolved known => known.symm
    · simp only [isFile, decide_false, Bool.false_eq_true, if_false, Option.bind_some]
      exact Task.ends_pure rfl

theorem bind_optionsFile? {target path : Path}
    (same : optionsFile? tree target = if IsFileAt tree path then some path else none) :
    (optionsFile? tree target).bind tree.resolve? =
      if IsFileAt tree path then tree.resolve? path else none := by
  rw [same]
  split <;> rfl

/-- What a file extends, as far as a resolver comes to an answer. -/
theorem yields_extendedOptions (file : Path) (options : Json) :
    Yields tree root (fun further => further = extendedFile? tree file options)
      (extendedOptions file (options.get? "extends")) := by
  have whole : extendedFile? tree file options =
      ((extendedText? (options.get? "extends")).bind (namedOptions? tree file)).bind fun target =>
        (optionsFile? tree target).bind tree.resolve? := by
    simp [extendedFile?, Option.bind_assoc]
  rw [whole]
  unfold extendedOptions
  dsimp only
  split
  · rename_i unnamed
    have named : extendedText? (options.get? "extends") = none := unnamed
    exact Task.ends_pure (by rw [named]; rfl)
  · rename_i text chosen
    have named : extendedText? (options.get? "extends") = some text := chosen
    rw [named, Option.bind_some]
    unfold namedOptions?
    split
    · refine (yields_withOptionsEnding _).bind fun path same => ?_
      refine ((yields_extended (some path)).imp ?_ fun _ => id).pure_bind
      rintro _ rfl
      exact (bind_optionsFile? same).symm
    · refine (yields_findInstalled _ _).bind ?_
      rintro _ rfl
      cases installedAt? tree (Resolve.splitPackage text).1 file.parent with
      | none => exact (yields_extended none).pure_bind
      | some directory =>
        rw [Option.map_some, Option.bind_some]
        refine (yields_withOptionsEnding _).bind fun path same => ?_
        refine ((yields_extended (some path)).imp ?_ fun _ => id).pure_bind
        rintro _ rfl
        exact (bind_optionsFile? same).symm

/-- What a file is found to extend, it does extend. -/
theorem extendedFile?_of_leads {options : Json} {further : Option Path}
    (leads : (extendedOptions file (options.get? "extends")).outcomeFrom tree (fresh root) =
      .ok further) :
    further = extendedFile? tree file options := by
  have told : Yields tree root (fun further => further = extendedFile? tree file options)
      (extendedOptions file (options.get? "extends")) := yields_extendedOptions file options
  exact told.kind_of_answer coherent_fresh leads

theorem Inherits.extendsFile {base : Path} (inherits : Inherits tree root file base) :
    ExtendsFile tree file base := by
  obtain ⟨options, held, leads⟩ := inherits
  exact ⟨options, held, (extendedFile?_of_leads leads).symm⟩

/-- The options that others extend stand under a canonical path of the file tree. -/
theorem located_of_extendedOptions {options : Json} {further : Option Path}
    (held : HoldsOptions tree file options)
    (leads : (extendedOptions file (options.get? "extends")).outcomeFrom tree (fresh root) =
      .ok further)
    (base : Path) (same : further = some base) :
    base ∈ tree.located := by
  have stopped : Stopped tree root file "" (Extends tree)
      (extendedOptions file (options.get? "extends")) :=
    stopped_extendedOptions held
  obtain ⟨path, isFile, known⟩ := stopped.kind_of_answer coherent_fresh leads base same
  exact (FileTree.isCanonicalFile_of_passes isFile known).mem_located

/-! ## Asking for the options -/

/-- Why there are no compiler options in a file: no file can have its path, or there is no text with
options. -/
inductive Refused (tree : FileTree) (file : Path) : Failure → Prop where
  | null (hasNull : file.hasNull = true) : Refused tree file (.nullCharacter file)
  | text {failure : Failure}
      (noNull : file.hasNull = false)
      (refused : readObject tree file Json.stripComments .noOptions = .error failure) :
      Refused tree file failure

/-- Compiler options are asked for in a file that is missing or that holds none. -/
def Unreadable (tree : FileTree) (file : Path) : Prop :=
  ∃ place fault, Refused tree file (.manifest place fault)

theorem Unreadable.not_holdsOptions (unreadable : Unreadable tree file) (options : Json) :
    ¬HoldsOptions tree file options := by
  obtain ⟨place, fault, refused⟩ := unreadable
  intro held
  cases refused with
  | text _ refused =>
    rw [HoldsOptions, refused] at held
    cases held

theorem ends_readOptions_refused (file : Path) :
    Task.Ends tree (Coherent tree root) (HoldsOptions tree file) (Refused tree file)
      (readOptions file) := by
  unfold readOptions
  split
  · rename_i hasNull
    have stops : Task.Ends tree (Coherent tree root) (fun _ => False) (Refused tree file)
        (Task.fail (.nullCharacter file) : Task Resolver Unit) :=
      Task.ends_fail (.null hasNull)
    exact stops.bind fun _ impossible => impossible.elim
  · rename_i notNull
    have noNull : file.hasNull = false := by simpa using notNull
    refine Task.ends_files.bind ?_
    rintro _ rfl
    cases read : readObject _ file Json.stripComments .noOptions with
    | ok options => exact Task.ends_pure read
    | error failure => exact Task.ends_fail (.text noNull read)

/-! ## Chains -/

/-- A chain of files with compiler options from a first one on: each extends the next one, and none
comes twice. -/
structure IsWalk (tree : FileTree) (first : Path) (chain : List Path) : Prop where
  starts : chain.head? = some first
  linked : chain.IsChain (ExtendsFile tree)
  distinct : chain.Nodup

/-- A chain of compiler options goes no further than its last file, because this cannot be read,
extends none that exists, or extends one on the chain. -/
inductive Stops (tree : FileTree) (chain : List Path) : Prop where
  | unreadable {last : Path}
      (isLast : chain.getLast? = some last)
      (unread : Unreadable tree last) :
      Stops tree chain
  | alone {last : Path} {options : Json}
      (isLast : chain.getLast? = some last)
      (held : HoldsOptions tree last options)
      (nowhere : extendedFile? tree last options = none) :
      Stops tree chain
  | met {last other : Path}
      (isLast : chain.getLast? = some last)
      (extendsOther : ExtendsFile tree last other)
      (member : other ∈ chain) :
      Stops tree chain

/-- Of two chains from one file, one starts like the other. -/
theorem prefix_or_prefix {others : List Path} (sameStart : chain.head? = others.head?)
    (linked : chain.IsChain (ExtendsFile tree)) (othersLinked : others.IsChain (ExtendsFile tree)) :
    chain <+: others ∨ others <+: chain := by
  induction chain generalizing others with
  | nil => exact .inl List.nil_prefix
  | cons file rest ih =>
    cases others with
    | nil => exact .inr List.nil_prefix
    | cons other more =>
      cases sameStart
      have sameNext : rest = [] ∨ more = [] ∨ rest.head? = more.head? := by
        cases rest with
        | nil => exact .inl rfl
        | cons next rest =>
          cases more with
          | nil => exact .inr (.inl rfl)
          | cons otherNext more =>
            have toNext := (List.isChain_cons_cons.mp linked).1
            have toOtherNext := (List.isChain_cons_cons.mp othersLinked).1
            rw [toNext.unique toOtherNext]
            exact .inr (.inr rfl)
      rcases sameNext with rfl | rfl | same
      · exact .inl (by simp)
      · exact .inr (by simp)
      · simpa using ih same linked.tail othersLinked.tail

theorem Stops.exists_last (stops : Stops tree chain) :
    ∃ last, chain.getLast? = some last := by
  cases stops with
  | unreadable isLast _ => exact ⟨_, isLast⟩
  | alone isLast _ _ => exact ⟨_, isLast⟩
  | met isLast _ _ => exact ⟨_, isLast⟩

/-- What the last file of a chain to the end extends is on the chain. -/
theorem Stops.closed_at_last {other : Path} (stops : Stops tree chain)
    (isLast : chain.getLast? = some file) (extendsOther : ExtendsFile tree file other) :
    other ∈ chain := by
  obtain ⟨options, held, leads⟩ := extendsOther
  cases stops with
  | unreadable again unread =>
    cases isLast.symm.trans again
    exact absurd held (unread.not_holdsOptions options)
  | alone again againHeld nowhere =>
    cases isLast.symm.trans again
    rw [← held.unique againHeld, leads] at nowhere
    cases nowhere
  | met again extendsMet member =>
    cases isLast.symm.trans again
    have same := extendsMet.unique ⟨options, held, leads⟩
    rwa [← same]

/-- What the files of a chain to the end extend is on the chain. -/
theorem Stops.closed {other : Path} (stops : Stops tree chain)
    (linked : chain.IsChain (ExtendsFile tree)) (member : file ∈ chain)
    (extendsOther : ExtendsFile tree file other) :
    other ∈ chain := by
  obtain ⟨before, after, rfl⟩ := List.append_of_mem member
  cases after with
  | nil => exact stops.closed_at_last (by simp) extendsOther
  | cons next after =>
    have toNext := (List.isChain_cons_cons.mp (List.isChain_append.mp linked).2.1).1
    rw [extendsOther.unique toNext]
    simp

/-- Where a chain stops, no longer one goes on. -/
theorem Stops.not_further {next : Path} {more : List Path} (stops : Stops tree chain)
    (walk : IsWalk tree first (chain ++ next :: more)) :
    False := by
  obtain ⟨last, isLast⟩ := stops.exists_last
  have linked := List.isChain_append.mp walk.linked
  have toNext := linked.2.2 last isLast next (by simp)
  have member := stops.closed_at_last isLast toNext
  exact (List.nodup_append.mp walk.distinct).2.2 next member next List.mem_cons_self rfl

/-- From one file there is at most one chain to the end. -/
theorem IsWalk.unique {others : List Path} (walk : IsWalk tree first chain)
    (stops : Stops tree chain) (otherWalk : IsWalk tree first others)
    (otherStops : Stops tree others) :
    chain = others := by
  have sameStart := walk.starts.trans otherWalk.starts.symm
  rcases prefix_or_prefix sameStart walk.linked otherWalk.linked with ⟨more, rfl⟩ | ⟨more, rfl⟩
  · cases more with
    | nil => simp
    | cons next more => exact (stops.not_further otherWalk).elim
  · cases more with
    | nil => simp
    | cons next more => exact (otherStops.not_further walk).elim

end Resolver
end ModuleAtlas
