import ModuleAtlas.Resolve.Resolver
import ModuleAtlas.Proofs.Task.Steady

/-!
# Resolving specifiers steadily

A resolver keeps manifests, the members of the workspace and the aliases in effect.  It is coherent
when all that it keeps is what a fresh resolver would find out.  From coherent resolvers a specifier
of a file always comes to the same end, and what it leads to is a file.
-/

namespace ModuleAtlas
namespace Resolver

variable {tree : FileTree} {root : Path}

/-! ## Coherent resolvers -/

/-- The manifest at a path as a quiet reader sees it: one that cannot be used counts as missing. -/
def manifestIn (tree : FileTree) (path : Path) : Except Failure (Option Json) :=
  match tree.passes Entry.isFile path with
  | .error long => .error (.tooLong long)
  | .ok false => .ok none
  | .ok true =>
    match readObject tree path id .noObject with
    | .ok found => .ok (some found)
    | .error (.manifest _ _) => .ok none
    | .error failure => .error failure

/-- All that a resolver keeps is what a fresh one would find out. -/
structure Coherent (tree : FileTree) (root : Path) (resolver : Resolver) : Prop where
  root_eq : resolver.root = root
  manifests : ∀ path found, Keyed.find? path resolver.manifests = some found →
    manifestIn tree path = .ok found
  members : ∀ members, resolver.members = some members →
    workspaceMembers.outcomeFrom tree (fresh root) = .ok members
  aliases : ∀ directory found, Keyed.find? directory resolver.aliases = some found →
    (aliasesAlong (ancestors directory)).outcomeFrom tree (fresh root) = .ok found

theorem coherent_fresh : Coherent tree root (fresh root) :=
  ⟨rfl, by simp [fresh, Keyed.find?], by simp [fresh], by simp [fresh, Keyed.find?]⟩

variable {path : Path}

theorem Coherent.remember {resolver : Resolver} {found : Option Json}
    (coherent : Coherent tree root resolver) (right : manifestIn tree path = .ok found) :
    Coherent tree root { resolver with manifests := Keyed.put path found resolver.manifests } := by
  refine ⟨coherent.root_eq, fun other otherFound known => ?_, coherent.members, coherent.aliases⟩
  rw [Keyed.find?_put] at known
  split at known
  · rename_i same
    cases known
    rw [eq_of_beq same]
    exact right
  · exact coherent.manifests other otherFound known

/-! ## Manifests -/

/-- What asking for a manifest comes to.  A manifest that cannot be used is a failure of its own,
with words that depend on whether it was asked for before. -/
def Reads (tree : FileTree) (path : Path) (outcome : Except Failure (Option Json)) : Prop :=
  outcome = manifestIn tree path ∨
    ∃ place fault, outcome = .error (.manifest place fault) ∧ manifestIn tree path = .ok none

theorem settles_remember {found : Option Json} (right : manifestIn tree path = .ok found) :
    Task.Settles tree (Coherent tree root) (remember path found) (.ok ()) :=
  fun _ coherent => ⟨_, rfl, coherent.remember right⟩

/-- A text is refused though nothing is wrong with its form: it holds a number that is too long, or
too many arrays and objects inside each other. -/
structure Refuses (tree : FileTree) (path : Path) (strip : List Char → List Char)
    (fault : Json.Fault) : Prop where
  refused : ∃ text, tree.text? path = some text ∧ Json.parse (strip text) = .error fault
  formed : fault ≠ .malformed

/-- A file that holds no object is either no manifest or is refused for what it holds. -/
theorem readObject_error {strip : List Char → List Char} {otherwise : ManifestFault}
    {failure : Failure} (failed : readObject tree path strip otherwise = .error failure) :
    (∃ fault, failure = .manifest path fault) ∨
      ∃ fault, Refuses tree path strip fault ∧ failure = manifestFailure path fault := by
  unfold readObject at failed
  split at failed
  · cases failed
    exact .inl ⟨_, rfl⟩
  · rename_i text known
    split at failed
    · cases failed
    · cases failed
      exact .inl ⟨_, rfl⟩
    · rename_i fault refused
      cases failed
      cases fault with
      | malformed => exact .inl ⟨_, rfl⟩
      | longNumber => exact .inr ⟨_, ⟨⟨text, known, refused⟩, nofun⟩, rfl⟩
      | tooDeep isObject => exact .inr ⟨_, ⟨⟨text, known, refused⟩, nofun⟩, rfl⟩

/-- Only a file that is no manifest is treated as one that is missing. -/
theorem Refuses.failure_cases {strip : List Char → List Char} {fault : Json.Fault}
    (refuses : Refuses tree path strip fault) :
    manifestFailure path fault = .longNumber path ∨
      ∃ what, manifestFailure path fault = .overflow what := by
  obtain ⟨-, formed⟩ := refuses
  cases fault with
  | malformed => exact absurd rfl formed
  | longNumber => exact .inl rfl
  | tooDeep isObject => exact .inr ⟨_, rfl⟩

theorem manifestIn_error {failure : Failure} (failed : manifestIn tree path = .error failure) :
    (∃ long, failure = .tooLong long) ∨
      ∃ fault, Refuses tree path id fault ∧ failure = manifestFailure path fault := by
  unfold manifestIn at failed
  split at failed
  · cases failed
    exact .inl ⟨_, rfl⟩
  · cases failed
  · split at failed
    · cases failed
    · cases failed
    · rename_i notManifest read
      cases failed
      rcases readObject_error read with ⟨fault, rfl⟩ | refused
      · exact absurd rfl (notManifest path fault)
      · exact .inr refused

/-- A manifest that is not known yet is read, and what it turns out to be is kept. -/
theorem readNew_reads (path : Path) :
    ∃ outcome, Reads tree path outcome ∧
      Task.Settles tree (Coherent tree root) (readNew path) outcome := by
  unfold readNew
  cases passes : tree.passes Entry.isFile path with
  | error long =>
    have right : manifestIn tree path = .error (.tooLong long) := by simp [manifestIn, passes]
    refine ⟨_, .inl right.symm, Task.Settles.bind_error ?_⟩
    exact Task.settles_passes_error passes
  | ok isFile =>
    cases isFile with
    | false =>
      have right : manifestIn tree path = .ok none := by simp [manifestIn, passes]
      refine ⟨_, .inl right.symm, (Task.settles_passes_ok passes).bind ?_⟩
      exact (settles_remember right).bind (Task.settles_pure none)
    | true =>
      cases read : readObject tree path id .noObject with
      | ok found =>
        have right : manifestIn tree path = .ok (some found) := by
          simp [manifestIn, passes, read]
        refine ⟨_, .inl right.symm, (Task.settles_passes_ok passes).bind ?_⟩
        refine Task.settles_files.bind ?_
        rw [read]
        exact (settles_remember right).bind (Task.settles_pure (some found))
      | error failure =>
        rcases readObject_error read with ⟨fault, rfl⟩ | ⟨fault, refuses, rfl⟩
        · have right : manifestIn tree path = .ok none := by simp [manifestIn, passes, read]
          refine ⟨.error (.manifest path fault), .inr ⟨_, _, rfl, right⟩,
            (Task.settles_passes_ok passes).bind ?_⟩
          refine Task.settles_files.bind ?_
          rw [read]
          exact (settles_remember right).bind (Task.settles_fail _)
        · have right : manifestIn tree path = .error (manifestFailure path fault) := by
            rcases refuses.failure_cases with long | ⟨what, deep⟩
            · simp [manifestIn, passes, read, long]
            · simp [manifestIn, passes, read, deep]
          refine ⟨_, .inl right.symm, (Task.settles_passes_ok passes).bind ?_⟩
          refine Task.settles_files.bind ?_
          rw [read]
          rcases refuses.failure_cases with long | ⟨what, deep⟩
          · rw [long]
            exact Task.settles_fail _
          · rw [deep]
            exact Task.settles_fail _

/-- A manifest that could not be used is no file any more or fails again. -/
theorem readAgain_reads (right : manifestIn tree path = .ok none) :
    ∃ outcome, Reads tree path outcome ∧
      Task.Settles tree (Coherent tree root)
        (do if ← Task.isFile path then Task.fail (.manifest path .failedBefore) else return none)
        outcome := by
  cases passes : tree.passes Entry.isFile path with
  | error long => simp [manifestIn, passes] at right
  | ok isFile =>
    cases isFile with
    | false =>
      refine ⟨_, .inl right.symm, (Task.settles_passes_ok passes).bind ?_⟩
      exact Task.settles_pure none
    | true =>
      refine ⟨_, .inr ⟨path, .failedBefore, rfl, right⟩, (Task.settles_passes_ok passes).bind ?_⟩
      exact Task.settles_fail _

/-- A manifest is read as the tree has it, and the cache stays coherent. -/
theorem readManifest_reads (path : Path) {journal : Journal Resolver}
    (coherent : Coherent tree root journal.state) :
    ∃ outcome after, readManifest path tree journal = (outcome, after) ∧
      Reads tree path outcome ∧ Coherent tree root after.state := by
  have ran : (Task.state : Task Resolver Resolver) tree journal =
      (.ok journal.state, journal) := rfl
  unfold readManifest
  rw [Task.bind_of_ok ran]
  cases known : Keyed.find? path journal.state.manifests with
  | some found =>
    have right := coherent.manifests path found known
    cases found with
    | some manifest => exact ⟨_, _, rfl, .inl right.symm, coherent⟩
    | none =>
      obtain ⟨outcome, reads, settles⟩ := readAgain_reads right
      obtain ⟨after, ranNext, kept⟩ := settles journal coherent
      exact ⟨outcome, after, ranNext, reads, kept⟩
  | none =>
    obtain ⟨outcome, reads, settles⟩ := readNew_reads path
    obtain ⟨after, ranNext, kept⟩ := settles journal coherent
    exact ⟨outcome, after, ranNext, reads, kept⟩

theorem settles_readManifestQuietly (path : Path) :
    Task.Settles tree (Coherent tree root) (readManifestQuietly path) (manifestIn tree path) := by
  intro journal coherent
  obtain ⟨outcome, after, ran, reads, kept⟩ := readManifest_reads path coherent
  unfold readManifestQuietly
  rcases reads with rfl | ⟨place, fault, rfl, right⟩
  · cases right : manifestIn tree path with
    | ok found =>
      rw [right] at ran
      exact ⟨after, Task.tryCatch_of_ok ran, kept⟩
    | error failure =>
      rw [right] at ran
      rw [Task.tryCatch_of_error ran]
      rcases manifestIn_error right with ⟨long, rfl⟩ | ⟨fault, refuses, rfl⟩
      · exact ⟨after, rfl, kept⟩
      · rcases refuses.failure_cases with long | ⟨what, deep⟩
        · rw [long]
          exact ⟨after, rfl, kept⟩
        · rw [deep]
          exact ⟨after, rfl, kept⟩
  · rw [right]
    exact ⟨_, Task.tryCatch_of_error ran, kept⟩

end Resolver
end ModuleAtlas
