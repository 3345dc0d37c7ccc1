import ModuleAtlas.Proofs.Task.Steady
import ModuleAtlas.Resolve.Resolver

/-!
# File trees in which specifiers lead to the same

Resolving asks a file tree what stands at a path, where links lead, which names there are in a
directory, and what manifests, compiler options and workspace files hold.  It never looks at a
syntax tree.  So it comes to the same in all file trees that answer all of this alike.
-/

namespace ModuleAtlas

/-! ## What is asked -/

/-- Two file trees that answer alike all that resolving asks for. -/
structure FileTree.Agrees (tree other : FileTree) : Prop where
  isPresent : ∀ path, tree.passes (fun _ => true) path = other.passes (fun _ => true) path
  isFile : ∀ path, tree.passes Entry.isFile path = other.passes Entry.isFile path
  isDirectory : ∀ path, tree.passes Entry.isDirectory path = other.passes Entry.isDirectory path
  isLink : ∀ path, tree.isLink path = other.isLink path
  list : ∀ path, tree.list? path = other.list? path
  resolves : ∀ path, tree.resolve? path = other.resolve? path
  depth : tree.root.depth = other.root.depth
  count : tree.root.count = other.root.count
  manifests : ∀ path, Resolver.readObject tree path id .noObject =
    Resolver.readObject other path id .noObject
  options : ∀ path, Resolver.readObject tree path Json.stripComments .noOptions =
    Resolver.readObject other path Json.stripComments .noOptions
  workspaces : ∀ path, (tree.text? path).map (Yaml.textsUnder "packages") =
    (other.text? path).map (Yaml.textsUnder "packages")

namespace FileTree

variable {tree other : FileTree}

theorem Agrees.refl (tree : FileTree) : tree.Agrees tree := by
  constructor <;> intros <;> rfl

/-- Whether a path leads to a directory, by the test that may fail. -/
theorem isDirectory_eq (tree : FileTree) (path : Path) :
    tree.isDirectory path = (tree.passes Entry.isDirectory path).toOption.getD false := by
  unfold isDirectory passes
  rcases tree.lookup path with (missing | notDirectory | tooManyLinks | tooLong | null) | found
  all_goals rfl

theorem Agrees.isDirectory_eq (agrees : tree.Agrees other) (path : Path) :
    tree.isDirectory path = other.isDirectory path := by
  rw [FileTree.isDirectory_eq, FileTree.isDirectory_eq, agrees.isDirectory]

end FileTree

/-! ## Members of a workspace -/

namespace Glob

variable {tree other : FileTree} (agrees : tree.Agrees other)

include agrees

theorem directoriesBelow_eq (fuel : Nat) (path : Path) :
    directoriesBelow tree fuel path = directoriesBelow other fuel path := by
  induction fuel generalizing path with
  | zero => rfl
  | succ fuel ih =>
    unfold directoriesBelow
    simp only [agrees.list, agrees.isDirectory_eq, agrees.isLink, ih]

/-- The last name of a pattern may be that of a file, all others are those of directories. -/
theorem passesAdmitted_eq (isLast : Bool) (path : Path) :
    tree.passes (fun entry => isLast || entry.isDirectory) path =
      other.passes (fun entry => isLast || entry.isDirectory) path := by
  cases isLast with
  | true => exact agrees.isPresent path
  | false => exact agrees.isDirectory path

/-- The same candidate is selected in both trees. -/
theorem select_eq (selectors : List Selector) (path : Path) :
    select tree selectors path = select other selectors path := by
  induction selectors generalizing path with
  | nil => rfl
  | cons selector rest ih =>
    have later : select tree rest = select other rest := funext ih
    unfold select
    dsimp only
    rw [later]
    cases selector with
    | name name => dsimp only; rw [passesAdmitted_eq agrees]
    | wildcard pattern => simp only [agrees.list, agrees.isDirectory]
    | anyDirectories => dsimp only; rw [agrees.depth, directoriesBelow_eq agrees]

theorem members_eq (root : Path) (pattern : String) :
    members tree root pattern = members other root pattern := by
  have directories : tree.passes Entry.isDirectory = other.passes Entry.isDirectory :=
    funext agrees.isDirectory
  unfold members
  rw [agrees.isDirectory_eq, directories]
  simp only [select_eq agrees]

end Glob

/-! ## Asking -/

namespace Task

variable {σ : Type} {tree : FileTree} {goodIn : FileTree → σ → Prop}

theorem agreeing_isFile (path : Path) :
    SteadyAmong tree.Agrees goodIn (fun passed => tree.passes Entry.isFile path = .ok passed)
      (isFile path) :=
  steady_passes_of fun _ agrees => (agrees.isFile path).symm

theorem agreeing_isDirectory (path : Path) :
    SteadyAmong tree.Agrees goodIn (fun passed => tree.passes Entry.isDirectory path = .ok passed)
      (isDirectory path) :=
  steady_passes_of fun _ agrees => (agrees.isDirectory path).symm

theorem agreeing_resolvePath (path : Path) :
    SteadyAmong tree.Agrees goodIn
      (fun resolved => path.hasNull = false ∧ tree.resolve? path = some resolved)
      (resolvePath path) :=
  steady_resolvePath_of fun _ agrees => (agrees.resolves path).symm

end Task

namespace Resolver

theorem chooseMembers_eq {tree other : FileTree} (agrees : tree.Agrees other) (root : Path)
    (found : List Path) (patterns : List String) :
    chooseMembers tree root found patterns = chooseMembers other root found patterns := by
  induction patterns generalizing found with
  | nil => rfl
  | cons written rest ih =>
    unfold chooseMembers
    simp only [ih, Glob.members_eq agrees]

end Resolver
end ModuleAtlas
