import ModuleAtlas.Graph.Dependencies
import ModuleAtlas.Proofs.FileTree.Canonical
import ModuleAtlas.Proofs.Resolve.Steady
import ModuleAtlas.Proofs.Session.Coherent
import ModuleAtlas.Proofs.Graph.Structure

/-!
# The dependencies of a file

From coherent sessions the dependencies of a file are always the same.  Each of them is admitted by
the project and stands under its canonical path in the file tree, so no traversal can meet more
files than the tree has entries.
-/

namespace ModuleAtlas

namespace Project

variable {tree : FileTree}

/-- A file as the project knows it: admitted, named by the way from the root, and under its
canonical path. -/
structure IsTarget (project : Project) (tree : FileTree) (file : File) : Prop where
  seen : file = File.seenFrom project.root file.path
  admitted : project.admits file.path = true
  canonical : tree.IsCanonicalFile file.path

variable {project : Project}

/-- The targets of an import are files that exist and are not ignored. -/
theorem steady_targetsOf {good : Session → Prop}
    (asks : Session.AsksCoherence tree project.root good) (importer : Path)
    (specifiers : List String) :
    Task.Steady tree good
      (fun targets => ∀ target ∈ targets, project.IsTarget tree target)
      (project.targetsOf importer specifiers) := by
  have each : ∀ specifier ∈ specifiers, Task.Steady tree good (Resolver.Settled tree)
      (Session.resolving (Resolver.resolve specifier importer)) :=
    fun specifier _ => asks.steady_resolving (Resolver.steady_resolve specifier importer).alone
  refine (Task.steady_mapM each).bind ?_
  rintro resolutions ⟨settled, _⟩
  refine Task.steady_pure ?_
  intro target member
  have listed := File.mem_of_mem_distinct member
  obtain ⟨path, pathMember, rfl⟩ := List.mem_map.mp listed
  obtain ⟨resolvedMember, admitted⟩ := List.mem_filter.mp pathMember
  obtain ⟨resolution, resolutionMember, leads⟩ := List.mem_filterMap.mp resolvedMember
  obtain ⟨_, _, resolutionSettled⟩ := settled resolution resolutionMember
  obtain ⟨found, isFile, known⟩ := resolutionSettled path leads
  exact ⟨rfl, admitted, FileTree.isCanonicalFile_of_passes isFile known⟩

/-- From a coherent session the dependencies of a file are always the same, and they are targets. -/
theorem steady_dependencies (project : Project) (file : File) :
    Task.Steady tree (Session.Coherent tree project.root)
      (fun told => ∀ targets, told = .ok targets →
        ∀ target ∈ targets, project.IsTarget tree target)
      (project.dependencies file) := by
  unfold dependencies
  split
  · refine Task.steady_pure ?_
    rintro _ ⟨⟩ target member
    cases member
  · refine (Session.steady_parse file.path).bind fun parsed _ => ?_
    cases parsed with
    | error fault =>
      refine Task.steady_pure ?_
      rintro _ ⟨⟩
    | ok source =>
      refine (steady_targetsOf Session.asksCoherence_coherent file.path _).map
        fun targets areTargets => ?_
      rintro _ ⟨⟩
      exact areTargets

/-- From every coherent session a task gives the same answer. -/
def Gives {α : Type} (project : Project) (tree : FileTree) (task : Task Session α)
    (value : α) : Prop :=
  Task.Settles tree (Session.Coherent tree project.root) task (.ok value)

/-- What a steady task answers from a fresh session, it answers from every coherent one. -/
theorem gives_of_outcomeFrom {α : Type} {task : Task Session α} {kind : α → Prop} {value : α}
    (steady : Task.Steady tree (Session.Coherent tree project.root) kind task)
    (outcome : task.outcomeFrom tree (Session.fresh project.root) = .ok value) :
    project.Gives tree task value := by
  have settles := steady.settles_outcomeFrom Session.coherent_fresh
  rwa [outcome] at settles

theorem Gives.unique {α : Type} {task : Task Session α} {first second : α}
    (gives : project.Gives tree task first) (others : project.Gives tree task second) :
    first = second :=
  Except.ok.inj (Task.Settles.unique gives others Session.coherent_fresh)

/-- What a project knows about the file of a canonical path when it asks for its dependencies. -/
def importsOf (project : Project) (tree : FileTree) (path : Path) :
    Except Failure (Except SourceFault (List File)) :=
  (project.dependencies ⟨path, ""⟩).outcomeFrom tree (Session.fresh project.root)

theorem settles_dependencies (project : Project) (file : File) :
    Task.Settles tree (Session.Coherent tree project.root) (project.dependencies file)
      (project.importsOf tree file.path) :=
  (project.steady_dependencies file).settles_outcomeFrom Session.coherent_fresh

theorem isTarget_of_importsOf {path : Path} {targets : List File}
    (told : project.importsOf tree path = .ok (.ok targets)) {target : File}
    (member : target ∈ targets) : project.IsTarget tree target := by
  have settles : Task.Settles tree (Session.Coherent tree project.root)
      (project.dependencies ⟨path, ""⟩) (project.importsOf tree path) :=
    project.settles_dependencies ⟨path, ""⟩
  rw [told] at settles
  exact (project.steady_dependencies ⟨path, ""⟩).kind_of_settles Session.coherent_fresh settles
    targets rfl target member

end Project

end ModuleAtlas
