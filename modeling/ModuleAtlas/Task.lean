import ModuleAtlas.Notice
import ModuleAtlas.Failure

/-!
# Tasks

Computations over a fixed file tree that keep a state, tell notices and may fail. What a task did
before it failed stays: the state and the notices of a failed task are those at the failure.
-/

namespace ModuleAtlas

/-- The state of a task and the notices told so far, latest first. -/
structure Journal (σ : Type) where
  state : σ
  notices : List Notice

/-- A computation over a file tree. -/
abbrev Task (σ : Type) := ReaderT FileTree (ExceptT Failure (StateM (Journal σ)))

namespace Task

/-- Runs a task in a file tree from a state: its outcome, the notices in order and the new state. -/
def runIn (task : Task σ α) (tree : FileTree) (state : σ) : Except Failure α × List Notice × σ :=
  let (outcome, journal) := task tree ⟨state, []⟩
  (outcome, journal.notices.reverse, journal.state)

/-- Tells a notice. -/
def note (notice : Notice) : Task σ Unit :=
  modify fun journal => { journal with notices := notice :: journal.notices }

/-- The file tree. -/
def files : Task σ FileTree := read

/-- The state. -/
def state : Task σ σ := do return (← get).state

/-- Changes the state. -/
def update (change : σ → σ) : Task σ Unit :=
  modify fun journal => { journal with state := change journal.state }

/-- Ends the task with a failure. -/
def fail (failure : Failure) : Task σ α := throw failure

/-- The outcome of a task that may fail, as a value. -/
def attempt (task : Task σ α) : Task σ (Except Failure α) :=
  tryCatch (do return .ok (← task)) fun failure => return .error failure

/-- What the state knows already, or else what a task finds out, which the state keeps from then on.
-/
def recollect (known : σ → Option α) (keep : α → σ → σ) (find : Task σ α) : Task σ α := do
  match known (← state) with
  | some value => return value
  | none =>
    let value ← find
    update (keep value)
    return value

/-- Runs a task on a part of the state. -/
def within (part : σ → τ) (put : τ → σ → σ) (task : Task τ α) : Task σ α := fun tree journal =>
  let (outcome, inner) := task tree ⟨part journal.state, journal.notices⟩
  (outcome, ⟨put inner.state journal.state, inner.notices⟩)

/-- Runs a task with a state of its own that is dropped afterwards. -/
def withState (state : τ) (task : Task τ α) : Task σ α := fun tree journal =>
  let (outcome, inner) := task tree ⟨state, journal.notices⟩
  (outcome, ⟨journal.state, inner.notices⟩)

/-- Whether a path leads to an entry that passes a test; a path that is too long is a failure. -/
def passes (test : Entry → Bool) (path : Path) : Task σ Bool := do
  match (← files).passes test path with
  | .ok outcome => return outcome
  | .error long => fail (.tooLong long)

/-- Whether a path leads to a regular file. -/
def isFile : Path → Task σ Bool := passes Entry.isFile

/-- Whether a path leads to a directory. -/
def isDirectory : Path → Task σ Bool := passes Entry.isDirectory

/-- Whether a path leads to something. -/
def isPresent : Path → Task σ Bool := passes fun _ => true

/-- The path without links and dots; a loop of links is a failure, and so is a null character. -/
def resolvePath (path : Path) : Task σ Path := do
  if path.hasNull then fail (.nullCharacter path)
  match (← files).resolve? path with
  | some resolved => return resolved
  | none => fail (.linkLoop path)

end Task

end ModuleAtlas
