import ModuleAtlas.Command.Run
import ModuleAtlas.Snapshot

/-!
# The program

The first argument names a snapshot of a project: a JSON object with the working directory under
`directory`, the path of the settings file under `settings` and the files under `files`. The other
arguments are the command line. Files that the command writes are written to the disk.
-/

namespace ModuleAtlas.Program

/-- A text of a snapshot. -/
def textOf (snapshot : Json) (key : String) : String :=
  ((snapshot.get? key).bind Json.text?).getD ""

/-- The file tree of a snapshot. -/
def filesOf (snapshot : Json) : FileTree :=
  let directory := Path.ofText (textOf snapshot "directory")
  let empty : FileTree := ⟨.directory [], directory.names⟩
  Snapshot.addAll (empty.makeDirectory directory.names) (Path.ofRoot directory.names)
    ((snapshot.get? "files").getD .null)

/-- Tells a notice. -/
def tell (notice : Notice) : IO Unit :=
  IO.eprintln (notice.source ++ ": " ++ notice.message)

/-- Writes a file of a file tree to the disk. -/
def writeOut (files : FileTree) (path : Path) : IO Unit := do
  match files.bytes? path with
  | some bytes =>
    IO.FS.createDirAll path.parent.text
    IO.FS.writeBinFile path.text bytes
  | none => return

/-- Answers a command line about a snapshot. -/
def runOn (snapshot : Json) (arguments : List String) : IO UInt32 := do
  let settingsFile := Path.ofText (textOf snapshot "settings")
  let (reply, notices) := Command.respond settingsFile (filesOf snapshot) arguments
  notices.forM tell
  reply.written.forM (writeOut reply.files)
  match reply.failure with
  | some failure => IO.eprintln (failure.message?.getD "The inputs cannot be analysed.")
  | none => IO.print reply.output
  return UInt32.ofNat reply.exitCode

end ModuleAtlas.Program

open ModuleAtlas in
/-- Answers a command line about the snapshot that the first argument names. -/
def main (arguments : List String) : IO UInt32 := do
  match arguments with
  | [] => do
    IO.eprint Command.helpText
    return UInt32.ofNat Command.usageExit
  | snapshotFile :: rest =>
    let text ← IO.FS.readFile snapshotFile
    match Json.parse? text.toList with
    | some snapshot => Program.runOn snapshot rest
    | none => do
      IO.eprintln ("The snapshot is not JSON: " ++ snapshotFile)
      return UInt32.ofNat Command.failureExit
