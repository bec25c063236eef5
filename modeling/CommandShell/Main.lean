import CommandShell.CommandLine
import CommandShell.Machine.Basic

/-! # The program

Runs the shell on a machine in memory. The machine starts with the working directory and with those
files that the arguments name.
-/

namespace CommandShell

def programName : String := "hsh"

/-- The variables that a session takes over. -/
def importedNames : List String := ["HOME", "LANG", "PATH", "TERM", "USER"]

partial def readToEnd (stream : IO.FS.Stream) (before : ByteArray) : IO ByteArray := do
  let bytes ← stream.read 65536
  if bytes.isEmpty then return before else readToEnd stream (before ++ bytes)

def importFile (directory : String) (files : FileSystem) (path : String) : IO FileSystem := do
  match ← (IO.FS.readBinFile path).toBaseIO with
  | .ok bytes =>
    let position := FileSystem.positionOf (Path.join directory path)
    return files.place position (.file bytes.toList 0o755)
  | .error _ => return files

def importEnvironment : IO (List (String × String)) := do
  let values ← importedNames.mapM fun name => do return (name, ← IO.getEnv name)
  return values.filterMap fun (name, value) => value.map (name, ·)

end CommandShell

open CommandShell in
def main (arguments : List String) : IO UInt32 := do
  let directory := (← IO.currentDir).toString
  let stdin ← IO.getStdin
  let terminal ← stdin.isTty
  let input ← if terminal && !arguments.isEmpty then pure .empty else readToEnd stdin .empty
  let start := Machine.baseFiles.place (FileSystem.positionOf directory) .directory
  let files ← arguments.foldlM (importFile directory) start
  let ended := CommandLine.run Machine.system {
    name := programName
    arguments
    environment := ← importEnvironment
    directory
    processId := 1
    world := { files, input := input.toList, terminal }
    out := { Stream.byLine {} with shared := true }
    err := { Stream.direct {} with shared := true } }
  (← IO.getStdout).write ⟨ended.out.device.stored⟩
  (← IO.getStderr).write ⟨ended.err.device.stored⟩
  return ended.code.toUInt32
