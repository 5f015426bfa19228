import CallGuard.Command.Run
import CallGuard.Files.Interpreter

/-!
The program. The files that a command may use are read, the command is run on
them, and the files that it changed are written.

* `Command.paths`: the files that a command may use.
* `main`: the program.
-/

namespace CallGuard

/-- The tools in a directory. -/
def toolPaths (directory : String) : List String :=
  ["wasm2wat", "wat2wasm"].map (Path.join directory)

/-- The files that a command may use, and the tools that it may run. -/
def Command.paths : Command → List String × List String
  | .profile c => (c.input :: c.config.output.toList, [])
  | .passes => ([], [])
  | .guard c =>
    ([c.report, c.wat] ++ ((c.config 0).wasmPath.toOption).toList, toolPaths c.toolDirectory)

/-- Adds what lies at a path to the files that are known. -/
def loadPath (executable : Bool) (files : Files) (path : String) : IO Files := do
  let place := (← IO.currentDir) / path
  if (Files.Device.at? (Files.placeOf path)).isSome then return files
  else if ← place.isDir then
    return { files with directories := Files.placeOf path :: files.directories }
  else if ← place.pathExists then
    let bytes ← IO.FS.readBinFile place
    return files.put (Files.placeOf path) ⟨bytes.toList, executable⟩
  else return files

/-- The files that a command may use, with the directories that they lie in. -/
def loadFiles (paths tools : List String) : IO Files := do
  let parents := (paths.map Path.parent).filter (· ≠ "")
  let files ← parents.foldlM (loadPath false) {}
  let files ← paths.foldlM (loadPath false) files
  tools.foldlM (loadPath true) files

/-- A number that depends on chance. -/
def drawChance : IO UInt64 := do
  let bytes ← IO.getRandomBytes 8
  return UInt64.ofNat (bytes.toList.foldl (fun n b => 256 * n + b.toNat) 0)

/-- Runs the command that arguments spell, and says its status. -/
def runProgram (arguments : List String) : IO UInt32 := do
  let (paths, tools) := match Command.parse arguments with
    | .ok c => c.paths
    | .error _ => ([], [])
  let files ← loadFiles paths tools
  let e := Command.execute arguments Interpreter.programs (← drawChance) files
  for (key, bytes) in files.changes e.files do
    IO.FS.writeBinFile (Files.pathOf key) ⟨bytes.toArray⟩
  IO.print e.stdout
  IO.eprint e.stderr
  return UInt32.ofNat e.code

end CallGuard

/-- The program. -/
def main (arguments : List String) : IO UInt32 :=
  CallGuard.runProgram arguments
