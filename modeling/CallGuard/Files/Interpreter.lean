import CallGuard.Files.Script.Run

/-!
Programs that are scripts, as they are run from outside.

* `Interpreter.programs`: how the programs in files run.
-/

namespace CallGuard.Interpreter

/-- Runs the program at a path. -/
def start (path : String) (arguments : List String) (files : Files) : ProgramResult × Files :=
  let run := Script.eval Script.depthLimit
  match Script.launch run Script.stepLimit (Script.ofString path)
      (arguments.map Script.ofString) { files, arguments := [] } with
  | .error e => (.notStarted e, files)
  | .ok (ending, s) => (.ended ending (Script.toText (s.buffers.head?.getD [])), s.files)

/-- Runs the programs in files. A name without a slash is no path, so there is no
such program. -/
def programs : Programs := fun path arguments files =>
  if (path :: arguments).any (·.toList.contains '\x00') then (.notStarted .zeroInCommand, files)
  else if !path.toList.contains '/' then (.notStarted .notFound, files)
  else start path arguments files

end CallGuard.Interpreter
