import CallGuard.Command
import CallGuard.Command.Failure
import CallGuard.Guard.Run
import CallGuard.Ir.Module.Parser
import CallGuard.Pass.Registry

/-!
Running commands on files.

* `Execution`: what running a command led to.
* `ProfileCommand.run`, `GuardCommand.run`, `passesText`: the commands.
* `Command.execute`: a whole command line.
-/

namespace CallGuard

namespace Command

/-- What running a command led to. -/
structure Execution where
  /-- The status, which is zero if all went well. -/
  code : Nat := 0
  /-- What is written to the output. -/
  stdout : String := ""
  /-- What is written to the error stream. -/
  stderr : String := ""
  /-- The files after the run. -/
  files : Files
  deriving DecidableEq

/-- A command that failed. -/
def Failure.execution (f : Failure) (files : Files) : Execution :=
  { code := 1, stderr := f.text, files }

/-- The list of passes. -/
def passesText (r : Registry) : String :=
  let width := ((r.list.map fun (name, _) => Text.byteLength name.toList).max?).getD 0
  let line := fun (name, description) =>
    "  " ++ Statistics.padRight width name ++ "  - " ++ description ++ "\n"
  s!"Registered passes ({r.size}):\n" ++ String.ofList (List.replicate 50 '=') ++ "\n" ++
    String.join (r.list.map line)

/-- The name and version of the program. -/
def versionText : String :=
  "callsig 0.1.0\n"

/-- How the program is called. -/
def usageText : String :=
  "Usage: callsig [OPTIONS] <COMMAND>\n"

end Command

open Command (Execution Failure)

/-! ### Profiles -/

namespace ProfileCommand

/-- The module in the file. -/
def readModule (c : ProfileCommand) (files : Files) : Except Failure Ir.Module :=
  let failure (causes : List String) : Failure :=
    ⟨s!"Failed to parse IR module: {c.input}", causes⟩
  match files.readText c.input with
  | .error e => .error (failure [s!"I/O error: {e.message}", e.message])
  | .ok text => (Ir.Module.parse (String.ofList text)).mapError fun e => failure [e.message]

/-- The causes of an error of passes. -/
def passCauses (e : PassError) : List String :=
  match e with
  | .io error => [e.message, error.message]
  | _ => [e.message]

/-- What is written to the output and to the error stream, and the files, after
passes have written. With a file for the report nothing but counters goes to the
error stream, and the passes write over each other; to a stream of the program they
write in turns. -/
def deliver (c : ProfileCommand) (r : Run StandardState Summary) (files : Files) :
    Except IoError (String × String × Files) :=
  match c.config.output with
  | none => .ok ("", String.join r.transcript, files)
  | some path =>
    match files.find path with
    | .ok (.device .output) => .ok (String.join r.transcript, "", files)
    | .ok (.device .errors) => .ok ("", String.join r.transcript, files)
    | _ =>
      let written := (r.passes.getLast?.map (·.written)).getD ""
      (files.write path (Text.encode written.toList)).map fun files => ("", "", files)

/-- Shows the functions of a module to passes. -/
def run (c : ProfileCommand) (files : Files) : Execution :=
  match c.readModule files with
  | .error f => f.execution files
  | .ok m =>
    match (Registry.builtin.pipeline c.config c.passes).run files with
    | .error e files =>
      (Failure.mk "Failed to build pass pipeline" (passCauses e)).execution files
    | .ok passes files =>
      let r := passes.run m
      let failure (e : PassError) : Failure :=
        ⟨s!"Pass pipeline failed on {c.input}", passCauses e⟩
      match c.deliver r files, r.result with
      | .ok (stdout, stderr, files), .ok _ =>
        let stats := if c.stats then (Pipeline.statistics r.passes).text else ""
        { stdout, stderr := stderr ++ stats, files }
      | .ok (stdout, stderr, files), .error e =>
        { code := 1, stdout, stderr := stderr ++ (failure e).text, files }
      | .error _, .error e => (failure e).execution files
      | .error e, .ok _ => (failure (.io e)).execution files

end ProfileCommand

/-! ### Guards -/

namespace GuardCommand

/-- The files and options of the run. Without a seed another number is used. -/
def config (c : GuardCommand) (chance : UInt64) : GuardConfig where
  toolDirectory := c.toolDirectory
  reportPath := c.report
  watPath := c.wat
  seed := c.seed.getD chance
  assemble := c.assemble
  offset := c.offset
  checkFunction := c.checkFunction

/-- What is said about a run. -/
def summary (c : GuardCommand) (out : GuardOutcome) : String :=
  let refreshed := if out.refreshed then " (refreshed)" else ""
  s!"{c.wat}: {out.sets.tableLength} table functions in {out.sets.size} signature sets, " ++
    s!"{out.checked} call sites checked{refreshed}\n" ++
    (out.wasmPath.elim "" fun path => s!"wrote {path}\n") ++
    (if c.printSets then out.sets.text else "")

/-- Guards the indirect calls of a module. -/
def run (c : GuardCommand) (programs : Programs) (chance : UInt64) (files : Files) : Execution :=
  match ((c.config chance).run programs).run files with
  | .ok out files => { stdout := c.summary out, files }
  | .error e files =>
    let f : Failure := ⟨s!"Wasm CFI generation failed for {c.wat}", e.message :: e.cause?.toList⟩
    f.execution files

end GuardCommand

/-! ### Command lines -/

namespace Command

/-- Runs a command. -/
def run (c : Command) (programs : Programs) (chance : UInt64) (files : Files) : Execution :=
  match c with
  | .profile c => c.run files
  | .passes => { stdout := passesText Registry.builtin, files }
  | .guard c => c.run programs chance files

/-- Runs the command that arguments spell. The given number is used where chance is
asked for. -/
def execute (arguments : List String) (programs : Programs) (chance : UInt64) (files : Files) :
    Execution :=
  match parse arguments with
  | .ok c => c.run programs chance files
  | .error .misuse => { code := 2, stderr := usageText, files }
  | .error .help => { stdout := usageText, files }
  | .error .version => { stdout := versionText, files }

end Command

end CallGuard
