import CallGuard.Guard.Instrument
import CallGuard.Random.Words
import CallGuard.Report.Reader

/-!
Guarding the module in a file. The text of the module is made from its binary form
if it is not there, guarded in place, and turned into binary form again. Two tools
do the turning.

* `GuardConfig`: the files and options of a run.
* `GuardConfig.wasmPath`: the file of the binary form.
* `GuardConfig.run`: a run.
-/

namespace CallGuard

/-- The files and options of a run. -/
structure GuardConfig where
  /-- The directory of the tools. -/
  toolDirectory : String := "."
  /-- The file of the report. -/
  reportPath : String
  /-- The file of the module's text. -/
  watPath : String
  /-- The seed of the shuffling. -/
  seed : UInt64
  /-- Whether the guarded text is turned into binary form. -/
  assemble : Bool := true
  /-- The address of the new indices in memory. -/
  offset : UInt32 := Guard.defaultOffset
  /-- The function that checks an index. -/
  checkFunction : String := Guard.defaultCheckFunction
  deriving DecidableEq, Repr

/-- What a run did. -/
structure GuardOutcome where
  /-- The signature sets. -/
  sets : SignatureSets
  /-- The new indices. -/
  layout : Layout
  /-- Whether the module had been guarded before. -/
  refreshed : Bool
  /-- The number of calls that got a check. -/
  checked : Nat
  /-- The file of the binary form, if it was made. -/
  wasmPath : Option String
  deriving DecidableEq, Repr

/-- Steps of a run on files. -/
abbrev Running := EStateM GuardError Files

namespace GuardConfig

/-- The binary form lies beside the text, under the name up to its first point. -/
def wasmPath (config : GuardConfig) : Except GuardError String :=
  match Path.fileName? config.watPath with
  | none => .error (.invalidPath config.watPath)
  | some name =>
    let stem := String.ofList (name.toList.takeWhile (· != '.'))
    let parent := Path.parent config.watPath
    .ok (Path.join (if parent = "" then "." else parent) (stem ++ ".wasm"))

/-- Runs a tool that makes the file `output` from the file `input`. -/
def runTool (config : GuardConfig) (programs : Programs) (tool input output : String) :
    Running Unit := do
  let path := Path.join config.toolDirectory tool
  let (result, files) := programs path [input, "-o", output] (← get)
  set files
  match result with
  | .notStarted error => throw (.toolNotStarted path error)
  | .ended (.status 0) _ => return
  | .ended ending complaint =>
    throw (.toolFailed tool ending (String.ofList (Text.trim complaint)))

/-- Reads a text file. -/
def readText (path : String) : Running (List Char) := do
  match (← get).readText path with
  | .ok text => return text
  | .error e => throw (.io e)

/-- Writes a text file. -/
def writeText (path : String) (text : List Char) : Running Unit := do
  match (← get).write path (Text.encode text) with
  | .ok files => set files
  | .error e => throw (.io e)

/-- Steps that only compute. -/
def compute {α : Type} (result : Except GuardError α) : Running α :=
  match result with
  | .ok a => return a
  | .error e => throw e

/-- The guard of a text under the options of a run, shuffled by its seed. -/
def guardOf (config : GuardConfig) (report : Report) (text : List Char) :
    Except GuardError Guard := do
  let g ← Guard.ofText report text
  let words := Random.seededWords config.seed (Random.wordsFor g.table.length)
  return { g with offset := config.offset, checkFunction := config.checkFunction }.randomize words

/-- Guards the module in a file. -/
def run (config : GuardConfig) (programs : Programs) : Running GuardOutcome := do
  let wasmPath ← compute config.wasmPath
  unless (← get).contains config.watPath do
    config.runTool programs "wasm2wat" wasmPath config.watPath
  let report ← compute ((Report.parse (← readText config.reportPath)).mapError .report)
  let text ← readText config.watPath
  let g ← compute (config.guardOf report text)
  let out ← compute (g.instrument text)
  writeText config.watPath out.text
  if config.assemble then
    config.runTool programs "wat2wasm" config.watPath wasmPath
  return ⟨g.sets, g.layout, out.refreshed, out.checked,
    if config.assemble then some wasmPath else none⟩

end GuardConfig

end CallGuard
