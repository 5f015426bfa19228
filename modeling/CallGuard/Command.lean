import CallGuard.Command.Arguments
import CallGuard.Guard
import CallGuard.Pass.Profiler

/-!
The commands and their arguments.

* `Command`: the commands.
* `Command.parse`: the command that arguments spell.
-/

namespace CallGuard

/-- Shows the functions of a module to passes. -/
structure ProfileCommand where
  /-- The file of the module. -/
  input : String
  /-- The names of the passes. -/
  passes : List String
  /-- The form of the report, and where it goes. -/
  config : ProfilerConfig
  /-- Whether counters are shown. -/
  stats : Bool
  deriving DecidableEq, Repr

/-- Guards the indirect calls of a module. -/
structure GuardCommand where
  /-- The directory of the tools. -/
  toolDirectory : String
  /-- The file of the report. -/
  report : String
  /-- The file of the module's text. -/
  wat : String
  /-- The seed of the shuffling, if one is given. -/
  seed : Option UInt64
  /-- Whether the guarded text is turned into binary form. -/
  assemble : Bool
  /-- Whether the signature sets are shown. -/
  printSets : Bool
  /-- The address of the new indices in memory. -/
  offset : UInt32
  /-- The function that checks an index. -/
  checkFunction : String
  deriving DecidableEq, Repr

/-- A command. -/
inductive Command where
  /-- Shows the functions of a module to passes. -/
  | profile (command : ProfileCommand)
  /-- Lists the passes. -/
  | passes
  /-- Guards the indirect calls of a module. -/
  | guard (command : GuardCommand)
  deriving DecidableEq, Repr

namespace Command

/-! ### What is accepted -/

/-- Asks for more messages; it may be given anywhere and any number of times. -/
def verboseOption : OptionSpec :=
  { name := "verbose", letter := some 'v', repeatable := true }

/-- Asks for help. -/
def helpOption : OptionSpec :=
  { name := "help", letter := some 'h', stop := some .help }

/-- Asks for the version. -/
def versionOption : OptionSpec :=
  { name := "version", letter := some 'V', stop := some .version }

/-- Whether a value can be a path. -/
def isPath (value : String) : Bool :=
  value != ""

/-- The seed that a value spells. -/
def seed? (value : String) : Option UInt64 :=
  (Text.readBelow? UInt64.size value.toList).map .ofNat

/-- The address that a value spells. Zero may have a minus sign. -/
def offset? (value : String) : Option UInt32 :=
  match value.toList with
  | '-' :: digits => ((Text.readDecimal? digits).filter (· == 0)).map .ofNat
  | cs => (Text.readBelow? UInt32.size cs).map .ofNat

/-- What stands before a command. -/
def mainInterface : Interface where
  options := [verboseOption, helpOption, versionOption]
  hasCommands := true

/-- The arguments of the command that shows functions to passes. -/
def profileInterface : Interface where
  options := [
    { name := "pass", letter := some 'p', accepts := some fun _ => true, repeatable := true },
    { name := "format", letter := some 'f',
      accepts := some fun value => (ReportFormat.ofName? value).isSome },
    { name := "pretty" },
    { name := "output", letter := some 'o', accepts := some isPath },
    { name := "stats" }, verboseOption, helpOption]
  words := 1

/-- The arguments of the command that lists the passes. -/
def passesInterface : Interface where
  options := [verboseOption, helpOption]

/-- The arguments of the command that guards a module. -/
def guardInterface : Interface where
  options := [
    { name := "wabt", accepts := some isPath },
    { name := "report", accepts := some isPath },
    { name := "wat", accepts := some isPath },
    { name := "seed", accepts := some fun value => (seed? value).isSome },
    { name := "no-assemble" }, { name := "print-sets" },
    { name := "index-offset", accepts := some fun value => (offset? value).isSome },
    { name := "check-function", accepts := some fun _ => true },
    verboseOption, helpOption]

/-! ### Reading commands -/

/-- The value of an option that must be given. -/
def required (g : Given) (name : String) : Except Stop String :=
  match g.value? name with
  | some value => .ok value
  | none => .error .misuse

/-- The command that shows functions to passes. -/
def parseProfile (arguments : List String) : Except Stop ProfileCommand := do
  let (g, _) ← profileInterface.scan arguments
  match g.words with
  | [input] =>
    let passes := g.values "pass"
    return {
      input
      passes := if passes.isEmpty then [Profiler.passName] else passes
      config := {
        format := ((g.value? "format").bind ReportFormat.ofName?).getD .fragment
        pretty := g.has "pretty"
        output := g.value? "output" }
      stats := g.has "stats" }
  | _ => throw .misuse

/-- The command that guards a module. -/
def parseGuard (arguments : List String) : Except Stop GuardCommand := do
  let (g, _) ← guardInterface.scan arguments
  return {
    toolDirectory := ← required g "wabt"
    report := ← required g "report"
    wat := ← required g "wat"
    seed := (g.value? "seed").bind seed?
    assemble := !g.has "no-assemble"
    printSets := g.has "print-sets"
    offset := ((g.value? "index-offset").bind offset?).getD Guard.defaultOffset
    checkFunction := (g.value? "check-function").getD Guard.defaultCheckFunction }

/-- The names of the commands. -/
def names : List String := ["profile", "passes", "wasm-cfi", "help"]

/-- What asking for help leads to: at most one command may be named. -/
def helpStop : List String → Stop
  | [] => .help
  | [name] => if names.contains name then .help else .misuse
  | _ => .misuse

/-- The command that arguments spell. -/
def parse (arguments : List String) : Except Stop Command := do
  match ← mainInterface.scan arguments with
  | (_, []) => throw .misuse
  | (_, name :: rest) =>
    match name with
    | "profile" => return .profile (← parseProfile rest)
    | "passes" =>
      let _ ← passesInterface.scan rest
      return .passes
    | "wasm-cfi" => return .guard (← parseGuard rest)
    | "help" => throw (helpStop rest)
    | _ => throw .misuse

end Command

end CallGuard
