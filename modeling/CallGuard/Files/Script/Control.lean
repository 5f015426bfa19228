import CallGuard.Files.Script.State
import CallGuard.Files.Script.Arithmetic
import CallGuard.Files.Script.Pattern

/-!
The commands of scripts that change the script itself.

* `Script.Control`: such commands.
* `Script.control?`: the command of a name.
* `Script.endsOnError`: the commands whose errors end the script.
-/

namespace CallGuard.Script

/-- A command that changes the script: it takes the line and its arguments. -/
abbrev Control := State → Nat → List (List Char) → State

namespace State

/-- Complains about an argument that is no number, and ends the script. -/
def refuseNumber (s : State) (line : Nat) (name : String) (argument : List Char) : State :=
  (s.remarkAt line name ("Illegal number: ".toList ++ argument)).finish 2

/-- Goes on with the number that is the first argument, if there is one. -/
def withNumber (s : State) (line : Nat) (name : String) (arguments : List (List Char))
    (standard : Nat) (next : Nat → State) : State :=
  match arguments with
  | [] => next standard
  | argument :: _ =>
    match Text.readBelow? (UInt32.size / 2) argument with
    | some n => next n
    | none => s.refuseNumber line name argument

/-! ### Leaving -/

/-- Ends the script. -/
def exit : Control := fun s line arguments =>
  s.withNumber line "exit" arguments s.status fun n => s.finish (n % 256)

/-- Leaves the function. -/
def leaveFunction : Control := fun s line arguments =>
  s.withNumber line "return" arguments s.status fun n =>
    { s with status := n % 256, flow := .returning }

/-- Leaves loops, or goes on with the next round. -/
def leaveLoop (name : String) (again : Bool) : Control := fun s line arguments =>
  s.withNumber line name arguments 1 fun n =>
    if n = 0 then s.refuseNumber line name ['0']
    else if s.depth = 0 then { s with status := 0 }
    else { s with status := 0, flow := .leaving (min n s.depth) again }

/-! ### Arguments and options -/

/-- Drops arguments. -/
def shift : Control := fun s line arguments =>
  s.withNumber line "shift" arguments 1 fun n =>
    if s.arguments.tail.length < n then
      (s.remarkAt line "shift" "can't shift that many".toList).finish 2
    else { s with status := 0, arguments := s.arguments.take 1 ++ s.arguments.tail.drop n }

/-- Switches options on or off by their letters. -/
def switch (s : State) (letters : List Char) (on : Bool) : State :=
  { s with
    strict := if letters.contains 'e' then on else s.strict
    careful := if letters.contains 'u' then on else s.careful
    traced := if letters.contains 'x' then on else s.traced }

/-- The letters of options that the shell takes. -/
def optionLetters : List Char :=
  ['a', 'b', 'C', 'e', 'f', 'h', 'm', 'n', 'u', 'v', 'x']

/-- The letter of an option that has a name. -/
def optionLetter? (name : String) : Option Char :=
  match name with
  | "errexit" => some 'e'
  | "nounset" => some 'u'
  | "xtrace" => some 'x'
  | "allexport" => some 'a'
  | "noclobber" => some 'C'
  | "noglob" => some 'f'
  | "noexec" => some 'n'
  | "verbose" => some 'v'
  | _ => none

/-- Replaces the arguments. -/
def setArguments (s : State) (arguments : List (List Char)) : State :=
  { s with status := 0, arguments := s.arguments.take 1 ++ arguments }

/-- Sets options and arguments. -/
def setup (s : State) (line : Nat) : List (List Char) → State
  | [] => { s with status := 0 }
  | argument :: rest =>
    let refuse (text : List Char) :=
      (s.remarkAt line "set" ("Illegal option -".toList ++ text)).finish 2
    match argument with
    | ['-', '-'] => s.setArguments rest
    | ['-', 'o'] | ['+', 'o'] =>
      match rest with
      | [] => { s with status := 0 }
      | name :: rest =>
        match optionLetter? (String.ofList name) with
        | some c => (s.switch [c] (argument = ['-', 'o'])).setup line rest
        | none => refuse ("o ".toList ++ name)
    | sign :: c :: cs =>
      if sign = '-' || sign = '+' then
        match (c :: cs).find? fun c => !optionLetters.contains c with
        | some c => refuse [c]
        | none => (s.switch (c :: cs) (sign = '-')).setup line rest
      else s.setArguments (argument :: rest)
    | _ => s.setArguments (argument :: rest)

/-! ### Variables -/

/-- The name and the value of an argument that sets a variable. -/
def settingOf (argument : List Char) : List Char × Option (List Char) :=
  match argument.dropWhile (· != '=') with
  | _ :: value => (argument.takeWhile (· != '='), some value)
  | [] => (argument, none)

/-- Deals with variables that arguments name and may set. -/
def declare (s : State) (line : Nat) (command : String) (each : State → List Char → State)
    (arguments : List (List Char)) : State :=
  let settings := (arguments.filter fun a => a.head? != some '-').map settingOf
  match settings.find? fun (name, _) => !isName name with
  | some (name, _) => (s.remarkAt line command (name ++ ": bad variable name".toList)).finish 2
  | none =>
    settings.foldl (fun s (name, value) =>
      value.elim (each s name) ((each s name).bind name)) { s with status := 0 }

/-- Gives variables to programs. -/
def exportTo : Control := fun s line arguments =>
  s.declare line "export" (fun s name => { s with exported := name :: s.exported }) arguments

/-- Makes variables belong to the function. -/
def keepLocal : Control := fun s line arguments =>
  s.declare line "local"
    (fun s name => { s with locals := (name, s.bindings.lookup name) :: s.locals }) arguments

/-- Removes variables or functions. -/
def unset : Control := fun s _ arguments =>
  let s := { s with status := 0 }
  match arguments with
  | ['-', 'f'] :: names =>
    { s with functions := s.functions.filter fun (name, _) => !names.contains name }
  | ['-', 'v'] :: names => names.foldl unbind s
  | names => names.foldl unbind s

/-- Gives the words of a line to variables; the last one takes the rest. -/
def bindWords (s : State) : List (List Char) → List Char → State
  | [], _ => s
  | name :: names, line =>
    let isGap (c : Char) := isBlank c && s.separators.contains c
    let text := line.dropWhile isGap
    match names with
    | [] => s.bind name (text.reverse.dropWhile isGap).reverse
    | _ =>
      let word := text.takeWhile (!s.separators.contains ·)
      let rest := (text.drop word.length).dropWhile isGap
      let rest := if (rest.head?.map s.separators.contains).getD false then rest.tail else rest
      (s.bind name word).bindWords names rest

/-- Reads a line into variables. -/
def read : Control := fun s _ arguments =>
  let names := arguments.filter fun a => a.head? != some '-'
  let input := s.streams.input
  let line := input.takeWhile (· != '\n')
  let text := if arguments.contains ['-', 'r'] then line else line.filter (· != '\\')
  let s := { s with
    status := if line.length < input.length then 0 else 1
    streams := { s.streams with input := input.drop (line.length + 1) } }
  s.bindWords names text

/-- Changes the place that paths start from. -/
def changeDirectory : Control := fun s line arguments =>
  match arguments.filter fun a => a.head? != some '-' with
  | [] => { s with status := 0 }
  | path :: _ =>
    match s.files.directoryAt? (pathOf path) with
    | some key => { s with status := 0, files := { s.files with directory := key } }
    | none =>
      { s.remarkAt line "cd" ("can't cd to ".toList ++ path) with status := 2 }

/-! ### Signals -/

/-- The signals that a process without handlers does not end by. -/
def harmless : List Nat := [0, 17, 18, 19, 20, 21, 22, 23, 28]

/-- The signal that a text names. -/
def signal? (name : List Char) : Option Nat :=
  (Text.readDecimal? name).or
    ((Ending.signalNames.idxOf? (String.ofList (name.map Char.toUpper))).map (· + 1))

/-- Sends a signal to the process itself; other processes are not known. -/
def sendSignal (s : State) (line : Nat) (signal : Nat) (targets : List (List Char)) : State :=
  if targets = [(toString process).toList] then
    match if signal = 0 ∨ signal = 9 ∨ signal = 19 then none else s.traps.lookup signal with
    | some action => { s with status := 0, pending := some action }
    | none =>
      if harmless.contains signal then { s with status := 0 }
      else { s with flow := .ended (.signal signal) }
  else { s.remarkAt line "kill" "No such process".toList with status := 1 }

/-- Sends a signal, which an option may name. -/
def kill : Control := fun s line arguments =>
  let refuse (text : List Char) : State := { s.remarkAt line "kill" text with status := 2 }
  match arguments with
  | [] =>
    refuse ("Usage: kill [-s sigspec | -signum | -sigspec] [pid | job]... or\n".toList ++
      "kill -l [exitstatus]".toList)
  | ['-', 's'] :: name :: targets =>
    match signal? name with
    | some n => s.sendSignal line n targets
    | none => refuse ("invalid signal number or name: ".toList ++ name)
  | ('-' :: name) :: targets =>
    match signal? name with
    | some n => s.sendSignal line n targets
    | none => refuse ("Illegal option -".toList ++ name.take 1)
  | targets => s.sendSignal line 15 targets

/-- The condition that a trap is set for. -/
def condition? (name : List Char) : Option Nat :=
  if String.ofList (name.map Char.toUpper) = "EXIT" then some 0 else signal? name

/-- Says what is done when signals come. -/
def trap : Control := fun s line arguments =>
  let set (action : Option (List Char)) (names : List (List Char)) : State :=
    names.foldl (fun s name =>
      match condition? name with
      | some n =>
        { s with traps := action.toList.map (n, ·) ++ s.traps.filter (·.1 != n) }
      | none => { s.remarkAt line "trap" (name ++ ": bad trap".toList) with status := 1 })
      { s with status := 0 }
  match if arguments.head? = some ['-', '-'] then arguments.tail else arguments with
  | [] => { s with status := 0 }
  | [name] => set none [name]
  | action :: names => set (if action = ['-'] then none else some action) names

end State

/-! ### Names -/

/-- The command of a name. -/
def control? (name : String) : Option Control :=
  match name with
  | "exit" => some State.exit
  | "return" => some State.leaveFunction
  | "break" => some (State.leaveLoop "break" false)
  | "continue" => some (State.leaveLoop "continue" true)
  | "shift" => some State.shift
  | "set" => some State.setup
  | "export" => some State.exportTo
  | "readonly" => some fun s line arguments =>
    s.declare line "readonly" (fun s name => { s with fixed := name :: s.fixed }) arguments
  | "local" => some State.keepLocal
  | "unset" => some State.unset
  | "read" => some State.read
  | "cd" => some State.changeDirectory
  | "kill" => some State.kill
  | "trap" => some State.trap
  | _ => none

/-- Whether errors of a command end the script. -/
def endsOnError (name : String) : Bool :=
  ["exit", "return", "break", "continue", "shift", "set", "export", "readonly", "unset", "trap",
    ":", ".", "eval", "exec"].contains name

end CallGuard.Script
