import CallGuard.Files.FirstLine
import CallGuard.Files.Script.Control
import CallGuard.Files.Script.Redirection
import CallGuard.Files.Script.Utility

/-!
What runs apart from the script. How a command runs is given here.

* `Script.subshell`, `Script.capture`: commands whose changes stay within them.
* `Script.runShell`: scripts as programs.
* `Script.launch`: the programs in files.
-/

namespace CallGuard.Script

/-- How a command runs. The flag says that its failure is looked at, so that it does
not end a strict script. -/
abbrev Runner := Bool → Node → State → State

/-- Runs commands, one after the other. -/
def runAll (run : Runner) (tested : Bool) (nodes : List Node) (s : State) : State :=
  nodes.foldl (fun s node => if s.isGoing then run tested node s else s) s

/-- Runs the commands of a text whose first line has a number. -/
def runText (run : Runner) (tested : Bool) (line : Nat) (text : List Char) (s : State) : State :=
  runAll run tested (parse line text) s

/-- Does what is to be done at the end of the script. The status stays as it was. -/
def atExit (run : Runner) (s : State) : State :=
  match s.traps.lookup 0, s.ending with
  | some action, .status status =>
    let t := runText run false 1 action { s with traps := [], status, flow := .going }
    if t.isGoing then t.finish status else t
  | _, _ => s

/-! ### Commands apart from the others -/

/-- Takes over what a process leaves: files, what it wrote, and what it did not read. -/
def State.afterProcess (s inner : State) : State :=
  { s with
    files := { inner.files with directory := s.files.directory }
    buffers := inner.buffers
    streams := { s.streams with input := inner.streams.input } }

/-- Runs what changes nothing but files. -/
def subshell (run : Runner) (body : State → State) (s : State) : State :=
  let inner := atExit run (body { s with traps := [] })
  let s := s.afterProcess inner
  match inner.ending with
  | .status status => { s with status }
  | .signal n => { s with flow := .ended (.signal n) }

/-- Runs what changes nothing but files, and keeps its output. -/
def capture (run : Runner) (body : State → State) (s : State) : List Char × State :=
  let n := s.buffers.length
  let t := subshell run body
    { s with buffers := s.buffers ++ [[]], streams := s.streams.send 1 (.buffer n) }
  ((t.buffers[n]?).getD [],
    { t with
      buffers := t.buffers.take n
      streams := { s.streams with input := t.streams.input } })

/-! ### Scripts as programs -/

/-- Runs a text as a program, under options that are given by their letters. -/
def runProgram (run : Runner) (letters : List Char) (arguments : List (List Char))
    (text : List Char) (s : State) : Ending × State :=
  let child : State :=
    { files := s.files
      arguments
      bindings := s.environment
      exported := s.exported
      buffers := s.buffers
      streams := s.streams }
  let inner := atExit run (runText run false 1 text (child.switch letters true))
  (inner.ending, s.afterProcess inner)

/-- Runs the shell under a path. Its first argument that is no option is a script, or
the path of one. -/
def runShell (run : Runner) (path : List Char) (letters : List Char) :
    List (List Char) → State → Ending × State
  | [], s => runProgram run letters [path] s.streams.input { s with streams.input := [] }
  | argument :: rest, s =>
    match argument with
    | ['-'] | ['-', '-'] => runShell run path letters rest s
    | '-' :: c :: cs =>
      match (c :: cs).find? fun c => c != 'c' && !State.optionLetters.contains c with
      | some c => (.status 2, s.complain (path ++ s!": 0: Illegal option -{c}\n".toList))
      | none => runShell run path (letters ++ c :: cs) rest s
    | _ =>
      if letters.contains 'c' then
        runProgram run letters (if rest.isEmpty then [path] else rest) argument s
      else
        match s.files.read (pathOf argument) with
        | .ok bytes => runProgram run letters (argument :: rest) (ofBytes bytes) s
        | .error e =>
          let reason := s!": {openReason .read e}\n".toList
          (.status 2, s.complain (path ++ ": 0: cannot open ".toList ++ argument ++ reason))

/-! ### Programs -/

/-- Calls a utility by a name. Complaints about the call come from the shell. -/
def callUtility (line : Nat) (name : List Char) (builtin : Bool) (utility : Utility)
    (arguments : List (List Char)) (s : State) : State :=
  let called := pathOf name
  let e := utility called s.streams.input arguments s.files
  let input := if e.reads then [] else s.streams.input
  let s := { s with files := e.files, status := e.status, streams.input := input }
  let s := s.complain e.complaint
  let s := e.remark.elim s (s.remarkAt line called)
  if s.sink 1 = .full ∧ e.output ≠ [] then
    let t := if builtin then s.remarkAt line called "I/O error".toList
      else s.complain (ofString s!"{called}: write error: {IoError.noSpace.reason}\n")
    { t with status := 1 }
  else s.emit 1 e.output

/-- Calls a program of the system under a path. -/
def callSystem (run : Runner) (path : List Char) (name : String) :
    List (List Char) → State → Ending × State
  | [], s => call [] s
  | argument :: rest, s =>
    if name = "env" then
      let program := pathOf argument
      if Files.systemPrograms.contains program then callSystem run argument program rest s
      else
        let refusal := path ++ ": '".toList ++ argument ++
          s!"': {IoError.notFound.reason}\n".toList
        let hint := if argument.contains ' ' then
            path ++ ": use -[v]S to pass options in shebang lines\n".toList
          else []
        (.status 127, s.complain (refusal ++ hint))
    else call (argument :: rest) s
where
  /-- Calls a program that calls no others. -/
  call (arguments : List (List Char)) (s : State) : Ending × State :=
    match name with
    | "sh" | "dash" | "bash" => runShell run path [] arguments s
    | "env" => (.status 0, s)
    | _ =>
      let utility := if name = "echo" then some echoPlainly else utility? name
      match utility with
      | some utility =>
        let s := callUtility 0 path false utility arguments s
        (.status s.status, s)
      | none => (.status 0, s)

/-- How many files may stand between a program and what runs it. -/
def stepLimit : Nat := 6

/-- Runs the program at a path. The file may name another file to run it, for so
many steps; no name at all leads to the working directory. -/
def launch (run : Runner) : Nat → List Char → List (List Char) → State →
    Except IoError (Ending × State)
  | 0, _, _, _ => .error .tooManyLinks
  | steps + 1, path, arguments, s =>
    match s.files.find (pathOf path) with
    | .ok (.device (.program name)) => .ok (callSystem run path name arguments s)
    | _ =>
      match s.files.program (pathOf path) with
      | .error e => .error e
      | .ok bytes =>
        match FirstLine.read? bytes with
        | none => .error .badProgram
        | some (name, argument) =>
          launch run steps (if name = "" then ['.'] else ofString name)
            ((argument.map ofString).toList ++ path :: arguments) s

/-- Runs the program that a script calls. A file that names no program to run it is
taken for a script. -/
def callProgram (run : Runner) (name : List Char) (arguments : List (List Char)) (s : State) :
    Except IoError (Ending × State) :=
  if name.contains '/' then
    match launch run stepLimit name arguments s with
    | .error .badProgram => do
      return runProgram run [] (name :: arguments) (ofBytes (← s.files.read (pathOf name))) s
    | result => result
  else if Files.systemPrograms.contains (pathOf name) then
    .ok (callSystem run name (pathOf name) arguments s)
  else .error .notFound

/-- What is complained about a program that could not be started, and the status. -/
def refusal (e : IoError) : String × Nat :=
  match e with
  | .notFound | .notDirectory => ("not found", 127)
  | .nameTooLong | .tooManyLinks => (e.reason, 127)
  | _ => (e.reason, 126)

end CallGuard.Script
