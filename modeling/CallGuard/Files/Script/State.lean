import CallGuard.Files.Program
import CallGuard.Files.Script.Node

/-!
What a running script knows.

* `Script.Sink`: where streams go.
* `Script.State`: the state of a script.
* `Script.State.emit`: writing to a stream.
* `Script.State.complainAt`: complaints of the shell.
-/

namespace CallGuard.Script

/-- Where a stream goes. -/
inductive Sink where
  /-- It is dropped. -/
  | nowhere
  /-- There is no room for it. -/
  | full
  /-- To a buffer, by its number. -/
  | buffer (n : Nat)
  /-- To the end of the file at a place. -/
  | file (key : List String)
  deriving DecidableEq, Repr

/-- How a script goes on. -/
inductive Flow where
  /-- With the next command. -/
  | going
  /-- After so many loops, or with the next round of the last of them. -/
  | leaving (loops : Nat) (again : Bool)
  /-- After the function. -/
  | returning
  /-- Not at all. -/
  | ended (ending : Ending)
  deriving DecidableEq, Repr

/-- The streams of a command. -/
structure Streams where
  /-- What can be read. -/
  input : List Char := []
  /-- Where the streams that are written to go, by their numbers. -/
  sinks : List (Nat × Sink) := [(1, .buffer 1), (2, .buffer 0)]
  deriving DecidableEq, Repr

namespace Streams

/-- Where a stream goes, by its number. -/
def sink? (streams : Streams) (stream : Nat) : Option Sink :=
  streams.sinks.lookup stream

/-- Sends a stream somewhere. -/
def send (streams : Streams) (stream : Nat) (sink : Sink) : Streams :=
  { streams with sinks := (stream, sink) :: streams.sinks.filter (·.1 != stream) }

end Streams

/-- The state of a script. -/
structure State where
  /-- The files. -/
  files : Files
  /-- The path of the script, and its arguments. -/
  arguments : List (List Char)
  /-- The variables, the one set last first. -/
  bindings : List (List Char × List Char) := []
  /-- The variables that programs are given. -/
  exported : List (List Char) := []
  /-- The variables that cannot be changed. -/
  fixed : List (List Char) := []
  /-- What the variables of the function were before it. -/
  locals : List (List Char × Option (List Char)) := []
  /-- The functions, the one defined last first. -/
  functions : List (List Char × Node) := []
  /-- What is done when a signal comes; the signal zero is the end of the script. -/
  traps : List (Nat × List Char) := []
  /-- What is still to be done as a signal came. -/
  pending : Option (List Char) := none
  /-- The status of the last command. -/
  status : Nat := 0
  /-- The status of the last script whose output was taken for a word. -/
  substitution : Nat := 0
  /-- What has been written to buffers: complaints, output, and what is kept. -/
  buffers : List (List Char) := [[], []]
  /-- The streams. -/
  streams : Streams := {}
  /-- Whether the first command that fails ends the script. -/
  strict : Bool := false
  /-- Whether a value that is not there ends the script. -/
  careful : Bool := false
  /-- Whether commands are shown before they are run. -/
  traced : Bool := false
  /-- The number of loops around the command. -/
  depth : Nat := 0
  /-- What stands before complaints. -/
  heading : List Char := []
  /-- How the script goes on. -/
  flow : Flow := .going

namespace State

/-- The number of the process. -/
def process : Nat := 4242

/-- Whether the next command is run. -/
def isGoing (s : State) : Bool :=
  s.flow == .going

/-- How the script ends, if it ends now. -/
def ending (s : State) : Ending :=
  match s.flow with
  | .ended ending => ending
  | _ => .status s.status

/-! ### Streams -/

/-- Where a stream goes. -/
def sink (s : State) (stream : Nat) : Sink :=
  (s.streams.sink? stream).getD .nowhere

/-- Writes to a stream. -/
def emit (s : State) (stream : Nat) (text : List Char) : State :=
  match s.sink stream with
  | .nowhere | .full => s
  | .buffer n => { s with buffers := s.buffers.modify n (· ++ text) }
  | .file key =>
    match s.files.get? key with
    | some file =>
      { s with files := s.files.put key { file with bytes := file.bytes ++ toBytes text } }
    | none => s

/-- Complains. -/
def complain (s : State) (text : List Char) : State :=
  s.emit 2 text

/-- Complains about a line of the script. -/
def complainAt (s : State) (line : Nat) (text : List Char) : State :=
  s.complain (s.arguments.head?.getD [] ++ s!": {line}: ".toList ++ s.heading ++ text ++ ['\n'])

/-- Complains about the call of a command. -/
def remarkAt (s : State) (line : Nat) (name : String) (text : List Char) : State :=
  { ({ s with heading := name.toList ++ ": ".toList }).complainAt line text with
    heading := s.heading }

/-! ### Ends -/

/-- Ends the script with a status. -/
def finish (s : State) (status : Nat) : State :=
  { s with status, flow := .ended (.status status) }

/-- Complains about a line, and ends the script. -/
def fail (s : State) (line : Nat) (text : List Char) : State :=
  (s.complainAt line text).finish 2

/-! ### Variables -/

/-- Sets a variable. -/
def bind (s : State) (name value : List Char) : State :=
  { s with bindings := (name, value) :: s.bindings.filter (·.1 != name) }

/-- Removes a variable. -/
def unbind (s : State) (name : List Char) : State :=
  { s with bindings := s.bindings.filter (·.1 != name) }

/-- Sets a variable to what it was before. -/
def rebind (s : State) (name : List Char) (value : Option (List Char)) : State :=
  value.elim (s.unbind name) (s.bind name)

/-- The characters that separate texts. -/
def separators (s : State) : List Char :=
  (s.bindings.lookup "IFS".toList).getD [' ', '\t', '\n']

/-- The value of a parameter. -/
def lookup? (s : State) (name : List Char) : Option (List Char) :=
  match name with
  | ['@'] => some ([' '].intercalate s.arguments.tail)
  | ['*'] => some ((s.separators.take 1).intercalate s.arguments.tail)
  | ['#'] => some (toString s.arguments.tail.length).toList
  | ['?'] => some (toString s.status).toList
  | ['$'] => some (toString process).toList
  | ['-'] =>
    some ((if s.strict then ['e'] else []) ++ (if s.careful then ['u'] else []) ++
      if s.traced then ['x'] else [])
  | _ =>
    if name.all Char.isDigit then s.arguments[Nat.ofDigitChars 10 name 0]?
    else s.bindings.lookup name

/-- The variables that programs are given. -/
def environment (s : State) : List (List Char × List Char) :=
  s.bindings.filter fun (name, _) => s.exported.contains name

end State

end CallGuard.Script
