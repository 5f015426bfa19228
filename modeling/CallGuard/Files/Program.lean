import CallGuard.Files

/-!
Running programs on files.

* `Ending`: how a program ended.
* `ProgramResult`: what running a program led to.
* `Programs`: how programs run.
-/

namespace CallGuard

/-- How a program ended. -/
inductive Ending where
  /-- With a status, which is zero if all went well. -/
  | status (n : Nat)
  /-- By a signal. -/
  | signal (n : Nat)
  deriving DecidableEq, Repr

namespace Ending

/-- The number by which scripts know an ending. -/
def code : Ending → Nat
  | status n => n
  | signal n => 128 + n

/-- The names of the signals, from the first on. -/
def signalNames : List String :=
  ["HUP", "INT", "QUIT", "ILL", "TRAP", "ABRT", "BUS", "FPE", "KILL", "USR1", "SEGV", "USR2",
    "PIPE", "ALRM", "TERM", "STKFLT", "CHLD", "CONT", "STOP", "TSTP", "TTIN", "TTOU", "URG",
    "XCPU", "XFSZ", "VTALRM", "PROF", "WINCH", "IO", "PWR", "SYS"]

/-- The name of a signal. -/
def signalName? (n : Nat) : Option String :=
  if n = 0 then none else signalNames[n - 1]?

/-- What a signal is called in words. -/
def signalText? (n : Nat) : Option String :=
  match n with
  | 1 => some "Hangup"
  | 3 => some "Quit"
  | 4 => some "Illegal instruction"
  | 5 => some "Trace/breakpoint trap"
  | 6 => some "Aborted"
  | 7 => some "Bus error"
  | 8 => some "Floating point exception"
  | 9 => some "Killed"
  | 10 => some "User defined signal 1"
  | 11 => some "Segmentation fault"
  | 12 => some "User defined signal 2"
  | 14 => some "Alarm clock"
  | 15 => some "Terminated"
  | _ => none

/-- What is said about a program that ended by a signal. -/
def remark? : Ending → Option String
  | status _ => none
  | signal n => signalText? n

/-- An ending in words. -/
def message : Ending → String
  | status n => s!"exit status: {n}"
  | signal n => s!"signal: {n}" ++ ((signalName? n).elim "" fun name => s!" (SIG{name})")

end Ending

/-- What running a program led to. -/
inductive ProgramResult where
  /-- It could not be started. -/
  | notStarted (error : IoError)
  /-- It ended, and complained. -/
  | ended (ending : Ending) (complaint : List Char)
  deriving DecidableEq, Repr

/-- How the program at a path runs on arguments and files, and which files it
leaves. -/
abbrev Programs := String → List String → Files → ProgramResult × Files

end CallGuard
