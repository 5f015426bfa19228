/-!
What the system provides at fixed places. A place is given by the names on the way
to it from the root, which stands first as a slash.

* `Device`: the files that the system provides.
* `systemDirectories`: the directories that are always there.
-/

namespace CallGuard.Files

/-- The place of the root. -/
def root : List String := ["/"]

/-- A file that the system provides. -/
inductive Device where
  /-- Forgets what is written to it. -/
  | null
  /-- Has no room for anything. -/
  | full
  /-- The output of the program. -/
  | output
  /-- The error stream of the program. -/
  | errors
  /-- A program of the system. -/
  | program (name : String)
  deriving DecidableEq, Repr

/-- The names of programs of the system. -/
def systemPrograms : List String :=
  ["basename", "bash", "cat", "chmod", "cp", "dash", "dirname", "echo", "env", "false", "grep",
    "head", "ls", "mkdir", "mv", "printf", "rm", "seq", "sh", "sleep", "sort", "tail", "tee",
    "touch", "true", "wc"]

namespace Device

/-- The device at a place. -/
def at? : List String → Option Device
  | ["/", "dev", name] =>
    match name with
    | "null" | "zero" | "stdin" => some .null
    | "full" => some .full
    | "stdout" => some .output
    | "stderr" => some .errors
    | _ => none
  | ["/", "dev", "fd", number] | ["/", "proc", "self", "fd", number] =>
    match number with
    | "0" => some .null
    | "1" => some .output
    | "2" => some .errors
    | _ => none
  | ["/", "bin", name] | ["/", "usr", "bin", name] =>
    if systemPrograms.contains name then some (.program name) else none
  | _ => none

/-- What can be read. Only programs have content, and it is no text. -/
def bytes : Device → List UInt8
  | program _ => [0x7f, 0x45, 0x4c, 0x46, 0xff]
  | _ => []

end Device

/-- The directories that are always there. -/
def systemDirectories : List (List String) :=
  root :: ["bin", "dev", "etc", "home", "lib", "opt", "proc", "root", "run", "sbin", "sys", "tmp",
    "usr", "var"].map (["/", ·]) ++
    ["bin", "lib", "local", "sbin", "share"].map (["/", "usr", ·]) ++
    [["/", "dev", "fd"], ["/", "proc", "self"], ["/", "proc", "self", "fd"]]

end CallGuard.Files
