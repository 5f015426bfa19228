import CallGuard.Files.Script.Condition
import CallGuard.Files.Script.Display
import CallGuard.Files.Script.FileWork
import CallGuard.Files.Script.TextWork

/-!
The utilities that scripts can call.

* `Script.utility?`: the utility of a name.
* `Script.isBuiltin`: whether the shell itself provides a utility.
-/

namespace CallGuard.Script

/-- The utility of a name. -/
def utility? (name : String) : Option Utility :=
  match name with
  | ":" | "true" | "sleep" | "wait" | "umask" => some fun _ _ _ files => { files }
  | "false" => some fun _ _ _ files => { files, status := 1 }
  | "echo" => some echo
  | "printf" => some printf
  | "test" => some test
  | "[" => some bracket
  | "cat" => some cat
  | "head" => some head
  | "tail" => some tail
  | "wc" => some wc
  | "sort" => some sort
  | "grep" => some grep
  | "basename" => some basename
  | "dirname" => some dirname
  | "seq" => some seq
  | "cp" => some cp
  | "mv" => some mv
  | "rm" => some rm
  | "touch" => some touch
  | "mkdir" => some mkdir
  | "chmod" => some chmod
  | "tee" => some tee
  | "ls" => some ls
  | _ => none

/-- Whether the shell itself provides a utility. -/
def isBuiltin (name : String) : Bool :=
  [":", "true", "false", "echo", "printf", "test", "[", "wait", "umask"].contains name

end CallGuard.Script
