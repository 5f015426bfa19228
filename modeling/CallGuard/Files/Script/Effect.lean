import CallGuard.Files
import CallGuard.Files.Script.Pattern

/-!
What the utilities that scripts call lead to.

* `Script.Effect`: files, status, output and complaints.
* `Script.Utility`: utilities.
* `Script.withOperands`: reading the options of a utility.
-/

namespace CallGuard.Script

/-- What a utility leads to. -/
structure Effect where
  /-- The files afterwards. -/
  files : Files
  /-- The status, which is zero if all went well. -/
  status : Nat := 0
  /-- The output. -/
  output : List Char := []
  /-- The complaints. -/
  complaint : List Char := []
  /-- What the shell complains about the call. -/
  remark : Option (List Char) := none
  /-- Whether all that can be read has been read. -/
  reads : Bool := false

/-- A utility takes the name that it is called by, what it can read, its arguments and
the files. -/
abbrev Utility := String → List Char → List (List Char) → Files → Effect

/-- A utility that fails with a complaint. -/
def fails (files : Files) (complaint : String) (status : Nat := 1) : Effect :=
  { files, status, complaint := ofString (complaint ++ "\n") }

/-- A utility that was called in a wrong way. -/
def misused (files : Files) (name complaint : String) : Effect :=
  fails files s!"{name}: {complaint}\nTry '{name} --help' for more information."

/-- The letters of options and the operands among arguments; an option whose letter
is not accepted is an error. -/
def operands (letters : List Char) :
    List (List Char) → Except Char (List Char × List (List Char))
  | [] => .ok ([], [])
  | ['-', '-'] :: rest => .ok ([], rest)
  | ('-' :: c :: cs) :: rest =>
    match (c :: cs).find? fun c => !letters.contains c with
    | some c => .error c
    | none => (operands letters rest).map fun (given, names) => (c :: cs ++ given, names)
  | name :: rest => (operands letters rest).map fun (given, names) => (given, name :: names)

/-- Runs on options and operands, and complains about options that are not
accepted. -/
def withOperands (name : String) (letters : List Char) (files : Files)
    (arguments : List (List Char)) (run : List Char → List String → Effect) : Effect :=
  match operands letters arguments with
  | .ok (given, names) => run given (names.map pathOf)
  | .error c => misused files name s!"invalid option -- '{c}'"

/-- Runs on each of several paths. -/
def onEach (files : Files) (one : Files → String → Effect) (paths : List String) : Effect :=
  paths.foldl (fun e path =>
    let next := one e.files path
    { next with
      status := max e.status next.status
      output := e.output ++ next.output
      complaint := e.complaint ++ next.complaint
      reads := e.reads || next.reads }) { files }

end CallGuard.Script
