import CallGuard.Files.Program
import CallGuard.Json.Reader

/-!
Why a module could not be guarded.

* `GuardError`: the causes.
* `GuardError.message`: their wording.
* `GuardError.cause?`: the error of the system behind one.
-/

namespace CallGuard

/-- Why a module could not be guarded. -/
inductive GuardError where
  /-- The parentheses of the module do not match. -/
  | unbalanced
  /-- The module has no table. -/
  | missingElem
  /-- A guarded module has no data that could be renewed. -/
  | missingData
  /-- A call of the function has no set to be checked against. -/
  | missingFallback (function : String)
  /-- A call of the function is written as a form. -/
  | foldedCall (function : String)
  /-- The path does not name a file. -/
  | invalidPath (path : String)
  /-- A tool could not be started. -/
  | toolNotStarted (tool : String) (error : IoError)
  /-- A tool ended badly. -/
  | toolFailed (tool : String) (ending : Ending) (complaint : String)
  /-- A file could not be used. -/
  | io (error : IoError)
  /-- The report could not be read. -/
  | report (error : Json.ReadError)
  deriving DecidableEq, Repr

namespace GuardError

/-- The wording of an error. -/
def message : GuardError → String
  | unbalanced => "module text has no closing parenthesis"
  | missingElem => "module has no (elem ...) segment with function names"
  | missingData => "module has no (data ...) segment to refresh"
  | missingFallback function =>
    s!"function {function} needs the fallback signature set 0_-1, which has no members"
  | foldedCall function =>
    s!"function {function}: folded (call_indirect ...) expressions are not supported"
  | invalidPath path => s!"invalid module path: {path}"
  | toolNotStarted tool error => s!"failed to run {tool}: {error.message}"
  | toolFailed tool ending complaint => s!"{tool} failed ({ending.message}): {complaint}"
  | io error => s!"I/O error: {error.message}"
  | report error => s!"malformed signature report: {error.message}"

/-- The wording of what lies behind an error, if something does. -/
def cause? : GuardError → Option String
  | toolNotStarted _ error => some error.message
  | io error => some error.message
  | report error => some error.message
  | _ => none

end GuardError

end CallGuard
