/-!
How a command says why it failed.

* `Failure`: what could not be done, and the causes behind it.
* `Failure.text`: the failure in words. A cause of more than one line is indented
  as a whole, and causes are numbered if there are several.
-/

namespace CallGuard.Command

/-- Why a command failed. -/
structure Failure where
  /-- What could not be done. -/
  context : String
  /-- The causes, each with the next one behind it. -/
  causes : List String
  deriving DecidableEq, Repr

namespace Failure

/-- A text with blanks after every line break. -/
def indentLines (indent : String) (text : String) : List Char :=
  text.toList.flatMap fun c => if c = '\n' then '\n' :: indent.toList else [c]

/-- A cause that stands alone. -/
def causeText (cause : String) : List Char :=
  "    ".toList ++ indentLines "    " cause

/-- A cause with its number, which takes five columns. -/
def numberedText (cause : String) (number : Nat) : List Char :=
  let digits := (toString number).toList
  List.replicate (5 - digits.length) ' ' ++ digits ++ ": ".toList ++ indentLines "       " cause

/-- The causes, each on a line of its own. -/
def causesText : List String → List Char
  | [cause] => '\n' :: causeText cause
  | causes => causes.zipIdx.flatMap fun (cause, n) => '\n' :: numberedText cause n

/-- A failure in words. -/
def text (f : Failure) : String :=
  let causes := if f.causes.isEmpty then [] else "\n\nCaused by:".toList ++ causesText f.causes
  "Error: " ++ f.context ++ String.ofList causes ++ "\n"

end Failure

end CallGuard.Command
