/-!
Paths as text. A path is a sequence of segments between slashes; empty segments
and single points count for nothing, except for a point at the very start.

* `Path.fileName?`: the last segment, if it names a file.
* `Path.parent`: the path before the last segment, as it is written.
* `Path.join`: a name below a path.
-/

namespace CallGuard.Path

/-- Whether a path starts at the root. -/
def isAbsolute (path : String) : Bool :=
  path.toList.head? = some '/'

/-- The segments of a path, without the slash of the root. -/
def segments (path : String) : List String :=
  let cs := path.toList
  ((if isAbsolute path then cs.tail else cs).splitOn '/').map String.ofList

/-- Drops segments that count for nothing. The segments come last first, and the
last of the list is the first of the path. -/
def dropIdle (absolute : Bool) : List String → List String
  | [] => []
  | [s] => if s = "" ∨ (s = "." ∧ absolute) then [] else [s]
  | s :: ss => if s = "" ∨ s = "." then dropIdle absolute ss else s :: ss

/-- The segments that count at the end of a path, the last one first. -/
def reversed (path : String) : List String :=
  dropIdle (isAbsolute path) (segments path).reverse

/-- The last segment of a path, if it names a file. -/
def fileName? (path : String) : Option String :=
  match reversed path with
  | s :: _ => if s = "." ∨ s = ".." then none else some s
  | [] => none

/-- The path before its last segment, as it is written. -/
def parent (path : String) : String :=
  let body := "/".intercalate (dropIdle (isAbsolute path) (reversed path).tail).reverse
  if isAbsolute path then "/" ++ body else body

/-- The path of a name below a path. -/
def join (path name : String) : String :=
  if path = "" then name
  else if path.toList.getLast? = some '/' then path ++ name
  else path ++ "/" ++ name

end CallGuard.Path
