import CallGuard.Files
import CallGuard.Files.Script.Word

/-!
Patterns of scripts. A pattern is a text in which some characters, where they are not
quoted, stand for others.

* `Script.Field`: a text that knows which of its characters are quoted.
* `Script.Field.fits`: whether a text fits a pattern.
* `Script.Field.paths`: the files whose paths fit a pattern.
-/

namespace CallGuard.Script

/-- A text with a flag for each character that is quoted. -/
abbrev Field := List (Char × Bool)

/-- An element of a pattern. -/
inductive Atom where
  /-- One character. -/
  | char (c : Char)
  /-- Any character. -/
  | any
  /-- Any text. -/
  | many
  /-- A character that is in one of the ranges, or in none. -/
  | range (negated : Bool) (ranges : List (Char × Char))
  deriving DecidableEq, Repr

/-- The ranges between brackets. -/
def rangesOf : List Char → List (Char × Char)
  | [] => []
  | a :: '-' :: b :: cs => (a, b) :: rangesOf cs
  | c :: cs => (c, c) :: rangesOf cs

namespace Field

/-- The characters of a field. -/
def text (f : Field) : List Char :=
  f.map (·.1)

/-- A field that is quoted as a whole. -/
def quoted (text : List Char) : Field :=
  text.map (·, true)

/-- The element at the start of what follows a bracket, and the number of characters
that spell it. -/
def readRange? (f : Field) : Option (Atom × Nat) :=
  let negated := f.head? = some ('!', false)
  let start := if negated then f.tail else f
  match start with
  | [] => none
  | first :: rest =>
    let inside := rest.takeWhile (· != (']', false))
    if inside.length = rest.length then none
    else
      some (.range negated (rangesOf (text (first :: inside))),
        (if negated then 1 else 0) + inside.length + 2)

/-- The elements of a pattern; the first `skip` characters belong to one that has been
read. -/
def atoms : Nat → Field → List Atom
  | _, [] => []
  | skip + 1, _ :: f => atoms skip f
  | 0, (c, true) :: f => .char c :: atoms 0 f
  | 0, (c, false) :: f =>
    if c = '*' then .many :: atoms 0 f
    else if c = '?' then .any :: atoms 0 f
    else if c = '[' then
      match readRange? f with
      | some (atom, n) => atom :: atoms n f
      | none => .char c :: atoms 0 f
    else .char c :: atoms 0 f

end Field

/-- A text and all that is left of it when characters are dropped. -/
def suffixes : List Char → List (List Char)
  | [] => [[]]
  | c :: cs => (c :: cs) :: suffixes cs

/-- Whether a text fits elements. -/
def fits : List Atom → List Char → Bool
  | [], text => text.isEmpty
  | .many :: as, text => (suffixes text).any (fits as)
  | .any :: as, text =>
    match text with
    | _ :: cs => fits as cs
    | [] => false
  | .char c :: as, text =>
    match text with
    | d :: cs => c == d && fits as cs
    | [] => false
  | .range negated ranges :: as, text =>
    match text with
    | d :: cs => (ranges.any fun (a, b) => a ≤ d && d ≤ b) != negated && fits as cs
    | [] => false

namespace Field

/-- Whether a text fits a pattern. -/
def fits (f : Field) (text : List Char) : Bool :=
  Script.fits (atoms 0 f) text

/-- A text without what a pattern matches at its start. -/
def cutStart (f : Field) (longest : Bool) (text : List Char) : List Char :=
  let ends := (List.range (text.length + 1)).filter fun n => f.fits (text.take n)
  match if longest then ends.getLast? else ends.head? with
  | some n => text.drop n
  | none => text

/-- A text without what a pattern matches at its end. -/
def cutEnd (f : Field) (longest : Bool) (text : List Char) : List Char :=
  let starts := (List.range (text.length + 1)).filter fun n => f.fits (text.drop n)
  match if longest then starts.head? else starts.getLast? with
  | some n => text.take n
  | none => text

/-! ### Paths -/

/-- Whether a field has characters that stand for others. -/
def isPattern (f : Field) : Bool :=
  f.any fun (c, isQuoted) => !isQuoted && (c == '*' || c == '?' || c == '[')

end Field

/-- The path that characters stand for. -/
def pathOf (argument : List Char) : String :=
  String.ofList (toText argument)

/-- The names in the directory at a path. -/
def namesIn (files : Files) (path : String) : List (List Char) :=
  match files.directoryAt? path with
  | some key => (files.names key).map ofString
  | none => []

/-- Puts texts in the order of their bytes. -/
def sortTexts (texts : List (List Char)) : List (List Char) :=
  texts.mergeSort fun a b => !(b < a)

/-- The paths below a start that fit a pattern for each segment. -/
def pathsFrom (files : Files) (start : List Char) : List Field → List (List Char)
  | [] => [start]
  | segment :: rest =>
    let base := if start.isEmpty then ['.'] else start
    let enter (name : List Char) :=
      let path := if start.isEmpty || start.getLast? = some '/' then start ++ name
        else start ++ '/' :: name
      if rest.isEmpty then [path] else pathsFrom files path rest
    if segment.isPattern then
      let isDotted (name : List Char) :=
        name.head? == some '.' && segment.head?.map (·.1) != some '.'
      (sortTexts ((namesIn files (pathOf base)).filter fun name =>
        !isDotted name && segment.fits name)).flatMap enter
    else enter segment.text

/-- The paths that fit a pattern, or the pattern itself if there is none. -/
def Field.paths (files : Files) (f : Field) : List (List Char) :=
  if f.isPattern then
    let absolute := f.head?.map (·.1) = some '/'
    let segments := (if absolute then f.tail else f).splitBy fun a b => a.1 != '/' && b.1 != '/'
    let found := pathsFrom files (if absolute then ['/'] else [])
      (segments.filter fun s => s.text != ['/'])
    match found.filter fun path => files.contains (pathOf path) with
    | [] => [f.text]
    | paths => paths
  else [f.text]

end CallGuard.Script
