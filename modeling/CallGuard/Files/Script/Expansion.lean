import CallGuard.Files.Script.Arithmetic
import CallGuard.Files.Script.Pattern
import CallGuard.Files.Script.State

/-!
How words are filled in.

* `Script.Filling`: what filling in needs to run.
* `Script.Filling.field`: a word as one text.
* `Script.Filling.texts`: the texts that a word leads to. Values outside quotes are
  split at separators, and patterns are replaced by the paths that fit.
-/

namespace CallGuard.Script

/-- What filling in needs to run: the line for complaints, the output of scripts, and
the filling in of texts within values. -/
structure Filling where
  /-- The line. -/
  line : Nat
  /-- Runs a script that starts in a line, and gives its output. -/
  output : Nat → List Char → State → List Char × State
  /-- Fills in a text within a value. -/
  inner : Word → State → Field × State

/-- A text without line ends at its end. -/
def dropLineEnds (text : List Char) : List Char :=
  (text.reverse.dropWhile (· == '\n')).reverse

namespace Filling

/-- Ends the script as a parameter has no value. -/
def refuse (f : Filling) (name text : List Char) (s : State) : List Char × State :=
  ([], s.fail f.line (name ++ ": ".toList ++ text))

/-- The text of a parameter after an operation. -/
def parameter (f : Filling) (name : List Char) (operation : Operation) (s : State) :
    List Char × State :=
  let value := s.lookup? name
  let isMissing (emptyToo : Bool) := value.isNone || (emptyToo && value == some [])
  let fill (text : List Char) : List Char × State :=
    let (field, s) := f.inner (innerParts f.line .plain 0 text) s
    (field.text, s)
  match operation with
  | .plain =>
    if value.isNone && s.careful then f.refuse name "parameter not set".toList s
    else (value.getD [], s)
  | .length => ((toString (value.getD []).length).toList, s)
  | .orElse emptyToo text => if isMissing emptyToo then fill text else (value.getD [], s)
  | .assign emptyToo text =>
    if isMissing emptyToo then
      let (text, s) := fill text
      (text, s.bind name text)
    else (value.getD [], s)
  | .ifSet emptyToo text => if isMissing emptyToo then ([], s) else fill text
  | .orFail emptyToo text =>
    if isMissing emptyToo then
      let (message, s) := fill text
      let standard := if emptyToo then "parameter not set or null" else "parameter not set"
      f.refuse name (if message.isEmpty then standard.toList else message) s
    else (value.getD [], s)
  | .cut atEnd longest pattern =>
    let (field, s) := f.inner (innerParts f.line .plain 0 pattern) s
    let text := value.getD []
    (if atEnd then field.cutEnd longest text else field.cutStart longest text, s)
  | .unknown => ([], s.fail f.line "Bad substitution".toList)

/-- The text of a value. -/
def value (f : Filling) (v : Value) (s : State) : List Char × State :=
  match v with
  | .parameter name operation => f.parameter name operation s
  | .command line script =>
    let (text, s) := f.output line script s
    (dropLineEnds text, s)
  | .arithmetic text =>
    let (field, s) := f.inner (textParts f.line 0 text) s
    let look (name : List Char) := ((s.lookup? name).bind Arithmetic.integer?).getD 0
    match Arithmetic.value? look field.text with
    | some (n, name) =>
      let text := (toString n).toList
      (text, name.elim s (s.bind · text))
    | none =>
      ([], s.fail f.line ("arithmetic expression: expecting primary: \"".toList ++ field.text ++
        ['"']))

/-! ### Words as one text -/

/-- A word as one text. -/
def field (f : Filling) : Word → State → Field × State
  | [], s => ([], s)
  | .char c quoted :: ps, s =>
    let (rest, s) := f.field ps s
    ((c, quoted) :: rest, s)
  | .quotes :: ps, s => f.field ps s
  | .value v quoted :: ps, s =>
    let (text, s) := f.value v s
    let (rest, s) := f.field ps s
    (text.map (·, quoted) ++ rest, s)

/-- The text of a word. -/
def text (f : Filling) (word : Word) (s : State) : List Char × State :=
  let (field, s) := f.field word s
  (field.text, s)

end Filling

/-! ### Words as several texts -/

/-- Texts that are being put together: those that are complete, and the last one. -/
structure Fields where
  /-- The texts that are complete. -/
  done : List Field := []
  /-- The text that can still grow, if there is one. -/
  last : Option Field := none

namespace Fields

/-- Adds to the last text. -/
def add (fs : Fields) (field : Field) : Fields :=
  { fs with last := some (fs.last.getD [] ++ field) }

/-- Completes the last text. -/
def close (fs : Fields) : Fields :=
  { done := fs.done ++ fs.last.toList }

/-- Adds a text that is split at separators. Blanks among them separate together, also
with one other separator; the flag says that blanks were the last to separate. -/
def addSplit (fs : Fields) (separators : List Char) : Bool → List Char → Fields
  | _, [] => fs
  | blank, c :: cs =>
    if !separators.contains c then (fs.add [(c, false)]).addSplit separators false cs
    else if isBlank c then fs.close.addSplit separators (blank || fs.last.isSome) cs
    else if blank then fs.addSplit separators false cs
    else (fs.add []).close.addSplit separators false cs

/-- Adds texts that stay apart. -/
def addEach (fs : Fields) : List (List Char) → Fields
  | [] => fs
  | [t] => fs.add (Field.quoted t)
  | t :: ts => (fs.add (Field.quoted t)).close.addEach ts

end Fields

/-- Whether a word is nothing but all arguments in quotes. -/
def isAllArguments (word : Word) : Bool :=
  word == [.quotes, .value (.parameter ['@'] .plain) true]

namespace Filling

/-- Fills in the parts of a word. -/
def fields (f : Filling) (fs : Fields) : Word → State → Fields × State
  | [], s => (fs, s)
  | .char c quoted :: ps, s => f.fields (fs.add [(c, quoted)]) ps s
  | .quotes :: ps, s => f.fields (fs.add []) ps s
  | .value v quoted :: ps, s =>
    if quoted && v == .parameter ['@'] .plain then f.fields (fs.addEach s.arguments.tail) ps s
    else
      let (text, s) := f.value v s
      let fs := if quoted then fs.add (Field.quoted text)
        else fs.addSplit s.separators false text
      f.fields fs ps s

/-- The texts that a word leads to. -/
def texts (f : Filling) (word : Word) (s : State) : List (List Char) × State :=
  if isAllArguments word then (s.arguments.tail, s)
  else
    let (fs, s) := f.fields {} word s
    (fs.close.done.flatMap (·.paths s.files), s)

/-- The texts that words lead to. -/
def allTexts (f : Filling) : List Word → State → List (List Char) × State
  | [], s => ([], s)
  | word :: words, s =>
    let (first, s) := f.texts word s
    let (rest, s) := f.allTexts words s
    (first ++ rest, s)

end Filling

end CallGuard.Script
