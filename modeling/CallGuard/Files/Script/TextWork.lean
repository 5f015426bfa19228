import CallGuard.Files.Script.Arithmetic
import CallGuard.Files.Script.Effect
import CallGuard.Text.Numeral

/-!
The utilities of scripts that work on texts.

* `Script.cat`, `Script.head`, `Script.tail`, `Script.wc`, `Script.sort`: texts in files.
* `Script.basename`, `Script.dirname`: paths.
* `Script.grep`: the lines in which a text occurs.
* `Script.seq`: numbers.
-/

namespace CallGuard.Script

/-- The lines of a text with their line ends. -/
def linesOf (text : List Char) : List (List Char) :=
  text.splitBy fun a _ => a != '\n'

/-- Shows what is made of each text; a hyphen stands for what can be read. -/
def onTexts (files : Files) (input : List Char) (paths : List String)
    (refused : String → IoError → String) (one : String → List Char → List Char) : Effect :=
  onEach files (fun files path =>
    if path = "-" then { files, output := one "" input, reads := true }
    else
      match files.read path with
      | .ok bytes => { files, output := one path (ofBytes bytes) }
      | .error e => fails files (refused path e))
    (if paths.isEmpty then ["-"] else paths)

/-- Shows files. -/
def cat : Utility := fun name input arguments files =>
  withOperands name "AbeEnstTuv".toList files arguments fun _ paths =>
    onTexts files input paths (fun path e => s!"{name}: {path}: {e.reason}") fun _ text => text

/-- Shows the lines of files in the order of their bytes. -/
def sort : Utility := fun name input arguments files =>
  withOperands name [] files arguments fun _ paths =>
    let e := onTexts files input paths
      (fun path e => s!"{name}: cannot read: {path}: {e.reason}") fun _ text => text
    let lines := (linesOf e.output).map fun line => line.filter (· != '\n')
    { e with output := (sortTexts lines).flatMap (· ++ ['\n']) }

/-! ### Parts of files -/

/-- How much of a text is shown. -/
structure Portion where
  /-- Whether characters are counted, and not lines. -/
  bytes : Bool := false
  /-- The number. -/
  count : Nat := 10

/-- The portion that arguments ask for, and the arguments that are left. -/
def Portion.read : List (List Char) → Portion × List (List Char)
  | ('-' :: letter :: cs) :: rest =>
    let number (digits : List Char) := (Text.readDecimal? digits).getD 0
    if letter.isDigit then (⟨false, number (letter :: cs)⟩, rest)
    else if cs.isEmpty then (⟨letter = 'c', number (rest.head?.getD [])⟩, rest.tail)
    else (⟨letter = 'c', number cs⟩, rest)
  | rest => ({}, rest)

/-- The start of a text. -/
def Portion.first (p : Portion) (text : List Char) : List Char :=
  if p.bytes then text.take p.count else ((linesOf text).take p.count).flatten

/-- The end of a text. -/
def Portion.last (p : Portion) (text : List Char) : List Char :=
  if p.bytes then text.drop (text.length - p.count)
  else
    let lines := linesOf text
    (lines.drop (lines.length - p.count)).flatten

/-- Shows portions of files. -/
def showPortion (take : Portion → List Char → List Char) : Utility :=
  fun name input arguments files =>
    let (portion, paths) := Portion.read arguments
    onTexts files input (paths.map pathOf)
      (fun path e => s!"{name}: cannot open '{path}' for reading: {e.reason}")
      fun _ text => take portion text

/-- Shows the start of files. -/
def head : Utility :=
  showPortion Portion.first

/-- Shows the end of files. -/
def tail : Utility :=
  showPortion Portion.last

/-- Counts the lines, words and bytes of files. -/
def wc : Utility := fun name input arguments files =>
  withOperands name ['c', 'l', 'w'] files arguments fun given paths =>
    onTexts files input paths (fun path e => s!"{name}: {path}: {e.reason}") fun path text =>
      let words := (text.splitBy fun a b => isBlank a == isBlank b).filter fun w =>
        !(w.head?.map isBlank).getD true
      let wanted (letter : Char) (n : Nat) : List String :=
        if given.isEmpty || given.contains letter then [toString n] else []
      let counts := wanted 'l' (text.count '\n') ++ wanted 'w' words.length ++
        wanted 'c' text.length
      ofString (" ".intercalate (counts ++ if path = "" then [] else [path]) ++ "\n")

/-! ### Lines with a text -/

/-- Whether a text occurs in another. -/
def occursIn (text : List Char) (line : List Char) : Bool :=
  (suffixes line).any (text.isPrefixOf ·)

/-- Shows the lines in which a text occurs. -/
def grep : Utility := fun name input arguments files =>
  match operands ['q', 'v', 'F', 'c', 's'] arguments with
  | .error c => { misused files name s!"invalid option -- '{c}'" with status := 2 }
  | .ok (_, []) => { misused files name "missing pattern" with status := 2 }
  | .ok (given, text :: paths) =>
    let isMeant (line : List Char) := occursIn text line != given.contains 'v'
    let e := onTexts files input (paths.map pathOf)
      (fun path e => s!"{name}: {path}: {e.reason}") fun _ text =>
        ((linesOf text).filter isMeant).flatten
    let output :=
      if given.contains 'q' then []
      else if given.contains 'c' then (toString (linesOf e.output).length ++ "\n").toList
      else e.output
    { e with
      status := if e.status ≠ 0 then 2 else if e.output.isEmpty then 1 else 0
      output }

/-! ### Paths and numbers -/

/-- The last name of a path. -/
def basename : Utility := fun name _ arguments files =>
  match arguments with
  | [] => misused files name "missing operand"
  | path :: rest =>
    let name := ofString ((Path.fileName? (pathOf path)).getD (pathOf path))
    let ending := rest.head?.getD []
    let cut := if ending.isSuffixOf name && ending != name then
        name.take (name.length - ending.length)
      else name
    { files, output := cut ++ ['\n'] }

/-- The path before the last name of a path. -/
def dirname : Utility := fun name _ arguments files =>
  match arguments with
  | [] => misused files name "missing operand"
  | paths =>
    onEach files (fun files path =>
      let parent := Path.parent path
      { files, output := ofString ((if parent = "" then "." else parent) ++ "\n") })
      (paths.map pathOf)

/-- Shows numbers. -/
def seq : Utility := fun _ _ arguments files =>
  let (first, last) : Int × Int := match arguments.map Arithmetic.integer? with
    | [some b] => (1, b)
    | [some a, some b] => (a, b)
    | _ => (1, 0)
  let numbers := (List.range (last + 1 - first).toNat).map fun n : Nat => first + (n : Int)
  { files, output := numbers.flatMap fun n => (toString n).toList ++ ['\n'] }

end CallGuard.Script
