import CallGuard.Files.Script.Arithmetic
import CallGuard.Files.Script.Effect

/-!
Showing texts from scripts.

* `Script.echo`, `Script.echoPlainly`: show arguments.
* `Script.printf`: shows a format with arguments filled in.
-/

namespace CallGuard.Script

/-- Whether a character is an octal digit. -/
def isOctal (c : Char) : Bool :=
  '0' ≤ c && c ≤ '7'

/-- The byte that octal digits spell. -/
def ofOctal (digits : List Char) : Char :=
  Char.ofNat (digits.foldl (fun n c => 8 * n + (c.toNat - '0'.toNat)) 0 % 256)

/-- The character that is meant after a backslash, and how many characters spell it.
A backslash before anything else stands for itself. -/
def readEscape (cs : List Char) : Char × Nat :=
  match cs with
  | '\\' :: _ => ('\\', 1)
  | 'a' :: _ => ('\x07', 1)
  | 'b' :: _ => ('\x08', 1)
  | 'f' :: _ => ('\x0c', 1)
  | 'n' :: _ => ('\n', 1)
  | 'r' :: _ => ('\r', 1)
  | 't' :: _ => ('\t', 1)
  | 'v' :: _ => ('\x0b', 1)
  | _ =>
    let digits := (cs.take 3).takeWhile isOctal
    if digits.isEmpty then ('\\', 0) else (ofOctal digits, digits.length)

/-- Resolves backslashes in an argument; the first `skip` characters belong to one
that has been resolved. Octal digits follow a zero. The second result says that the
output ends early. -/
def unescape : Nat → List Char → List Char × Bool
  | _, [] => ([], false)
  | skip + 1, _ :: cs => unescape skip cs
  | 0, '\\' :: 'c' :: _ => ([], true)
  | 0, '\\' :: '0' :: cs =>
    let digits := (cs.take 3).takeWhile isOctal
    let (text, stopped) := unescape (digits.length + 1) ('0' :: cs)
    (ofOctal digits :: text, stopped)
  | 0, '\\' :: cs =>
    let (c, n) := readEscape cs
    let (text, stopped) := unescape n cs
    (c :: text, stopped)
  | 0, c :: cs =>
    let (text, stopped) := unescape 0 cs
    (c :: text, stopped)

/-- Shows its arguments. -/
def echo : Utility := fun _ _ arguments files =>
  let quiet := arguments.head? == some "-n".toList
  let shown := if quiet then arguments.tail else arguments
  let (text, stopped) := unescape 0 ([' '].intercalate shown)
  { files, output := if quiet || stopped then text else text ++ ['\n'] }

/-- Shows its arguments as they are. -/
def echoPlainly : Utility := fun _ _ arguments files =>
  let quiet := arguments.head? == some "-n".toList
  let text := [' '].intercalate (if quiet then arguments.tail else arguments)
  { files, output := if quiet then text else text ++ ['\n'] }

/-! ### Formats -/

/-- How a value is shown in a format. -/
structure Layout where
  /-- Whether it stands at the start of its room. -/
  leftward : Bool := false
  /-- Whether zeros fill the room. -/
  zeros : Bool := false
  /-- The room. -/
  width : Nat := 0
  /-- The largest number of characters of a text. -/
  limit : Option Nat := none

/-- A text in its room. -/
def Layout.fill (l : Layout) (text : List Char) : List Char :=
  let room := l.width - text.length
  if l.leftward then text ++ List.replicate room ' '
  else if l.zeros then List.replicate room '0' ++ text
  else List.replicate room ' ' ++ text

/-- The layout at the start of what follows a percent sign, and how many characters
spell it. -/
def Layout.read (cs : List Char) : Layout × Nat :=
  let flags := cs.takeWhile fun c => c == '-' || c == '0' || c == '+' || c == ' '
  let rest := cs.drop flags.length
  let digits := rest.takeWhile Char.isDigit
  let (limit, spelled) : Option Nat × Nat := match rest.drop digits.length with
    | '.' :: cs =>
      let places := cs.takeWhile Char.isDigit
      (some (Nat.ofDigitChars 10 places 0), places.length + 1)
    | _ => (none, 0)
  (⟨flags.contains '-', flags.contains '0', Nat.ofDigitChars 10 digits 0, limit⟩,
    flags.length + digits.length + spelled)

/-- A number in a base, without a sign. -/
def digitsIn (base : Nat) (n : Int) : List Char :=
  Nat.toDigits base n.toNat

/-- An argument as a letter of a format shows it. -/
def shown? (letter : Char) (l : Layout) (argument : List Char) : Option (List Char) :=
  let number := (Arithmetic.integer? argument).getD 0
  match letter with
  | 's' => some (l.fill (l.limit.elim argument argument.take))
  | 'c' => some (l.fill (argument.take 1))
  | 'b' => some (l.fill (unescape 0 argument).1)
  | 'd' | 'i' | 'u' => some (l.fill (toString number).toList)
  | 'x' => some (l.fill (digitsIn 16 number))
  | 'X' => some (l.fill ((digitsIn 16 number).map Char.toUpper))
  | 'o' => some (l.fill (digitsIn 8 number))
  | _ => none

/-- Shows a format with arguments filled in, and gives the arguments that are left.
The first `skip` characters have been dealt with. -/
def formatOnce : Nat → List Char → List (List Char) → List Char × List (List Char)
  | _, [], arguments => ([], arguments)
  | skip + 1, _ :: cs, arguments => formatOnce skip cs arguments
  | 0, '%' :: '%' :: cs, arguments =>
    let (rest, left) := formatOnce 0 cs arguments
    ('%' :: rest, left)
  | 0, '%' :: cs, arguments =>
    let (l, n) := Layout.read cs
    match (cs[n]?).bind (shown? · l (arguments.head?.getD [])) with
    | some text =>
      let (rest, left) := formatOnce (n + 1) cs arguments.tail
      (text ++ rest, left)
    | none =>
      let (rest, left) := formatOnce 0 cs arguments
      ('%' :: rest, left)
  | 0, '\\' :: cs, arguments =>
    let (c, n) := readEscape cs
    let (rest, left) := formatOnce n cs arguments
    (c :: rest, left)
  | 0, c :: cs, arguments =>
    let (rest, left) := formatOnce 0 cs arguments
    (c :: rest, left)

/-- Shows a format as often as the arguments ask for, `n` times at most. -/
def formatAll (format : List Char) : Nat → List (List Char) → List Char
  | 0, _ => []
  | n + 1, arguments =>
    let (text, left) := formatOnce 0 format arguments
    if left.isEmpty || left.length = arguments.length then text
    else text ++ formatAll format n left

/-- Shows a format. -/
def printf : Utility := fun _ _ arguments files =>
  match arguments with
  | [] => { files, status := 2, remark := some "usage: printf format [arg ...]".toList }
  | format :: arguments => { files, output := formatAll format (arguments.length + 1) arguments }

end CallGuard.Script
