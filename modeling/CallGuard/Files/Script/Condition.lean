import CallGuard.Files.Script.Arithmetic
import CallGuard.Files.Script.Effect

/-!
Conditions of scripts on texts, numbers and files.

* `Script.holds`: whether a condition holds.
* `Script.test`, `Script.bracket`: the utilities that test conditions.
-/

namespace CallGuard.Script

/-- Whether there is something at a path that a test accepts. -/
def someAt (files : Files) (argument : List Char) (test : Files.Place → Bool) : Bool :=
  match files.find (pathOf argument) with
  | .ok place => test place
  | .error _ => false

/-- Whether what is at a path has the property that a letter stands for. -/
def placeHas? (letter : Char) : Option (Files.Place → Bool) :=
  match letter with
  | 'e' | 'r' | 'w' => some fun _ => true
  | 'f' => some fun | .file _ _ | .device (.program _) => true | _ => false
  | 'd' => some fun | .directory _ => true | _ => false
  | 'c' => some fun | .device (.program _) => false | .device _ => true | _ => false
  | 's' => some fun
    | .file _ f => !f.bytes.isEmpty
    | .directory _ | .device (.program _) => true
    | _ => false
  | 'x' => some fun
    | .file _ f => f.executable
    | .directory _ | .device (.program _) => true
    | _ => false
  | 'h' | 'L' | 'p' | 'S' | 'b' => some fun _ => false
  | _ => none

/-- Compares numbers. -/
def compareBy? (name : String) : Option (Int → Int → Bool) :=
  match name with
  | "-eq" => some (· == ·)
  | "-ne" => some (· != ·)
  | "-lt" => some fun a b => a < b
  | "-le" => some fun a b => a ≤ b
  | "-gt" => some fun a b => a > b
  | "-ge" => some fun a b => a ≥ b
  | _ => none

/-- The whole number that an argument of a condition spells. -/
def operand (argument : List Char) : Except (List Char) Int :=
  match Arithmetic.integer? argument with
  | some n => .ok n
  | none => .error ("Illegal number: ".toList ++ argument)

/-- Whether a condition of at most four arguments holds; what is no condition leads to
a remark. -/
def holdsSimply (files : Files) (condition : List (List Char)) : Except (List Char) Bool :=
  match condition with
  | [] => .ok false
  | [a] => .ok (!a.isEmpty)
  | [a, ['='], b] => .ok (a == b)
  | [a, ['!', '='], b] => .ok (a != b)
  | ['!'] :: rest => (holdsSimply files rest).map not
  | [['-', 'n'], a] => .ok (!a.isEmpty)
  | [['-', 'z'], a] => .ok a.isEmpty
  | [['-', 't'], _] => .ok false
  | [a, b] =>
    match a with
    | ['-', letter] =>
      match placeHas? letter with
      | some has => .ok (someAt files b has)
      | none => .error (a ++ ": unexpected operator".toList)
    | _ => .error (a ++ ": unexpected operator".toList)
  | a :: operator :: rest =>
    match compareBy? (String.ofList operator), rest with
    | some compare, [b] => do return compare (← operand a) (← operand b)
    | _, _ => .error (operator ++ ": unexpected operator".toList)

/-- Splits arguments where one of them stands. -/
def splitAt (mark : List Char) (condition : List (List Char)) : List (List (List Char)) :=
  condition.splitOn mark

/-- Whether a condition holds; parts of it may be joined. -/
def holds (files : Files) (condition : List (List Char)) : Except (List Char) Bool :=
  if condition.length ≤ 4 then holdsSimply files condition
  else do
    let parts ← (splitAt "-o".toList condition).mapM fun part => do
      return (← (splitAt "-a".toList part).mapM (holdsSimply files)).all id
    return parts.any id

/-- Tests a condition. -/
def test : Utility := fun _ _ condition files =>
  match holds files condition with
  | .ok true => { files }
  | .ok false => { files, status := 1 }
  | .error remark => { files, status := 2, remark := some remark }

/-- Tests a condition between brackets. -/
def bracket : Utility := fun name input arguments files =>
  if arguments.getLast? = some [']'] then test name input arguments.dropLast files
  else { files, status := 2, remark := some "missing ]".toList }

end CallGuard.Script
