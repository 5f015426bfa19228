import CallGuard.Files.Script.Word
import CallGuard.Text.Numeral

/-!
Expressions of scripts over whole numbers.

* `Script.Arithmetic.integer?`: reads whole numbers.
* `Script.Arithmetic.value?`: the value of an expression under values for names, and
  the name that it is given to, if there is one.
-/

namespace CallGuard.Script.Arithmetic

/-- A token of an expression. -/
inductive Lexeme where
  /-- A number. -/
  | number (n : Int)
  /-- A name. -/
  | name (name : List Char)
  /-- An operator. -/
  | operator (text : String)
  deriving DecidableEq, Repr

/-- The operators that give a value to a name. -/
def assignments : List String :=
  ["=", "+=", "-=", "*=", "/=", "%="]

/-- The operators of two characters. -/
def longOperators : List String :=
  ["||", "&&", "==", "!=", "<=", ">=", "<<", ">>"] ++ assignments.tail

/-- The whole number that digits spell, with a sign before them or not. -/
def integer? (text : List Char) : Option Int :=
  match text with
  | '-' :: digits => (Text.readDecimal? digits).map fun n => -(n : Int)
  | '+' :: digits => (Text.readDecimal? digits).map fun n => (n : Int)
  | digits => (Text.readDecimal? digits).map fun n => (n : Int)

/-- The number that digits of an expression spell. A zero before them means that the
base is eight, or sixteen if a letter follows it. -/
def literal? (text : List Char) : Option Int :=
  let digit? (base : Nat) (c : Char) : Option Nat :=
    (Text.hexValue? c).filter (· < base)
  let inBase (base : Nat) (digits : List Char) : Option Int :=
    (digits.mapM (digit? base)).map fun ds => Int.ofNat (ds.foldl (fun n d => base * n + d) 0)
  match text with
  | '0' :: 'x' :: digits | '0' :: 'X' :: digits => if digits.isEmpty then none else inBase 16 digits
  | '0' :: digits => inBase 8 digits
  | digits => inBase 10 digits

/-- The lexemes of a text; the first `skip` characters belong to one that has been
read. -/
def lexemes : Nat → List Char → List Lexeme
  | _, [] => []
  | skip + 1, _ :: cs => lexemes skip cs
  | 0, c :: cs =>
    if isBlank c then lexemes 0 cs
    else if c.isDigit then
      let digits := cs.takeWhile Char.isAlphanum
      match literal? (c :: digits) with
      | some n => .number n :: lexemes digits.length cs
      | none => .operator (String.ofList (c :: digits)) :: lexemes digits.length cs
    else if startsName c then
      let rest := cs.takeWhile inName
      .name (c :: rest) :: lexemes rest.length cs
    else
      let long := String.ofList (c :: cs.take 1)
      if longOperators.contains long then .operator long :: lexemes 1 cs
      else .operator (String.singleton c) :: lexemes 0 cs

/-- The operators between two values, those that bind least first. -/
def levels : List (List String) :=
  [["||"], ["&&"], ["|"], ["^"], ["&"], ["==", "!="], ["<=", ">=", "<", ">"], ["<<", ">>"],
    ["+", "-"], ["*", "/", "%"]]

/-- The number of a truth value. -/
def ofBool (b : Bool) : Int :=
  if b then 1 else 0

/-- Applies an operator; there is no division by zero. -/
def combine? (operator : String) (a b : Int) : Option Int :=
  match operator with
  | "||" => some (ofBool (a != 0 || b != 0))
  | "&&" => some (ofBool (a != 0 && b != 0))
  | "|" => some (Int.ofNat (a.toNat ||| b.toNat))
  | "^" => some (Int.ofNat (a.toNat ^^^ b.toNat))
  | "&" => some (Int.ofNat (a.toNat &&& b.toNat))
  | "==" => some (ofBool (a == b))
  | "!=" => some (ofBool (a != b))
  | "<=" => some (ofBool (a ≤ b))
  | ">=" => some (ofBool (b ≤ a))
  | "<" => some (ofBool (a < b))
  | ">" => some (ofBool (b < a))
  | "<<" => some (Int.ofNat (a.toNat <<< b.toNat))
  | ">>" => some (Int.ofNat (a.toNat >>> b.toNat))
  | "+" => some (a + b)
  | "-" => some (a - b)
  | "*" => some (a * b)
  | "/" => if b = 0 then none else some (a.tdiv b)
  | "%" => if b = 0 then none else some (a.tmod b)
  | _ => none

mutual

/-- The value at the start of lexemes, of operators that bind at least as much as the
given ones. -/
def eval (look : List Char → Int) :
    Nat → List (List String) → List Lexeme → Option (Int × List Lexeme)
  | 0, _, _ => none
  | fuel + 1, level :: higher, ls => do
    let (a, ls) ← eval look fuel higher ls
    evalFrom look fuel level higher a ls
  | fuel + 1, [], ls =>
    match ls with
    | .number n :: ls => some (n, ls)
    | .name name :: ls => some (look name, ls)
    | .operator "(" :: ls => do
      let (a, ls) ← evalChoice look fuel ls
      match ls with
      | .operator ")" :: ls => some (a, ls)
      | _ => none
    | .operator "-" :: ls => (eval look fuel [] ls).map fun (a, ls) => (-a, ls)
    | .operator "+" :: ls => eval look fuel [] ls
    | .operator "!" :: ls => (eval look fuel [] ls).map fun (a, ls) => (ofBool (a == 0), ls)
    | .operator "~" :: ls => (eval look fuel [] ls).map fun (a, ls) => (-a - 1, ls)
    | _ => none

/-- The value at the start of lexemes, which may be a choice between two. -/
def evalChoice (look : List Char → Int) : Nat → List Lexeme → Option (Int × List Lexeme)
  | 0, _ => none
  | fuel + 1, ls => do
    let (a, ls) ← eval look fuel levels ls
    match ls with
    | .operator "?" :: ls =>
      let (b, ls) ← evalChoice look fuel ls
      match ls with
      | .operator ":" :: ls =>
        let (c, ls) ← evalChoice look fuel ls
        return (if a = 0 then c else b, ls)
      | _ => none
    | _ => return (a, ls)

/-- Applies the operators of a level that follow a value. -/
def evalFrom (look : List Char → Int) :
    Nat → List String → List (List String) → Int → List Lexeme → Option (Int × List Lexeme)
  | 0, _, _, _, _ => none
  | fuel + 1, level, higher, a, ls =>
    match ls with
    | .operator o :: rest =>
      if level.contains o then do
        let (b, rest) ← eval look fuel higher rest
        evalFrom look fuel level higher (← combine? o a b) rest
      else some (a, ls)
    | _ => some (a, ls)

end

/-- The value of lexemes. -/
def valueOf? (look : List Char → Int) (ls : List Lexeme) : Option Int :=
  match evalChoice look (16 * (ls.length + 1)) ls with
  | some (n, []) => some n
  | _ => none

/-- The value of an expression under values for names, and the name that it is given
to, if there is one. -/
def value? (look : List Char → Int) (text : List Char) : Option (Int × Option (List Char)) :=
  match lexemes 0 text with
  | [] => some (0, none)
  | .name name :: .operator o :: ls =>
    if assignments.contains o then do
      let n ← valueOf? look ls
      let value ← if o = "=" then some n else combine? (o.take 1).copy (look name) n
      return (value, some name)
    else (valueOf? look (.name name :: .operator o :: ls)).map (·, none)
  | ls => (valueOf? look ls).map (·, none)

end CallGuard.Script.Arithmetic
