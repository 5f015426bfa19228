import CallGuard.Json.Text

/-!
The numbers of JSON. No number is ever wanted, so numbers are only checked: one
in place of another value is read as a binary number of 64 bits and must not be
too large for that, and one whose value is not looked at must fit the grammar.

* `numberFault`: the fault that a number in place of another value is.
* `skipNumber`: moves over a number that is not looked at.
-/

namespace CallGuard.Json

/-- The digits at the start of a text, and the rest. -/
def splitDigits (cs : List Char) : List Char × List Char :=
  (cs.takeWhile Char.isDigit, cs.dropWhile Char.isDigit)

/-- Whether a text starts an exponent. -/
def startsExponent : List Char → Bool
  | c :: _ => c == 'e' || c == 'E'
  | [] => false

/-- The text after a sign, if it starts with one, and whether that is a minus. -/
def splitSign : List Char → Bool × List Char
  | '+' :: rest => (false, rest)
  | '-' :: rest => (true, rest)
  | cs => (false, cs)

/-! ### Numbers in place of other values -/

/-- Adds digits to a significand while it stays below 2^64. Gives the significand,
the number of digits that went into it, and the number of those that did not. -/
def addDigits (significand : Nat) : List Char → Nat × Nat × Nat
  | [] => (significand, 0, 0)
  | d :: ds =>
    let n := 10 * significand + Text.digitValue d
    if n < UInt64.size then
      let (result, used, left) := addDigits n ds
      (result, used + 1, left)
    else (significand, 0, ds.length + 1)

/-- The nearest number with 53 significant bits; a tie goes to the even one. -/
def roundTo53 (n : Nat) : Nat :=
  let shift := n.log2 - 52
  let unit := 1 <<< shift
  let quotient := n / unit
  let twice := 2 * (n % unit)
  if twice > unit ∨ (twice = unit ∧ quotient % 2 = 1) then (quotient + 1) * unit
  else quotient * unit

/-- Whether a decimal number is too large for 64 bits, where significand and power
of ten are rounded before they are multiplied. -/
def isTooLarge (significand : Nat) (exponent : Int) : Bool :=
  significand ≠ 0 ∧
    (308 < exponent ∨
      (0 ≤ exponent ∧
        1 <<< 1024 ≤ roundTo53 (roundTo53 significand * roundTo53 (Nat.pow 10 exponent.toNat))))

/-- The fault of a number whose digits are read and whose exponent, if it has one,
follows. -/
def exponentFault (significand : Nat) (exponent : Int) (cs : List Char) : Fault :=
  if startsExponent cs then
    let (negative, rest) := splitSign cs.tail
    let (digits, _) := splitDigits rest
    if rest.isEmpty then .ended .value
    else if digits.isEmpty then .malformed
    else
      let size : Int := Text.decimalValue digits
      if isTooLarge significand (if negative then exponent - size else exponent + size) then
        .malformed
      else .wrongShape
  else if isTooLarge significand exponent then .malformed
  else .wrongShape

/-- The fault that a number without its minus sign is in place of another value. -/
def numberFault (cs : List Char) : Fault :=
  let (whole, rest) := splitDigits cs
  if cs.isEmpty then .ended .value
  else if whole.isEmpty then .malformed
  else if whole.head? = some '0' ∧ 1 < whole.length then .malformed
  else
    let (significand, _, left) := addDigits 0 whole
    match rest with
    | '.' :: rest =>
      let (part, after) := splitDigits rest
      if part.isEmpty then if rest.isEmpty then .ended .value else .malformed
      else
        let (significand, used, _) := addDigits significand part
        exponentFault significand ((left : Int) - used) after
    | _ => exponentFault significand left rest

/-! ### Numbers that are not looked at -/

/-- Moves over an exponent, if there is one. -/
def skipExponent (cs : List Char) : Except Fault (List Char) :=
  if startsExponent cs then
    let (digits, rest) := splitDigits (splitSign cs.tail).2
    if digits.isEmpty then .error .malformed else .ok rest
  else .ok cs

/-- Moves over a number without its minus sign. -/
def skipNumber (cs : List Char) : Except Fault (List Char) :=
  let (whole, rest) := splitDigits cs
  if whole.isEmpty then .error .malformed
  else if whole.head? = some '0' ∧ 1 < whole.length then .error .malformed
  else
    match rest with
    | '.' :: rest =>
      let (part, after) := splitDigits rest
      if part.isEmpty then .error .malformed else skipExponent after
    | _ => skipExponent rest

end CallGuard.Json
