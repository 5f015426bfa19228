/-!
Numerals. Numbers are written in decimal, bytes in two hexadecimal digits.

* `readDecimal?`: the value of a non-empty run of digits.
* `readBelow?`: a decimal numeral with an optional plus sign, below a limit.
* `hexByte?`: the byte that two hexadecimal digits spell.
* `upperHex`, `lowerHex`: a byte as two hexadecimal digits.
-/

namespace CallGuard.Text

/-- The value of a decimal digit. -/
def digitValue (c : Char) : Nat :=
  c.toNat - '0'.toNat

/-- The value of a run of decimal digits. -/
def decimalValue (s : List Char) : Nat :=
  s.foldl (fun n c => 10 * n + digitValue c) 0

/-- The value of a text that consists of one or more decimal digits. -/
def readDecimal? (s : List Char) : Option Nat :=
  if !s.isEmpty && s.all Char.isDigit then some (decimalValue s) else none

/-- The value of a decimal numeral below `limit`; one plus sign may stand before
the digits. -/
def readBelow? (limit : Nat) (s : List Char) : Option Nat :=
  let digits := match s with
    | '+' :: r => r
    | s => s
  (readDecimal? digits).filter (· < limit)

/-- The decimal numeral of a number. -/
def decimal (n : Nat) : List Char :=
  Nat.toDigits 10 n

/-! ### Hexadecimal -/

/-- The value of a hexadecimal digit of either case. -/
def hexValue? (c : Char) : Option Nat :=
  if c.isDigit then some (digitValue c)
  else if 'a' ≤ c ∧ c ≤ 'f' then some (c.toNat - 'a'.toNat + 10)
  else if 'A' ≤ c ∧ c ≤ 'F' then some (c.toNat - 'A'.toNat + 10)
  else none

/-- Whether a character is a hexadecimal digit. -/
def isHexDigit (c : Char) : Bool :=
  (hexValue? c).isSome

/-- The byte that two characters spell in hexadecimal. The first may be a plus
sign, which counts for nothing. -/
def hexByte? (a b : Char) : Option UInt8 := do
  let high ← if a = '+' then some 0 else hexValue? a
  let low ← hexValue? b
  return UInt8.ofNat (16 * high + low)

/-- The hexadecimal digit of a value below sixteen, in lower case. -/
def lowerDigit (n : Nat) : Char :=
  Nat.digitChar n

/-- The hexadecimal digit of a value below sixteen, in upper case. -/
def upperDigit (n : Nat) : Char :=
  (Nat.digitChar n).toUpper

/-- A byte as two lower-case hexadecimal digits. -/
def lowerHex (b : UInt8) : List Char :=
  [lowerDigit (b.toNat / 16), lowerDigit (b.toNat % 16)]

/-- A byte as two upper-case hexadecimal digits. -/
def upperHex (b : UInt8) : List Char :=
  [upperDigit (b.toNat / 16), upperDigit (b.toNat % 16)]

/-- The bytes that a text of hexadecimal digits spells, two digits to a byte. -/
def readHexBytes? : List Char → Option (List UInt8)
  | [] => some []
  | a :: b :: rest => do
    let high ← hexValue? a
    let low ← hexValue? b
    let bytes ← readHexBytes? rest
    return UInt8.ofNat (16 * high + low) :: bytes
  | [_] => none

/-- A lower-case digit has its value. -/
theorem hexValue?_lowerDigit {n : Nat} (hn : n < 16) : hexValue? (lowerDigit n) = some n := by
  have h : ∀ n < 16, hexValue? (lowerDigit n) = some n := by decide
  exact h n hn

end CallGuard.Text
