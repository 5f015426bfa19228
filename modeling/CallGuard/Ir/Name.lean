import CallGuard.Text.Numeral
import CallGuard.Text.Utf8

/-!
Names and how they are written. A name stands as it is when it consists of name
characters and does not start with a digit; any other name stands between double
quotes, with a backslash and two hexadecimal digits for every byte that is not a
printable ASCII character or is a quote or a backslash.

* `Name.escape`: the text between the quotes.
* `Name.print`: the name as it stands after its sigil.
* `Name.unescape`: the bytes that the text between quotes stands for.
* `Name.decode`: the name that the text between quotes stands for.
-/

namespace CallGuard.Ir

/-- The characters of a name that needs no quotes: ASCII letters and digits and
the four marks. -/
def isNameChar (c : Char) : Bool :=
  c.isAlphanum || c == '-' || c == '$' || c == '.' || c == '_'

namespace Name

/-- Whether a byte stands for itself between quotes. -/
def isPlainByte (b : UInt8) : Bool :=
  0x20 ≤ b && b < 0x7f && b != 0x5c && b != 0x22

/-- A byte as it is written between quotes. -/
def escapeByte (b : UInt8) : List Char :=
  if isPlainByte b then [Char.ofNat b.toNat] else '\\' :: Text.upperHex b

/-- A name as it is written between quotes. -/
def escape (name : List Char) : List Char :=
  (Text.encode name).flatMap escapeByte

/-- Whether a name is written without quotes. -/
def isBare (name : List Char) : Bool :=
  match name with
  | [] => false
  | c :: _ => !c.isDigit && name.all isNameChar

/-- A text between quotes. -/
def printQuoted (name : List Char) : List Char :=
  '"' :: (escape name ++ ['"'])

/-- A name as it is written after its sigil. -/
def print (name : List Char) : List Char :=
  if isBare name then name else printQuoted name

/-! ### Reading what stands between quotes -/

/-- The bytes that the text between quotes stands for: two backslashes are one, a
backslash with two hexadecimal digits is a byte, and any other backslash is
itself. -/
def unescape : List Char → List UInt8
  | [] => []
  | '\\' :: '\\' :: rest => 0x5c :: unescape rest
  | '\\' :: a :: b :: rest =>
    match Text.hexByte? a b with
    | some byte => byte :: unescape rest
    | none => 0x5c :: unescape (a :: b :: rest)
  | c :: rest => String.utf8EncodeChar c ++ unescape rest

/-- The name that the text between quotes stands for. Bytes that are no UTF-8
read as U+FFFD. -/
def decode (body : List Char) : String :=
  String.ofList (Text.decodeLossy (unescape body))

end Name

end CallGuard.Ir
