/-!
What can be wrong with a text of the intermediate representation, and how it is
reported.

* `ParseError`: the causes.
* `ParseError.message`: the wording of each.
-/

namespace CallGuard.Ir

/-- Why a text could not be read. -/
inductive ParseError where
  /-- A character that starts no token. -/
  | unexpectedChar (line column : Nat) (char : Char)
  /-- A string without closing quote. -/
  | unterminatedString (line : Nat)
  /-- A token in the wrong place. -/
  | unexpectedToken (line : Nat) (expected found : String)
  /-- The input ends too early. -/
  | unexpectedEnd (context : String)
  /-- Something that is no type where a type is due. -/
  | invalidType (line : Nat) (reason : String)
  /-- A function body without closing brace. -/
  | unterminatedBody (line : Nat) (function : String)
  deriving DecidableEq, Repr

/-- The wording of an error. -/
def ParseError.message : ParseError → String
  | unexpectedChar line column char =>
    s!"line {line}, column {column}: unexpected character '{char}'"
  | unterminatedString line => s!"line {line}: unterminated string literal"
  | unexpectedToken line expected found => s!"line {line}: expected {expected}, got {found}"
  | unexpectedEnd context => s!"unexpected end of input while parsing {context}"
  | invalidType line reason => s!"line {line}: invalid type: {reason}"
  | unterminatedBody line function =>
    s!"line {line}: function @{function} has no closing '\x7d'"

end CallGuard.Ir
