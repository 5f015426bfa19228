import CallGuard.Text.Utf8

/-!
Words of scripts. A script is read byte by byte, and a byte is held as the character
of its number. A word is made of characters and of values that are filled in when it
is used.

* `Script.Value`: what a dollar sign asks for.
* `Script.Value.read?`: the value at the start of a text.
* `Script.Word`: words.
* `Script.textParts`: a text in which only values are looked for.
-/

namespace CallGuard.Script

/-- Bytes as the characters of their numbers. -/
def ofBytes (bytes : List UInt8) : List Char :=
  bytes.map fun b => Char.ofNat b.toNat

/-- The bytes that characters stand for. -/
def toBytes (cs : List Char) : List UInt8 :=
  cs.map fun c => c.toNat.toUInt8

/-- The bytes of a text as characters. -/
def ofString (s : String) : List Char :=
  ofBytes (Text.encode s.toList)

/-- The text that characters stand for. -/
def toText (cs : List Char) : List Char :=
  Text.decodeLossy (toBytes cs)

/-- Whether a character is a blank. -/
def isBlank (c : Char) : Bool :=
  c == ' ' || c == '\t' || c == '\n'

/-! ### Values -/

/-- What is done with the value of a parameter. Where a flag says so, an empty value
counts as none. -/
inductive Operation where
  /-- It is taken as it is. -/
  | plain
  /-- Its length is taken. -/
  | length
  /-- A text takes the place of no value. -/
  | orElse (emptyToo : Bool) (text : List Char)
  /-- A text takes the place of no value, and is kept. -/
  | assign (emptyToo : Bool) (text : List Char)
  /-- A text takes the place of a value. -/
  | ifSet (emptyToo : Bool) (text : List Char)
  /-- No value ends the script. -/
  | orFail (emptyToo : Bool) (text : List Char)
  /-- What a pattern matches at one end is cut off. -/
  | cut (atEnd longest : Bool) (pattern : List Char)
  /-- There is no such operation. -/
  | unknown
  deriving DecidableEq, Repr

/-- What a dollar sign asks for. -/
inductive Value where
  /-- A parameter by its name. -/
  | parameter (name : List Char) (operation : Operation)
  /-- The output of a script, which starts in a line. -/
  | command (line : Nat) (script : List Char)
  /-- The value of an expression. -/
  | arithmetic (text : List Char)
  deriving DecidableEq, Repr

/-- Whether a character can start a name. -/
def startsName (c : Char) : Bool :=
  c.isAlpha || c == '_'

/-- Whether a character can stand in a name. -/
def inName (c : Char) : Bool :=
  c.isAlphanum || c == '_'

/-- Whether a text is a name. -/
def isName : List Char → Bool
  | [] => false
  | c :: cs => startsName c && cs.all inName

/-- Whether a character is a parameter by itself. -/
def isSpecial (c : Char) : Bool :=
  ['@', '*', '#', '?', '$', '!', '-'].contains c

/-- How the search for a closing character stands. -/
inductive Within where
  | plain
  | single
  | double
  deriving DecidableEq, Repr

/-- The number of characters before the closing one. So many openings have to be
closed before it, and quoted characters do not count. -/
def extent? (opening closing : Char) : Within → Nat → List Char → Option Nat
  | _, _, [] => none
  | .single, depth, c :: cs =>
    (extent? opening closing (if c = '\x27' then .plain else .single) depth cs).map (· + 1)
  | within, depth, '\\' :: _ :: cs => (extent? opening closing within depth cs).map (· + 2)
  | .double, depth, c :: cs =>
    (extent? opening closing (if c = '"' then .plain else .double) depth cs).map (· + 1)
  | .plain, depth, c :: cs =>
    if c = closing ∧ depth = 0 then some 0
    else
      let within := if c = '\x27' then .single else if c = '"' then .double else .plain
      let depth := if c = opening then depth + 1 else if c = closing then depth - 1 else depth
      (extent? opening closing within depth cs).map (· + 1)

/-- The operation that follows the name of a parameter between braces. -/
def Operation.ofText (text : List Char) : Operation :=
  match text with
  | ':' :: '-' :: cs => .orElse true cs
  | '-' :: cs => .orElse false cs
  | ':' :: '=' :: cs => .assign true cs
  | '=' :: cs => .assign false cs
  | ':' :: '+' :: cs => .ifSet true cs
  | '+' :: cs => .ifSet false cs
  | ':' :: '?' :: cs => .orFail true cs
  | '?' :: cs => .orFail false cs
  | '%' :: '%' :: cs => .cut true true cs
  | '%' :: cs => .cut true false cs
  | '#' :: '#' :: cs => .cut false true cs
  | '#' :: cs => .cut false false cs
  | [] => .plain
  | _ => .unknown

/-- The length of the name at the start of a text. -/
def nameLength : List Char → Nat
  | [] => 0
  | c :: cs =>
    if startsName c then (c :: cs.takeWhile inName).length
    else if c.isDigit then (c :: cs.takeWhile Char.isDigit).length
    else if isSpecial c then 1
    else 0

/-- The value between braces. -/
def Value.ofBraces (text : List Char) : Value :=
  match text with
  | '#' :: c :: cs =>
    if nameLength (c :: cs) = (c :: cs).length then .parameter (c :: cs) .length
    else .parameter ['#'] (.ofText (c :: cs))
  | _ =>
    let n := nameLength text
    .parameter (text.take n) (.ofText (text.drop n))

/-- The value between parentheses: an expression if they are double. -/
def Value.ofParentheses (line : Nat) (text : List Char) : Value :=
  match text with
  | '(' :: rest =>
    if rest.getLast? = some ')' then .arithmetic rest.dropLast else .command line text
  | _ => .command line text

/-- The value at the start of what follows a dollar sign, and the number of
characters that spell it. -/
def Value.read? (line : Nat) : List Char → Option (Value × Nat)
  | [] => none
  | c :: cs =>
    if c = '\x7b' then
      (extent? '\x7b' '\x7d' .plain 0 cs).map fun n => (.ofBraces (cs.take n), n + 2)
    else if c = '(' then
      (extent? '(' ')' .plain 0 cs).map fun n => (.ofParentheses line (cs.take n), n + 2)
    else if startsName c then
      let name := c :: cs.takeWhile inName
      some (.parameter name .plain, name.length)
    else if c.isDigit || isSpecial c then some (.parameter [c] .plain, 1)
    else none

/-- A backslash between backquotes takes the meaning off some characters. -/
def unquoteCommand : List Char → List Char
  | [] => []
  | '\\' :: c :: cs =>
    if c = '$' ∨ c = '\\' ∨ c = '\x60' then c :: unquoteCommand cs
    else '\\' :: c :: unquoteCommand cs
  | c :: cs => c :: unquoteCommand cs

/-- The number of characters before a backquote. -/
def backquoteExtent? : List Char → Option Nat
  | [] => none
  | '\\' :: _ :: cs => (backquoteExtent? cs).map (· + 2)
  | c :: cs => if c = '\x60' then some 0 else (backquoteExtent? cs).map (· + 1)

/-- The command at the start of what follows a backquote, and the number of
characters that spell it. -/
def Value.readBackquoted? (line : Nat) (cs : List Char) : Option (Value × Nat) :=
  (backquoteExtent? cs).map fun n => (.command line (unquoteCommand (cs.take n)), n + 1)

/-- The value that a character of a line and what follows it ask for. -/
def Value.at? (line : Nat) (c : Char) (cs : List Char) : Option (Value × Nat) :=
  if c = '$' then read? line cs else if c = '\x60' then readBackquoted? line cs else none

/-! ### Words -/

/-- A part of a word. -/
inductive Part where
  /-- A character. -/
  | char (c : Char) (quoted : Bool)
  /-- Quotes, which make a word also if there is nothing between them. -/
  | quotes
  /-- A value. -/
  | value (value : Value) (quoted : Bool)
  deriving DecidableEq, Repr

/-- A word is made of parts. -/
abbrev Word := List Part

/-- Whether a backslash between double quotes takes the meaning off a character. -/
def isEscapable (c : Char) : Bool :=
  c == '$' || c == '"' || c == '\\' || c == '\x60'

/-- The parts of a text in which only values and backslashes mean something; the
first `skip` characters belong to a value that has been read. -/
def textParts (line : Nat) : Nat → List Char → Word
  | _, [] => []
  | skip + 1, _ :: cs => textParts line skip cs
  | 0, '\\' :: '\n' :: cs => textParts line 0 cs
  | 0, '\\' :: c :: cs =>
    if isEscapable c && c != '"' then .char c true :: textParts line 0 cs
    else .char '\\' true :: .char c true :: textParts line 0 cs
  | 0, c :: cs =>
    match Value.at? line c cs with
    | some (value, n) => .value value true :: textParts line n cs
    | none => .char c true :: textParts line 0 cs

/-- The parts of a text between the braces of a value, where quotes mean something and
blanks do not; the first `skip` characters belong to a value that has been read. -/
def innerParts (line : Nat) : Within → Nat → List Char → Word
  | _, _, [] => []
  | within, skip + 1, _ :: cs => innerParts line within skip cs
  | .single, 0, c :: cs =>
    if c = '\x27' then innerParts line .plain 0 cs else .char c true :: innerParts line .single 0 cs
  | within, 0, '\\' :: c :: cs =>
    if within = .plain || isEscapable c then .char c true :: innerParts line within 0 cs
    else .char '\\' true :: .char c true :: innerParts line within 0 cs
  | within, 0, c :: cs =>
    if c = '"' then innerParts line (if within = .plain then .double else .plain) 0 cs
    else if c = '\x27' ∧ within = .plain then innerParts line .single 0 cs
    else
      match Value.at? line c cs with
      | some (value, n) => .value value (within = .double) :: innerParts line within n cs
      | none => .char c (within = .double) :: innerParts line within 0 cs

/-- The parts of a text in which nothing means anything. -/
def literalParts (text : List Char) : Word :=
  text.map (.char · true)

/-- The text of a word without quotes and values. -/
def bareText? : Word → Option (List Char)
  | [] => some []
  | .char c false :: ps => (bareText? ps).map (c :: ·)
  | _ => none

end CallGuard.Script
