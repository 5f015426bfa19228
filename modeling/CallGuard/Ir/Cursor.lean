import CallGuard.Ir.Error
import CallGuard.Ir.Token
import CallGuard.Text.Numeral

/-!
Moving over tokens. A cursor stands between the tokens that have been read and
those that have not; past the end of the tokens it sees `eof`, so a part of a
token list can be read without an end marker.

* `Cursor`: the tokens on both sides.
* `Parse`: readers, which may fail and leave the cursor where they failed.
* `advance`, `eat`, `expect`, …: the readers of single tokens.
* `skipGroup`, `skipToDelimiter`, `skipEntity`: moving over tokens that do not
  matter. All of them are `skipWhile`, which takes one token after the other
  while a step function allows it.
-/

namespace CallGuard.Ir

/-- A place between tokens. -/
structure Cursor where
  /-- The tokens that have been read, the last one first. -/
  consumed : List Located := []
  /-- The tokens that have not been read. -/
  rest : List Located
  deriving DecidableEq

namespace Cursor

/-- The cursor before the given tokens. -/
def ofTokens (tokens : List Located) : Cursor :=
  ⟨[], tokens⟩

/-- All tokens, on both sides. -/
def tokens (c : Cursor) : List Located :=
  c.consumed.reverse ++ c.rest

/-- The number of tokens that have been read. -/
def position (c : Cursor) : Nat :=
  c.consumed.length

/-- The token `n` places ahead, `eof` past the end. -/
def peekAt (c : Cursor) (n : Nat) : Token :=
  match c.rest[n]? with
  | some t => t.token
  | none => .eof

/-- The next token, `eof` past the end. -/
def peek (c : Cursor) : Token :=
  c.peekAt 0

/-- Whether the next token is `eof`. -/
def atEnd (c : Cursor) : Bool :=
  c.peek == .eof

/-- The line of the next token, or of the last one past the end. -/
def line (c : Cursor) : Nat :=
  match c.rest, c.consumed with
  | t :: _, _ => t.line
  | [], t :: _ => t.line
  | [], [] => 0

/-- The line of the token read last. -/
def prevLine (c : Cursor) : Nat :=
  match c.consumed with
  | t :: _ => t.line
  | [] => c.line

/-- The error that says what was expected in place of the next token. -/
def unexpected (c : Cursor) (expected : String) : ParseError :=
  .unexpectedToken c.line expected c.peek.describe

/-! ### Moving over tokens -/

/-- Splits tokens where `step` stops; it is given its state, the next token and
the tokens after that. The end marker always stops it. -/
def splitWhile {σ : Type} (step : σ → Located → List Located → Option σ) :
    σ → List Located → List Located × List Located
  | _, [] => ([], [])
  | s, t :: ts =>
    if t.token = .eof then ([], t :: ts)
    else
      match step s t ts with
      | none => ([], t :: ts)
      | some s' =>
        let parts := splitWhile step s' ts
        (t :: parts.1, parts.2)

/-- Nothing is lost where tokens are split. -/
theorem splitWhile_append {σ : Type} (step : σ → Located → List Located → Option σ) (s : σ)
    (ts : List Located) : (splitWhile step s ts).1 ++ (splitWhile step s ts).2 = ts := by
  induction ts generalizing s with
  | nil => rfl
  | cons t ts ih =>
    rw [splitWhile]
    repeat' split
    all_goals simp [ih]

/-- Moves over the tokens that `step` allows. -/
def skipWhile {σ : Type} (step : σ → Located → List Located → Option σ) (s : σ) (c : Cursor) :
    Cursor :=
  let parts := splitWhile step s c.rest
  ⟨parts.1.reverseAux c.consumed, parts.2⟩

/-- The step over a group: the state is the number of open brackets, and nothing
is read once they are closed. -/
def groupStep : Nat → Located → List Located → Option Nat
  | 0, _, _ => none
  | depth + 1, t, _ =>
    if t.token.opensGroup then some (depth + 2)
    else if t.token.closesGroup then some depth
    else some (depth + 1)

/-- Moves over the bracketed group that the next token opens, if it opens one. -/
def skipGroup (c : Cursor) : Cursor :=
  match c.rest with
  | t :: rest =>
    if t.token.opensGroup then skipWhile groupStep 1 ⟨t :: c.consumed, rest⟩ else c
  | [] => c

/-- The step up to a comma or closing bracket outside all groups. -/
def delimiterStep : Nat → Located → List Located → Option Nat
  | 0, t, _ =>
    if t.token = .comma ∨ t.token.closesGroup then none
    else if t.token.opensGroup then some 1
    else some 0
  | depth + 1, t, _ =>
    if t.token.opensGroup then some (depth + 2)
    else if t.token.closesGroup then some depth
    else some (depth + 1)

/-- Moves to the next comma or closing bracket outside all groups. -/
def skipToDelimiter (c : Cursor) : Cursor :=
  c.skipWhile delimiterStep 0

/-- The step over what belongs to a top-level entity on the given line: the rest
of the line, and groups that reach onto later lines. Angle brackets do not
count. -/
def entityStep (line : Nat) (depth : Nat) (t : Located) (_ : List Located) : Option Nat :=
  if depth = 0 ∧ t.line ≠ line then none
  else
    match t.token with
    | .lparen | .lbracket | .lbrace => some (depth + 1)
    | .rparen | .rbracket | .rbrace => some (depth - 1)
    | _ => some depth

/-- Moves over the rest of a top-level entity, which starts with the token read
last. -/
def skipEntity (c : Cursor) : Cursor :=
  c.skipWhile (entityStep c.prevLine) 0

/-- Moves over bare words. -/
def skipWords (c : Cursor) : Cursor :=
  c.skipWhile (fun _ t _ => if t.token.isWord then some () else none) ()

end Cursor

/-! ### Readers -/

/-- Readers of tokens. A reader that fails leaves the cursor where it failed. -/
abbrev Parse := EStateM ParseError Cursor

namespace Parse

/-- Runs a reader on tokens. -/
def runOn {α : Type} (p : Parse α) (tokens : List Located) : Except ParseError α :=
  match p.run (Cursor.ofTokens tokens) with
  | .ok a _ => .ok a
  | .error e _ => .error e

/-- Reads the next token. Past the end it is `eof`, and the cursor stays. -/
def advance : Parse Token := fun c =>
  match c.rest with
  | [] => .ok .eof c
  | t :: rest => .ok t.token ⟨t :: c.consumed, rest⟩

/-- The next token, unread. -/
def peek : Parse Token :=
  return (← get).peek

/-- Reads the next token if it is the given one. -/
def eat (token : Token) : Parse Bool := do
  if (← peek) = token then
    let _ ← advance
    return true
  else return false

/-- Reads the next token if it is the given keyword. -/
def eatKeyword (keyword : String) : Parse Bool :=
  eat (.word keyword)

/-- Fails with what was expected in place of the next token. -/
def failExpecting {α : Type} (expected : String) : Parse α := do
  throw ((← get).unexpected expected)

/-- Reads the given token. -/
def expect (token : Token) (context : String) : Parse Unit := do
  unless ← eat token do
    failExpecting s!"{token.describe} in {context}"

/-- Reads the given keyword. -/
def expectKeyword (keyword context : String) : Parse Unit := do
  unless ← eatKeyword keyword do
    failExpecting s!"'{keyword}' in {context}"

/-- Fails because of a token that has been read. -/
def failOn {α : Type} (token : Token) (context : String) : Parse α := do
  if token = .eof then throw (.unexpectedEnd context)
  else throw (.unexpectedToken (← get).prevLine context token.describe)

/-- Reads a bare word. -/
def expectWord (context : String) : Parse String := do
  match ← advance with
  | .word text => return text
  | token => failOn token context

/-- Reads a string. -/
def expectString (context : String) : Parse String := do
  match ← advance with
  | .string text => return text
  | token => failOn token context

/-- Reads an integer numeral below the limit. -/
def expectBelow (limit : Nat) (context : String) : Parse Nat := do
  match ← advance with
  | .integer text =>
    match Text.readBelow? limit text.toList with
    | some n => return n
    | none => failOn (.integer text) context
  | token => failOn token context

/-- Reads a 32-bit number. -/
def expectUInt32 (context : String) : Parse UInt32 :=
  return UInt32.ofNat (← expectBelow UInt32.size context)

/-- Reads a 64-bit number. -/
def expectUInt64 (context : String) : Parse UInt64 :=
  return UInt64.ofNat (← expectBelow UInt64.size context)

/-- Moves over a group. -/
def skipGroup : Parse Unit :=
  modify Cursor.skipGroup

/-- Moves to a delimiter. -/
def skipToDelimiter : Parse Unit :=
  modify Cursor.skipToDelimiter

/-- Moves over the rest of a top-level entity. -/
def skipEntity : Parse Unit :=
  modify Cursor.skipEntity

end Parse

end CallGuard.Ir
