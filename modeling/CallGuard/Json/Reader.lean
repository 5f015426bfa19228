import CallGuard.Json.Number

/-!
Reading JSON of a known shape, from left to right in one pass. The first problem
decides the fault, so a text that is wrong in two ways has the fault of the
earlier one.

* `Reader`: readers over the remaining text.
* `readString`, `readArray`, `readObject`, `PairShape.read`: the shapes. A pair is an
  object of two known members or an array of two elements; the second member may
  be missing.
* `skipValue`: a value that is not looked at, of any depth.
* `read`: a whole text.
* `ReadError.message`: what is wrong with a text, in words.
-/

namespace CallGuard.Json

/-- Readers over the remaining text. -/
abbrev Reader := EStateM Fault (List Char)

/-- The blanks of JSON. -/
def isSpace (c : Char) : Bool :=
  c == ' ' || c == '\n' || c == '\t' || c == '\r'

/-- Lifts a function that reads from a text. -/
def lift {α : Type} (f : List Char → Except Fault (α × List Char)) : Reader α := fun cs =>
  match f cs with
  | .ok (a, rest) => .ok a rest
  | .error e => .error e cs

/-- The next character after blanks, unread. -/
def peek : Reader (Option Char) := do
  modify (·.dropWhile isSpace)
  return (← get).head?

/-- Moves over one character. -/
def skip : Reader Unit :=
  modify List.tail

/-! ### Values that are not looked at -/

/-- Moves over the given characters. -/
def skipLiteral : List Char → List Char → Except Fault (List Char)
  | [], cs => .ok cs
  | _ :: _, [] => .error (.ended .value)
  | e :: es, c :: cs => if c = e then skipLiteral es cs else .error .malformed

/-- Moves over the value at the start of the text, except for what stands inside
its brackets. The result says which bracket has been opened, if any. -/
def skipStart (cs : List Char) : Except Fault (Option Char × List Char) := do
  match cs.dropWhile isSpace with
  | [] => throw (.ended .value)
  | c :: rest =>
    if c = 'n' then return (none, ← skipLiteral "ull".toList rest)
    else if c = 't' then return (none, ← skipLiteral "rue".toList rest)
    else if c = 'f' then return (none, ← skipLiteral "alse".toList rest)
    else if c = '-' then return (none, ← skipNumber rest)
    else if c.isDigit then return (none, ← skipNumber (c :: rest))
    else if c = '"' then return (none, ← skipChars rest)
    else if c = '[' ∨ c = '\x7b' then return (some c, rest)
    else throw .malformed

/-- Moves over the name of a member and its colon. -/
def skipKey (cs : List Char) : Except Fault (List Char) := do
  match cs.dropWhile isSpace with
  | [] => throw (.ended .object)
  | c :: rest =>
    if c = '"' then
      match (← skipChars rest).dropWhile isSpace with
      | [] => throw (.ended .object)
      | c :: rest => if c = ':' then return rest else throw .malformed
    else throw .malformed

/-- What a bracket opens. -/
def construct (bracket : Char) : Construct :=
  if bracket = '[' then .list else .object

/-- The bracket that closes what an opening bracket opens. -/
def closing (bracket : Char) : Char :=
  if bracket = '[' then ']' else '\x7d'

mutual

/-- Moves over a value and what follows it up to the end of the innermost bracket
of `stack`, which holds the brackets that are open. The first argument bounds the
number of values. -/
def skipValueIn : Nat → List Char → List Char → Except Fault (List Char)
  | 0, _, _ => throw (.ended .value)
  | bound + 1, stack, cs => do
    match ← skipStart cs with
    | (none, rest) => skipRest bound stack rest
    | (some bracket, rest) =>
      match rest.dropWhile isSpace with
      | [] => throw (.ended (construct bracket))
      | c :: after =>
        if c = closing bracket then skipRest bound stack after
        else if bracket = '[' then skipValueIn bound (bracket :: stack) (c :: after)
        else skipValueIn bound (bracket :: stack) (← skipKey (c :: after))

/-- Moves over what follows a value inside the brackets of `stack`. -/
def skipRest : Nat → List Char → List Char → Except Fault (List Char)
  | _, [], cs => return cs
  | 0, _ :: _, _ => throw (.ended .value)
  | bound + 1, bracket :: stack, cs => do
    match cs.dropWhile isSpace with
    | [] => throw (.ended (construct bracket))
    | c :: rest =>
      if c = ',' then
        if bracket = '[' then skipValueIn bound (bracket :: stack) rest
        else skipValueIn bound (bracket :: stack) (← skipKey rest)
      else if c = closing bracket then skipRest bound stack rest
      else throw .malformed

end

/-- Moves over a value that is not looked at. Every step reads a character, so
there are no more steps than characters. -/
def skipValue : Reader Unit :=
  lift fun cs => return ((), ← skipValueIn (2 * cs.length + 2) [] cs)

/-! ### Values of another shape -/

/-- The fault of a literal in place of another value, after its first letter. -/
def literalFault (rest : String) (cs : List Char) : Fault :=
  match skipLiteral rest.toList cs with
  | .ok _ => .wrongShape
  | .error e => e

/-- The fault of the value at the start of the text, if another one is wanted.
Brackets are not looked into. -/
def otherFault (cs : List Char) : Fault :=
  match cs with
  | [] => .ended .value
  | c :: rest =>
    if c = 'n' then literalFault "ull" rest
    else if c = 't' then literalFault "rue" rest
    else if c = 'f' then literalFault "alse" rest
    else if c = '-' then numberFault rest
    else if c.isDigit then numberFault cs
    else if c = '"' then
      match readChars rest with
      | .ok _ => .wrongShape
      | .error e => e
    else if c = '[' ∨ c = '\x7b' then .wrongShape
    else .malformed

/-- Fails because of the value that comes next. -/
def failOther {α : Type} : Reader α := do
  throw (otherFault (← get))

/-! ### Strings -/

/-- Reads a string after its opening quote. -/
def readRest : Reader String :=
  lift fun cs => (readChars cs).map fun (s, rest) => (String.ofList s, rest)

/-- Reads a string. -/
def readString : Reader String := do
  if (← peek) = some '"' then
    skip
    readRest
  else failOther

/-! ### Arrays -/

/-- Whether an array has another element; a comma before it is read. -/
def hasElement (first : Bool) : Reader Bool := do
  match ← peek with
  | none => throw (.ended .list)
  | some c =>
    if c = ']' then return false
    else if first then return true
    else if c = ',' then
      skip
      match ← peek with
      | none => throw (.ended .value)
      | some d => if d = ']' then throw .malformed else return true
    else throw .malformed

/-- Reads the end of an array. -/
def endArray : Reader Unit := do
  match ← peek with
  | none => throw (.ended .list)
  | some c => if c = ']' then skip else throw .malformed

/-- Reads the elements of an array. The first argument bounds their number. -/
def elements {α : Type} (element : Reader α) : Nat → Bool → Reader (List α)
  | 0, _ => throw (.ended .list)
  | bound + 1, first => do
    if ← hasElement first then
      let a ← element
      return a :: (← elements element bound false)
    else return []

/-- Reads an array. -/
def readArray {α : Type} (element : Reader α) : Reader (List α) := do
  if (← peek) = some '[' then
    skip
    let result ← elements element ((← get).length + 1) true
    endArray
    return result
  else failOther

/-! ### Objects -/

/-- Whether an object has another member; a comma before it and the opening quote
of its name are read. -/
def hasMember (first : Bool) : Reader Bool := do
  match ← peek with
  | none => throw (.ended .object)
  | some c =>
    if c = '\x7d' then return false
    else if first then
      if c = '"' then
        skip
        return true
      else throw .malformed
    else if c = ',' then
      skip
      match ← peek with
      | none => throw (.ended .value)
      | some d =>
        if d = '"' then
          skip
          return true
        else throw .malformed
    else throw .malformed

/-- Reads the colon after the name of a member. -/
def readColon : Reader Unit := do
  match ← peek with
  | none => throw (.ended .object)
  | some c => if c = ':' then skip else throw .malformed

/-- Reads the end of an object. -/
def endObject : Reader Unit := do
  match ← peek with
  | none => throw (.ended .object)
  | some c => if c = '\x7d' then skip else throw .malformed

/-- Reads the members of an object in order. The first argument bounds their
number. -/
def members {α : Type} (value : Reader α) : Nat → Bool → Reader (List (String × α))
  | 0, _ => throw (.ended .object)
  | bound + 1, first => do
    if ← hasMember first then
      let name ← readRest
      readColon
      let a ← value
      return (name, a) :: (← members value bound false)
    else return []

/-- Reads an object of any members with values of one shape. -/
def readObject {α : Type} (value : Reader α) : Reader (List (String × α)) := do
  if (← peek) = some '\x7b' then
    skip
    let result ← members value ((← get).length + 1) true
    endObject
    return result
  else failOther

/-! ### Pairs -/

/-- The shape of a pair: the names of its members, and how they are read. -/
structure PairShape (α β : Type) where
  /-- The name of the first member, which must be there. -/
  firstName : String
  /-- The reader of the first member. -/
  first : Reader α
  /-- The name of the second member, which may be missing. -/
  secondName : String
  /-- The reader of the second member. -/
  second : Reader β
  /-- The second member where it is missing. -/
  default : β

namespace PairShape

variable {α β : Type}

/-- Reads the members of a pair, in any order, each known one once. The first
argument bounds their number. -/
def namedMembers (shape : PairShape α β) :
    Nat → Bool → Option α → Option β → Reader (α × β)
  | 0, _, _, _ => throw (.ended .object)
  | bound + 1, isFirst, a, b => do
    if ← hasMember isFirst then
      let name ← readRest
      if name = shape.firstName then
        if a.isSome then throw .wrongShape
        readColon
        let a ← shape.first
        shape.namedMembers bound false (some a) b
      else if name = shape.secondName then
        if b.isSome then throw .wrongShape
        readColon
        let b ← shape.second
        shape.namedMembers bound false a (some b)
      else
        readColon
        skipValue
        shape.namedMembers bound false a b
    else
      match a with
      | some a => return (a, b.getD shape.default)
      | none => throw .wrongShape

/-- Reads the elements of a pair that is written as an array. -/
def listedMembers (shape : PairShape α β) : Reader (α × β) := do
  if ← hasElement true then
    let a ← shape.first
    if ← hasElement false then
      let b ← shape.second
      return (a, b)
    else return (a, shape.default)
  else throw .wrongShape

/-- Reads a pair. -/
def read (shape : PairShape α β) : Reader (α × β) := do
  match ← peek with
  | some '[' =>
    skip
    let result ← shape.listedMembers
    endArray
    return result
  | some '\x7b' =>
    skip
    let result ← shape.namedMembers ((← get).length + 1) true none none
    endObject
    return result
  | _ => failOther

end PairShape

/-! ### Whole texts -/

/-- What is wrong with a text. -/
structure ReadError where
  /-- The fault. -/
  fault : Fault
  /-- The line on which the text ends, counted from one. -/
  lastLine : Nat
  /-- The number of bytes on that line. -/
  lastColumn : Nat
  deriving DecidableEq, Repr

namespace ReadError

/-- The error for a fault in a text. -/
def ofFault (source : List Char) (fault : Fault) : ReadError :=
  let lastLine := (source.reverse.takeWhile (· != '\n')).reverse
  ⟨fault, source.count '\n' + 1, Text.byteLength lastLine⟩

/-- The wording of an error. -/
def message (e : ReadError) : String :=
  let ended (inside : String) : String :=
    s!"EOF while parsing {inside} at line {e.lastLine} column {e.lastColumn}"
  match e.fault with
  | .ended .value => ended "a value"
  | .ended .list => ended "a list"
  | .ended .object => ended "an object"
  | .ended .string => ended "a string"
  | .malformed => "expected value"
  | .wrongShape => "invalid type"

end ReadError

/-- The value that a whole text spells. -/
def read {α : Type} (reader : Reader α) (source : List Char) : Except ReadError α :=
  match reader.run source with
  | .error fault _ => .error (.ofFault source fault)
  | .ok a rest =>
    if (rest.dropWhile isSpace).isEmpty then .ok a else .error (.ofFault source .malformed)

end CallGuard.Json
