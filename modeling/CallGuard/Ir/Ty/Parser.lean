import CallGuard.Ir.Cursor
import CallGuard.Ir.Token.Lexer
import CallGuard.Ir.Ty

/-!
The grammar of types. Pointers may be written without a pointee or after it, so
a type is a base followed by any number of suffixes: a star, an address space
with a star, or a parameter list.

* `TypeGrammar`: the readers of the grammar's parts. They call each other, and
  their first argument bounds the depth of the calls.
* `parseType`, `parseParams`: the readers with a bound that the remaining tokens
  cannot exhaust: between two calls of one reader a token is read, and at most
  three other readers lie between them.
* `Ty.parse`: the type that a whole text spells.
-/

namespace CallGuard.Ir

namespace Cursor

/-- Whether a type can start here. -/
def atType (c : Cursor) : Bool :=
  match c.peek with
  | .word keyword =>
    if keyword = "target" then c.peekAt 1 == .lparen else (Ty.ofKeyword? keyword).isSome
  | .localName _ | .lbrace | .lbracket | .less => true
  | _ => false

/-- Whether an address space with a star follows. -/
def atSpaceSuffix (c : Cursor) : Bool :=
  c.peek.isKeyword "addrspace" && c.peekAt 1 == .lparen && c.peekAt 3 == .rparen &&
    c.peekAt 4 == .star

end Cursor

namespace TypeGrammar

open Parse

/-- The end of the depth that the tokens allow, which reading never reaches: readers
that crash here read the same (`Direct.parseType_eq`). -/
def tooDeep {α : Type} : Parse α :=
  throw (.unexpectedEnd "type")

/-- The number in parentheses after the word for an address space. -/
def spaceNumber : Parse UInt32 := do
  expect .lparen "addrspace"
  let space ← expectUInt32 "address space"
  expect .rparen "addrspace"
  return space

/-- The structure that a local name stands for. A name of digits is a number. -/
def reference (line : Nat) (name : String) : Parse Ty :=
  match Text.readDecimal? name.toList with
  | none => return .named name
  | some n =>
    if n < UInt32.size then return .numbered (UInt32.ofNat n)
    else throw (.invalidType line s!"bad type number %{name}")

mutual

/-- A type. -/
def type : Nat → Parse Ty
  | 0 => tooDeep
  | depth + 1 => do
    let line := (← get).line
    let token ← advance
    let base ← base depth line token
    suffixes depth base

/-- A type without suffixes, after its first token. -/
def base : Nat → Nat → Token → Parse Ty
  | 0, _, _ => tooDeep
  | depth + 1, line, token =>
    match token with
    | .word keyword =>
      if keyword = "ptr" then do
        if ← eatKeyword "addrspace" then return .ptr (← spaceNumber)
        else return .ptr 0
      else if keyword = "target" then do
        expect .lparen "target type"
        let name ← expectString "target type name"
        let (types, ints) ← targetArguments depth
        return .target name types ints
      else
        match Ty.ofKeyword? keyword with
        | some t => return t
        | none => throw (.invalidType line s!"unknown type '{keyword}'")
    | .localName name => reference line name
    | .lbrace => return .struct false (← structBody depth)
    | .less => do
      if ← eat .lbrace then
        let fields ← structBody depth
        expect .greater "packed struct type"
        return .struct true fields
      else
        let scalable ← eatKeyword "vscale"
        if scalable then expectKeyword "x" "scalable vector type"
        let length ← expectUInt64 "vector length"
        expectKeyword "x" "vector type"
        let element ← type depth
        expect .greater "vector type"
        return .vector length scalable element
    | .lbracket => do
      let length ← expectUInt64 "array length"
      expectKeyword "x" "array type"
      let element ← type depth
      expect .rbracket "array type"
      return .array length element
    | .eof => throw (.unexpectedEnd "type")
    | _ => throw (.unexpectedToken line "type" token.describe)

/-- The suffixes of the type `t`. -/
def suffixes : Nat → Ty → Parse Ty
  | 0, _ => tooDeep
  | depth + 1, t => do
    let cursor ← get
    if cursor.peek = .star then
      let _ ← advance
      suffixes depth (.pointer t 0)
    else if cursor.atSpaceSuffix then
      let _ ← advance
      let space ← spaceNumber
      expect .star "pointer type"
      suffixes depth (.pointer t space)
    else if cursor.peek = .lparen then
      let (list, variadic) ← params depth
      suffixes depth (.func t list variadic)
    else return t

/-- The fields of a structure after its opening brace, with the closing brace. -/
def structBody : Nat → Parse (List Ty)
  | 0 => tooDeep
  | depth + 1 => do
    if ← eat .rbrace then return []
    else fields depth

/-- One or more fields, with the closing brace. -/
def fields : Nat → Parse (List Ty)
  | 0 => tooDeep
  | depth + 1 => do
    let field ← type depth
    if ← eat .comma then return field :: (← fields depth)
    expect .rbrace "struct type"
    return [field]

/-- A parameter list in parentheses, and whether more arguments may follow. -/
def params : Nat → Parse (List Ty × Bool)
  | 0 => tooDeep
  | depth + 1 => do
    expect .lparen "parameter list"
    if ← eat .rparen then return ([], false)
    else moreParams depth

/-- One or more entries of a parameter list, with the closing parenthesis. -/
def moreParams : Nat → Parse (List Ty × Bool)
  | 0 => tooDeep
  | depth + 1 => do
    if ← eat .ellipsis then
      expect .rparen "parameter list"
      return ([], true)
    let param ← type depth
    if ← eat .comma then
      let (list, variadic) ← moreParams depth
      return (param :: list, variadic)
    expect .rparen "parameter list"
    return ([param], false)

/-- The types and numbers after the name of a target type, with the closing
parenthesis. -/
def targetArguments : Nat → Parse (List Ty × List UInt32)
  | 0 => tooDeep
  | depth + 1 => do
    if ← eat .comma then
      match ← peek with
      | .integer _ =>
        let n ← expectUInt32 "target type parameter"
        let (types, ints) ← targetArguments depth
        return (types, n :: ints)
      | _ =>
        let t ← type depth
        let (types, ints) ← targetArguments depth
        return (t :: types, ints)
    else
      expect .rparen "target type"
      return ([], [])

end

/-- A depth that the tokens after the cursor cannot exhaust. -/
def depthFor (c : Cursor) : Nat :=
  4 * c.rest.length + 4

end TypeGrammar

/-- Reads a type with all its suffixes. -/
def parseType : Parse Ty := do
  TypeGrammar.type (TypeGrammar.depthFor (← get))

/-- Reads a parameter list in parentheses. -/
def parseParams : Parse (List Ty × Bool) := do
  TypeGrammar.params (TypeGrammar.depthFor (← get))

/-- The type that a whole text spells. -/
def Ty.parse (source : String) : Except ParseError Ty := do
  let tokens ← tokenize source
  Parse.runOn (do
    let t ← parseType
    unless (← get).atEnd do Parse.failExpecting "end of type"
    return t) tokens

end CallGuard.Ir
