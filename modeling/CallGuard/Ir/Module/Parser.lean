import CallGuard.Ir.Body.Block

/-!
Modules from text. Functions, named types, global names and the name of the
source file are read; every other top-level entity is moved over.

* `parseFunction`: a declaration or definition.
* `parseEntity`: one top-level entity, added to a module.
* `Module.parse`: the module that a text spells.
-/

namespace CallGuard.Ir

open Parse

/-! ### Function headers -/

/-- Reads one or more entries of a header's parameter list with the closing
parenthesis. Attributes and names after a type do not matter. The first argument
bounds the number of entries. -/
def parseHeaderParamsFrom : Nat → Parse (List Ty × Bool)
  | 0 => throw (.unexpectedEnd "parameter list")
  | bound + 1 => do
    if ← eat .ellipsis then
      expect .rparen "parameter list"
      return ([], true)
    let param ← parseType
    if ← parseListEnd "parameter list" then
      let (list, variadic) ← parseHeaderParamsFrom bound
      return (param :: list, variadic)
    else return ([param], false)

/-- Reads the parameter list of a header. -/
def parseHeaderParams : Parse (List Ty × Bool) := do
  expect .lparen "parameter list"
  if ← eat .rparen then return ([], false)
  else parseHeaderParamsFrom ((← get).rest.length + 1)

/-- Reads the name of a function. -/
def parseFunctionName : Parse String := do
  match ← advance with
  | .globalName name => return name
  | .eof => throw (.unexpectedEnd "function header")
  | token => throw (.unexpectedToken (← get).prevLine "function name" token.describe)

/-! ### Function bodies -/

/-- Whether a brace opens a body: nothing follows it on its line, or what follows
starts a block. Any other brace opens a constant. -/
def opensBody (brace : Located) (after : List Located) : Bool :=
  match after with
  | [] => true
  | next :: rest =>
    next.line != brace.line ||
      match next.token with
      | .label _ | .rbrace => true
      | .word opcode => isOpcode opcode
      | .localName _ => (rest.head?.map (·.token)) == some .equals
      | _ => false

/-- The step from a header to the brace that opens the body. The state is the
number of open brackets. -/
def headerStep : Nat → Located → List Located → Option Nat
  | 0, t, after =>
    if t.token = .lbrace ∧ opensBody t after then none
    else if t.token.opensGroup then some 1
    else some 0
  | depth + 1, t, _ =>
    if t.token.opensGroup then some (depth + 2)
    else if t.token.closesGroup then some depth
    else some (depth + 1)

/-- Moves to the body and over its opening brace. -/
def skipToBody : Parse Unit := do
  modify fun c => c.skipWhile headerStep 0
  if (← get).atEnd then throw (.unexpectedEnd "function body")
  let _ ← advance

/-- The step to the brace that closes a body; the state is the number of open
braces inside it. -/
def bodyStep : Nat → Located → List Located → Option Nat
  | 0, t, _ =>
    match t.token with
    | .lbrace => some 1
    | .rbrace => none
    | _ => some 0
  | depth + 1, t, _ =>
    match t.token with
    | .lbrace => some (depth + 2)
    | .rbrace => some depth
    | _ => some (depth + 1)

/-- Reads a body with its closing brace; `line` and `name` are those of the
function. -/
def parseBody (name : String) (line : Nat) : Parse (List Block) := do
  let (body, _) := Cursor.splitWhile bodyStep 0 (← get).rest
  modify fun c => c.skipWhile bodyStep 0
  if (← get).atEnd then throw (.unterminatedBody line name)
  let _ ← advance
  match Block.readAll body with
  | .ok blocks => return blocks
  | .error e => throw e

/-- Reads a function from its keyword on. -/
def parseFunction (isDefinition : Bool) : Parse Function := do
  let line := (← get).line
  let _ ← advance
  skipAttributes
  unless (← get).atType do
    if (← get).atEnd then throw (.unexpectedEnd "function header")
    else failExpecting "function return type"
  let ret ← parseType
  let name ← parseFunctionName
  let (params, variadic) ← parseHeaderParams
  let type : FunctionType := ⟨ret, params, variadic⟩
  if isDefinition then
    skipToBody
    let blocks ← parseBody name line
    return ⟨name, type, false, blocks, line⟩
  else
    skipEntity
    return ⟨name, type, true, [], line⟩

/-! ### Modules -/

/-- Reads the body of a named type; an opaque type has none. -/
def parseTypeBody : Parse (Option Ty) := do
  expectKeyword "type" "type definition"
  if ← eatKeyword "opaque" then return none
  else return some (← parseType)

/-- Reads a top-level entity into a module. -/
def parseEntity (m : Module) : Parse Module := do
  let cursor ← get
  let isAssignment := cursor.peekAt 1 == .equals
  match cursor.peek with
  | .word "source_filename" =>
    let _ ← advance
    expect .equals "source_filename"
    let name ← expectString "source_filename"
    return { m with sourceFilename := some name }
  | .word "define" =>
    let f ← parseFunction true
    return { m with functions := m.functions ++ [f] }
  | .word "declare" =>
    let f ← parseFunction false
    return { m with functions := m.functions ++ [f] }
  | .localName name =>
    let _ ← advance
    if isAssignment then
      let _ ← advance
      let body ← parseTypeBody
      return { m with namedTypes := m.namedTypes.insert name body }
    else
      skipEntity
      return m
  | .globalName name =>
    let _ ← advance
    skipEntity
    if isAssignment then return { m with globals := m.globals.insert name () }
    else return m
  | _ =>
    let _ ← advance
    skipEntity
    return m

/-- Reads the remaining entities into a module. The first argument bounds their
number. -/
def parseEntities : Nat → Module → Parse Module
  | 0, m => return m
  | bound + 1, m => do
    if (← get).atEnd then return m
    else parseEntities bound (← parseEntity m)

/-- The module that a text spells. Every entity has a token, so there are no more
entities than tokens. -/
def Module.parse (source : String) : Except ParseError Module := do
  let tokens ← tokenize source
  (parseEntities tokens.length {}).runOn tokens

end CallGuard.Ir
