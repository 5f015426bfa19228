import CallGuard.Ir.Module
import CallGuard.Ir.Ty.Parser

/-!
Instructions. Only calls are read in full; of any other instruction the tokens
after the opcode do not matter.

* `opcodes`, `isOpcode`: the words that start an instruction.
* `parseInstruction`: an instruction from its tokens.
* `Instruction.read`: the same, from a list of tokens.
-/

namespace CallGuard.Ir

/-- The words that start an instruction: opcodes and tail markers. -/
def opcodes : List String := [
  "ret", "br", "switch", "indirectbr", "invoke", "resume", "unreachable", "cleanupret",
  "catchret", "catchswitch", "callbr",
  "fneg", "add", "fadd", "sub", "fsub", "mul", "fmul", "udiv", "sdiv", "fdiv", "urem", "srem",
  "frem", "shl", "lshr", "ashr", "and", "or", "xor",
  "extractelement", "insertelement", "shufflevector", "extractvalue", "insertvalue",
  "alloca", "load", "store", "fence", "cmpxchg", "atomicrmw", "getelementptr",
  "trunc", "zext", "sext", "fptrunc", "fpext", "fptoui", "fptosi", "uitofp", "sitofp",
  "ptrtoint", "inttoptr", "bitcast", "addrspacecast",
  "icmp", "fcmp", "phi", "select", "freeze", "call", "tail", "musttail", "notail", "va_arg",
  "landingpad", "catchpad", "cleanuppad"]

/-- Whether a word starts an instruction. -/
def isOpcode (s : String) : Bool :=
  opcodes.contains s

/-- The constants that are one keyword. -/
def constantKeywords : List String :=
  ["null", "undef", "poison", "none", "zeroinitializer", "true", "false"]

/-- Whether tokens start an instruction: with a result or with an opcode. -/
def startsInstruction (tokens : List Located) : Bool :=
  match tokens with
  | t :: rest =>
    match t.token with
    | .localName _ => (rest.head?.map (·.token)) == some .equals
    | .word opcode => isOpcode opcode
    | _ => false
  | [] => false

open Parse

/-! ### Attributes before a type -/

/-- The state of moving over attributes. -/
inductive AttributeState where
  /-- Outside all groups. -/
  | plain
  /-- After a word, which a group may follow. -/
  | afterWord
  /-- Inside a group, with the number of open brackets. -/
  | inGroup (depth : Nat)

/-- The step over attributes: words, each with a group in parentheses or without
one, integers and attribute groups, up to the start of a type. -/
def attributeStep (state : AttributeState) (t : Located) (after : List Located) :
    Option AttributeState :=
  match state, t.token with
  | .inGroup (depth + 1), token =>
    if token.opensGroup then some (.inGroup (depth + 2))
    else if token.closesGroup then
      match depth with
      | 0 => some .plain
      | _ + 1 => some (.inGroup depth)
    else some (.inGroup (depth + 1))
  | .afterWord, .lparen => some (.inGroup 1)
  | _, token =>
    if (Cursor.ofTokens (t :: after)).atType then none
    else
      match token with
      | .word _ => some .afterWord
      | .integer _ | .hash _ => some .plain
      | _ => none

/-- Moves over attributes to the start of a type. -/
def skipAttributes : Parse Unit :=
  modify fun c => c.skipWhile attributeStep .plain

/-! ### Calls -/

/-- Reads what a call calls. -/
def parseCallee : Parse Callee := do
  let line := (← get).line
  match ← advance with
  | .globalName name => return .globalSymbol name
  | .localName name => return .localValue name
  | .word word =>
    if word = "asm" then
      modify Cursor.skipWords
      let _ ← expectString "inline asm string"
      expect .comma "inline asm"
      let _ ← expectString "inline asm constraints"
      return .inlineAsm
    unless constantKeywords.contains word do
      -- a constant expression, or a symbol behind words
      modify Cursor.skipWords
      match ← peek with
      | .globalName _ =>
        let _ ← advance
      | _ => skipGroup
    return .constant
  | .eof => throw (.unexpectedEnd "call target")
  | token => throw (.unexpectedToken line "call target" token.describe)

/-- Reads what follows a type in an argument or parameter list up to the next
entry, and says whether there is one. -/
def parseListEnd (context : String) : Parse Bool := do
  skipToDelimiter
  let line := (← get).line
  match ← advance with
  | .comma => return true
  | .rparen => return false
  | .eof => throw (.unexpectedEnd context)
  | token => throw (.unexpectedToken line s!"',' or ')' in {context}" token.describe)

/-- Reads one or more arguments with the closing parenthesis, for their types. The
first argument bounds their number. -/
def parseArgumentsFrom : Nat → Parse (List Ty)
  | 0 => throw (.unexpectedEnd "call arguments")
  | bound + 1 => do
    let t ← parseType
    if ← parseListEnd "call arguments" then return t :: (← parseArgumentsFrom bound)
    else return [t]

/-- Reads the arguments of a call in their parentheses, for their types. -/
def parseArguments : Parse (List Ty) := do
  expect .lparen "call arguments"
  if ← eat .rparen then return []
  else parseArgumentsFrom ((← get).rest.length + 1)

/-- Reads a call after its opcode. If the written type is no function type it is
the type of the result, and the arguments give the parameters. -/
def parseCall (kind : CallKind) (marker : TailMarker) : Parse CallSite := do
  skipAttributes
  unless (← get).atType do failExpecting "call return type"
  let t ← parseType
  let callee ← parseCallee
  let arguments ← parseArguments
  let type := match t.asFunction? with
    | some f => f
    | none => ⟨t, arguments, false⟩
  return ⟨kind, marker, callee, type⟩

/-! ### Instructions -/

/-- Reads the name of a result with its equals sign, if there is one. -/
def parseResult : Parse (Option String) := do
  let cursor ← get
  match cursor.peek with
  | .localName name =>
    if cursor.peekAt 1 = .equals then
      let _ ← advance
      let _ ← advance
      return some name
    else return none
  | _ => return none

/-- Reads a tail marker, if there is one. -/
def parseTail : Parse TailMarker := do
  match (← peek).word?.bind TailMarker.ofWord? with
  | some marker =>
    let _ ← advance
    return marker
  | none => return .none

/-- Reads an instruction. -/
def parseInstruction : Parse Instruction := do
  let line := (← get).line
  let result ← parseResult
  let marker ← parseTail
  let opcode ← expectWord "instruction opcode"
  match CallKind.ofOpcode? opcode with
  | some kind => return ⟨line, opcode, result, some (← parseCall kind marker)⟩
  | none => return ⟨line, opcode, result, none⟩

/-- The instruction that tokens spell. -/
def Instruction.read (tokens : List Located) : Except ParseError Instruction :=
  parseInstruction.runOn tokens

end CallGuard.Ir
