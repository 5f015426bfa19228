import CallGuard.Ir.Module.Parser
import CallGuard.Proofs.Ir.Listing.Lines
import CallGuard.Proofs.Ir.Ty.Misread
import CallGuard.Report

/-!
Modules as they are written: a list of declarations, definitions and other entities, each
from a new line on.

* `Listing.Call`, `Listing.Instruction`, `Listing.Body`, `Listing.Header`: the parts of
  functions.
* `Listing.Other`: an entity that is moved over.
* `Listing.Entity`: one top-level entity.
* `Listing.text`, `Listing.contents`: the text of a module, and what it stands for.
-/

namespace CallGuard.Ir

namespace Listing

/-! ### Calls -/

/-- What a call calls, as it is written. -/
inductive Target where
  /-- A global symbol. -/
  | symbol (name : String)
  /-- A local value. -/
  | value (name : String)
  /-- Inline assembly. -/
  | assembly (template constraints : String)
  /-- A constant that is one keyword. -/
  | constant (keyword : String) (isConstant : keyword ∈ constantKeywords)

namespace Target

/-- What is called. -/
def callee : Target → Callee
  | symbol name => .globalSymbol name
  | value name => .localValue name
  | assembly _ _ => .inlineAsm
  | constant _ _ => .constant

/-- The characters of what is called. -/
def print : Target → List Char
  | symbol name => '@' :: Name.print name.toList
  | value name => '%' :: Name.print name.toList
  | assembly template constraints =>
    "asm".toList ++ ' ' :: (Name.printQuoted template.toList ++
      ',' :: ' ' :: Name.printQuoted constraints.toList)
  | constant keyword _ => keyword.toList

end Target

/-- A call. Either the whole function type is written, or only the return type. -/
structure Call where
  /-- The instruction. -/
  kind : CallKind
  /-- Its tail marker. -/
  tail : TailMarker
  /-- What is called. -/
  target : Target
  /-- The function type that the call is made through. -/
  type : FunctionType
  /-- The types of the arguments, and the names of their values. -/
  arguments : List (Ty × String)
  /-- Whether the whole function type is written. -/
  isFull : Bool
  /-- The function type is not written like another one. -/
  readable : type.toTy.Readable
  /-- Neither are the types of the arguments. -/
  readable_arguments : ∀ a ∈ arguments, a.1.Readable
  /-- Where only the return type is written, the arguments say the rest. -/
  short : isFull = false → type.variadic = false ∧ type.params = arguments.map Prod.fst ∧
    type.ret.asFunction? = none

/-- The characters of an argument. -/
def printArgument (a : Ty × String) : List Char :=
  a.1.print ++ ' ' :: '%' :: Name.print a.2.toList

/-- The characters of further arguments with the closing parenthesis. -/
def printMoreArguments : List (Ty × String) → List Char
  | [] => [')']
  | a :: as => ',' :: ' ' :: (printArgument a ++ printMoreArguments as)

/-- The characters of arguments with the closing parenthesis. -/
def printArguments : List (Ty × String) → List Char
  | [] => [')']
  | a :: as => printArgument a ++ printMoreArguments as

namespace Call

/-- The type that is written. -/
def written (c : Call) : Ty :=
  if c.isFull then c.type.toTy else c.type.ret

/-- The characters of a call. -/
def print (c : Call) : List Char :=
  (if c.tail = .none then [] else c.tail.keyword.toList ++ [' ']) ++ (c.kind.opcode.toList ++
    ' ' :: (c.written.print ++ ' ' :: (c.target.print ++ '(' :: printArguments c.arguments)))

/-- The call that is written. -/
def site (c : Call) : CallSite :=
  ⟨c.kind, c.tail, c.target.callee, c.type⟩

end Call

/-! ### Instructions -/

/-- The opcodes that are written without operands here. -/
def IsPlain (opcode : String) : Prop :=
  opcode ∈ opcodes ∧ CallKind.ofOpcode? opcode = none ∧ TailMarker.ofWord? opcode = none

/-- What an instruction does. -/
inductive Operation where
  /-- Anything but a call. -/
  | plain (opcode : String) (isPlain : IsPlain opcode)
  /-- A call. -/
  | call (call : Call)

/-- The characters of an operation. -/
def Operation.print : Operation → List Char
  | plain opcode _ => opcode.toList
  | call c => c.print

/-- An instruction. -/
structure Instruction where
  /-- The name of the result, if there is one. -/
  result : Option String
  /-- What it does. -/
  operation : Operation

namespace Instruction

/-- The characters of the name of a result and of its equals sign. -/
def printResult : Option String → List Char
  | none => []
  | some name => '%' :: (Name.print name.toList ++ [' ', '=', ' '])

/-- The characters of an instruction. -/
def print (i : Instruction) : List Char :=
  printResult i.result ++ i.operation.print

/-- The instruction that is written, on the given line. -/
def onLine (i : Instruction) (line : Nat) : Ir.Instruction :=
  match i.operation with
  | .plain opcode _ => ⟨line, opcode, i.result, none⟩
  | .call c => ⟨line, c.kind.opcode, i.result, some c.site⟩

/-- The signature of a call of a local value. -/
def indirect? (i : Instruction) : Option Signature :=
  match i.operation with
  | .plain _ _ => none
  | .call c =>
    match c.target with
    | .value _ => some (.ofType c.type)
    | _ => none

end Instruction

/-- Instructions on lines that follow each other. -/
def instructionsAt : Nat → List Instruction → List Ir.Instruction
  | _, [] => []
  | line, i :: is => i.onLine line :: instructionsAt (line + 1) is

/-! ### Functions -/

/-- The body of a function: the instructions of the block without label, and the blocks with
labels. -/
structure Body where
  /-- The instructions before the first label. -/
  first : List Instruction
  /-- The blocks with their labels. -/
  blocks : List (String × List Instruction)

/-- Blocks on lines that follow each other, each with its label on a line of its own. -/
def blocksAt : Nat → List (String × List Instruction) → List Block
  | _, [] => []
  | line, (label, is) :: bs =>
    ⟨some label, instructionsAt (line + 1) is⟩ :: blocksAt (line + 1 + is.length) bs

namespace Body

/-- The labels and instructions in order. -/
def items (b : Body) : List (BodyItem Instruction) :=
  b.first.map .instruction ++
    b.blocks.flatMap fun block => .label block.1 :: block.2.map .instruction

/-- All instructions in order. -/
def instructions (b : Body) : List Instruction :=
  b.first ++ b.blocks.flatMap Prod.snd

/-- The blocks of a body that starts on the given line. There is a block without label only if
it has an instruction. -/
def blocksAt (b : Body) (line : Nat) : List Block :=
  match b.first with
  | [] => Listing.blocksAt line b.blocks
  | i :: is =>
    ⟨none, instructionsAt line (i :: is)⟩ :: Listing.blocksAt (line + (i :: is).length) b.blocks

end Body

/-- The characters of a line of a body. -/
def printItem (indent : Nat) : BodyItem Instruction → List Char
  | .label name => Name.printQuoted name.toList ++ [':']
  | .instruction i => List.replicate indent ' ' ++ i.print

/-- Name and type of a function. -/
structure Header where
  /-- The name. -/
  name : String
  /-- The type. -/
  type : FunctionType
  /-- The type is not written like another one. -/
  readable : type.toTy.Readable

/-- The characters of a header. -/
def Header.print (h : Header) : List Char :=
  h.type.ret.print ++ ' ' :: '@' :: (Name.print h.name.toList ++
    '(' :: Ty.printParams h.type.params h.type.variadic)

/-! ### Entities -/

/-- With the number `depth` of brackets open, the brackets of the tokens are closed behind
them, and what stands outside of all brackets is on the given line. -/
def IsBalanced (line : Nat) : Nat → List Located → Prop
  | depth, [] => depth = 0
  | depth, t :: ts =>
    (depth = 0 → t.line = line) ∧
      match t.token with
      | .lparen | .lbracket | .lbrace => IsBalanced line (depth + 1) ts
      | .rparen | .rbracket | .rbrace => 0 < depth ∧ IsBalanced line (depth - 1) ts
      | _ => IsBalanced line depth ts

/-- An entity that is neither a function, nor a named type, nor the name of the source file.
It is on one line, but for what stands in brackets. -/
structure Other where
  /-- The text. -/
  text : String
  /-- The first token. -/
  first : Located
  /-- The tokens behind it. -/
  later : List Located
  /-- The end marker. -/
  last : Located
  /-- These are the tokens of the text. -/
  tokens : tokenize text = .ok (first :: (later ++ [last]))
  /-- No other kind of entity starts with this token. -/
  not_keyword : first.token ≠ .word "define" ∧ first.token ≠ .word "declare" ∧
    first.token ≠ .word "source_filename"
  /-- The tokens behind the first one are balanced. -/
  balanced : IsBalanced first.line 0 later

/-- One top-level entity. -/
inductive Entity where
  /-- A declaration. -/
  | declaration (header : Header)
  /-- A definition. -/
  | definition (header : Header) (body : Body)
  /-- Any other entity. -/
  | other (other : Other)

namespace Entity

/-- The characters of an entity, with the end of its last line. -/
def print (indent : Nat) : Entity → List Char
  | declaration h => "declare".toList ++ ' ' :: (h.print ++ ['\n'])
  | definition h b =>
    "define".toList ++ ' ' :: (h.print ++ ' ' :: '\x7b' :: '\n' ::
      (b.items.flatMap (fun item => printItem indent item ++ ['\n']) ++ ['\x7d', '\n']))
  | other o => o.text.toList ++ ['\n']

/-- The first token of an entity. -/
def first : Entity → Token
  | declaration _ => .word "declare"
  | definition _ _ => .word "define"
  | other o => o.first.token

end Entity

/-- Whether an equals sign follows the first token of an entity before other entities. -/
def Other.isAssigned (o : Other) (es : List Entity) : Bool :=
  (o.later.map Located.token ++ es.map Entity.first).head? == some .equals

/-- No entity is a named type: an equals sign follows no local name. -/
def HasNoNamedType : List Entity → Prop
  | [] => True
  | .other o :: es =>
    (∀ name, o.first.token = .localName name → o.isAssigned es = false) ∧ HasNoNamedType es
  | _ :: es => HasNoNamedType es

namespace Entity

/-- The module with the entity, which starts on the given line before other entities. -/
def add (line : Nat) (es : List Entity) (m : Module) : Entity → Module
  | declaration h => { m with functions := m.functions ++ [⟨h.name, h.type, true, [], line⟩] }
  | definition h b =>
    { m with functions :=
        m.functions ++ [⟨h.name, h.type, false, b.blocksAt (line + 1), line⟩] }
  | other o =>
    match o.first.token with
    | .globalName name =>
      if o.isAssigned es then { m with globals := m.globals.insert name () } else m
    | _ => m

/-- What a report says about the entity: a record for each definition, with the signatures of
its indirect calls. -/
def record? : Entity → Option (String × Record)
  | definition h b => some (h.name, ⟨.ofType h.type, b.instructions.filterMap (·.indirect?)⟩)
  | _ => none

end Entity

/-- The text of entities. -/
def text (indent : Nat) (es : List Entity) : String :=
  String.ofList (es.flatMap (·.print indent))

/-- The module with the entities, which start on the given line. -/
def addFrom (indent : Nat) : Nat → Module → List Entity → Module
  | _, m, [] => m
  | line, m, e :: es => addFrom indent (line + (e.print indent).count '\n') (e.add line es m) es

/-- The module that entities make up. -/
def contents (indent : Nat) (es : List Entity) : Module :=
  addFrom indent 1 {} es

end Listing

end CallGuard.Ir
