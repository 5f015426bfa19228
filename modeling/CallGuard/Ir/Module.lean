import CallGuard.Ir.Ty
import CallGuard.OrderedMap

/-!
Modules: functions with their blocks and instructions. Of an instruction only
its opcode and result are kept, and of a call also what is called and through
which function type.

* `Module.find?`, `Module.definition`: looking up functions by name.
* `Function.callSites`, `Function.indirectCalls`: the calls of a function, in the
  order of its text.
-/

namespace CallGuard.Ir

/-- The instructions that call a function. -/
inductive CallKind where
  | call | invoke | callbr
  deriving DecidableEq, Repr

namespace CallKind

/-- The opcode of a kind of call. -/
def opcode : CallKind → String
  | call => "call"
  | invoke => "invoke"
  | callbr => "callbr"

/-- The kind of call that an opcode names. -/
def ofOpcode? (s : String) : Option CallKind :=
  [call, invoke, callbr].find? (·.opcode == s)

end CallKind

/-- What a call says about tail calls. -/
inductive TailMarker where
  | none | tail | mustTail | noTail
  deriving DecidableEq, Repr

namespace TailMarker

/-- The keyword of a marker; a call without marker has none. -/
def keyword : TailMarker → String
  | none => "none"
  | tail => "tail"
  | mustTail => "musttail"
  | noTail => "notail"

/-- The marker that a word is. -/
def ofWord? (s : String) : Option TailMarker :=
  [tail, mustTail, noTail].find? (·.keyword == s)

end TailMarker

/-- What a call calls. -/
inductive Callee where
  /-- A global symbol. -/
  | globalSymbol (name : String)
  /-- A local value. -/
  | localValue (name : String)
  /-- Inline assembly. -/
  | inlineAsm
  /-- Any other constant. -/
  | constant
  deriving DecidableEq, Repr

/-- A call. -/
structure CallSite where
  /-- The instruction. -/
  kind : CallKind
  /-- Its tail marker. -/
  tail : TailMarker
  /-- What is called. -/
  callee : Callee
  /-- The function type that the call is made through. -/
  type : FunctionType
  deriving DecidableEq

namespace CallSite

/-- Whether the call's target is not known before run time. Only local values are
not; symbols, constants and inline assembly are fixed. -/
def isIndirect (c : CallSite) : Bool :=
  match c.callee with
  | .localValue _ => true
  | _ => false

/-- The name of the symbol that is called. -/
def symbol? (c : CallSite) : Option String :=
  match c.callee with
  | .globalSymbol name => some name
  | _ => none

end CallSite

/-- An instruction. -/
structure Instruction where
  /-- The line it starts on. -/
  line : Nat
  /-- The opcode. -/
  opcode : String
  /-- The name of the result, if there is one. -/
  result : Option String
  /-- What is called, if the instruction is a call. -/
  call : Option CallSite
  deriving DecidableEq

/-- A basic block. -/
structure Block where
  /-- The label; the first block may have none. -/
  label : Option String
  /-- The instructions in order. -/
  instructions : List Instruction
  deriving DecidableEq

/-- A function. -/
structure Function where
  /-- The name without sigil and quotes. -/
  name : String
  /-- The type. -/
  type : FunctionType
  /-- Whether the function is only declared. -/
  isDeclaration : Bool
  /-- The blocks in order; a declaration has none. -/
  blocks : List Block
  /-- The line it starts on. -/
  line : Nat
  deriving DecidableEq

namespace Function

/-- All instructions in order. -/
def instructions (f : Function) : List Instruction :=
  f.blocks.flatMap (·.instructions)

/-- All calls in order. -/
def callSites (f : Function) : List CallSite :=
  f.instructions.filterMap (·.call)

/-- The calls whose target is not known before run time, in order. -/
def indirectCalls (f : Function) : List CallSite :=
  f.callSites.filter (·.isIndirect)

end Function

/-- A module. -/
structure Module where
  /-- The name of the file that it was made from. -/
  sourceFilename : Option String := none
  /-- The named types; one without body is `none`. -/
  namedTypes : OrderedMap (Option Ty) := .empty
  /-- The names of the global variables and aliases. -/
  globals : OrderedMap Unit := .empty
  /-- The functions in order. -/
  functions : List Function := []
  deriving DecidableEq

/-- Why a module has no definition of a function. -/
inductive LookupError where
  /-- There is no such function. -/
  | notFound (name : String)
  /-- The function is only declared. -/
  | notDefined (name : String)
  deriving DecidableEq, Repr

/-- The wording of an error. -/
def LookupError.message : LookupError → String
  | notFound name => s!"function not found: {name}"
  | notDefined name => s!"function {name} is a declaration"

namespace Module

/-- The first function of a name. -/
def find? (m : Module) (name : String) : Option Function :=
  m.functions.find? (·.name == name)

/-- The first function of a name, if it is defined. -/
def definition (m : Module) (name : String) : Except LookupError Function :=
  match m.find? name with
  | none => .error (.notFound name)
  | some f => if f.isDeclaration then .error (.notDefined name) else .ok f

/-- The functions that are defined, in order. -/
def definitions (m : Module) : List Function :=
  m.functions.filter (!·.isDeclaration)

/-- The named types in the order of their names. -/
def sortedTypes (m : Module) : List (String × Option Ty) :=
  m.namedTypes.entries.mergeSort (fun a b => a.1 ≤ b.1)

/-- The global names in their order. -/
def sortedGlobals (m : Module) : List String :=
  m.globals.keys.mergeSort (· ≤ ·)

end Module

end CallGuard.Ir
