import CallGuard.Text.Blank
import CallGuard.Wat.Token

/-!
The structure of a module in WebAssembly text, as far as it is needed to find the
table of functions, the indirect calls, the globals and the data.

* `Form`, `forms?`: the parenthesised forms, by the positions of their tokens.
* `Module.parse?`: the fields of a module.
* `Module.children`: the tokens directly inside a form.
* `Module.elemSegment?`, `Module.functions`, `Module.globalCount`,
  `Module.lastData?`: what is found in the fields.
* `isInstrumented`: whether the last line of a text is a global.
-/

namespace CallGuard.Wat

/-- A parenthesised form. -/
structure Form where
  /-- The position of the opening parenthesis among the tokens. -/
  opening : Nat
  /-- The position of the closing parenthesis. -/
  closing : Nat
  /-- The number of forms around it. -/
  depth : Nat
  deriving DecidableEq, Repr

/-- The forms that end among tokens, of which the first has a position. The stack
holds the positions of the parentheses that are open. -/
def formsFrom : Nat → List Nat → List Token → Option (List Form)
  | _, [], [] => some []
  | _, _ :: _, [] => none
  | position, stack, t :: ts =>
    match t.kind, stack with
    | .opening, stack => formsFrom (position + 1) (position :: stack) ts
    | .closing, [] => none
    | .closing, opening :: stack =>
      (formsFrom (position + 1) stack ts).map (⟨opening, position, stack.length⟩ :: ·)
    | _, stack => formsFrom (position + 1) stack ts

/-- The forms of tokens in the order of their starts, if parentheses match. -/
def forms? (tokens : List Token) : Option (List Form) :=
  (formsFrom 0 [] tokens).map fun forms => forms.mergeSort fun a b => a.opening ≤ b.opening

/-- The name of a form: the atom after its opening parenthesis. -/
def head? (tokens : List Token) (form : Form) : Option (List Char) :=
  (tokens[form.opening + 1]?.filter (·.kind == .atom)).map (·.text)

/-- The position of the parenthesis that closes the given number of open ones,
among tokens of which the first has a position. -/
def closeFrom : Nat → Nat → List Token → Option Nat
  | _, _, [] => none
  | position, depth, t :: ts =>
    match t.kind, depth with
    | .opening, depth => closeFrom (position + 1) (depth + 1) ts
    | .closing, 0 => none
    | .closing, 1 => some position
    | .closing, depth + 1 => closeFrom (position + 1) depth ts
    | _, depth => closeFrom (position + 1) depth ts

/-- The tokens outside all forms among the given ones; of a form only its opening
parenthesis is kept. The first argument is the number of open forms. -/
def outermost : Nat → List (Token × Nat) → List (Token × Nat)
  | _, [] => []
  | depth, t :: ts =>
    match t.1.kind, depth with
    | .opening, 0 => t :: outermost 1 ts
    | .opening, depth => outermost (depth + 1) ts
    | .closing, depth => outermost (depth - 1) ts
    | _, 0 => t :: outermost 0 ts
    | _, depth => outermost depth ts

/-- The function list of an element segment. -/
structure ElemSegment where
  /-- The function references as they are written. -/
  functions : List (List Char)
  /-- The offset of the first byte of the list. -/
  start : Nat
  /-- The offset after its last byte. -/
  stop : Nat
  deriving DecidableEq, Repr

/-- An indirect call in the body of a function. -/
structure IndirectCall where
  /-- The offset of the first byte of its keyword. -/
  start : Nat
  /-- The offset after the keyword. -/
  stop : Nat
  /-- Whether it is the head of a form. -/
  folded : Bool
  /-- The blanks at the start of its line. -/
  indent : List Char
  deriving DecidableEq, Repr

/-- A function with its indirect calls. -/
structure FunctionField where
  /-- The name without its sigil, if it has one. -/
  name : Option (List Char)
  /-- The indirect calls, in order. -/
  calls : List IndirectCall
  deriving DecidableEq, Repr

/-- A module. -/
structure Module where
  /-- The text. -/
  text : List Char
  /-- The tokens. -/
  tokens : List Token
  /-- The fields, in order. -/
  fields : List Form
  /-- The offset of the parenthesis that closes the module, if one is written
  around the fields. -/
  close : Option Nat
  deriving DecidableEq, Repr

namespace Module

/-- The module of a text, if its parentheses match. The fields are the forms inside
the first outermost form named `module`, or the outermost ones without it. -/
def parse? (text : List Char) : Option Module := do
  let tokens := Wat.tokens text
  let forms ← forms? tokens
  let wrapper := forms.find? fun f => f.depth == 0 && head? tokens f == some "module".toList
  let depth := if wrapper.isSome then 1 else 0
  let close := wrapper.bind fun f => tokens[f.closing]?.map (·.start)
  return ⟨text, tokens, forms.filter (·.depth == depth), close⟩

/-- The fields of a name. -/
def fieldsNamed (m : Module) (name : String) : List Form :=
  m.fields.filter fun f => head? m.tokens f == some name.toList

/-- The tokens inside a form, with their positions. -/
def inside (m : Module) (form : Form) : List (Token × Nat) :=
  (m.tokens.zipIdx.take form.closing).drop (form.opening + 1)

/-- The tokens directly inside a form, with their positions. A form among them is
given by its opening parenthesis. -/
def children (m : Module) (form : Form) : List (Token × Nat) :=
  outermost 0 (m.inside form)

/-- The position of the parenthesis that closes the one at a position. -/
def closeOf (m : Module) (opening : Nat) : Nat :=
  (closeFrom opening 0 (m.tokens.drop opening)).getD opening

/-! ### The table -/

/-- What introduces the function list of an element segment, and what follows it:
the word for functions, or else the last form. -/
def listStart? (children : List (Token × Nat)) :
    Option ((Token × Nat) × List (Token × Nat)) :=
  match children.dropWhile (!·.1.isAtom "func") with
  | start :: after => some (start, after)
  | [] =>
    let later := children.reverse.takeWhile (·.1.kind != .opening)
    match children.reverse.dropWhile (·.1.kind != .opening) with
    | start :: _ => some (start, later.reverse)
    | [] => none

/-- The function list of the first element segment. An empty list stands right
after what introduces it. -/
def elemSegment? (m : Module) : Option ElemSegment := do
  let elem ← (m.fieldsNamed "elem").head?
  let ((start, position), after) ← listStart? (m.children elem)
  let refs := (after.map (·.1)).takeWhile (·.kind == .atom)
  match refs.head?, refs.getLast? with
  | some first, some last => return ⟨refs.map (·.text), first.start, last.stop⟩
  | _, _ =>
    let stop := if start.kind = .opening then
        (m.tokens[m.closeOf position]?.map (·.stop)).getD start.stop
      else start.stop
    return ⟨[], stop, stop⟩

/-! ### Functions -/

/-- The blanks at the start of the line of an offset, as far as they lie before it. -/
def indentAt (m : Module) (offset : Nat) : List Char :=
  let line := ((Text.takeBytes offset m.text).reverse.takeWhile (· != '\n')).reverse
  line.takeWhile fun c => c == ' ' || c == '\t'

/-- The name of a function, if it has one. -/
def functionName? (m : Module) (form : Form) : Option (List Char) := do
  let t ← m.tokens[form.opening + 2]?
  match t.kind, t.text with
  | .atom, '$' :: name => some name
  | _, _ => none

/-- The indirect calls among tokens; `previous` is the token before them. -/
def indirectCalls (m : Module) (previous : Token) : List Token → List IndirectCall
  | [] => []
  | t :: ts =>
    if t.isAtom "call_indirect" then
      ⟨t.start, t.stop, previous.kind == .opening, m.indentAt t.start⟩ :: m.indirectCalls t ts
    else m.indirectCalls t ts

/-- The functions with their indirect calls, in order. -/
def functions (m : Module) : List FunctionField :=
  (m.fieldsNamed "func").map fun form =>
    let calls := match (m.inside form).map (·.1) with
      | word :: ts => m.indirectCalls word ts
      | [] => []
    ⟨m.functionName? form, calls⟩

/-! ### Globals, imports and data -/

/-- The tokens from each form on that lies directly inside a form. -/
def nestedForms (m : Module) (form : Form) : List (List Token) :=
  ((m.children form).filter (·.1.kind == .opening)).map fun c => m.tokens.drop c.2

/-- The number of globals, imported ones included. -/
def globalCount (m : Module) : Nat :=
  let isGlobal (ts : List Token) : Bool := (ts[1]?.map (·.isAtom "global")).getD false
  (m.fieldsNamed "global").length +
    ((m.fieldsNamed "import").filter fun f => (m.nestedForms f).any isGlobal).length

/-- Whether a function of a name is defined or imported. -/
def hasFunction (m : Module) (name : String) : Bool :=
  let sigil := '$' :: name.toList
  let isNamed (ts : List Token) : Bool :=
    (ts[1]?.map (·.text)) == some "func".toList && (ts[2]?.map (·.text)) == some sigil
  ((m.fieldsNamed "func").any fun f =>
    (m.tokens[f.opening + 2]?.map fun t => t.kind == .atom && t.text == sigil).getD false) ||
    (m.fieldsNamed "import").any fun f => (m.nestedForms f).any isNamed

/-- The first string of the last data segment. -/
def lastData? (m : Module) : Option Token := do
  let data ← (m.fieldsNamed "data").getLast?
  ((m.children data).map (·.1)).find? (·.kind == .string)

/-- The offset at which new fields are inserted. -/
def insertPoint (m : Module) : Nat :=
  m.close.getD (Text.byteLength m.text)

end Module

/-- Whether the last line of a text that is not blank starts a global. -/
def isInstrumented (text : List Char) : Bool :=
  match (Text.lines text).reverse.find? (fun line => !(Text.trim line).isEmpty) with
  | some line => "(global".toList.isPrefixOf (Text.trimStart line)
  | none => false

end CallGuard.Wat
