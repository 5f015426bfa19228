import CallGuard.Ir.Body.Instruction

/-!
The blocks of a function body. A body is cut into lines. A line that starts with
a label opens a block, a line that starts an instruction opens an instruction,
and any other line belongs to the instruction before it, if there is one.

* `BodyItem`, `bodyItems`: the labels and instructions of a body, as tokens.
* `Block.group`: blocks from labels and instructions.
* `Block.readAll`: the blocks that tokens spell.
-/

namespace CallGuard.Ir

/-- A label, or what stands for an instruction. -/
inductive BodyItem (α : Type) where
  /-- The label of a block. -/
  | label (name : String)
  /-- An instruction. -/
  | instruction (content : α)
  deriving DecidableEq

/-- Tokens in runs of one line each. -/
def tokenLines (tokens : List Located) : List (List Located) :=
  tokens.splitBy (fun a b => a.line == b.line)

/-- Adds a line before the items of the later lines. The first part holds the
tokens of lines that still look for their instruction. -/
def addLine (line : List Located)
    (later : List Located × List (BodyItem (List Located))) :
    List Located × List (BodyItem (List Located)) :=
  match line with
  | [] => later
  | t :: rest =>
    match t.token with
    | .label name =>
      if rest.isEmpty then ([], .label name :: later.2)
      else ([], .label name :: .instruction (rest ++ later.1) :: later.2)
    | _ =>
      if startsInstruction line then ([], .instruction (line ++ later.1) :: later.2)
      else (line ++ later.1, later.2)

/-- The labels and instructions of a body. Lines before the first label and
instruction, or after a label that stands alone, belong to nothing. -/
def bodyItems (tokens : List Located) : List (BodyItem (List Located)) :=
  ((tokenLines tokens).foldr addLine ([], [])).2

/-- Reads the instruction of an item. -/
def BodyItem.read : BodyItem (List Located) → Except ParseError (BodyItem Instruction)
  | .label name => .ok (.label name)
  | .instruction tokens => (Instruction.read tokens).map .instruction

/-- Adds an item before the blocks of the later items. The first part holds the
instructions that still look for their block. -/
def addItem (item : BodyItem Instruction) (later : List Instruction × List Block) :
    List Instruction × List Block :=
  match item with
  | .label name => ([], ⟨some name, later.1⟩ :: later.2)
  | .instruction i => (i :: later.1, later.2)

/-- The blocks of labels and instructions. Instructions before the first label
make up a block without label. -/
def Block.group (items : List (BodyItem Instruction)) : List Block :=
  let (first, blocks) := items.foldr addItem ([], [])
  if first.isEmpty then blocks else ⟨none, first⟩ :: blocks

/-- The blocks that the tokens of a body spell. -/
def Block.readAll (tokens : List Located) : Except ParseError (List Block) := do
  let items ← (bodyItems tokens).mapM BodyItem.read
  return Block.group items

end CallGuard.Ir
