import CallGuard.Text.Numeral

/-!
The instructions that a range check is made of.

* `Instruction`: the instructions, on numbers of 32 bits.
* `Instruction.text`: how an instruction is written.
* `sequenceText`: how instructions are written one below the other.
-/

namespace CallGuard.Wat

/-- An instruction. -/
inductive Instruction where
  /-- Pushes a number. -/
  | const (value : UInt32)
  /-- Takes the top number from the one below it. -/
  | sub
  /-- Multiplies the two top numbers. -/
  | mul
  /-- Loads the number at the top address plus an offset. -/
  | load (offset : UInt32)
  /-- Pushes the value of a global. -/
  | globalGet (index : Nat)
  /-- Pops a number into a global. -/
  | globalSet (index : Nat)
  /-- Calls a function by its name. -/
  | call (name : List Char)
  /-- Calls the function at the top index of the table. -/
  | callIndirect
  deriving DecidableEq, Repr

/-- How an instruction is written. -/
def Instruction.text : Instruction → List Char
  | const value => "i32.const ".toList ++ Text.decimal value.toNat
  | sub => "i32.sub".toList
  | mul => "i32.mul".toList
  | load offset => "i32.load offset=".toList ++ Text.decimal offset.toNat
  | globalGet index => "global.get ".toList ++ Text.decimal index
  | globalSet index => "global.set ".toList ++ Text.decimal index
  | call name => "call $".toList ++ name
  | callIndirect => "call_indirect".toList

/-- Instructions one below the other. The first stands where the text is put, and
the others on lines of their own after an indent. -/
def sequenceText (indent : List Char) : List Instruction → List Char
  | [] => []
  | [i] => i.text
  | i :: is => i.text ++ '\n' :: indent ++ sequenceText indent is

end CallGuard.Wat
