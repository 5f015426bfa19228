import CallGuard.Text.Utf8

/-!
Replacing parts of a text.

* `Edit`: the bytes to replace, and what replaces them.
* `splice`: a text after edits. They are applied from left to right, and one that
  starts inside an earlier one is left out.
-/

namespace CallGuard.Wat

/-- Bytes of a text and what replaces them. -/
structure Edit where
  /-- The offset of the first byte. -/
  start : Nat
  /-- The offset after the last byte. -/
  stop : Nat
  /-- What replaces them. -/
  replacement : List Char
  deriving DecidableEq, Repr

/-- The text from the byte `pos` on after edits, which are sorted by their starts. -/
def spliceFrom (text : List Char) (pos : Nat) : List Edit → List Char
  | [] => Text.dropBytes pos text
  | e :: es =>
    if e.start < pos then spliceFrom text pos es
    else Text.sliceBytes text pos e.start ++ e.replacement ++ spliceFrom text e.stop es

/-- A text after edits. Of two edits with the same start the earlier comes first. -/
def splice (text : List Char) (edits : List Edit) : List Char :=
  spliceFrom text 0 (edits.mergeSort fun a b => a.start ≤ b.start)

end CallGuard.Wat
