/-!
Outlets. A text that is written in pieces may be kept back until there is enough of
it, so that several writers to one place take turns only then.

* `Outlet`: what is kept back, and how much may be.
* `Outlet.write`: writes a piece, and says what leaves.
* `Outlet.writeAll`: writes pieces, and may let all leave at their end.
-/

namespace CallGuard

/-- Keeps back what is written, up to a number of bytes. -/
structure Outlet where
  /-- The largest number of bytes that are kept back. -/
  capacity : Nat := 0
  /-- What is kept back. -/
  kept : String := ""
  deriving DecidableEq, Repr

namespace Outlet

/-- The capacity of an outlet to a file. -/
def fileCapacity : Nat := 8192

/-- Writes a piece: the outlet after it, and what leaves. A piece that does not fit
lets what is before it leave, and one that could never be kept leaves as well. -/
def write (o : Outlet) (piece : String) : Outlet × String :=
  if o.capacity ≤ piece.utf8ByteSize then ({ o with kept := "" }, o.kept ++ piece)
  else if o.capacity < o.kept.utf8ByteSize + piece.utf8ByteSize then
    ({ o with kept := piece }, o.kept)
  else ({ o with kept := o.kept ++ piece }, "")

/-- Lets all that is kept back leave. -/
def flush (o : Outlet) : Outlet × String :=
  ({ o with kept := "" }, o.kept)

/-- Writes pieces, one after the other. The flag says that all leaves at their end. -/
def writeAll (o : Outlet) (flushed : Bool) : List String → Outlet × String
  | [] => if flushed then o.flush else (o, "")
  | piece :: pieces =>
    let (o, left) := o.write piece
    let (o, rest) := o.writeAll flushed pieces
    (o, left ++ rest)

end Outlet

end CallGuard
