import CallGuard.Random.Shuffle
import CallGuard.Table.SignatureSet
import CallGuard.Text.Numeral

/-!
Table layouts: the new index of every entry of a table. The functions of a set
stay inside the range of the set, in their order or shuffled.

* `Layout.sorted`, `Layout.randomized`: the two layouts of sets.
* `Layout.reorder`: items brought to their new places.
* `Layout.dataString`: the new indices as the text of a data segment.
-/

namespace CallGuard

/-- The new index of every entry, in the order of the table. -/
structure Layout where
  /-- The new indices, counted from one. -/
  indices : List Nat
  deriving DecidableEq, Repr

namespace Layout

/-- Enters the new indices of a set's functions, which are given by their slots in
the range of the set. -/
def place (set : SignatureSet) (slots indices : List Nat) : List Nat :=
  (set.members.zip slots).foldl (fun indices (member, slot) =>
    if member.index = 0 then indices else indices.set (member.index - 1) (set.lower + slot))
    indices

/-- Enters the new indices of sets, one after the other; `permute` brings the slots
of each set into an order. -/
def placeAll {ρ : Type} (permute : List Nat → ρ → List Nat × ρ) :
    List SignatureSet → ρ → List Nat → List Nat
  | [], _, indices => indices
  | set :: sets, r, indices =>
    let (slots, r) := permute (List.range set.count) r
    placeAll permute sets r (place set slots indices)

/-- The layout that keeps the functions of each set in their order. -/
def sorted (sets : SignatureSets) : Layout :=
  ⟨placeAll (fun slots (_ : Unit) => (slots, ())) sets.sets ()
    (List.replicate sets.tableLength 0)⟩

/-- The layout that shuffles the functions of each set by random words. -/
def randomized (sets : SignatureSets) (words : List UInt32) : Layout :=
  ⟨placeAll Random.shuffle sets.sets words (List.replicate sets.tableLength 0)⟩

/-- The number of entries. -/
def size (l : Layout) : Nat :=
  l.indices.length

/-- The new index of the entry at an index. -/
def newIndex? (l : Layout) (index : Nat) : Option Nat :=
  if index = 0 then none else l.indices[index - 1]?

/-- The places after items have been brought to theirs; those that no item comes to
are empty. -/
def fill {α : Type} (l : Layout) (items : List α) : List (Option α) :=
  (items.zip l.indices).foldl (fun slots (item, new) =>
    if new = 0 then slots else slots.set (new - 1) (some item))
    (List.replicate items.length none)

/-- Items brought to their new places. A place that no item comes to keeps its
own. -/
def reorder {α : Type} (l : Layout) (items : List α) : List α :=
  ((l.fill items).zip items).map fun (new, old) => new.getD old

/-- The bytes of a word, the lowest first. -/
def wordBytes (value : UInt32) : List UInt8 :=
  [value.toUInt8, (value >>> 8).toUInt8, (value >>> 16).toUInt8, (value >>> 24).toUInt8]

/-- A word as the text of a data segment: a backslash and two hexadecimal digits
for every byte. -/
def wordText (value : UInt32) : List Char :=
  (wordBytes value).flatMap fun b => '\\' :: Text.lowerHex b

/-- The new indices as the text of a data segment. -/
def dataString (l : Layout) : List Char :=
  l.indices.flatMap fun i => wordText (UInt32.ofNat i)

end Layout

end CallGuard
