/-!
Random words from a seed: the key stream of ChaCha with twelve rounds. A state is
four rows of four words; a round works on whole rows, and every second round on
rows that are turned.

* `seedKey`: the key of a seed.
* `block`: the sixteen words of a block.
* `seededWords`: the first words of a seed's stream.
-/

namespace CallGuard.Random

/-- Four words. -/
structure Row where
  /-- The first word. -/
  a : UInt32
  /-- The second word. -/
  b : UInt32
  /-- The third word. -/
  c : UInt32
  /-- The fourth word. -/
  d : UInt32
  deriving DecidableEq, Repr

/-- A word turned left by some bits. -/
def rotateLeft (x : UInt32) (n : UInt32) : UInt32 :=
  (x <<< n) ||| (x >>> (32 - n))

namespace Row

/-- The words of a row. -/
def toList (r : Row) : List UInt32 :=
  [r.a, r.b, r.c, r.d]

/-- A function on every word. -/
def map (f : UInt32 → UInt32) (r : Row) : Row :=
  ⟨f r.a, f r.b, f r.c, f r.d⟩

/-- A function on the words of two rows. -/
def zip (f : UInt32 → UInt32 → UInt32) (r s : Row) : Row :=
  ⟨f r.a s.a, f r.b s.b, f r.c s.c, f r.d s.d⟩

/-- A row turned by one word. -/
def turn (r : Row) : Row :=
  ⟨r.b, r.c, r.d, r.a⟩

/-- Two rows added word by word. -/
def add (r s : Row) : Row :=
  r.zip (· + ·) s

/-- A row mixed into another, and the result turned by some bits. -/
def mix (r s : Row) (n : UInt32) : Row :=
  (r.zip (· ^^^ ·) s).map (rotateLeft · n)

end Row

/-- Sixteen words in four rows. -/
structure Block where
  /-- The first row. -/
  r : Row
  /-- The second row. -/
  s : Row
  /-- The third row. -/
  t : Row
  /-- The fourth row. -/
  u : Row
  deriving DecidableEq, Repr

namespace Block

/-- The words of a block. -/
def toList (x : Block) : List UInt32 :=
  x.r.toList ++ x.s.toList ++ x.t.toList ++ x.u.toList

/-- One round on the columns. -/
def round (x : Block) : Block :=
  let r := x.r.add x.s
  let u := x.u.mix r 16
  let t := x.t.add u
  let s := x.s.mix t 12
  let r := r.add s
  let u := u.mix r 8
  let t := t.add u
  let s := s.mix t 7
  ⟨r, s, t, u⟩

/-- The block whose columns are the diagonals. -/
def slant (x : Block) : Block :=
  ⟨x.r, x.s.turn, x.t.turn.turn, x.u.turn.turn.turn⟩

/-- The block whose diagonals are the columns. -/
def straighten (x : Block) : Block :=
  ⟨x.r, x.s.turn.turn.turn, x.t.turn.turn, x.u.turn⟩

/-- A round on the columns and one on the diagonals. -/
def doubleRound (x : Block) : Block :=
  x.round.slant.round.straighten

/-- A function applied some times. -/
def times (f : Block → Block) : Nat → Block → Block
  | 0, x => x
  | n + 1, x => times f n (f x)

/-- Two blocks added word by word. -/
def add (x y : Block) : Block :=
  ⟨x.r.add y.r, x.s.add y.s, x.t.add y.t, x.u.add y.u⟩

end Block

/-- The first row of every block. -/
def constants : Row :=
  ⟨0x61707865, 0x3320646e, 0x79622d32, 0x6b206574⟩

/-- The next state of the generator that stretches a seed. -/
def nextState (state : UInt64) : UInt64 :=
  state * 6364136223846793005 + 11634580027462260723

/-- The word of a state: its high bits folded, and turned right by the highest. -/
def stateWord (state : UInt64) : UInt32 :=
  let x := (((state >>> 18) ^^^ state) >>> 27).toUInt32
  let n := (state >>> 59).toUInt32
  (x >>> n) ||| (x <<< ((32 - n) % 32))

/-- The states after a seed. -/
def states : Nat → UInt64 → List UInt64
  | 0, _ => []
  | n + 1, state =>
    let state := nextState state
    state :: states n state

/-- The key of a seed, in two rows. -/
def seedKey (seed : UInt64) : Row × Row :=
  match (states 8 seed).map stateWord with
  | [a, b, c, d, e, f, g, h] => (⟨a, b, c, d⟩, ⟨e, f, g, h⟩)
  | _ => (⟨0, 0, 0, 0⟩, ⟨0, 0, 0, 0⟩)

/-- The words of the block of a number. -/
def block (key : Row × Row) (number : Nat) : List UInt32 :=
  let counter : Row := ⟨UInt32.ofNat number, UInt32.ofNat (number / UInt32.size), 0, 0⟩
  let start : Block := ⟨constants, key.1, key.2, counter⟩
  ((Block.times Block.doubleRound 6 start).add start).toList

/-- The first words of the stream of a seed. -/
def seededWords (seed : UInt64) (count : Nat) : List UInt32 :=
  ((List.range ((count + 15) / 16)).flatMap (block (seedKey seed))).take count

end CallGuard.Random
