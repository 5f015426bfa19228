/-!
Shuffling by random words. The words are given as a list and count as zero after
its end, so drawing always ends.

* `below`: a number below a bound. A word that would favour some numbers is passed
  over.
* `shuffle`: the items in an order that the words choose.
-/

namespace CallGuard.Random

/-- The largest low half of a product that is used: below it every number has the
same share. -/
def zone (n : Nat) : Nat :=
  n <<< (31 - n.log2) - 1

/-- A number below `n`, and the words after those that were drawn. -/
def below (n : Nat) : List UInt32 → Nat × List UInt32
  | [] => (0, [])
  | w :: ws =>
    let product := w.toNat * n
    if product % UInt32.size ≤ zone n then (product / UInt32.size, ws) else below n ws

/-- Swaps the items from the place `i` down to the second with items drawn from
those up to there. -/
def shuffleFrom {α : Type} : Nat → Array α → List UInt32 → Array α × List UInt32
  | 0, xs, ws => (xs, ws)
  | i + 1, xs, ws =>
    let (j, ws) := below (i + 2) ws
    shuffleFrom i (xs.swapIfInBounds (i + 1) j) ws

/-- The items in an order that the words choose, and the words after those that
were drawn. -/
def shuffle {α : Type} (xs : List α) (ws : List UInt32) : List α × List UInt32 :=
  let (ys, ws) := shuffleFrom (xs.length - 1) xs.toArray ws
  (ys.toList, ws)

/-- A number of words that is enough to shuffle lists of some items in all: more
than half of all words are used. -/
def wordsFor (items : Nat) : Nat :=
  64 * items + 256

end CallGuard.Random
