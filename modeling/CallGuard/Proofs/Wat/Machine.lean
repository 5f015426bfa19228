import CallGuard.Proofs.Table.Layout
import CallGuard.Proofs.Text.Numeral
import CallGuard.Proofs.Wat.Words

/-!
A machine for the instructions of a check. It has a stack of 32-bit words, globals, and a
memory of bytes, and it can be told what the functions do that are called by name.

* `Instruction.readAll?`, `instructionsOf`: the instructions that words, and texts, spell.
* `instructionsOf_sequenceText`: instructions one below the other are read back.
* `Memory.Holds.word?`: the words that lie in memory are found there.
* `Machine`, `Instruction.exec`: the machine and what one instruction does to it.
* `Outside`, `run`: a run with its calls, up to an indirect call.
-/

namespace CallGuard.Wat

/-! ### Reading instructions -/

namespace Instruction

/-- The instruction that a word spells alone. -/
def ofWord? (word : List Char) : Option Instruction :=
  if word = "i32.sub".toList then some sub
  else if word = "i32.mul".toList then some mul
  else if word = "call_indirect".toList then some callIndirect
  else none

/-- The instruction that a word spells with the word after it. -/
def ofWords? (word operand : List Char) : Option Instruction :=
  if word = "i32.const".toList then
    ((Text.readDecimal? operand).filter (· < UInt32.size)).map fun n => const (.ofNat n)
  else if word = "i32.load".toList then
    if "offset=".toList <+: operand then
      ((Text.readDecimal? (operand.drop 7)).filter (· < UInt32.size)).map fun n => load (.ofNat n)
    else none
  else if word = "global.get".toList then (Text.readDecimal? operand).map globalGet
  else if word = "global.set".toList then (Text.readDecimal? operand).map globalSet
  else if word = "call".toList ∧ operand.head? = some '$' then some (call operand.tail)
  else none

/-- The instructions that words spell. -/
def readAll? : List (List Char) → Option (List Instruction)
  | [] => some []
  | [word] => (ofWord? word).map ([·])
  | word :: operand :: later =>
    match ofWord? word with
    | some i => (readAll? (operand :: later)).map (i :: ·)
    | none => (ofWords? word operand).bind fun i => (readAll? later).map (i :: ·)

lemma readAll?_cons {word : List Char} {i : Instruction} (h : ofWord? word = some i)
    (later : List (List Char)) : readAll? (word :: later) = (readAll? later).map (i :: ·) := by
  cases later with
  | nil => exact congrArg (Option.map ([·])) h
  | cons operand later => rw [readAll?, h]

lemma readAll?_cons_cons {word operand : List Char} {i : Instruction} (hnone : ofWord? word = none)
    (h : ofWords? word operand = some i) (later : List (List Char)) :
    readAll? (word :: operand :: later) = (readAll? later).map (i :: ·) := by
  rw [readAll?, hnone, h]
  rfl

/-- The words of an instruction are read back. -/
lemma readAll?_words_append (i : Instruction) (later : List (List Char)) :
    readAll? (i.words ++ later) = (readAll? later).map (i :: ·) := by
  have hword (v : UInt32) : (Text.readDecimal? (Text.decimal v.toNat)).filter
      (fun n => decide (n < UInt32.size)) = some v.toNat := by
    rw [Text.readDecimal?_decimal, Option.filter_some, if_pos (decide_eq_true v.toNat_lt)]
  cases i with
  | const value =>
      refine readAll?_cons_cons (by decide) ?_ later
      rw [ofWords?, if_pos rfl, hword, Option.map_some, UInt32.ofNat_toNat]
  | sub => exact readAll?_cons (by decide) later
  | mul => exact readAll?_cons (by decide) later
  | load offset =>
      refine readAll?_cons_cons (by decide) ?_ later
      rw [ofWords?, if_neg (by decide), if_pos rfl, if_pos (List.prefix_append _ _),
        List.drop_left' (by decide), hword, Option.map_some, UInt32.ofNat_toNat]
  | globalGet index =>
      refine readAll?_cons_cons (by decide) ?_ later
      rw [ofWords?, if_neg (by decide), if_neg (by decide), if_pos rfl, Text.readDecimal?_decimal,
        Option.map_some]
  | globalSet index =>
      refine readAll?_cons_cons (by decide) ?_ later
      rw [ofWords?, if_neg (by decide), if_neg (by decide), if_neg (by decide), if_pos rfl,
        Text.readDecimal?_decimal, Option.map_some]
  | call name =>
      refine readAll?_cons_cons (by decide) ?_ later
      rw [ofWords?, if_neg (by decide), if_neg (by decide), if_neg (by decide),
        if_neg (by decide), if_pos ⟨rfl, rfl⟩, List.tail_cons]
  | callIndirect => exact readAll?_cons (by decide) later

lemma readAll?_flatMap_words (is : List Instruction) : readAll? (is.flatMap words) = some is := by
  induction is with
  | nil => rfl
  | cons i is ih => rw [List.flatMap_cons, readAll?_words_append, ih, Option.map_some]

end Instruction

/-- The instructions that a text spells, which has no other tokens than words. -/
def instructionsOf (text : List Char) : Option (List Instruction) :=
  if (lexemes text).all (·.1 == .atom) then Instruction.readAll? ((lexemes text).map Prod.snd)
  else none

/-- Instructions one below the other are read back, whatever blanks stand before them. -/
lemma instructionsOf_sequenceText {indent : List Char} (hindent : ∀ c ∈ indent, isSpace c)
    {is : List Instruction} (his : ∀ i ∈ is, i.Named) :
    instructionsOf (sequenceText indent is) = some is := by
  have hlexemes : lexemes (sequenceText indent is) =
      (is.flatMap Instruction.words).map fun w => (.atom, w) := by
    have hstand := (laid_sequencePieces hindent his).stands [] (by simp [AtomEnds])
    rw [← flat_sequencePieces, lexemes_eq, pieces_flat hstand, lexemesOf_sequencePieces,
      List.map_flatMap]
  rw [instructionsOf, hlexemes, if_pos (by simp), List.map_map]
  exact (congrArg _ (List.map_id _)).trans (Instruction.readAll?_flatMap_words is)

/-! ### The machine -/

/-- The bytes in memory, by their addresses; there is none at an address outside it. -/
abbrev Memory := Nat → Option UInt8

namespace Memory

variable {memory : Memory} {address : Nat}

/-- The word in the four bytes from an address on, the lowest first, if they are all in
memory. -/
def word? (memory : Memory) (address : Nat) : Option UInt32 := do
  let a ← memory address
  let b ← memory (address + 1)
  let c ← memory (address + 2)
  let d ← memory (address + 3)
  return .ofNat (a.toNat + 2 ^ 8 * b.toNat + 2 ^ 16 * c.toNat + 2 ^ 24 * d.toNat)

/-- The bytes lie in memory from an address on. -/
def Holds (memory : Memory) (address : Nat) (bytes : List UInt8) : Prop :=
  ∀ k b, bytes[k]? = some b → memory (address + k) = some b

/-- The bytes that a text of escapes spells lie in memory from an address on. -/
def HoldsData (memory : Memory) (address : Nat) (text : List Char) : Prop :=
  ∃ bytes, Layout.readEscapes? text = some bytes ∧ memory.Holds address bytes

lemma Holds.append_right {front back : List UInt8} (h : memory.Holds address (front ++ back)) :
    memory.Holds (address + front.length) back := by
  intro k b hb
  rw [Nat.add_assoc]
  refine h _ b ?_
  rw [List.getElem?_append_right (Nat.le_add_right _ _), Nat.add_sub_cancel_left, hb]

lemma Holds.word?_wordBytes {v : UInt32} {back : List UInt8}
    (h : memory.Holds address (Layout.wordBytes v ++ back)) : memory.word? address = some v := by
  have hread := Layout.readWords?_wordBytes v.toNat_lt []
  rw [UInt32.ofNat_toNat] at hread
  have hsum : v.toUInt8.toNat + 2 ^ 8 * (v >>> 8).toUInt8.toNat +
      2 ^ 16 * (v >>> 16).toUInt8.toNat + 2 ^ 24 * (v >>> 24).toUInt8.toNat = v.toNat :=
    (List.cons.inj (Option.some.inj hread)).1
  have h₀ : memory address = _ := h 0 v.toUInt8 rfl
  rw [word?, h₀, h 1 (v >>> 8).toUInt8 rfl, h 2 (v >>> 16).toUInt8 rfl,
    h 3 (v >>> 24).toUInt8 rfl]
  change some (UInt32.ofNat _) = _
  rw [hsum, UInt32.ofNat_toNat]

/-- The words that lie in memory one after the other are found there. -/
lemma Holds.word? {ws : List UInt32} (h : memory.Holds address (ws.flatMap Layout.wordBytes))
    {k : Nat} {v : UInt32} (hk : ws[k]? = some v) :
    memory.word? (address + 4 * k) = some v := by
  induction ws generalizing address k with
  | nil => simp at hk
  | cons w ws ih =>
      rw [List.flatMap_cons] at h
      cases k with
      | zero =>
          obtain rfl : w = v := by simpa using hk
          exact h.word?_wordBytes
      | succ k =>
          have hlater : memory.Holds (address + 4) _ := h.append_right
          rw [show address + 4 * (k + 1) = address + 4 + 4 * k by omega]
          exact ih hlater (by simpa using hk)

end Memory

/-- A machine. -/
structure Machine where
  /-- The stack, the top first. -/
  stack : List UInt32
  /-- The values of the globals, by their numbers. -/
  globals : Nat → UInt32
  /-- The memory. -/
  memory : Memory

/-- What an instruction does to a machine, if it is no call and does not trap. -/
def Instruction.exec (m : Machine) : Instruction → Option Machine
  | const value => some { m with stack := value :: m.stack }
  | sub =>
    match m.stack with
    | b :: a :: rest => some { m with stack := (a - b) :: rest }
    | _ => none
  | mul =>
    match m.stack with
    | b :: a :: rest => some { m with stack := (a * b) :: rest }
    | _ => none
  | load offset =>
    match m.stack with
    | address :: rest =>
      (m.memory.word? (address.toNat + offset.toNat)).map fun w => { m with stack := w :: rest }
    | [] => none
  | globalGet index => some { m with stack := m.globals index :: m.stack }
  | globalSet index =>
    match m.stack with
    | a :: rest => some { m with stack := rest, globals := Function.update m.globals index a }
    | [] => none
  | call _ | callIndirect => none

/-! ### Runs -/

/-- What a function does to the machine when it is called by its name: it leaves a machine
if it returns. -/
abbrev Outside := List Char → Machine → Option Machine

/-- How a run ends. -/
inductive Outcome where
  /-- All instructions have been run. -/
  | finished (m : Machine)
  /-- An instruction could not be run. -/
  | trapped
  /-- A function that was called did not return. -/
  | away
  /-- An indirect call is next, with the given instructions behind it. -/
  | atIndirect (m : Machine) (later : List Instruction)

/-- A run. -/
structure Run where
  /-- The functions that were called by their names, each with the machine at the call. -/
  calls : List (List Char × Machine)
  /-- How the run ended. -/
  outcome : Outcome

/-- The run of instructions from a machine on, up to an indirect call. -/
def run (outside : Outside) : List Instruction → Machine → Run
  | [], m => ⟨[], .finished m⟩
  | .callIndirect :: is, m => ⟨[], .atIndirect m is⟩
  | .call name :: is, m =>
    match outside name m with
    | none => ⟨[(name, m)], .away⟩
    | some m' => ⟨(name, m) :: (run outside is m').calls, (run outside is m').outcome⟩
  | i :: is, m =>
    match i.exec m with
    | none => ⟨[], .trapped⟩
    | some m' => run outside is m'

section Steps

variable {outside : Outside} {i : Instruction} {is js : List Instruction} {m m' m'' : Machine}

/-- Instructions that are run one after the other, without calls. -/
def Runs : List Instruction → Machine → Machine → Prop
  | [], m, m' => m = m'
  | i :: is, m, m' => ∃ m₁, i.exec m = some m₁ ∧ Runs is m₁ m'

lemma Runs.append (h : Runs is m m') (h' : Runs js m' m'') : Runs (is ++ js) m m'' := by
  induction is generalizing m with
  | nil => exact h ▸ h'
  | cons i is ih =>
      obtain ⟨m₁, hstep, hlater⟩ := h
      exact ⟨m₁, hstep, ih hlater⟩

lemma run_cons (h : i.exec m = some m') : run outside (i :: is) m = run outside is m' := by
  cases i with
  | call name => simp [Instruction.exec] at h
  | callIndirect => simp [Instruction.exec] at h
  | _ => simp [run, h]

/-- A run goes on behind instructions without calls. -/
lemma Runs.run_append (h : Runs is m m') : run outside (is ++ js) m = run outside js m' := by
  induction is generalizing m with
  | nil => rw [h, List.nil_append]
  | cons i is ih =>
      obtain ⟨m₁, hstep, hlater⟩ := h
      rw [List.cons_append, run_cons hstep, ih hlater]

end Steps

end CallGuard.Wat
