import CallGuard.Guard.Instrument
import CallGuard.Proofs.Guard.Edits
import CallGuard.Proofs.Wat.Machine

/-!
What the instructions of a check do. The data of a guard lies in memory as words, so the
instructions that replace an index load its new index; they do so before the call of the
function that checks indices, and once more before the indirect call.

* `Guard.runs_remap`: an index is replaced by its new one.
* `Guard.Pops`: what the function that checks indices is relied on for.
* `Guard.run_checkSequence`: the run of a check.
-/

namespace CallGuard

namespace Guard

open Wat

section Remap

variable {g : Guard}

/-- The data of a guard lies in memory as the words of its indices. -/
lemma holds_of_holdsData {memory : Memory} {address : Nat}
    (h : memory.HoldsData address g.layout.dataString) :
    memory.Holds address ((g.layout.indices.map UInt32.ofNat).flatMap Layout.wordBytes) := by
  obtain ⟨bytes, hread, hbytes⟩ := h
  rw [Layout.dataString_eq, Layout.readEscapes?_flatMap] at hread
  obtain rfl := Option.some.inj hread
  rwa [List.flatMap_map]

/-- The address of the new index of an index, without the offset. -/
lemma toNat_address {i : UInt32} {n : Nat} (hi : 1 ≤ i.toNat) (hn : i.toNat ≤ n)
    (hroom : 4 * n ≤ 2 ^ 32) : ((i - 1) * 4).toNat = 4 * (i.toNat - 1) := by
  have hle : (1 : UInt32) ≤ i := UInt32.le_iff_toNat_le.mpr hi
  have hsub : (i - 1).toNat = i.toNat - 1 := UInt32.toNat_sub_of_le _ _ hle
  rw [UInt32.toNat_mul, hsub, show (4 : UInt32).toNat = 4 from rfl]
  omega

/-- **An index is replaced by its new one**, whatever is below it on the stack. -/
lemma runs_remap {memory : Memory} (hdata : memory.HoldsData g.offset.toNat g.layout.dataString)
    (hroom : g.offset.toNat + 4 * g.layout.size ≤ 2 ^ 32) {i : UInt32} (hi : 1 ≤ i.toNat)
    {j : Nat} (hj : g.layout.newIndex? i.toNat = some j) (rest : List UInt32)
    (globals : Nat → UInt32) :
    Runs g.remap ⟨i :: rest, globals, memory⟩ ⟨.ofNat j :: rest, globals, memory⟩ := by
  rw [Layout.newIndex?, if_neg (by omega)] at hj
  have hn : i.toNat ≤ g.layout.size := by
    have := (List.getElem?_eq_some_iff.mp hj).1
    rw [Layout.size]
    omega
  have hword : memory.word? (((i - 1) * 4).toNat + g.offset.toNat) = some (.ofNat j) := by
    rw [toNat_address hi hn (by omega), Nat.add_comm]
    refine (holds_of_holdsData hdata).word? ?_
    rw [List.getElem?_map, hj, Option.map_some]
  refine ⟨⟨1 :: i :: rest, globals, memory⟩, rfl, ⟨(i - 1) :: rest, globals, memory⟩, rfl,
    ⟨4 :: (i - 1) :: rest, globals, memory⟩, rfl, ⟨(i - 1) * 4 :: rest, globals, memory⟩, rfl,
    ⟨.ofNat j :: rest, globals, memory⟩, ?_, rfl⟩
  simp only [Instruction.exec, hword, Option.map_some]

end Remap

/-- A function pops three arguments when it is called, and leaves the memory and a global
as they are. -/
def Pops (outside : Outside) (name : List Char) (global : Nat) : Prop :=
  ∀ m m' a b c rest, m.stack = a :: b :: c :: rest → outside name m = some m' →
    m'.stack = rest ∧ m'.memory = m.memory ∧ m'.globals global = m.globals global

/-- The machine at the call of the function that checks an index: the new index is on top
of the bounds, and the index is kept in a global. -/
def atCheck (set : SignatureSet) (global : Nat) (i : UInt32) (j : Nat) (rest : List UInt32)
    (m : Machine) : Machine :=
  ⟨.ofNat j :: .ofNat set.upper :: .ofNat set.lower :: rest, Function.update m.globals global i,
    m.memory⟩

section Parts

variable (g : Guard) (set : SignatureSet) {m m' : Machine} {i : UInt32} {rest : List UInt32}
  {j : Nat}

/-- The part of a check up to the call of the function that checks the index. -/
lemma run_front (hdata : m.memory.HoldsData g.offset.toNat g.layout.dataString)
    (hroom : g.offset.toNat + 4 * g.layout.size ≤ 2 ^ 32) (hstack : m.stack = i :: rest)
    (hi : 1 ≤ i.toNat) (hj : g.layout.newIndex? i.toNat = some j) (outside : Outside)
    (global : Nat) :
    run outside (g.checkSequence global set) m =
      run outside (.call g.checkFunction.toList :: .globalGet global ::
        (g.remap ++ [.callIndirect])) (atCheck set global i j rest m) := by
  obtain ⟨stack, globals, memory⟩ := m
  obtain rfl : stack = i :: rest := hstack
  have hkeep : Runs [.globalSet global, .const (.ofNat set.lower), .const (.ofNat set.upper),
      .globalGet global] ⟨i :: rest, globals, memory⟩
      ⟨i :: .ofNat set.upper :: .ofNat set.lower :: rest, Function.update globals global i,
        memory⟩ :=
    ⟨⟨rest, Function.update globals global i, memory⟩, rfl,
      ⟨.ofNat set.lower :: rest, Function.update globals global i, memory⟩, rfl,
      ⟨.ofNat set.upper :: .ofNat set.lower :: rest, Function.update globals global i, memory⟩,
      rfl, _, by simp [Instruction.exec], rfl⟩
  have hmap := runs_remap hdata hroom hi hj (.ofNat set.upper :: .ofNat set.lower :: rest)
    (Function.update globals global i)
  rw [atCheck, ← (hkeep.append hmap).run_append, checkSequence]
  simp

/-- The part of a check behind this call. -/
lemma run_back (hdata : m.memory.HoldsData g.offset.toNat g.layout.dataString)
    (hroom : g.offset.toNat + 4 * g.layout.size ≤ 2 ^ 32) (hi : 1 ≤ i.toNat)
    (hj : g.layout.newIndex? i.toNat = some j) (hrest : m'.stack = rest)
    (hmemory : m'.memory = m.memory) {global : Nat} (hkept : m'.globals global = i)
    (outside : Outside) :
    run outside (.globalGet global :: (g.remap ++ [.callIndirect])) m' =
      ⟨[], .atIndirect ⟨.ofNat j :: rest, m'.globals, m.memory⟩ []⟩ := by
  obtain ⟨stack, globals, memory⟩ := m'
  obtain rfl : stack = rest := hrest
  obtain rfl : memory = m.memory := hmemory
  have hget : Instruction.exec ⟨stack, globals, m.memory⟩ (.globalGet global) =
      some ⟨i :: stack, globals, m.memory⟩ := by
    rw [Instruction.exec, hkept]
  rw [run_cons hget, (runs_remap hdata hroom hi hj stack globals).run_append, run]

end Parts

/-- **A check does what the call did.** The data of a guard lies in memory from the offset of
the guard on, without reaching beyond the addresses that there are, and an index of the table
is on top of the stack. Then the instructions of a check call one function by its name, and
only once: the one that checks indices, with the bounds of the set and the new index as its
arguments. If it returns, the indirect call is next, with the new index in place of the index;
nothing else on the stack and nothing in memory has changed, and of the globals only the one
that keeps the index, less what the function itself has done to others. The text of a check
spells these instructions, whatever blanks its lines are indented with, if the name of the
function is an atom. -/
theorem run_checkSequence (g : Guard) (set : SignatureSet) {global : Nat} {outside : Outside}
    (houtside : Pops outside g.checkFunction.toList global)
    (hroom : g.offset.toNat + 4 * g.layout.size ≤ 2 ^ 32) {m : Machine}
    (hdata : m.memory.HoldsData g.offset.toNat g.layout.dataString) {i : UInt32}
    {rest : List UInt32} (hstack : m.stack = i :: rest) (hi : 1 ≤ i.toNat)
    (hn : i.toNat ≤ g.layout.size) :
    ∃ j, g.layout.newIndex? i.toNat = some j ∧
      (run outside (g.checkSequence global set) m).calls =
        [(g.checkFunction.toList, atCheck set global i j rest m)] ∧
      (∀ m', outside g.checkFunction.toList (atCheck set global i j rest m) = some m' →
        (run outside (g.checkSequence global set) m).outcome =
            .atIndirect ⟨.ofNat j :: rest, m'.globals, m.memory⟩ [] ∧ m'.globals global = i) ∧
      (outside g.checkFunction.toList (atCheck set global i j rest m) = none →
        (run outside (g.checkSequence global set) m).outcome = .away) ∧
      ∀ indent : List Char, (∀ c ∈ indent, isSpace c) →
        (∀ c ∈ g.checkFunction.toList, isAtomChar c) →
        instructionsOf (sequenceText indent (g.checkSequence global set)) =
          some (g.checkSequence global set) := by
  have hlt : i.toNat - 1 < g.layout.indices.length := by
    rw [Layout.size] at hn
    omega
  have hj : g.layout.newIndex? i.toNat = some g.layout.indices[i.toNat - 1] := by
    rw [Layout.newIndex?, if_neg (by omega), List.getElem?_eq_getElem hlt]
  generalize g.layout.indices[i.toNat - 1] = j at hj
  have hread (indent : List Char) (hindent : ∀ c ∈ indent, isSpace c)
      (hname : ∀ c ∈ g.checkFunction.toList, isAtomChar c) :=
    instructionsOf_sequenceText hindent (named_checkSequence hname global set)
  have hfront := run_front g set hdata hroom hstack hi hj outside global
  refine ⟨j, hj, ?_⟩
  rw [hfront, run]
  cases hcall : outside g.checkFunction.toList (atCheck set global i j rest m) with
  | none => exact ⟨rfl, fun m' h => absurd h (by simp), fun _ => rfl, hread⟩
  | some m' =>
      obtain ⟨hrest, hmemory, hglobal⟩ := houtside _ m' _ _ _ rest rfl hcall
      have hkept : m'.globals global = i := hglobal.trans (Function.update_self ..)
      have hback := run_back g hdata hroom hi hj hrest hmemory hkept outside
      dsimp only
      rw [hback]
      refine ⟨rfl, fun m₁ h => ?_, fun h => absurd h (by simp), hread⟩
      obtain rfl := Option.some.inj h
      exact ⟨rfl, hkept⟩

/-- A shuffled guard whose data lies in memory up to the last address. -/
def sampleGuard : Guard :=
  { (ofTable .empty ["$f", "$g", "$h"]).randomize [7, 3000000000] with offset := 4294967284 }

/-- A machine with the data of this guard in its memory, and the index 3 on its stack. -/
def sampleMachine : Machine where
  stack := [3, 11]
  globals _ := 0
  memory address :=
    if address < sampleGuard.offset.toNat then none
    else ((sampleGuard.layout.indices.map UInt32.ofNat).flatMap Layout.wordBytes)[address -
      sampleGuard.offset.toNat]?

/-- A function that pops three arguments. -/
def sampleOutside : Outside := fun _ m => some { m with stack := m.stack.drop 3 }

lemma length_sampleGuard : sampleGuard.layout.size = 3 := by
  have hg : Built .empty ["$f", "$g", "$h"] sampleGuard :=
    .withOffset _ (.shuffled _ .sorted)
  rw [Layout.size, hg.indices_perm.length_eq, List.length_range']
  rfl

lemma holdsData_sampleMachine :
    sampleMachine.memory.HoldsData sampleGuard.offset.toNat sampleGuard.layout.dataString := by
  refine ⟨(sampleGuard.layout.indices.map UInt32.ofNat).flatMap Layout.wordBytes, ?_, ?_⟩
  · rw [Layout.dataString_eq, Layout.readEscapes?_flatMap, List.flatMap_map]
  · intro k b hb
    refine (if_neg (Nat.not_lt.mpr (Nat.le_add_right _ k))).trans ?_
    rw [Nat.add_sub_cancel_left, hb]

/-- The last index of a table whose data ends at the last address. -/
theorem run_checkSequence_last :
    Pops sampleOutside sampleGuard.checkFunction.toList 5 ∧
      sampleGuard.offset.toNat + 4 * sampleGuard.layout.size ≤ 2 ^ 32 ∧
      sampleMachine.memory.HoldsData sampleGuard.offset.toNat sampleGuard.layout.dataString ∧
      sampleMachine.stack = [3, 11] ∧
      ∃ j, sampleGuard.layout.newIndex? 3 = some j ∧
        (run sampleOutside (sampleGuard.checkSequence 5 ⟨"0_-1", [], 1, 4⟩) sampleMachine).calls =
          [(sampleGuard.checkFunction.toList,
            ⟨[.ofNat j, 4, 1, 11], Function.update (fun _ => 0) 5 3, sampleMachine.memory⟩)] ∧
        (run sampleOutside (sampleGuard.checkSequence 5 ⟨"0_-1", [], 1, 4⟩) sampleMachine).outcome =
          .atIndirect ⟨[.ofNat j, 11], Function.update (fun _ => 0) 5 3, sampleMachine.memory⟩
            [] := by
  have hpops : Pops sampleOutside sampleGuard.checkFunction.toList 5 := by
    intro m m' a b c rest hstack hreturn
    obtain rfl := Option.some.inj hreturn
    exact ⟨by rw [hstack]; rfl, rfl, rfl⟩
  have hroom : sampleGuard.offset.toNat + 4 * sampleGuard.layout.size ≤ 2 ^ 32 := by
    rw [length_sampleGuard]
    decide
  obtain ⟨j, hj, hcalls, hreturns, -, -⟩ := run_checkSequence sampleGuard ⟨"0_-1", [], 1, 4⟩ hpops
    hroom holdsData_sampleMachine rfl (i := 3) (by decide) (by rw [length_sampleGuard]; decide)
  exact ⟨hpops, hroom, holdsData_sampleMachine, rfl, j, hj, hcalls, (hreturns _ rfl).1⟩

end Guard

end CallGuard
