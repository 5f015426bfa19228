import CallGuard.Table.SignatureSet
import Mathlib

/-!
The order of signatures as an order of sequences. A list of parameters stands for the sequence
that goes on with zeros for ever, and lists are compared as these sequences are: by the first
place where they differ. Lists of different lengths can stand for one sequence, and then they
are level.

* `padded`: the sequence that a list stands for.
* `compareParams_eq_compare`: lists are compared as their sequences are.
* `SignatureCode.rank`, `SignatureCode.compare_eq_compare`: signatures are compared as pairs of a
  number and a sequence.
* `TableEntry.le_iff_rank_le`: entries are in the order of these pairs.
-/

namespace CallGuard

/-! ### Sequences -/

/-- A list with zeros after it for ever. -/
def padded (l : List Int) : ℕ → ℤ :=
  fun i => l.getD i 0

lemma padded_zero (l : List Int) : padded l 0 = l.headD 0 := by
  cases l <;> rfl

lemma padded_succ (l : List Int) (i : Nat) : padded l (i + 1) = padded l.tail i := by
  cases l <;> rfl

/-- Sequences that start with the same number are in the order of what follows. -/
lemma toLex_lt_of_tail_lt {f g : ℕ → ℤ} (h : f 0 = g 0)
    (htail : (toLex fun i => f (i + 1)) < toLex fun i => g (i + 1)) : toLex f < toLex g := by
  obtain ⟨i, hsame, hlt⟩ := htail
  refine ⟨i + 1, fun j hj => ?_, hlt⟩
  cases j with
  | zero => exact h
  | succ j => exact hsame j (Nat.lt_of_succ_lt_succ hj)

/-- Sequences are compared by their first numbers, and by what follows if these are the same. -/
lemma compare_toLex (f g : ℕ → ℤ) :
    compare (toLex f) (toLex g) = (compare (f 0) (g 0)).then
      (compare (toLex fun i => f (i + 1)) (toLex fun i => g (i + 1))) := by
  rcases lt_trichotomy (f 0) (g 0) with h | h | h
  · have hlt : toLex f < toLex g := ⟨0, fun j hj => absurd hj (Nat.not_lt_zero j), h⟩
    rw [compare_lt_iff_lt.mpr h, compare_lt_iff_lt.mpr hlt, Ordering.lt_then]
  · rw [compare_eq_iff_eq.mpr h, Ordering.eq_then]
    rcases lt_trichotomy (toLex fun i => f (i + 1)) (toLex fun i => g (i + 1)) with
      htail | htail | htail
    · rw [compare_lt_iff_lt.mpr htail, compare_lt_iff_lt.mpr (toLex_lt_of_tail_lt h htail)]
    · have hsame : f = g := by
        funext i
        cases i with
        | zero => exact h
        | succ i => exact congrFun (toLex_inj.mp htail) i
      rw [compare_eq_iff_eq.mpr htail, compare_eq_iff_eq.mpr (congrArg toLex hsame)]
    · rw [compare_gt_iff_gt.mpr htail, compare_gt_iff_gt.mpr (toLex_lt_of_tail_lt h.symm htail)]
  · have hlt : toLex g < toLex f := ⟨0, fun j hj => absurd hj (Nat.not_lt_zero j), h⟩
    rw [compare_gt_iff_gt.mpr h, compare_gt_iff_gt.mpr hlt, Ordering.gt_then]

/-- Parameter lists are compared by their first numbers, and by the rest if these are the
same. -/
lemma compareParams_eq (a b : List Int) :
    compareParams a b =
      (compare (a.headD 0) (b.headD 0)).then (compareParams a.tail b.tail) := by
  have hstep (o : Ordering) (os : List Ordering) :
      ((o :: os).find? (· != .eq)).getD .eq = o.then ((os.find? (· != .eq)).getD .eq) := by
    cases o <;> rfl
  -- against an empty list the rest of the other is compared on its own
  rcases a with _ | ⟨x, _ | ⟨x', a⟩⟩ <;> rcases b with _ | ⟨y, _ | ⟨y', b⟩⟩
  · rfl
  all_goals exact hstep _ _

lemma compareParams_eq_of_length_le {n : Nat} {a b : List Int} (ha : a.length ≤ n)
    (hb : b.length ≤ n) :
    compareParams a b = compare (toLex (padded a)) (toLex (padded b)) := by
  induction n generalizing a b with
  | zero =>
      obtain rfl := List.length_eq_zero_iff.mp (Nat.le_zero.mp ha)
      obtain rfl := List.length_eq_zero_iff.mp (Nat.le_zero.mp hb)
      rw [compare_eq_iff_eq.mpr rfl]
      rfl
  | succ n ih =>
      have htail := @ih a.tail b.tail (by rw [List.length_tail]; omega)
        (by rw [List.length_tail]; omega)
      simp only [compareParams_eq a, compare_toLex (padded a), padded_zero, padded_succ, htail]

/-- Lists of parameters are compared as the sequences that they stand for. -/
lemma compareParams_eq_compare (a b : List Int) :
    compareParams a b = compare (toLex (padded a)) (toLex (padded b)) :=
  compareParams_eq_of_length_le (le_max_left a.length b.length) (le_max_right _ _)

lemma compareParams_eq_iff (a b : List Int) :
    compareParams a b = .eq ↔ padded a = padded b := by
  rw [compareParams_eq_compare, compare_eq_iff_eq, toLex_inj]

lemma compareParams_swap (a b : List Int) : compareParams b a = (compareParams a b).swap := by
  rw [compareParams_eq_compare, compareParams_eq_compare]
  exact Std.OrientedOrd.eq_swap

lemma compareParams_isLE_trans {a b c : List Int} (hab : (compareParams a b).isLE)
    (hbc : (compareParams b c).isLE) : (compareParams a c).isLE := by
  rw [compareParams_eq_compare] at hab hbc ⊢
  exact Std.TransOrd.isLE_trans hab hbc

/-! ### Signatures -/

namespace SignatureCode

/-- What signatures are compared by: the return type, then the sequence of the parameters. -/
def rank (s : SignatureCode) : ℤ ×ₗ Lex (ℕ → ℤ) :=
  toLex (s.ret, toLex (padded s.params))

lemma compare_eq_compare (s s' : SignatureCode) : s.compare s' = Ord.compare s.rank s'.rank := by
  rw [SignatureCode.compare, compareParams_eq_compare]
  rfl

lemma compare_swap (s s' : SignatureCode) : s'.compare s = (s.compare s').swap := by
  rw [compare_eq_compare, compare_eq_compare]
  exact Std.OrientedOrd.eq_swap

end SignatureCode

lemma TableEntry.le_iff_rank_le {e e' : TableEntry} : e.le e' ↔ e.code.rank ≤ e'.code.rank := by
  rw [le, SignatureCode.compare_eq_compare, bne_iff_ne, Ne, compare_gt_iff_gt, not_lt]

end CallGuard
