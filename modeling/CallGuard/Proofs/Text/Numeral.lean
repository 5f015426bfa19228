import CallGuard.Text.Numeral
import Mathlib.Tactic

/-!
Decimal numerals are read back.

* `decimalValue_decimal`, `readDecimal?_decimal`: the numeral of a number has its value.
* `readBelow?_decimal`: so it has below a limit.
-/

namespace CallGuard.Text

lemma decimalValue_append (s : List Char) (c : Char) :
    decimalValue (s ++ [c]) = 10 * decimalValue s + digitValue c := by
  rw [decimalValue, List.foldl_append]
  rfl

/-- The decimal numeral of a number has its value. -/
lemma decimalValue_decimal (n : Nat) : decimalValue (decimal n) = n := by
  induction n using Nat.strongRecOn with
  | ind n ih =>
      have hdigit : ∀ k < 10, digitValue (Nat.digitChar k) = k := by decide
      rcases Nat.lt_or_ge n 10 with hlt | hge
      · rw [decimal, Nat.toDigits_of_lt_base hlt]
        exact (Nat.zero_add _).trans (hdigit n hlt)
      · rw [decimal, Nat.toDigits_of_base_le (by omega) hge, ← decimal, decimalValue_append,
          ih _ (by omega), hdigit _ (by omega)]
        omega

lemma all_isDigit_decimal (n : Nat) : (decimal n).all Char.isDigit := by
  rw [List.all_eq_true]
  exact fun _ hc => Nat.isDigit_of_mem_toDigits (by omega) (by omega) hc

/-- The decimal numeral of a number is read as this number. -/
lemma readDecimal?_decimal (n : Nat) : readDecimal? (decimal n) = some n := by
  have hne : (decimal n).isEmpty = false := List.isEmpty_eq_false_iff.mpr Nat.toDigits_ne_nil
  rw [readDecimal?, hne, all_isDigit_decimal, decimalValue_decimal]
  rfl

lemma readBelow?_decimal {n limit : Nat} (h : n < limit) :
    readBelow? limit (decimal n) = some n := by
  have hplus : ∀ cs, decimal n ≠ '+' :: cs := fun cs heq => by
    have := all_isDigit_decimal n
    simp [heq] at this
  have hdigits : readBelow? limit (decimal n) = (readDecimal? (decimal n)).filter (· < limit) := by
    rw [readBelow?]
    exact fun cs heq => absurd heq (hplus cs)
  rw [hdigits, readDecimal?_decimal, Option.filter_some, if_pos (by simpa using h)]

end CallGuard.Text
