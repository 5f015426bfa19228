import CallGuard.Ir.Name
import Mathlib.Data.UInt
import Mathlib.Tactic

/-!
Names are read back as they were written. The bytes of a text are read as this text, and
what stands between quotes stands for the bytes of the name.

* `Text.decodeLossy_encode`, `Text.decode?_encode`: the text of the bytes of a text.
* `Name.decode_escape`: the name between quotes.
* `Name.ne_of_mem_escape`: what does not stand between quotes.
-/

namespace CallGuard

/-! ### Bytes of texts -/

namespace Text

/-- Which bytes may follow the first byte of a character. -/
lemma isSecond_iff {a b : UInt8} :
    isSecond a b ↔ 0x80 ≤ b.toNat ∧ b.toNat ≤ 0xbf ∧ (a.toNat = 0xe0 → 0xa0 ≤ b.toNat) ∧
      (a.toNat = 0xed → b.toNat ≤ 0x9f) ∧ (a.toNat = 0xf0 → 0x90 ≤ b.toNat) ∧
      (a.toNat = 0xf4 → b.toNat ≤ 0x8f) := by
  simp only [isSecond, secondBounds, ← UInt8.toNat_inj, Bool.and_eq_true, decide_eq_true_eq,
    UInt8.le_iff_toNat_le]
  split_ifs <;> simp_all <;> omega

lemma isContinuation_iff {b : UInt8} : isContinuation b ↔ 0x80 ≤ b.toNat ∧ b.toNat ≤ 0xbf := by
  simp [isContinuation, UInt8.le_iff_toNat_le]

section ReadChar

variable {a b c d : UInt8} (rest : List UInt8)

lemma readChar_one (ha : a.toNat < 0x80) :
    readChar a rest = (some (Char.ofNat a.toNat), rest) := by
  rw [readChar.eq_def, if_pos (UInt8.lt_iff_toNat_lt.mpr ha)]

/-- The first byte of a character of more than one byte. -/
lemma not_lt_of_lead (ha : 0xc2 ≤ a.toNat) (ha' : a.toNat ≤ 0xf4) :
    ¬ a < 0x80 ∧ (decide (a < 0xc2) || decide (0xf4 < a)) = false := by
  simp only [UInt8.lt_iff_toNat_lt, Bool.or_eq_false_iff, decide_eq_false_iff_not]
  simp
  omega

lemma readChar_two (ha : 0xc2 ≤ a.toNat) (ha' : a.toNat < 0xe0) (hb : isSecond a b) :
    readChar a (b :: rest) = (some (Char.ofNat (a.toNat % 32 * 64 + payload b)), rest) := by
  have hlead := @not_lt_of_lead a ha (by omega)
  have h2 : a < 0xe0 := UInt8.lt_iff_toNat_lt.mpr ha'
  simp [readChar, hlead, h2, hb]

lemma readChar_three (ha : 0xe0 ≤ a.toNat) (ha' : a.toNat < 0xf0) (hb : isSecond a b)
    (hc : isContinuation c) :
    readChar a (b :: c :: rest) =
      (some (Char.ofNat ((a.toNat % 16 * 64 + payload b) * 64 + payload c)), rest) := by
  have hlead := @not_lt_of_lead a (by omega) (by omega)
  have h2 : ¬ a < 0xe0 := UInt8.not_lt.mpr (UInt8.le_iff_toNat_le.mpr ha)
  have h3 : a < 0xf0 := UInt8.lt_iff_toNat_lt.mpr ha'
  simp [readChar, hlead, h2, h3, hb, hc]

lemma readChar_four (ha : 0xf0 ≤ a.toNat) (ha' : a.toNat ≤ 0xf4) (hb : isSecond a b)
    (hc : isContinuation c) (hd : isContinuation d) :
    readChar a (b :: c :: d :: rest) =
      (some (Char.ofNat (((a.toNat % 8 * 64 + payload b) * 64 + payload c) * 64 + payload d)),
        rest) := by
  have hlead := @not_lt_of_lead a (by omega) ha'
  have h2 : ¬ a < 0xe0 := UInt8.not_lt.mpr (UInt8.le_iff_toNat_le.mpr (by simp; omega))
  have h3 : ¬ a < 0xf0 := UInt8.not_lt.mpr (UInt8.le_iff_toNat_le.mpr ha)
  simp [readChar, hlead, h2, h3, hb, hc, hd]

end ReadChar

/-- The bytes of a character are read as this character. -/
lemma readChar_utf8EncodeChar (c : Char) (rest : List UInt8) :
    ∃ a bs, String.utf8EncodeChar c = a :: bs ∧ readChar a (bs ++ rest) = (some c, rest) := by
  have hvalid : c.toNat < 0xd800 ∨ 0xdfff < c.toNat ∧ c.toNat < 0x110000 := c.valid
  have hchar (n : Nat) (h : n = c.toNat) : (some (Char.ofNat n), rest) = (some c, rest) := by
    rw [h, Char.ofNat_toNat]
  have hval : c.val.toNat = c.toNat := rfl
  have hbyte (n : Nat) (h : n < 256) : (UInt8.ofNat n).toNat = n := UInt8.toNat_ofNat_of_lt' h
  generalize c.toNat = v at hvalid hchar hval
  simp only [String.utf8EncodeChar, hval]
  split_ifs with h1 h2 h3
  · refine ⟨_, _, rfl, ?_⟩
    rw [List.nil_append, readChar_one _ (by rw [hbyte _ (by omega)]; omega)]
    exact hchar _ (hbyte _ (by omega))
  · have ha := hbyte (v / 64 % 32 + 192) (by omega)
    have hb := hbyte (v % 64 + 128) (by omega)
    refine ⟨_, _, rfl, (readChar_two rest ?_ ?_ (isSecond_iff.mpr ?_)).trans (hchar _ ?_)⟩
    all_goals
      simp only [payload, ha, hb]
      omega
  · have ha := hbyte (v / 4096 % 16 + 224) (by omega)
    have hb := hbyte (v / 64 % 64 + 128) (by omega)
    have hc := hbyte (v % 64 + 128) (by omega)
    refine ⟨_, _, rfl, (readChar_three rest ?_ ?_ (isSecond_iff.mpr ?_)
      (isContinuation_iff.mpr ?_)).trans (hchar _ ?_)⟩
    all_goals
      simp only [payload, ha, hb, hc]
      omega
  · have ha := hbyte (v / 262144 % 8 + 240) (by omega)
    have hb := hbyte (v / 4096 % 64 + 128) (by omega)
    have hc := hbyte (v / 64 % 64 + 128) (by omega)
    have hd := hbyte (v % 64 + 128) (by omega)
    refine ⟨_, _, rfl, (readChar_four rest ?_ ?_ (isSecond_iff.mpr ?_) (isContinuation_iff.mpr ?_)
      (isContinuation_iff.mpr ?_)).trans (hchar _ ?_)⟩
    all_goals
      simp only [payload, ha, hb, hc, hd]
      omega

/-- The bytes of a text start with those of its first character. -/
lemma exists_encode_cons (c : Char) (s : List Char) :
    ∃ a rest, encode (c :: s) = a :: rest ∧ readChar a rest = (some c, encode s) := by
  obtain ⟨a, bs, hbytes, hread⟩ := readChar_utf8EncodeChar c (encode s)
  refine ⟨a, bs ++ encode s, ?_, hread⟩
  rw [encode, List.flatMap_cons, hbytes, List.cons_append]
  rfl

/-- The bytes of a text are read as this text. -/
lemma decodeLossy_encode (s : List Char) : decodeLossy (encode s) = s := by
  induction s with
  | nil => rw [encode, List.flatMap_nil, decodeLossy]
  | cons c s ih =>
      obtain ⟨a, rest, hencode, hread⟩ := exists_encode_cons c s
      rw [hencode, decodeLossy, hread, ih, Option.getD_some]

/-- The bytes of a text are well-formed. -/
lemma decode?_encode (s : List Char) : decode? (encode s) = some s := by
  induction s with
  | nil => rw [encode, List.flatMap_nil, decode?]
  | cons c s ih =>
      obtain ⟨a, rest, hencode, hread⟩ := exists_encode_cons c s
      rw [hencode, decode?, hread]
      dsimp only
      rw [ih, Option.map_some]

lemma toNat_ofNat_byte {b : UInt8} (h : b.toNat < 128) : (Char.ofNat b.toNat).toNat = b.toNat := by
  rw [Char.ofNat, dif_pos (Or.inl (by omega) : b.toNat.isValidChar)]
  rfl

/-- A character below the end of ASCII is one byte. -/
lemma utf8EncodeChar_ofNat {b : UInt8} (h : b.toNat < 128) :
    String.utf8EncodeChar (Char.ofNat b.toNat) = [b] := by
  have hval : (Char.ofNat b.toNat).val.toNat = b.toNat := by
    rw [Char.toNat_val, toNat_ofNat_byte h]
  rw [String.utf8EncodeChar, hval, if_pos (by omega), UInt8.ofNat_toNat]

end Text

/-! ### Names between quotes -/

namespace Ir.Name

open Text

lemma hexValue?_upperDigit : ∀ n < 16, hexValue? (upperDigit n) = some n ∧
    upperDigit n ≠ '+' ∧ upperDigit n ≠ '\\' ∧ upperDigit n ≠ '"' ∧ upperDigit n ≠ '\n' := by
  decide

lemma hexByte?_upperHex (b : UInt8) :
    hexByte? (upperDigit (b.toNat / 16)) (upperDigit (b.toNat % 16)) = some b := by
  have hb := b.toNat_lt
  obtain ⟨hhigh, hplus, -⟩ := hexValue?_upperDigit (b.toNat / 16) (by omega)
  obtain ⟨hlow, -⟩ := hexValue?_upperDigit (b.toNat % 16) (by omega)
  rw [hexByte?, if_neg hplus, hhigh, hlow]
  simp only [Option.bind_eq_bind, Option.bind_some, Option.pure_def, Option.some.injEq]
  rw [Nat.div_add_mod, UInt8.ofNat_toNat]

/-- A byte that stands for itself is a printable ASCII character, but neither a quote nor a
backslash. -/
lemma isPlainByte_iff {b : UInt8} :
    isPlainByte b ↔ 0x20 ≤ b.toNat ∧ b.toNat < 0x7f ∧ b.toNat ≠ 0x5c ∧ b.toNat ≠ 0x22 := by
  simp [isPlainByte, UInt8.lt_iff_toNat_lt, UInt8.le_iff_toNat_le, ← UInt8.toNat_inj, and_assoc]

/-- The text between quotes stands for the bytes that it was written for. -/
lemma unescape_flatMap_escapeByte (bs : List UInt8) : unescape (bs.flatMap escapeByte) = bs := by
  induction bs with
  | nil => rfl
  | cons b bs ih =>
      rw [List.flatMap_cons, escapeByte]
      split_ifs with hb
      · rw [isPlainByte_iff] at hb
        have hne : Char.ofNat b.toNat ≠ '\\' := fun h => by
          have := @toNat_ofNat_byte b (by omega) ▸ congrArg Char.toNat h
          exact hb.2.2.1 this
        rw [List.singleton_append, unescape, utf8EncodeChar_ofNat (by omega), ih]
        · rfl
        · exact fun _ h => absurd h hne
        · exact fun _ _ _ h => absurd h hne
      · have hb := b.toNat_lt
        obtain ⟨-, -, hne, -⟩ := hexValue?_upperDigit (b.toNat / 16) (by omega)
        rw [upperHex, List.cons_append, List.cons_append, List.singleton_append, unescape,
          hexByte?_upperHex, ih]
        exact fun h => absurd h hne

/-- **A name between quotes is read back.** -/
theorem decode_escape (name : List Char) : decode (escape name) = String.ofList name := by
  rw [decode, escape, unescape_flatMap_escapeByte, decodeLossy_encode]

/-- Neither a quote nor a line end stands between quotes. -/
lemma ne_of_mem_escape {name : List Char} {c : Char} (hc : c ∈ escape name) :
    c ≠ '"' ∧ c ≠ '\n' := by
  obtain ⟨b, -, hc⟩ := List.mem_flatMap.mp hc
  rw [escapeByte] at hc
  split_ifs at hc with hb
  · obtain rfl := List.mem_singleton.mp hc
    rw [isPlainByte_iff] at hb
    have hnat := @toNat_ofNat_byte b (by omega)
    constructor
    · intro h
      have := hnat ▸ congrArg Char.toNat h
      exact hb.2.2.2 this
    · intro h
      have : b.toNat = 10 := hnat ▸ congrArg Char.toNat h
      omega
  · have hb := b.toNat_lt
    simp only [upperHex, List.mem_cons, List.not_mem_nil, or_false] at hc
    rcases hc with rfl | rfl | rfl
    · decide
    · exact (hexValue?_upperDigit _ (by omega)).2.2.2
    · exact (hexValue?_upperDigit _ (by omega)).2.2.2

end Ir.Name

end CallGuard
