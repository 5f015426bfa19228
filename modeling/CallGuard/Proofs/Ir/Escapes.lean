import CallGuard.Proofs.Ir.Direct.Scanner

/-!
What stands between quotes, against the rule for it. By the rule two backslashes are one, a
backslash with two hexadecimal digits is a byte, and any other backslash is itself. The reader
takes a backslash with a plus sign and one digit for a byte too, and does what the rule says
everywhere else.

* `Text.count_decodeLossy`: ASCII characters are read from their own bytes only.
* `Name.literalBytes`, `Name.signedEscapes`: the bytes by the rule, and how often a byte is read
  from a plus sign and a digit.
* `Name.decode_eq_iff`: what is read is what the rule says if there is no plus sign.
* `readString_iff`: strings end at the first quote, and when they have the text by the rule.
-/

namespace CallGuard

/-! ### ASCII among bytes -/

namespace Text

lemma toNat_ofNat_of_isValidChar {n : Nat} (h : n.isValidChar) : (Char.ofNat n).toNat = n := by
  rw [Char.ofNat, dif_pos h]
  rfl

/-- What is read of bytes: a character or none, and the bytes left. None of the bytes that were
taken is one of ASCII, and neither is the character. -/
structure Foreign (bs : List UInt8) (r : Option Char × List UInt8) : Prop where
  taken : ∃ taken, bs = taken ++ r.2 ∧ ∀ b ∈ taken, 0x80 ≤ b.toNat
  char : ∀ c, r.1 = some c → 0x80 ≤ c.toNat

lemma foreign_none (bs : List UInt8) : Foreign bs (none, bs) :=
  ⟨⟨[], rfl, by simp⟩, by simp⟩

lemma foreign_some (bs : List UInt8) {n : Nat} (hn : 0x80 ≤ n) (hvalid : n.isValidChar) :
    Foreign bs (some (Char.ofNat n), bs) := by
  refine ⟨⟨[], rfl, by simp⟩, fun c hc => ?_⟩
  obtain rfl := Option.some.inj hc
  rwa [toNat_ofNat_of_isValidChar hvalid]

lemma Foreign.cons {b : UInt8} {bs : List UInt8} {r : Option Char × List UInt8}
    (hb : 0x80 ≤ b.toNat) (h : Foreign bs r) : Foreign (b :: bs) r := by
  obtain ⟨taken, rfl, htaken⟩ := h.taken
  exact ⟨⟨b :: taken, rfl, List.forall_mem_cons.mpr ⟨hb, htaken⟩⟩, h.char⟩

/-- A character that does not start with a byte of ASCII has none. -/
lemma foreign_readChar {a : UInt8} (ha : 0x80 ≤ a.toNat) (bs : List UInt8) :
    Foreign bs (readChar a bs) := by
  have hnot : ¬ a < 0x80 := fun h => absurd (UInt8.lt_iff_toNat_lt.mp h) (not_lt.mpr ha)
  rw [readChar.eq_def, if_neg hnot]
  split
  · exact foreign_none bs
  rename_i hlead
  simp only [Bool.or_eq_true, decide_eq_true_eq, not_or, UInt8.lt_iff_toNat_lt, not_lt] at hlead
  obtain ⟨hlow, hhigh⟩ := hlead
  change 0xc2 ≤ a.toNat at hlow
  change a.toNat ≤ 0xf4 at hhigh
  split
  · exact foreign_none []
  rename_i b bs
  split
  · exact foreign_none (b :: bs)
  rename_i hb
  simp only [Bool.not_eq_true', Bool.not_eq_false, isSecond_iff] at hb
  refine Foreign.cons hb.1 ?_
  split
  · rename_i h2
    have h2 : a.toNat < 0xe0 := UInt8.lt_iff_toNat_lt.mp h2
    refine foreign_some bs ?_ (.inl ?_) <;> simp only [payload] <;> omega
  rename_i h2
  have h2 : 0xe0 ≤ a.toNat := UInt8.le_iff_toNat_le.mp (UInt8.not_lt.mp h2)
  split
  · exact foreign_none []
  rename_i c bs
  split
  · exact foreign_none (c :: bs)
  rename_i hc
  simp only [Bool.not_eq_true', Bool.not_eq_false, isContinuation_iff] at hc
  refine Foreign.cons hc.1 ?_
  split
  · rename_i h3
    have h3 : a.toNat < 0xf0 := UInt8.lt_iff_toNat_lt.mp h3
    refine foreign_some bs ?_ ?_ <;> simp only [payload, Nat.isValidChar] <;> omega
  rename_i h3
  have h3 : 0xf0 ≤ a.toNat := UInt8.le_iff_toNat_le.mp (UInt8.not_lt.mp h3)
  split
  · exact foreign_none []
  rename_i d bs
  split
  · exact foreign_none (d :: bs)
  rename_i hd
  simp only [Bool.not_eq_true', Bool.not_eq_false, isContinuation_iff] at hd
  refine Foreign.cons hd.1 (foreign_some bs ?_ ?_) <;> simp only [payload, Nat.isValidChar] <;>
    omega

/-- Reading bytes as a text keeps the number of every ASCII character. -/
lemma count_decodeLossy {k : UInt8} (hk : k.toNat < 0x80) (bs : List UInt8) :
    (decodeLossy bs).count (Char.ofNat k.toNat) = bs.count k := by
  have hvalue : (Char.ofNat k.toNat).toNat = k.toNat := toNat_ofNat_byte hk
  fun_induction decodeLossy bs with
  | case1 => rfl
  | case2 a rest ih =>
      rw [List.count_cons, List.count_cons, ih]
      by_cases ha : a.toNat < 0x80
      · have hiff : Char.ofNat a.toNat = Char.ofNat k.toNat ↔ a = k := by
          refine ⟨fun h => UInt8.toNat_inj.mp ?_, fun h => by rw [h]⟩
          rw [← toNat_ofNat_byte ha, h, hvalue]
        simp only [readChar_one rest ha, Option.getD_some, beq_iff_eq, hiff]
      · have hforeign := foreign_readChar (not_lt.mp ha) rest
        obtain ⟨taken, hrest, htaken⟩ := hforeign.taken
        have hcount : taken.count k = 0 := List.count_eq_zero.mpr fun h => by
          have := htaken k h
          omega
        have hak : ¬ a = k := by
          rintro rfl
          exact ha hk
        have hchar : ¬ (readChar a rest).1.getD '\uFFFD' = Char.ofNat k.toNat := by
          intro h
          have hle : 0x80 ≤ ((readChar a rest).1.getD '\uFFFD').toNat := by
            cases hread : (readChar a rest).1 with
            | none => decide
            | some c => exact hforeign.char c hread
          rw [h, hvalue] at hle
          omega
        simp only [beq_iff_eq, hchar, hak, if_false]
        conv_rhs => rw [hrest, List.count_append, hcount, Nat.zero_add]

/-- The bytes of a text have an ASCII character as often as the text has. -/
lemma count_encode {k : UInt8} (hk : k.toNat < 0x80) (s : List Char) :
    (encode s).count k = s.count (Char.ofNat k.toNat) := by
  rw [← count_decodeLossy hk, decodeLossy_encode]

lemma hexValue?_lt {c : Char} {n : Nat} (h : hexValue? c = some n) : n < 16 := by
  rw [hexValue?] at h
  split_ifs at h with hdigit hlower hupper <;> obtain rfl := Option.some.inj h
  · have hle : c.toNat ≤ 57 := (Ir.isDigit_iff.mp hdigit).2
    change c.toNat - 48 < 16
    omega
  · have hle : c.toNat ≤ 102 := Char.le_def.mp hlower.2
    change c.toNat - 97 + 10 < 16
    omega
  · have hle : c.toNat ≤ 70 := Char.le_def.mp hupper.2
    change c.toNat - 65 + 10 < 16
    omega

end Text

namespace Ir

/-! ### Bytes by the rule -/

namespace Name

open Text

/-- The byte that two hexadecimal digits spell. -/
def digitPair? (a b : Char) : Option UInt8 := do
  let high ← hexValue? a
  let low ← hexValue? b
  return UInt8.ofNat (16 * high + low)

/-- The bytes that the text between quotes stands for by the rule: two backslashes are one, a
backslash with two hexadecimal digits is a byte, and any other backslash is itself. -/
def literalBytes : List Char → List UInt8
  | [] => []
  | '\\' :: '\\' :: rest => 0x5c :: literalBytes rest
  | '\\' :: a :: b :: rest =>
    match digitPair? a b with
    | some byte => byte :: literalBytes rest
    | none => 0x5c :: literalBytes (a :: b :: rest)
  | c :: rest => String.utf8EncodeChar c ++ literalBytes rest

/-- How often a byte is read from a backslash, a plus sign and one hexadecimal digit. -/
def signedEscapes : List Char → Nat
  | [] => 0
  | '\\' :: '\\' :: rest => signedEscapes rest
  | '\\' :: a :: b :: rest =>
    match digitPair? a b with
    | some _ => signedEscapes rest
    | none => signedEscapes (a :: b :: rest) + if a = '+' ∧ isHexDigit b then 1 else 0
  | _ :: rest => signedEscapes rest

/-- A byte is read from two digits, or from a plus sign and a digit. -/
lemma hexByte?_eq (a b : Char) :
    hexByte? a b = if a = '+' then (hexValue? b).map UInt8.ofNat else digitPair? a b := by
  rw [hexByte?, digitPair?]
  split_ifs
  · cases hexValue? b <;> simp
  · rfl

lemma ne_plus_of_digitPair? {a b : Char} {byte : UInt8} (h : digitPair? a b = some byte) :
    a ≠ '+' := by
  rintro rfl
  simp [digitPair?, hexValue?] at h

lemma unescape_cons {c : Char} (hc : c ≠ '\\') (rest : List Char) :
    unescape (c :: rest) = String.utf8EncodeChar c ++ unescape rest :=
  unescape.eq_4 c rest (fun _ h _ => hc h) (fun _ _ _ h _ => hc h)

/-- A backslash without two digits is itself, unless a plus sign is taken for a digit. -/
lemma unescape_of_digitPair?_eq_none {a b : Char} (hslash : a = '\\' → False)
    (hnone : digitPair? a b = none) (hsigned : ¬ (a = '+' ∧ isHexDigit b)) (rest : List Char) :
    unescape ('\\' :: a :: b :: rest) = 0x5c :: unescape (a :: b :: rest) := by
  have hbyte : hexByte? a b = none := by
    rw [hexByte?_eq]
    split_ifs with ha
    · have hdigit : ¬ isHexDigit b := fun hb => hsigned ⟨ha, hb⟩
      rw [isHexDigit, Bool.not_eq_true, Option.isSome_eq_false_iff,
        Option.isNone_iff_eq_none] at hdigit
      rw [hdigit, Option.map_none]
    · exact hnone
  rw [unescape.eq_3 a b rest hslash, hbyte]

/-- Without a plus sign that is taken for a digit the bytes are those by the rule. -/
lemma unescape_eq_literalBytes {body : List Char} (h : signedEscapes body = 0) :
    unescape body = literalBytes body := by
  fun_induction literalBytes body with
  | case1 => rfl
  | case2 rest ih =>
      rw [signedEscapes] at h
      rw [unescape, ih h]
  | case3 a b rest hslash byte hbyte ih =>
      rw [signedEscapes.eq_3 a b rest hslash, hbyte] at h
      rw [unescape.eq_3 a b rest hslash, hexByte?_eq, if_neg (ne_plus_of_digitPair? hbyte), hbyte]
      exact congrArg (byte :: ·) (ih h)
  | case4 a b rest hslash hnone ih =>
      rw [signedEscapes.eq_3 a b rest hslash, hnone] at h
      obtain ⟨hrest, hplus⟩ := Nat.add_eq_zero_iff.mp h
      have hsigned : ¬ (a = '+' ∧ isHexDigit b) := fun hab => by simp [hab] at hplus
      rw [unescape_of_digitPair?_eq_none hslash hnone hsigned]
      exact congrArg (0x5c :: ·) (ih hrest)
  | case5 c rest h₁ h₂ ih =>
      rw [signedEscapes.eq_4 c rest h₁ h₂] at h
      rw [unescape.eq_4 c rest h₁ h₂, ih h]

lemma count_utf8EncodeChar (c : Char) :
    (String.utf8EncodeChar c).count 0x2b = if c = '+' then 1 else 0 := by
  have hcount := @count_encode 0x2b (by decide) [c]
  rw [encode, List.flatMap_singleton] at hcount
  rw [hcount, List.count_singleton]
  simp only [beq_iff_eq]
  rfl

/-- A plus sign that is taken for a digit is lost in the byte, which is below sixteen. -/
lemma count_unescape_signed {b : Char} (hb : isHexDigit b) (rest : List Char) :
    (unescape ('+' :: b :: rest)).count 0x2b =
      (unescape ('\\' :: '+' :: b :: rest)).count 0x2b + 1 := by
  obtain ⟨n, hvalue⟩ := Option.isSome_iff_exists.mp hb
  have hslash : b ≠ '\\' := by
    rintro rfl
    simp [hexValue?] at hvalue
  have hplus : b ≠ '+' := by
    rintro rfl
    simp [hexValue?] at hvalue
  have hbyte : UInt8.ofNat n ≠ 0x2b := by
    intro h
    have hn := hexValue?_lt hvalue
    have htoNat : (UInt8.ofNat n).toNat = n := UInt8.toNat_ofNat_of_lt' (by omega : n < 2 ^ 8)
    rw [h] at htoNat
    change 0x2b = n at htoNat
    omega
  have hread : unescape ('\\' :: '+' :: b :: rest) = UInt8.ofNat n :: unescape rest := by
    rw [unescape.eq_3 '+' b rest (by decide), hexByte?_eq, if_pos rfl, hvalue, Option.map_some]
  rw [hread, List.count_cons_of_ne hbyte, unescape_cons (by decide), unescape_cons hslash,
    List.count_append, List.count_append, count_utf8EncodeChar, count_utf8EncodeChar,
    if_pos rfl, if_neg hplus, Nat.zero_add, Nat.add_comm]

/-- Every plus sign that is taken for a digit is missing among the bytes. -/
lemma count_literalBytes (body : List Char) :
    (literalBytes body).count 0x2b = (unescape body).count 0x2b + signedEscapes body := by
  fun_induction literalBytes body with
  | case1 => rfl
  | case2 rest ih =>
      rw [unescape, signedEscapes, List.count_cons, List.count_cons, ih]
      rfl
  | case3 a b rest hslash byte hbyte ih =>
      have hread : unescape ('\\' :: a :: b :: rest) = byte :: unescape rest := by
        rw [unescape.eq_3 a b rest hslash, hexByte?_eq, if_neg (ne_plus_of_digitPair? hbyte), hbyte]
      have hsigned : signedEscapes ('\\' :: a :: b :: rest) = signedEscapes rest := by
        rw [signedEscapes.eq_3 a b rest hslash, hbyte]
      rw [hread, hsigned, List.count_cons, List.count_cons, ih, Nat.add_right_comm]
  | case4 a b rest hslash hnone ih =>
      have hsigned : signedEscapes ('\\' :: a :: b :: rest) =
          signedEscapes (a :: b :: rest) + if a = '+' ∧ isHexDigit b then 1 else 0 := by
        rw [signedEscapes.eq_3 a b rest hslash, hnone]
      rw [hsigned, List.count_cons_of_ne (by decide), ih]
      split_ifs with h
      · obtain ⟨rfl, hb⟩ := h
        rw [count_unescape_signed hb, Nat.add_right_comm, Nat.add_assoc]
      · rw [unescape_of_digitPair?_eq_none hslash hnone h, List.count_cons_of_ne (by decide),
          Nat.add_zero]
  | case5 c rest h₁ h₂ ih =>
      rw [unescape.eq_4 c rest h₁ h₂, signedEscapes.eq_4 c rest h₁ h₂, List.count_append,
        List.count_append, ih, Nat.add_assoc]

/-- What is read between quotes is the text by the rule, unless a plus sign is taken for a
digit. -/
lemma decode_eq_iff {body text : List Char} (h : literalBytes body = encode text) :
    decode body = String.ofList text ↔ signedEscapes body = 0 := by
  rw [decode, String.ofList_inj]
  constructor
  · intro heq
    have hplus : ((decodeLossy (unescape body)).count '+') = (unescape body).count 0x2b :=
      @count_decodeLossy 0x2b (by decide) _
    have htext : (encode text).count 0x2b = text.count '+' := @count_encode 0x2b (by decide) text
    have hcount := count_literalBytes body
    rw [heq] at hplus
    rw [h, htext, hplus] at hcount
    omega
  · intro hsigned
    rw [unescape_eq_literalBytes hsigned, h, decodeLossy_encode]

end Name

/-! ### Strings -/

open Text

lemma splitQuoted?_eq_none {cs : List Char} (h : '"' ∉ cs) : splitQuoted? cs = none := by
  have hsplit := Direct.splitQuoted?_append h []
  rwa [List.append_nil, show splitQuoted? [] = none from rfl] at hsplit

/-- Only a text without a quote ends before the string does. -/
lemma readString_eq_error_iff (token : String → Token) (start cs : List Char) :
    Lexeme.readString token start cs = .error .openString ↔ '"' ∉ cs := by
  rw [Lexeme.readString]
  constructor
  · intro h hmem
    obtain ⟨body, rest, rfl, hbody⟩ := List.eq_append_cons_of_mem hmem
    rw [splitQuoted?_append hbody] at h
    cases h
  · intro h
    rw [splitQuoted?_eq_none h]

/-- **A string ends at the first quote, and a text without one ends before the string does. Where
the bytes by the rule are those of a text, this text is read exactly if no byte is read from a
plus sign and a digit.** -/
theorem readString_iff (token : String → Token) (start before body rest : List Char) (line : Nat)
    (hbody : '"' ∉ body) :
    (∀ cs, Lexeme.readString token start cs = .error .openString ↔ '"' ∉ cs) ∧
      Direct.Runs (Direct.readString line) (before ++ '"' :: body) before
        (.error (.unterminatedString line)) ∧
      Lexeme.readString token start (body ++ '"' :: rest) =
        .ok ⟨token (Name.decode body), start ++ body ++ ['"'], rest⟩ ∧
      Direct.Runs (Direct.readString line) (before ++ '"' :: (body ++ '"' :: rest)) before
        (.ok (Name.decode body, before ++ '"' :: body ++ ['"'])) ∧
      ∀ text, Name.literalBytes body = encode text →
        (Name.decode body = String.ofList text ↔ Name.signedEscapes body = 0) := by
  refine ⟨readString_eq_error_iff token start, ?_, ?_, ?_, fun text => Name.decode_eq_iff⟩
  · have hruns := Direct.runs_readString line (rfl : before ++ '"' :: body = before ++ '"' :: body)
    rwa [splitQuoted?_eq_none hbody] at hruns
  · rw [Lexeme.readString, splitQuoted?_append hbody]
  · have hruns := Direct.runs_readString line
      (rfl : before ++ '"' :: (body ++ '"' :: rest) = before ++ '"' :: (body ++ '"' :: rest))
    rwa [splitQuoted?_append hbody] at hruns

theorem readString_iff_escaped_quotes :
    '"' ∉ ['\\', '2', '2', 'q'] ∧ Name.literalBytes ['\\', '2', '2', 'q'] = encode ['"', 'q'] ∧
      (Name.decode ['\\', '2', '2', 'q'] = "\"q" ↔ Name.signedEscapes ['\\', '2', '2', 'q'] = 0) :=
  have hbody : '"' ∉ ['\\', '2', '2', 'q'] := by decide
  have hbytes : Name.literalBytes ['\\', '2', '2', 'q'] = encode ['"', 'q'] := by decide
  ⟨hbody, hbytes, (readString_iff .globalName ['@', '"'] ['@'] _ [] 1 hbody).2.2.2.2 _ hbytes⟩

/-- A backslash, a plus sign and a digit are themselves by the rule, and one byte when read. -/
theorem readString_signed_escape :
    Name.literalBytes ['\\', '+', 'f'] = encode ['\\', '+', 'f'] ∧
      Lexeme.readString .globalName ['@', '"'] ['\\', '+', 'f', '"'] =
        .ok ⟨.globalName "\x0f", ['@', '"', '\\', '+', 'f', '"'], []⟩ ∧
      "\x0f" ≠ String.ofList ['\\', '+', 'f'] := by
  have hbytes : Name.unescape ['\\', '+', 'f'] = encode ['\x0f'] := by decide
  refine ⟨by decide, ?_, by decide⟩
  rw [Lexeme.readString,
    show splitQuoted? ['\\', '+', 'f', '"'] = some (['\\', '+', 'f'], []) from rfl]
  change Except.ok (Lexeme.mk (.globalName (Name.decode ['\\', '+', 'f'])) _ _) = _
  rw [Name.decode, hbytes, decodeLossy_encode]
  rfl

end Ir

end CallGuard
