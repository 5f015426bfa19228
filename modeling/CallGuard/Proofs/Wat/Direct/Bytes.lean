import CallGuard.Guard.Error
import CallGuard.Proofs.Ir.Direct.Scanner
import CallGuard.Proofs.Wat.Token

/-!
Tokens of WebAssembly text from its bytes, without a look first: bytes are taken at any offset,
and a depth counts down from any number. An escape goes over one byte, also where a character of
several bytes comes after the backslash, so an offset may be inside of a character for a while.

* `Stop`, `Checked`, `item`, `difference`: what can crash.
* `skipTo`, `skipString`, `skipComment`: the loops over bytes.
* `tokenize`: the tokens by their bytes.
* `tokenize_eq`: the tokens of the text, without a crash.
-/

namespace CallGuard

namespace Text

/-! ### The bytes of a character -/

/-- A character has a first byte, and every other one is none of ASCII. The first byte is the one
of an ASCII character only for this character. -/
lemma exists_first_byte (c : Char) :
    ∃ b high, String.utf8EncodeChar c = b :: high ∧ (∀ b' ∈ high, 0x80 ≤ b'.toNat) ∧
      ∀ k : Char, k.toNat < 0x80 → (b = k.toUInt8 ↔ c = k) := by
  have hvalid : c.toNat < 0xd800 ∨ 0xdfff < c.toNat ∧ c.toNat < 0x110000 := c.valid
  have hval : c.val.toNat = c.toNat := rfl
  have hbyte (n : Nat) (h : n < 256) : (UInt8.ofNat n).toNat = n := UInt8.toNat_ofNat_of_lt' h
  have hkey (k : Char) (hk : k.toNat < 0x80) (n : Nat) (hn : n < 256) :
      UInt8.ofNat n = k.toUInt8 ↔ n = k.toNat := by
    have hmod : k.toUInt8.toNat = k.toNat := Nat.mod_eq_of_lt (by omega : k.toNat < 2 ^ 8)
    rw [← UInt8.toNat_inj, hbyte n hn, hmod]
  have hlarge (n : Nat) (hn : n < 256) (hlow : 0x80 ≤ n) (hc : 0x80 ≤ c.toNat) (k : Char)
      (hk : k.toNat < 0x80) : UInt8.ofNat n = k.toUInt8 ↔ c = k := by
    rw [hkey k hk n hn, ← Char.toNat_inj]
    omega
  simp only [String.utf8EncodeChar, hval]
  split_ifs with h1 h2 h3
  · refine ⟨_, _, rfl, by simp, fun k hk => ?_⟩
    rw [hkey k hk _ (by omega), Char.toNat_inj]
  all_goals
    refine ⟨_, _, rfl, ?_, hlarge _ (by omega) (by omega) (by omega)⟩
    simp only [List.mem_cons, List.not_mem_nil, or_false]
    rintro b (rfl | rfl | rfl) <;> rw [hbyte _ (by omega)] <;> omega

@[simp] lemma encode_nil : encode [] = [] := rfl

lemma encode_append (s t : List Char) : encode (s ++ t) = encode s ++ encode t :=
  List.flatMap_append

lemma length_encode (s : List Char) : (encode s).length = byteLength s := by
  induction s with
  | nil => rfl
  | cons c s ih =>
      rw [byteLength_cons, ← ih, encode, List.flatMap_cons, List.length_append,
        String.length_utf8EncodeChar]
      rfl

end Text

namespace Wat.Direct

open Text
open Ir.Direct (Crash)

/-! ### Programs that can crash -/

/-- Why a program stops: the text is not as it should be, or the program crashes. -/
inductive Stop where
  /-- An error of the text. -/
  | refused (e : GuardError)
  /-- A crash. -/
  | crashed (c : Crash)

/-- Programs that may stop. -/
abbrev Checked := Except Stop

/-- The item of a list at an index. -/
def item {α : Type} (l : List α) (i : Nat) : Checked α :=
  match l[i]? with
  | some a => .ok a
  | none => .error (.crashed (.index i))

/-- What is left of a number. -/
def difference (a b : Nat) : Checked Nat :=
  if b ≤ a then .ok (a - b) else .error (.crashed .underflow)

/-- The end of the rounds that a loop should have. -/
def endless {α : Type} : Checked α :=
  .error (.crashed .endless)

lemma item_of_getElem? {α : Type} {l : List α} {i : Nat} {a : α} (h : l[i]? = some a) :
    item l i = .ok a := by
  rw [item, h]

lemma item_append_cons {α : Type} (s t : List α) (a : α) :
    item (s ++ a :: t) s.length = .ok a :=
  item_of_getElem? (by simp)

/-! ### Loops over bytes -/

/-- Whether a byte is one of some characters of ASCII. -/
def among (ks : List Char) (b : UInt8) : Bool :=
  ks.any (b == ·.toUInt8)

/-- The blanks between tokens. -/
def blanks : List Char :=
  [' ', '\t', '\n', '\x0c', '\r']

/-- The characters that end an atom. -/
def atomEnds : List Char :=
  blanks ++ ['(', ')', '"', ';']

/-- Goes on to the next byte that is one of some characters. -/
def skipTo (ks : List Char) (bytes : List UInt8) : Nat → Nat → Checked Nat
  | 0, _ => endless
  | n + 1, i =>
    if i < bytes.length then do
      let b ← item bytes i
      if among ks b then return i else skipTo ks bytes n (i + 1)
    else return i

/-- Goes on to the quote that ends a string. -/
def skipString (bytes : List UInt8) : Nat → Nat → Checked Nat
  | 0, _ => endless
  | n + 1, i =>
    if i < bytes.length then do
      let b ← item bytes i
      if b = '"'.toUInt8 then return i
      else if b = '\\'.toUInt8 then skipString bytes n (i + 2)
      else skipString bytes n (i + 1)
    else return i

/-- Goes on behind block comments, of which the given number is open. -/
def skipComment (bytes : List UInt8) : Nat → Nat → Nat → Checked Nat
  | 0, _, _ => endless
  | n + 1, depth, i =>
    if i < bytes.length then do
      let b ← item bytes i
      if b = '('.toUInt8 ∧ bytes[i + 1]? = some ';'.toUInt8 then
        skipComment bytes n (depth + 1) (i + 2)
      else if b = ';'.toUInt8 ∧ bytes[i + 1]? = some ')'.toUInt8 then do
        let depth ← difference depth 1
        if depth = 0 then return i + 2 else skipComment bytes n depth (i + 2)
      else skipComment bytes n depth (i + 1)
    else return i

/-- A token by its bytes. -/
structure Span where
  /-- The kind. -/
  kind : TokenKind
  /-- The offset of its first byte. -/
  start : Nat
  /-- The offset after its last byte. -/
  stop : Nat
  deriving DecidableEq, Repr

/-- The tokens from an offset on. -/
def tokenizeFrom (bytes : List UInt8) : Nat → Nat → Checked (List Span)
  | 0, _ => endless
  | n + 1, i =>
    if i < bytes.length then do
      let rounds := bytes.length + 1
      let b ← item bytes i
      if among blanks b then tokenizeFrom bytes n (i + 1)
      else if b = ';'.toUInt8 ∧ bytes[i + 1]? = some ';'.toUInt8 then do
        tokenizeFrom bytes n (← skipTo ['\n'] bytes rounds i)
      else if b = '('.toUInt8 ∧ bytes[i + 1]? = some ';'.toUInt8 then do
        tokenizeFrom bytes n (← skipComment bytes rounds 0 i)
      else if b = '('.toUInt8 then do
        return ⟨.opening, i, i + 1⟩ :: (← tokenizeFrom bytes n (i + 1))
      else if b = ')'.toUInt8 then do
        return ⟨.closing, i, i + 1⟩ :: (← tokenizeFrom bytes n (i + 1))
      else if b = '"'.toUInt8 then do
        let stop := min ((← skipString bytes rounds (i + 1)) + 1) bytes.length
        return ⟨.string, i, stop⟩ :: (← tokenizeFrom bytes n stop)
      else do
        let stop ← skipTo atomEnds bytes rounds (i + 1)
        return ⟨.atom, i, stop⟩ :: (← tokenizeFrom bytes n stop)
    else return []

/-- The tokens of a text by their bytes. -/
def tokenize (text : List Char) : Checked (List Span) :=
  tokenizeFrom (encode text) ((encode text).length + 1) 0

/-! ### Bytes of a text -/

/-- A character and what follows it, by their bytes. -/
lemma among_first {ks : List Char} (hks : ∀ k ∈ ks, k.toNat < 0x80) {c : Char} {b : UInt8}
    (hb : ∀ k : Char, k.toNat < 0x80 → (b = k.toUInt8 ↔ c = k)) :
    among ks b = ks.contains c := by
  rw [Bool.eq_iff_iff, among, List.any_eq_true, List.contains_iff_mem]
  constructor
  · rintro ⟨k, hk, hbk⟩
    rw [(hb k (hks k hk)).mp (eq_of_beq hbk)]
    exact hk
  · intro hc
    exact ⟨c, hc, beq_iff_eq.mpr ((hb c (hks c hc)).mpr rfl)⟩

lemma ne_toUInt8_of_high {b : UInt8} (hb : 0x80 ≤ b.toNat) {k : Char} (hk : k.toNat < 0x80) :
    b ≠ k.toUInt8 := by
  rintro rfl
  have hmod : k.toUInt8.toNat = k.toNat := Nat.mod_eq_of_lt (by omega : k.toNat < 2 ^ 8)
  omega

lemma among_high {ks : List Char} (hks : ∀ k ∈ ks, k.toNat < 0x80) {b : UInt8}
    (hb : 0x80 ≤ b.toNat) : among ks b = false := by
  rw [among, List.any_eq_false]
  exact fun k hk h => ne_toUInt8_of_high hb (hks k hk) (eq_of_beq h)

/-- A text starts with an ASCII character if its bytes do. -/
lemma head?_encode {k : Char} (hk : k.toNat < 0x80) (cs : List Char) :
    (encode cs).head? = some k.toUInt8 ↔ cs.head? = some k := by
  cases cs with
  | nil => simp
  | cons c cs =>
      obtain ⟨b, high, hbytes, -, hb⟩ := exists_first_byte c
      rw [encode, List.flatMap_cons, hbytes, List.cons_append, List.head?_cons, List.head?_cons,
        Option.some_inj, Option.some_inj]
      exact hb k hk

lemma encode_cons {c : Char} {b : UInt8} {high : List UInt8}
    (h : String.utf8EncodeChar c = b :: high) (cs : List Char) :
    encode (c :: cs) = b :: (high ++ encode cs) := by
  rw [encode, List.flatMap_cons, h, List.cons_append]
  rfl

lemma encode_append_utf8EncodeChar (pre : List UInt8) (c : Char) (cs : List Char) :
    pre ++ encode (c :: cs) = pre ++ String.utf8EncodeChar c ++ encode cs := by
  rw [List.append_assoc]
  rfl

lemma append_encode_append (pre : List UInt8) (s t : List Char) :
    pre ++ encode (s ++ t) = pre ++ encode s ++ encode t := by
  rw [encode_append, List.append_assoc]

lemma length_append_encode (pre : List UInt8) (s t : List Char) :
    (pre ++ encode s).length + byteLength t = pre.length + byteLength (s ++ t) := by
  rw [List.length_append, length_encode, byteLength_append, Nat.add_assoc]

lemma byteLength_ascii_cons {c : Char} (h : c.utf8Size = 1) (cs : List Char) :
    byteLength (c :: cs) = byteLength cs + 1 := by
  rw [byteLength_cons, h, Nat.add_comm]

lemma byteLength_eq_of_first {c : Char} {b : UInt8} {high : List UInt8}
    (h : String.utf8EncodeChar c = b :: high) : c.utf8Size = high.length + 1 := by
  rw [← String.length_utf8EncodeChar, h, List.length_cons]

/-- A text starts with two characters, the first of them of ASCII, if its bytes do. -/
lemma mark_iff {c : Char} {b : UInt8} {high : List UInt8}
    (hbytes : String.utf8EncodeChar c = b :: high) {k k' : Char} (hb : b = k.toUInt8 ↔ c = k)
    (hsize : k.utf8Size = 1) (hk' : k'.toNat < 0x80) (cs : List Char) :
    (b = k.toUInt8 ∧ (high ++ encode cs).head? = some k'.toUInt8) ↔
      (c = k ∧ cs.head? = some k') := by
  rw [hb]
  refine and_congr_right fun hc => ?_
  have hlength : high.length + 1 = 1 := by
    rw [← byteLength_eq_of_first hbytes, hc, hsize]
  rw [List.length_eq_zero_iff.mp (Nat.succ.inj hlength), List.nil_append, head?_encode hk']

section Loops

variable {bytes : List UInt8} {α : Type}

/-- A loop that goes on by one byte wherever this is none of ASCII goes over such bytes. -/
lemma pass_high {f : Nat → Nat → Checked α}
    (hstep : ∀ n pre b suf, bytes = pre ++ b :: suf → 0x80 ≤ b.toNat →
      f (n + 1) pre.length = f n (pre.length + 1))
    {high : List UInt8} (hhigh : ∀ b ∈ high, 0x80 ≤ b.toNat) (n : Nat) {pre suf : List UInt8}
    (hbytes : bytes = pre ++ (high ++ suf)) :
    f (high.length + n) pre.length = f n (pre ++ high).length := by
  induction high generalizing pre with
  | nil => simp
  | cons b high ih =>
      obtain ⟨hb, hrest⟩ := List.forall_mem_cons.mp hhigh
      have hone := hstep (high.length + n) pre b (high ++ suf) hbytes hb
      have hmore := @ih hrest (pre ++ [b]) (by rw [hbytes]; simp)
      rw [List.length_append, List.length_singleton] at hmore
      rw [List.length_cons, Nat.add_right_comm, hone, hmore, List.append_assoc]
      rfl

/-- Such a loop goes over a character, if it goes over its first byte. -/
lemma pass_char {f : Nat → Nat → Checked α}
    (hstep : ∀ n pre b suf, bytes = pre ++ b :: suf → 0x80 ≤ b.toNat →
      f (n + 1) pre.length = f n (pre.length + 1))
    {c : Char} {cs : List Char} {pre : List UInt8} (hbytes : bytes = pre ++ encode (c :: cs))
    (hfirst : ∀ n, f (n + 1) pre.length = f n (pre.length + 1)) (n : Nat) :
    f (byteLength (c :: cs) + 1 + n) pre.length =
      f (byteLength cs + 1 + n) (pre ++ String.utf8EncodeChar c).length := by
  obtain ⟨b, high, hc, hhigh, -⟩ := exists_first_byte c
  have hsplit : bytes = (pre ++ [b]) ++ (high ++ encode cs) := by
    rw [hbytes, encode_cons hc]
    simp
  have hfuel : byteLength (c :: cs) + 1 + n = high.length + (byteLength cs + 1 + n) + 1 := by
    rw [byteLength_cons, byteLength_eq_of_first hc]
    omega
  have hpass := pass_high hstep hhigh (byteLength cs + 1 + n) hsplit
  rw [List.length_append, List.length_singleton, List.append_assoc, List.singleton_append,
    ← hc] at hpass
  rw [hfuel, hfirst, hpass]

section SkipTo

variable {ks : List Char} {n i : Nat}

lemma skipTo_end (h : bytes.length ≤ i) : skipTo ks bytes (n + 1) i = .ok i :=
  if_neg (not_lt.mpr h)

lemma skipTo_cons {pre suf : List UInt8} {b : UInt8} (h : bytes = pre ++ b :: suf) :
    skipTo ks bytes (n + 1) pre.length =
      if among ks b then .ok pre.length else skipTo ks bytes n (pre.length + 1) := by
  rw [skipTo, if_pos (by rw [h]; simp), h, item_append_cons]
  rfl

lemma skipTo_high (hks : ∀ k ∈ ks, k.toNat < 0x80) (n : Nat) (pre : List UInt8) (b : UInt8)
    (suf : List UInt8) (h : bytes = pre ++ b :: suf) (hb : 0x80 ≤ b.toNat) :
    skipTo ks bytes (n + 1) pre.length = skipTo ks bytes n (pre.length + 1) := by
  rw [skipTo_cons h, among_high hks hb]
  rfl

/-- The loop goes on to the first of the characters in the text. -/
lemma skipTo_eq (hks : ∀ k ∈ ks, k.toNat < 0x80) (n : Nat) (rest : List Char)
    {pre : List UInt8} (h : bytes = pre ++ encode rest) :
    skipTo ks bytes (byteLength rest + 1 + n) pre.length =
      .ok (pre.length + byteLength (rest.takeWhile (!ks.contains ·))) := by
  induction rest generalizing pre with
  | nil =>
      rw [byteLength_nil, Nat.zero_add, Nat.add_comm]
      exact skipTo_end (by rw [h]; simp)
  | cons c rest ih =>
      obtain ⟨b, high, hbytes, -, hb⟩ := exists_first_byte c
      have hfirst (n : Nat) : skipTo ks bytes (n + 1) pre.length =
          if ks.contains c then .ok pre.length else skipTo ks bytes n (pre.length + 1) := by
        rw [skipTo_cons (by rw [h, encode_cons hbytes]), among_first hks hb]
      cases hc : ks.contains c with
      | true =>
          rw [Nat.add_right_comm, hfirst, hc, if_pos rfl,
            List.takeWhile_cons_of_neg (by rw [hc]; decide)]
          rfl
      | false =>
          have hplain (n : Nat) :
              skipTo ks bytes (n + 1) pre.length = skipTo ks bytes n (pre.length + 1) := by
            rw [hfirst, hc]
            rfl
          rw [pass_char (skipTo_high hks) h hplain n, ih (by rw [h, encode_append_utf8EncodeChar]),
            List.takeWhile_cons_of_pos (by rw [hc]; decide), byteLength_cons, List.length_append,
            String.length_utf8EncodeChar, Nat.add_assoc]

end SkipTo

section SkipString

variable {n i : Nat}

lemma skipString_end (h : bytes.length ≤ i) : skipString bytes (n + 1) i = .ok i :=
  if_neg (not_lt.mpr h)

lemma skipString_cons {pre suf : List UInt8} {b : UInt8} (h : bytes = pre ++ b :: suf) :
    skipString bytes (n + 1) pre.length =
      if b = '"'.toUInt8 then .ok pre.length
      else if b = '\\'.toUInt8 then skipString bytes n (pre.length + 2)
      else skipString bytes n (pre.length + 1) := by
  rw [skipString, if_pos (by rw [h]; simp), h, item_append_cons]
  rfl

lemma skipString_high (n : Nat) (pre : List UInt8) (b : UInt8) (suf : List UInt8)
    (h : bytes = pre ++ b :: suf) (hb : 0x80 ≤ b.toNat) :
    skipString bytes (n + 1) pre.length = skipString bytes n (pre.length + 1) := by
  rw [skipString_cons h, if_neg (ne_toUInt8_of_high hb (by decide)),
    if_neg (ne_toUInt8_of_high hb (by decide))]

/-- The loop goes over an escape: over the first byte of its character, then over the others. -/
lemma skipString_escape (n : Nat) {c : Char} {cs : List Char} {pre : List UInt8}
    (h : bytes = pre ++ encode ('\\' :: c :: cs)) :
    skipString bytes (byteLength ('\\' :: c :: cs) + 1 + n) pre.length =
      skipString bytes (byteLength cs + 1 + (n + 1)) (pre ++ encode ['\\', c]).length := by
  obtain ⟨b, high, hbytes, hhigh, -⟩ := exists_first_byte c
  have hslash : encode ('\\' :: c :: cs) = '\\'.toUInt8 :: b :: (high ++ encode cs) := by
    rw [← encode_cons hbytes]
    rfl
  have hsplit : bytes = (pre ++ ['\\'.toUInt8, b]) ++ (high ++ encode cs) := by
    rw [h, hslash]
    simp
  have hfuel : byteLength ('\\' :: c :: cs) + 1 + n =
      high.length + (byteLength cs + 1 + (n + 1)) + 1 := by
    rw [byteLength_ascii_cons (by decide), byteLength_cons, byteLength_eq_of_first hbytes]
    omega
  have hescape : encode ['\\', c] = ['\\'.toUInt8, b] ++ high := by
    change '\\'.toUInt8 :: encode [c] = _
    rw [encode_cons hbytes, encode_nil, List.append_nil]
    rfl
  have hpass := pass_high skipString_high hhigh (byteLength cs + 1 + (n + 1)) hsplit
  rw [List.append_assoc, ← hescape] at hpass
  rw [hfuel, skipString_cons (by rw [h, hslash]), if_neg (by decide), if_pos rfl, ← hpass,
    List.length_append]
  rfl

/-- A backslash at the end of the text leads behind the end. -/
lemma skipString_last (n : Nat) {pre : List UInt8} (h : bytes = pre ++ encode ['\\']) :
    skipString bytes (byteLength ['\\'] + 1 + n) pre.length = .ok (pre.length + 2) := by
  have hlast : bytes = pre ++ '\\'.toUInt8 :: [] := h
  have hfuel : byteLength ['\\'] + 1 + n = n + 1 + 1 := by
    change 1 + 1 + n = _
    omega
  rw [hfuel, skipString_cons hlast, if_neg (by decide), if_pos rfl]
  exact skipString_end (by rw [hlast]; simp)

/-- The loop goes over a character that is neither a quote nor a backslash. -/
lemma skipString_plain (n : Nat) {c : Char} {cs : List Char} {pre : List UInt8}
    (h : bytes = pre ++ encode (c :: cs)) (hquote : c ≠ '"') (hslash : c ≠ '\\') :
    skipString bytes (byteLength (c :: cs) + 1 + n) pre.length =
      skipString bytes (byteLength cs + 1 + n) (pre ++ String.utf8EncodeChar c).length := by
  obtain ⟨b, high, hbytes, -, hb⟩ := exists_first_byte c
  refine pass_char skipString_high h (fun n => ?_) n
  rw [skipString_cons (by rw [h, encode_cons hbytes]), if_neg ((hb '"' (by decide)).not.mpr hquote),
    if_neg ((hb '\\' (by decide)).not.mpr hslash)]

/-- The loop goes on to the quote that ends the string in the text, or to the end of the text. -/
lemma skipString_eq (n : Nat) (rest : List Char) {pre : List UInt8}
    (h : bytes = pre ++ encode rest) :
    ∃ close, skipString bytes (byteLength rest + 1 + n) pre.length = .ok close ∧
      min (close + 1) bytes.length = pre.length + byteLength (splitString rest).1 := by
  fun_induction splitString rest generalizing pre n with
  | case1 =>
      refine ⟨pre.length, ?_, by rw [h]; simp⟩
      rw [byteLength_nil, Nat.zero_add, Nat.add_comm]
      exact skipString_end (by rw [h]; simp)
  | case2 cs =>
      have hquote : encode ('"' :: cs) = '"'.toUInt8 :: encode cs := rfl
      rw [hquote] at h
      refine ⟨pre.length, ?_, ?_⟩
      · rw [Nat.add_right_comm, skipString_cons h, if_pos rfl]
      · change min (pre.length + 1) bytes.length = pre.length + 1
        rw [h]
        simp
  | case3 c cs ih =>
      have hsplit := h.trans (append_encode_append pre ['\\', c] cs)
      obtain ⟨close, hclose, hmin⟩ := ih (n + 1) hsplit
      refine ⟨close, (skipString_escape n h).trans hclose, ?_⟩
      rw [hmin, length_append_encode]
      rfl
  | case4 c cs hquote hslash ih =>
      have hlength : byteLength (splitString (c :: cs)).1 =
          c.utf8Size + byteLength (splitString cs).1 := by
        rw [splitString.eq_4 c cs hquote hslash]
        rfl
      rw [splitString.eq_4 c cs hquote hslash] at hlength
      by_cases hc : c = '\\'
      · subst hc
        obtain rfl : cs = [] := by
          cases cs with
          | nil => rfl
          | cons d cs => exact absurd rfl (hslash d cs rfl)
        refine ⟨pre.length + 2, skipString_last n h, ?_⟩
        rw [hlength, h, List.length_append, length_encode]
        change min _ (pre.length + 1) = pre.length + 1
        omega
      · obtain ⟨close, hclose, hmin⟩ := ih n (by rw [h, encode_append_utf8EncodeChar])
        refine ⟨close, (skipString_plain n h hquote hc).trans hclose, ?_⟩
        rw [hmin, hlength, List.length_append, String.length_utf8EncodeChar, Nat.add_assoc]

end SkipString

section SkipComment

variable {n depth i : Nat}

lemma skipComment_end (h : bytes.length ≤ i) : skipComment bytes (n + 1) depth i = .ok i :=
  if_neg (not_lt.mpr h)

lemma skipComment_cons {pre suf : List UInt8} {b : UInt8} (h : bytes = pre ++ b :: suf) :
    skipComment bytes (n + 1) depth pre.length =
      if b = '('.toUInt8 ∧ suf.head? = some ';'.toUInt8 then
        skipComment bytes n (depth + 1) (pre.length + 2)
      else if b = ';'.toUInt8 ∧ suf.head? = some ')'.toUInt8 then do
        let depth ← difference depth 1
        if depth = 0 then return pre.length + 2 else skipComment bytes n depth (pre.length + 2)
      else skipComment bytes n depth (pre.length + 1) := by
  have hnext : bytes[pre.length + 1]? = suf.head? := by
    rw [h, List.head?_eq_getElem?, List.getElem?_append_right (by omega)]
    simp
  rw [skipComment, if_pos (by rw [h]; simp), hnext, h, item_append_cons]
  rfl

lemma skipComment_high (depth : Nat) (n : Nat) (pre : List UInt8) (b : UInt8) (suf : List UInt8)
    (h : bytes = pre ++ b :: suf) (hb : 0x80 ≤ b.toNat) :
    skipComment bytes (n + 1) depth pre.length = skipComment bytes n depth (pre.length + 1) := by
  rw [skipComment_cons h, if_neg fun h => ne_toUInt8_of_high hb (by decide) h.1,
    if_neg fun h => ne_toUInt8_of_high hb (by decide) h.1]

/-- The rounds that are left after a mark of two characters. -/
lemma rounds_mark {k k' : Char} (hk : k.utf8Size = 1) (hk' : k'.utf8Size = 1) (cs : List Char)
    (n : Nat) : byteLength (k :: k' :: cs) + 1 + n = byteLength cs + 1 + (n + 1) + 1 := by
  rw [byteLength_ascii_cons hk, byteLength_ascii_cons hk']
  omega

/-- A comment begins inside of the others. -/
lemma skipComment_open (n : Nat) {cs : List Char} {pre : List UInt8}
    (h : bytes = pre ++ encode ('(' :: ';' :: cs)) :
    skipComment bytes (byteLength ('(' :: ';' :: cs) + 1 + n) depth pre.length =
      skipComment bytes (byteLength cs + 1 + (n + 1)) (depth + 1)
        (pre ++ encode ['(', ';']).length := by
  have hmark : bytes = pre ++ '('.toUInt8 :: (';'.toUInt8 :: encode cs) := h
  rw [rounds_mark (by decide) (by decide), skipComment_cons hmark, if_pos ⟨rfl, rfl⟩,
    List.length_append]
  rfl

/-- One of the comments ends. -/
lemma skipComment_close (n : Nat) {cs : List Char} {pre : List UInt8}
    (h : bytes = pre ++ encode (';' :: ')' :: cs)) :
    skipComment bytes (byteLength (';' :: ')' :: cs) + 1 + n) (depth + 1) pre.length =
      if depth = 0 then .ok (pre ++ encode [';', ')']).length
      else skipComment bytes (byteLength cs + 1 + (n + 1)) depth
        (pre ++ encode [';', ')']).length := by
  have hmark : bytes = pre ++ ';'.toUInt8 :: (')'.toUInt8 :: encode cs) := h
  have hdiff : difference (depth + 1) 1 = .ok depth := if_pos (by omega)
  rw [rounds_mark (by decide) (by decide), skipComment_cons hmark,
    if_neg fun hopen => absurd hopen.1 (by decide), if_pos ⟨rfl, rfl⟩, hdiff, List.length_append]
  rfl

/-- The loop goes over a character that is not the first of a mark. -/
lemma skipComment_plain (n : Nat) {c : Char} {cs : List Char} {pre : List UInt8}
    (h : bytes = pre ++ encode (c :: cs)) (hopen : ¬ (c = '(' ∧ cs.head? = some ';'))
    (hclose : ¬ (c = ';' ∧ cs.head? = some ')')) :
    skipComment bytes (byteLength (c :: cs) + 1 + n) depth pre.length =
      skipComment bytes (byteLength cs + 1 + n) depth
        (pre ++ String.utf8EncodeChar c).length := by
  obtain ⟨b, high, hbytes, -, hb⟩ := exists_first_byte c
  refine pass_char (f := fun n i => skipComment bytes n depth i) (skipComment_high depth) h
    (fun n => ?_) n
  rw [skipComment_cons (by rw [h, encode_cons hbytes]),
    if_neg ((mark_iff hbytes (hb _ (by decide)) (by decide) (by decide) cs).not.mpr hopen),
    if_neg ((mark_iff hbytes (hb _ (by decide)) (by decide) (by decide) cs).not.mpr hclose)]

/-- The loop goes on behind the comments in the text. -/
lemma skipComment_eq (n : Nat) (rest : List Char) {pre : List UInt8}
    (h : bytes = pre ++ encode rest) :
    skipComment bytes (byteLength rest + 1 + n) (depth + 1) pre.length =
      .ok (pre.length + byteLength (splitComment (depth + 1) rest).1) := by
  generalize hd : depth + 1 = d
  fun_induction splitComment d rest generalizing pre n depth with
  | case1 => omega
  | case2 d =>
      rw [byteLength_nil, Nat.zero_add, Nat.add_comm]
      exact skipComment_end (by rw [h]; simp)
  | case3 d cs ih =>
      obtain rfl := Nat.succ.inj hd
      have hsplit := h.trans (append_encode_append pre ['(', ';'] cs)
      rw [skipComment_open n h, @ih (depth + 1) (n + 1) _ hsplit rfl, length_append_encode]
      rfl
  | case4 d cs ih =>
      obtain rfl := Nat.succ.inj hd
      have hsplit := h.trans (append_encode_append pre [';', ')'] cs)
      rw [skipComment_close n h]
      cases depth with
      | zero =>
          rw [if_pos rfl, List.length_append, length_encode, splitComment]
          rfl
      | succ depth =>
          rw [if_neg (Nat.succ_ne_zero depth), @ih depth (n + 1) _ hsplit rfl,
            length_append_encode]
          rfl
  | case5 d c cs hopen hclose ih =>
      obtain rfl := Nat.succ.inj hd
      have hmark {k k' : Char} (hnot : ∀ cs', c = k → cs = k' :: cs' → False) :
          ¬ (c = k ∧ cs.head? = some k') := by
        rintro ⟨hfirst, hnext⟩
        obtain ⟨cs', hcs⟩ := List.head?_eq_some_iff.mp hnext
        exact hnot cs' hfirst hcs
      rw [skipComment_plain n h (hmark hopen) (hmark hclose),
        ih n (by rw [h, encode_append_utf8EncodeChar]) rfl, List.length_append,
        String.length_utf8EncodeChar, Nat.add_assoc]
      rfl

end SkipComment

section Tokens

/-- A token by its bytes, without its text. -/
def spanOf (t : Token) : Span :=
  ⟨t.kind, t.start, t.stop⟩

lemma contains_blanks (c : Char) : blanks.contains c = isSpace c := by
  rw [Bool.eq_iff_iff]
  simp [blanks, isSpace, or_assoc]

lemma contains_atomEnds (c : Char) : (!atomEnds.contains c) = isAtomChar c := by
  rw [Bool.eq_iff_iff]
  simp [atomEnds, blanks, isAtomChar, isSpace, and_assoc]

lemma blanks_ascii : ∀ k ∈ blanks, k.toNat < 0x80 := by
  simp [blanks]

lemma atomEnds_ascii : ∀ k ∈ atomEnds, k.toNat < 0x80 := by
  simp [atomEnds, blanks]

/-- The tokens of the text that a piece stands before. -/
def tokenizeAfter (bytes : List UInt8) (n i : Nat) (p : Piece) : Checked (List Span) :=
  match p.kind with
  | some kind => do
    return ⟨kind, i, i + byteLength p.text⟩ :: (← tokenizeFrom bytes n (i + byteLength p.text))
  | none => tokenizeFrom bytes n (i + byteLength p.text)

lemma tokenizeFrom_end {n i : Nat} (h : bytes.length ≤ i) :
    tokenizeFrom bytes (n + 1) i = .ok [] :=
  if_neg (not_lt.mpr h)

lemma utf8Size_of_isSpace {c : Char} (h : isSpace c) : c.utf8Size = 1 := by
  simp only [isSpace, Bool.or_eq_true, beq_iff_eq] at h
  obtain (((rfl | rfl) | rfl) | rfl) | rfl := h <;> rfl

lemma length_of_split {pre : List UInt8} {rest : List Char} (h : bytes = pre ++ encode rest) :
    bytes.length = pre.length + byteLength rest := by
  rw [h, List.length_append, length_encode]

/-- A comment of one line goes on to its end. -/
lemma skipTo_line {cs : List Char} {pre : List UInt8} (h : bytes = pre ++ encode (';' :: cs)) :
    skipTo ['\n'] bytes (bytes.length + 1) pre.length =
      .ok (pre.length + byteLength (';' :: cs.takeWhile (· != '\n'))) := by
  have hfuel : bytes.length + 1 = byteLength (';' :: cs) + 1 + pre.length := by
    rw [length_of_split h]
    omega
  have hline : (';' :: cs).takeWhile (fun c => !List.contains ['\n'] c) =
      ';' :: cs.takeWhile (· != '\n') := by
    rw [List.takeWhile_cons_of_pos (by decide)]
    congr 2
    funext c
    rw [Bool.eq_iff_iff]
    simp
  have hascii : ∀ k ∈ ['\n'], k.toNat < 0x80 := by simp
  rw [hfuel, skipTo_eq hascii pre.length _ h, hline]

/-- A block comment goes on behind its end. -/
lemma skipComment_block {cs : List Char} {pre : List UInt8}
    (h : bytes = pre ++ encode ('(' :: ';' :: cs)) :
    skipComment bytes (bytes.length + 1) 0 pre.length =
      .ok (pre.length + byteLength ('(' :: ';' :: (splitComment 1 cs).1)) := by
  have hfuel : bytes.length + 1 = byteLength ('(' :: ';' :: cs) + 1 + pre.length := by
    rw [length_of_split h]
    omega
  have hsplit := h.trans (append_encode_append pre ['(', ';'] cs)
  rw [hfuel, skipComment_open pre.length h, skipComment_eq _ cs hsplit, length_append_encode]
  rfl

/-- A string goes on behind its quote, or to the end of the text. -/
lemma skipString_quoted {cs : List Char} {pre : List UInt8}
    (h : bytes = pre ++ encode ('"' :: cs)) :
    ∃ close, skipString bytes (bytes.length + 1) (pre.length + 1) = .ok close ∧
      min (close + 1) bytes.length = pre.length + byteLength ('"' :: (splitString cs).1) := by
  have hmark : bytes = (pre ++ ['"'.toUInt8]) ++ encode cs := by
    rw [h, List.append_assoc]
    rfl
  have hfuel : bytes.length + 1 = byteLength cs + 1 + (pre.length + 1) := by
    rw [length_of_split h, byteLength_ascii_cons (by decide)]
    omega
  obtain ⟨close, hclose, hmin⟩ := skipString_eq (pre.length + 1) cs hmark
  rw [List.length_append, List.length_singleton] at hclose hmin
  refine ⟨close, by rw [hfuel, hclose], ?_⟩
  rw [hmin, byteLength_ascii_cons (by decide)]
  omega

/-- An atom goes on to a character that ends it. -/
lemma skipTo_atom {c : Char} {cs : List Char} {pre : List UInt8}
    (h : bytes = pre ++ encode (c :: cs)) :
    skipTo atomEnds bytes (bytes.length + 1) (pre.length + 1) =
      .ok (pre.length + byteLength (c :: cs.takeWhile isAtomChar)) := by
  obtain ⟨b, high, hbytes, hhigh, -⟩ := exists_first_byte c
  have hfirst := byteLength_eq_of_first hbytes
  have hsplit : bytes = (pre ++ [b]) ++ (high ++ encode cs) := by
    rw [h, encode_cons hbytes]
    simp
  have hfuel : bytes.length + 1 = high.length + (byteLength cs + 1 + (pre.length + 1)) := by
    rw [length_of_split h, byteLength_cons, hfirst]
    omega
  have hpass := pass_high (f := skipTo atomEnds bytes) (skipTo_high atomEnds_ascii) hhigh
    (byteLength cs + 1 + (pre.length + 1)) hsplit
  rw [skipTo_eq atomEnds_ascii _ cs (by rw [hsplit]; simp), ← hfuel] at hpass
  simp only [List.length_append, List.length_singleton] at hpass
  have hwhile : cs.takeWhile (!atomEnds.contains ·) = cs.takeWhile isAtomChar := by
    congr 1
    exact funext contains_atomEnds
  rw [hpass, hwhile, byteLength_cons, hfirst]
  congr 1
  omega

/-- One round reads the piece that the text starts with. -/
lemma tokenizeFrom_cons {c : Char} {cs : List Char} {pre : List UInt8} (n : Nat)
    (h : bytes = pre ++ encode (c :: cs)) :
    tokenizeFrom bytes (n + 1) pre.length =
      tokenizeAfter bytes n pre.length (Piece.read c cs).1 := by
  obtain ⟨b, high, hbytes, -, hb⟩ := exists_first_byte c
  have hcons := encode_cons hbytes cs
  have hitem : item bytes pre.length = .ok b := by rw [h, hcons, item_append_cons]
  have hlength : pre.length < bytes.length := by rw [h, hcons]; simp
  have hspace : among blanks b = isSpace c := by
    rw [among_first blanks_ascii hb, contains_blanks]
  have hnext : bytes[pre.length + 1]? = (high ++ encode cs).head? := by
    rw [h, hcons, List.head?_eq_getElem?, List.getElem?_append_right (by omega)]
    simp
  have hline := mark_iff hbytes (hb ';' (by decide)) (by decide) (by decide : ';'.toNat < 0x80) cs
  have hblock := mark_iff hbytes (hb '(' (by decide)) (by decide) (by decide : ';'.toNat < 0x80) cs
  rw [tokenizeFrom, if_pos hlength, hitem]
  change (if among blanks b then _ else _) = _
  rw [hspace, hnext, Piece.read]
  simp only [hline, hblock]
  simp only [hb '(' (by decide), hb ')' (by decide), hb '"' (by decide)]
  split_ifs with hc hline hblock hopen hclose hquote
  · change _ = tokenizeFrom bytes n (pre.length + (c.utf8Size + 0))
    rw [utf8Size_of_isSpace hc]
  · obtain ⟨rfl, -⟩ := hline
    rw [skipTo_line h]
    rfl
  · obtain ⟨rfl, hhead⟩ := hblock
    obtain ⟨cs, rfl⟩ := List.head?_eq_some_iff.mp hhead
    rw [skipComment_block h]
    rfl
  · obtain rfl := hopen
    rfl
  · obtain rfl := hclose
    rfl
  · obtain rfl := hquote
    obtain ⟨close, hclose, hmin⟩ := skipString_quoted h
    rw [hclose]
    change (tokenizeFrom bytes n (min (close + 1) bytes.length) >>= fun spans =>
      pure (⟨.string, pre.length, min (close + 1) bytes.length⟩ :: spans)) = _
    rw [hmin]
    rfl
  · rw [skipTo_atom h]
    rfl

/-- The rounds read the pieces of the text. -/
lemma tokenizeFrom_eq (n : Nat) (rest : List Char) {pre : List UInt8}
    (h : bytes = pre ++ encode rest) :
    tokenizeFrom bytes (byteLength rest + 1 + n) pre.length =
      .ok ((tokensFrom pre.length (pieces rest)).map spanOf) := by
  fun_induction pieces rest generalizing pre n with
  | case1 =>
      rw [byteLength_nil, Nat.zero_add, Nat.add_comm]
      exact tokenizeFrom_end (by rw [h]; simp)
  | case2 c cs ih =>
      have happend := Piece.text_append_rest c cs
      have hne := byteLength_pos (Piece.text_ne_nil c cs)
      have hlength := congrArg byteLength happend
      rw [byteLength_append] at hlength
      have hfuel : byteLength (c :: cs) + 1 + n = byteLength (Piece.read c cs).2 + 1 +
          (byteLength (Piece.read c cs).1.text - 1 + n) + 1 := by
        omega
      have hsplit :
          bytes = pre ++ encode (Piece.read c cs).1.text ++ encode (Piece.read c cs).2 := by
        rw [h, ← happend, encode_append, List.append_assoc]
      have hrest := ih (byteLength (Piece.read c cs).1.text - 1 + n) hsplit
      rw [List.length_append, length_encode] at hrest
      rw [hfuel, tokenizeFrom_cons _ h, tokenizeAfter, hrest, tokensFrom]
      cases (Piece.read c cs).1.kind <;> rfl

/-- **The tokens by their bytes are those of the text, without a crash.** -/
theorem tokenize_eq (text : List Char) : tokenize text = .ok ((tokens text).map spanOf) := by
  have hrounds := @tokenizeFrom_eq (encode text) 0 text [] rfl
  rw [tokenize, length_encode]
  exact hrounds

/-- A backslash before a character of two bytes, in a string without an end. -/
example : tokenize "(\"\\é".toList = .ok [⟨.opening, 0, 1⟩, ⟨.string, 1, 5⟩] := by
  cbv

end Tokens

end Loops

end Wat.Direct

end CallGuard
