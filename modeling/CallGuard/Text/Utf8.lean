/-!
UTF-8 as bytes. Texts are lists of characters; where bytes matter (escapes, byte
offsets, files) they are encoded and decoded here.

* `encode`, `byteLength`: the bytes of a text and their number.
* `readChar`: one step of decoding, which takes a whole character or the longest
  start of one that the bytes hold.
* `decode?`: the text of well-formed bytes.
* `decodeLossy`: the text of any bytes, with one U+FFFD for each ill-formed part.
* `takeBytes`, `dropBytes`: cutting a text at a byte offset.
-/

namespace CallGuard.Text

/-- The bytes of a text. -/
def encode (s : List Char) : List UInt8 :=
  s.flatMap String.utf8EncodeChar

/-- The number of bytes of a text. -/
def byteLength (s : List Char) : Nat :=
  s.foldr (fun c n => c.utf8Size + n) 0

/-- A continuation byte. -/
def isContinuation (b : UInt8) : Bool :=
  0x80 ≤ b && b ≤ 0xbf

/-- The bounds of the byte after a lead byte: overlong forms, surrogates and
code points above U+10FFFF are excluded there. -/
def secondBounds (lead : UInt8) : UInt8 × UInt8 :=
  if lead = 0xe0 then (0xa0, 0xbf)
  else if lead = 0xed then (0x80, 0x9f)
  else if lead = 0xf0 then (0x90, 0xbf)
  else if lead = 0xf4 then (0x80, 0x8f)
  else (0x80, 0xbf)

/-- Whether `b` may follow the lead byte `lead`. -/
def isSecond (lead b : UInt8) : Bool :=
  (secondBounds lead).1 ≤ b && b ≤ (secondBounds lead).2

/-- The low six bits of a continuation byte. -/
def payload (b : UInt8) : Nat :=
  b.toNat % 64

/-- Reads the character that starts with the byte `a`. The result is `none` for
an ill-formed part, which is the longest start of a character that is there, and
comes with the bytes after it. -/
def readChar (a : UInt8) (bs : List UInt8) : Option Char × List UInt8 :=
  if a < 0x80 then (some (Char.ofNat a.toNat), bs)
  else if a < 0xc2 || 0xf4 < a then (none, bs)
  else
    match bs with
    | [] => (none, [])
    | b :: bs₁ =>
      if !isSecond a b then (none, b :: bs₁)
      else if a < 0xe0 then (some (Char.ofNat (a.toNat % 32 * 64 + payload b)), bs₁)
      else
        match bs₁ with
        | [] => (none, [])
        | c :: bs₂ =>
          if !isContinuation c then (none, c :: bs₂)
          else if a < 0xf0 then
            (some (Char.ofNat ((a.toNat % 16 * 64 + payload b) * 64 + payload c)), bs₂)
          else
            match bs₂ with
            | [] => (none, [])
            | d :: bs₃ =>
              if !isContinuation d then (none, d :: bs₃)
              else
                (some (Char.ofNat
                  (((a.toNat % 8 * 64 + payload b) * 64 + payload c) * 64 + payload d)), bs₃)

/-- Reading a character leaves no more bytes than follow its first. -/
theorem length_readChar_le (a : UInt8) (bs : List UInt8) :
    (readChar a bs).2.length ≤ bs.length := by
  unfold readChar
  repeat' split
  all_goals simp <;> omega

/-- The text of well-formed bytes, and `none` for others. -/
def decode? (bs : List UInt8) : Option (List Char) :=
  match bs with
  | [] => some []
  | a :: rest =>
    match (readChar a rest).1 with
    | some c => (decode? (readChar a rest).2).map (c :: ·)
    | none => none
termination_by bs.length
decreasing_by
  have := length_readChar_le a rest
  simp only [List.length_cons]
  omega

/-- The text of any bytes: every ill-formed part reads as one U+FFFD. -/
def decodeLossy (bs : List UInt8) : List Char :=
  match bs with
  | [] => []
  | a :: rest => (readChar a rest).1.getD '\uFFFD' :: decodeLossy (readChar a rest).2
termination_by bs.length
decreasing_by
  have := length_readChar_le a rest
  simp only [List.length_cons]
  omega

/-! ### Cutting at byte offsets -/

/-- The characters of a text that lie within its first `n` bytes. -/
def takeBytes : Nat → List Char → List Char
  | _, [] => []
  | n, c :: cs => if c.utf8Size ≤ n then c :: takeBytes (n - c.utf8Size) cs else []

/-- The text without the characters that lie within its first `n` bytes. -/
def dropBytes : Nat → List Char → List Char
  | _, [] => []
  | n, c :: cs => if c.utf8Size ≤ n then dropBytes (n - c.utf8Size) cs else c :: cs

/-- The two parts of a cut make up the text. -/
theorem takeBytes_append_dropBytes (n : Nat) (s : List Char) :
    takeBytes n s ++ dropBytes n s = s := by
  induction s generalizing n with
  | nil => simp [takeBytes, dropBytes]
  | cons c cs ih =>
    by_cases h : c.utf8Size ≤ n
    · simp [takeBytes, dropBytes, h, ih]
    · simp [takeBytes, dropBytes, h]

/-- The bytes `start` to `stop` of a text. -/
def sliceBytes (s : List Char) (start stop : Nat) : List Char :=
  takeBytes (stop - start) (dropBytes start s)

@[simp] theorem byteLength_nil : byteLength [] = 0 := rfl

@[simp] theorem byteLength_cons (c : Char) (s : List Char) :
    byteLength (c :: s) = c.utf8Size + byteLength s :=
  rfl

@[simp] theorem byteLength_append (s t : List Char) :
    byteLength (s ++ t) = byteLength s + byteLength t := by
  induction s with
  | nil => simp
  | cons c s ih => simp [ih, Nat.add_assoc]

theorem byteLength_pos {s : List Char} (h : s ≠ []) : 0 < byteLength s := by
  obtain ⟨c, s, rfl⟩ := List.exists_cons_of_ne_nil h
  have := c.utf8Size_pos
  rw [byteLength_cons]
  omega

end CallGuard.Text
