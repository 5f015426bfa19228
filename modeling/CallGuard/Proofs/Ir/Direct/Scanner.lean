import CallGuard.Proofs.Ir.Direct.Run
import CallGuard.Proofs.Ir.Places

/-!
Characters by byte offsets, without a look first. The scanner keeps a byte offset and cuts the
text there; a cut that is not between two characters is a crash. Where the offset is the length of
a part of the text, all cuts are good, and moving over characters makes the part longer.

* `splitAt?`: the parts of a text before and behind a byte offset.
* `Scan`: scanners; `ahead`, `textFrom`: the cuts.
* `Runs`: what a scanner gives, and the part of the text that it comes to.
* `runs_nextChar`, `runs_forward`: moving over characters.
* `runs_skipAll`, `runs_skipBlanks`, `runs_readString`: the loops over runs of characters, over
  blanks and comments, and over strings.
-/

namespace CallGuard.Ir.Direct

open Text (byteLength)

/-! ### Cutting at byte offsets -/

/-- The parts of a text before and behind a byte offset. There are none where the offset is inside
of a character or behind the end. -/
def splitAt? : List Char → Nat → Option (List Char × List Char)
  | s, 0 => some ([], s)
  | [], _ + 1 => none
  | c :: s, n + 1 =>
    if c.utf8Size ≤ n + 1 then (splitAt? s (n + 1 - c.utf8Size)).map (consFirst c) else none

lemma splitAt?_append (s t : List Char) : splitAt? (s ++ t) (byteLength s) = some (s, t) := by
  induction s with
  | nil =>
      rw [Text.byteLength_nil, splitAt?]
      rfl
  | cons c s ih =>
      have hpos := c.utf8Size_pos
      obtain ⟨n, hn⟩ : ∃ n, byteLength (c :: s) = n + 1 :=
        ⟨byteLength (c :: s) - 1, by rw [Text.byteLength_cons]; omega⟩
      have hrest : n + 1 - c.utf8Size = byteLength s := by
        rw [Text.byteLength_cons] at hn
        omega
      rw [hn, List.cons_append, splitAt?, if_pos (by rw [Text.byteLength_cons] at hn; omega),
        hrest, ih]
      rfl

/-- A text is cut between two of its characters only. -/
lemma splitAt?_eq_some_iff {s a b : List Char} {n : Nat} :
    splitAt? s n = some (a, b) ↔ s = a ++ b ∧ byteLength a = n := by
  refine ⟨fun h => ?_, ?_⟩
  · fun_induction splitAt? s n generalizing a with
    | case1 s =>
        obtain ⟨rfl, rfl⟩ := Prod.mk.inj (Option.some.inj h)
        exact ⟨rfl, rfl⟩
    | case2 n => simp at h
    | case3 c s n hle ih =>
        obtain ⟨⟨a', b'⟩, hsplit, hcons⟩ := Option.map_eq_some_iff.mp h
        obtain ⟨rfl, rfl⟩ := Prod.mk.inj hcons
        obtain ⟨rfl, hlength⟩ := ih hsplit
        refine ⟨rfl, ?_⟩
        simp only [Text.byteLength_cons, hlength]
        omega
    | case4 c s n hlt => simp at h
  · rintro ⟨rfl, rfl⟩
    exact splitAt?_append a b

/-! ### Scanners -/

/-- Scanners of a text, which keep a place in it. -/
abbrev Scan := ReaderT (List Char) (EStateM Stop Position)

/-- The text from the place on. -/
def ahead : Scan (List Char) := do
  let input ← read
  let p ← get
  match splitAt? input p.offset with
  | some (_, rest) => return rest
  | none => crash (.cut p.offset (byteLength input))

/-- The text from an offset up to the place. -/
def textFrom (start : Nat) : Scan (List Char) := do
  let input ← read
  let p ← get
  match splitAt? input p.offset with
  | some (front, _) =>
    match splitAt? front start with
    | some (_, text) => return text
    | none => crash (.cut start p.offset)
  | none => crash (.cut start p.offset)

/-- The next character. -/
def peekChar : Scan (Option Char) := do
  return (← ahead).head?

/-- The character `n` places ahead. -/
def peekNth (n : Nat) : Scan (Option Char) := do
  return (← ahead)[n]?

/-- Moves over the next character. -/
def nextChar : Scan (Option Char) := do
  match ← peekChar with
  | some c =>
    modify fun p => p.step c
    return some c
  | none => return none

/-! ### Runs -/

variable {α β : Type} {m : Scan α} {f : α → Scan β} {input before : List Char}

/-- The scanner comes from the part `before` of the text to a longer one, with its value, or to
an error of the text. -/
def Runs (m : Scan α) (input before : List Char) : Except ParseError (α × List Char) → Prop
  | .ok (a, after) => m input (.after {} before) = .ok a (.after {} after)
  | .error e => ∃ p, m input (.after {} before) = .error (.refused e) p

lemma Runs.of_eq {m' : Scan α} {input' before' : List Char}
    {r : Except ParseError (α × List Char)} (h : Runs m' input' before' r)
    (heq : m input (.after {} before) = m' input' (.after {} before')) :
    Runs m input before r := by
  cases r with
  | ok r => exact heq.trans h
  | error e =>
      obtain ⟨p, h⟩ := h
      exact ⟨p, heq.trans h⟩

lemma Runs.bind {a : α} {after : List Char} {r : Except ParseError (β × List Char)}
    (hm : Runs m input before (.ok (a, after))) (hf : Runs (f a) input after r) :
    Runs (m >>= f) input before r :=
  hf.of_eq (run_bind hm)

lemma Runs.bind_error {e : ParseError} (hm : Runs m input before (.error e)) (f : α → Scan β) :
    Runs (m >>= f) input before (.error e) := by
  obtain ⟨p, hm⟩ := hm
  exact ⟨p, run_bind_error _ hm⟩

lemma runs_pure (a : α) : Runs (pure a) input before (.ok (a, before)) := rfl

lemma runs_throw (e : ParseError) : Runs (throw (.refused e) : Scan α) input before (.error e) :=
  ⟨_, rfl⟩

lemma runs_read {f : List Char → Scan β} {r : Except ParseError (β × List Char)}
    (h : Runs (f input) input before r) : Runs (read >>= f) input before r :=
  h.of_eq rfl

lemma runs_get {f : Position → Scan β} {r : Except ParseError (β × List Char)}
    (h : Runs (f (.after {} before)) input before r) : Runs (get >>= f) input before r :=
  h.of_eq rfl

/-! ### Single characters -/

variable {rest : List Char}

/-- The place is behind a part of the text. -/
lemma runs_ahead (h : input = before ++ rest) : Runs ahead input before (.ok (rest, before)) := by
  refine runs_read (runs_get ?_)
  rw [Position.offset_after, h, splitAt?_append]
  exact runs_pure rest

lemma runs_textFrom {text : List Char} (h : input = before ++ text ++ rest) :
    Runs (textFrom (byteLength before)) input (before ++ text) (.ok (text, before ++ text)) := by
  refine runs_read (runs_get ?_)
  rw [Position.offset_after, h, splitAt?_append]
  dsimp only
  rw [splitAt?_append]
  exact runs_pure text

lemma runs_peekChar (h : input = before ++ rest) :
    Runs peekChar input before (.ok (rest.head?, before)) :=
  (runs_ahead h).bind (runs_pure _)

lemma runs_peekNth (h : input = before ++ rest) (n : Nat) :
    Runs (peekNth n) input before (.ok (rest[n]?, before)) :=
  (runs_ahead h).bind (runs_pure _)

lemma runs_nextChar_nil (h : input = before) :
    Runs nextChar input before (.ok (none, before)) :=
  (@runs_peekChar input before [] (by simpa using h)).bind (runs_pure _)

lemma runs_nextChar {c : Char} (h : input = before ++ c :: rest) :
    Runs nextChar input before (.ok (some c, before ++ [c])) := by
  refine (runs_peekChar h).bind ?_
  have hstep : (Position.after {} before).step c = .after {} (before ++ [c]) :=
    (Position.after_append_singleton _ _ _).symm
  refine Runs.of_eq (@runs_pure _ input (before ++ [c]) (some c)) ?_
  rw [← hstep]
  rfl

/-- Moves over a number of bytes of the line. -/
def forward (n : Nat) : Scan Unit :=
  modify fun p => { p with offset := p.offset + n }

lemma after_of_oneLine {s : List Char} (hs : '\n' ∉ s) (p : Position) :
    p.after s = { p with offset := p.offset + byteLength s } := by
  induction s generalizing p with
  | nil => rfl
  | cons c s ih =>
      have hc : c ≠ '\n' := fun h => hs (by simp [h])
      have hstep : p.step c = { p with offset := p.offset + c.utf8Size } := if_neg hc
      have hafter : p.after (c :: s) = (p.step c).after s := rfl
      rw [hafter, hstep, ih fun h => hs (List.mem_cons_of_mem c h), Text.byteLength_cons,
        Nat.add_assoc]

lemma runs_forward {s : List Char} (hs : '\n' ∉ s) :
    Runs (forward (byteLength s)) input before (.ok ((), before ++ s)) := by
  rw [Runs, Position.after_append, after_of_oneLine hs]
  rfl

/-! ### Runs of characters -/

/-- Moves over the characters that `p` allows. -/
def skipChars (p : Char → Bool) : Nat → Scan Unit
  | 0 => crash .endless
  | bound + 1 => do
    match ← peekChar with
    | some c =>
      if p c then
        let _ ← nextChar
        skipChars p bound
      else return ()
    | none => return ()

/-- More rounds than the text has characters. -/
def rounds : Scan Nat := do
  return (← read).length + 1

/-- Moves over all characters that `p` allows. -/
def skipAll (p : Char → Bool) : Scan Unit := do
  skipChars p (← rounds)

lemma runs_rounds : Runs rounds input before (.ok (input.length + 1, before)) :=
  runs_read (runs_pure _)

lemma runs_skipChars (p : Char → Bool) {bound : Nat} (h : input = before ++ rest)
    (hbound : rest.length < bound) :
    Runs (skipChars p bound) input before (.ok ((), before ++ rest.takeWhile p)) := by
  induction bound generalizing before rest with
  | zero => exact absurd hbound (Nat.not_lt_zero _)
  | succ bound ih =>
      refine (runs_peekChar h).bind ?_
      cases rest with
      | nil =>
          rw [List.takeWhile_nil, List.append_nil]
          exact runs_pure ()
      | cons c rest =>
          rw [List.takeWhile_cons]
          dsimp only [List.head?_cons]
          cases hc : p c with
          | false =>
              rw [if_neg Bool.false_ne_true, if_neg Bool.false_ne_true, List.append_nil]
              exact runs_pure ()
          | true =>
              rw [if_pos rfl, if_pos rfl, List.append_cons]
              refine (runs_nextChar h).bind (ih (by simp [h]) ?_)
              simpa using hbound

lemma runs_skipAll (p : Char → Bool) (h : input = before ++ rest) :
    Runs (skipAll p) input before (.ok ((), before ++ rest.takeWhile p)) := by
  refine runs_rounds.bind (runs_skipChars p h ?_)
  rw [h, List.length_append]
  omega

/-! ### Blanks and comments -/

/-- Moves over blanks and comments. -/
def skipBlanksFrom : Nat → Scan Unit
  | 0 => crash .endless
  | bound + 1 => do
    match ← peekChar with
    | some c =>
      if Text.isBlank c then
        let _ ← nextChar
        skipBlanksFrom bound
      else if c = ';' then
        skipAll (· != '\n')
        skipBlanksFrom bound
      else return ()
    | none => return ()

/-- Moves over all blanks and comments. -/
def skipBlanks : Scan Unit := do
  skipBlanksFrom (← rounds)

/-- A comment goes to the end of its line, and behind it the gap goes on. -/
lemma splitGap_true (s : List Char) :
    splitGap true s = (s.takeWhile (· != '\n') ++ (splitGap false (s.dropWhile (· != '\n'))).1,
      (splitGap false (s.dropWhile (· != '\n'))).2) := by
  induction s with
  | nil => rfl
  | cons c s ih =>
      by_cases hc : c = '\n'
      · simp [splitGap, hc]
      · simp [splitGap, hc, ih, consFirst]

lemma runs_skipBlanksFrom {bound : Nat} (h : input = before ++ rest)
    (hbound : rest.length < bound) :
    Runs (skipBlanksFrom bound) input before (.ok ((), before ++ (splitGap false rest).1)) := by
  induction bound generalizing before rest with
  | zero => exact absurd hbound (Nat.not_lt_zero _)
  | succ bound ih =>
      refine (runs_peekChar h).bind ?_
      cases rest with
      | nil =>
          rw [splitGap, List.append_nil]
          exact runs_pure ()
      | cons c rest =>
          dsimp only [List.head?_cons]
          rw [splitGap, Bool.false_and, if_neg Bool.false_ne_true]
          cases hblank : Text.isBlank c with
          | true =>
              rw [if_pos rfl, if_pos rfl, consFirst, List.append_cons]
              refine (runs_nextChar h).bind (ih (by simp [h]) ?_)
              simpa using hbound
          | false =>
              rw [if_neg Bool.false_ne_true, if_neg Bool.false_ne_true]
              by_cases hc : c = ';'
              · have hsplit : rest.takeWhile (· != '\n') ++ rest.dropWhile (· != '\n') = rest :=
                  List.takeWhile_append_dropWhile
                have hcomment : (c :: rest).takeWhile (· != '\n') =
                    c :: rest.takeWhile (· != '\n') := by simp [hc]
                have hskip := runs_skipAll (· != '\n') h
                have hlength := List.length_dropWhile_le (· != '\n') rest
                have hmore := @ih (before ++ c :: rest.takeWhile (· != '\n'))
                  (rest.dropWhile (· != '\n')) (by simp [h, hsplit])
                  (by simp only [List.length_cons] at hbound; omega)
                rw [hcomment] at hskip
                rw [if_pos hc, if_pos hc, splitGap_true]
                refine hskip.bind ?_
                simpa [consFirst] using hmore
              · rw [if_neg hc, if_neg hc, List.append_nil]
                exact runs_pure ()

lemma runs_skipBlanks (h : input = before ++ rest) :
    Runs skipBlanks input before (.ok ((), before ++ (splitGap false rest).1)) := by
  refine runs_rounds.bind (runs_skipBlanksFrom h ?_)
  rw [h, List.length_append]
  omega

/-! ### Strings -/

/-- The byte that a text of two hexadecimal digits spells. -/
def hexPair? : List Char → Option UInt8
  | [a, b] => Text.hexByte? a b
  | _ => none

/-- Reads what stands between quotes behind the opening one, after the bytes `bytes`. -/
def readBytesFrom (line : Nat) : Nat → List UInt8 → Scan (List UInt8)
  | 0, _ => crash .endless
  | bound + 1, bytes => do
    match ← nextChar with
    | none => throw (.refused (.unterminatedString line))
    | some c =>
      if c = '"' then return bytes
      else if c = '\\' then
        if (← peekChar) = some '\\' then
          let _ ← nextChar
          readBytesFrom line bound (bytes ++ [0x5c])
        else
          match hexPair? ((← ahead).take 2) with
          | some byte =>
            let _ ← nextChar
            let _ ← nextChar
            readBytesFrom line bound (bytes ++ [byte])
          | none => readBytesFrom line bound (bytes ++ [0x5c])
      else readBytesFrom line bound (bytes ++ String.utf8EncodeChar c)

/-- Reads a string from its opening quote on. -/
def readString (line : Nat) : Scan String := do
  let _ ← nextChar
  let bytes ← readBytesFrom line (← rounds) []
  return String.ofList (Text.decodeLossy bytes)

/-- What reading the text between quotes gives: the bytes `bytes` and those of the text, behind
the closing quote, or an error if there is none. -/
def quotedBytes (line : Nat) (bytes : List UInt8) (before rest : List Char) :
    Except ParseError (List UInt8 × List Char) :=
  match splitQuoted? rest with
  | some (body, _) => .ok (bytes ++ Name.unescape body, before ++ body ++ ['"'])
  | none => .error (.unterminatedString line)

lemma splitQuoted?_append {w : List Char} (hw : '"' ∉ w) (s : List Char) :
    splitQuoted? (w ++ s) = (splitQuoted? s).map fun parts => (w ++ parts.1, parts.2) := by
  have hall : ∀ c ∈ w, (c != '"') = true := fun c hc => by
    rw [bne_iff_ne]
    rintro rfl
    exact hw hc
  rw [splitQuoted?, splitQuoted?, List.dropWhile_append_of_pos hall,
    List.takeWhile_append_of_pos hall]
  split <;> rfl

/-- Characters between quotes that stand for the bytes `later`. -/
lemma quotedBytes_append {w : List Char} (hw : '"' ∉ w) (line : Nat) {bytes later : List UInt8}
    {before rest : List Char}
    (h : ∀ body r, body ++ '"' :: r = rest →
      Name.unescape (w ++ body) = later ++ Name.unescape body) :
    quotedBytes line bytes before (w ++ rest) =
      quotedBytes line (bytes ++ later) (before ++ w) rest := by
  rw [quotedBytes, quotedBytes, splitQuoted?_append hw]
  rcases hsplit : splitQuoted? rest with _ | ⟨body, r⟩
  · rfl
  · simp [h body r (Lexeme.splitQuoted?_append hsplit)]

/-- A quote is no hexadecimal digit. -/
lemma ne_of_hexByte? {a b : Char} {byte : UInt8} (h : Text.hexByte? a b = some byte) :
    a ≠ '\\' ∧ '"' ∉ ['\\', a, b] := by
  have hquote : Text.hexValue? '"' = none := by decide
  have hslash : Text.hexValue? '\\' = none := by decide
  refine ⟨?_, ?_⟩
  · rintro rfl
    simp [Text.hexByte?, hslash] at h
  · intro hmem
    simp only [List.mem_cons, List.not_mem_nil, or_false] at hmem
    rcases hmem with hmem | rfl | rfl
    · exact absurd hmem (by decide)
    · simp [Text.hexByte?, hquote] at h
    · simp only [Text.hexByte?, hquote] at h
      split at h <;> simp at h

/-- A backslash that starts no escape stands for itself. -/
lemma unescape_backslash {body : List Char} (hne : body.head? ≠ some '\\')
    (hhex : hexPair? (body.take 2) = none) :
    Name.unescape ('\\' :: body) = [0x5c] ++ Name.unescape body := by
  match body, hne, hhex with
  | [], _, _ => rfl
  | [a], hne, _ =>
      have ha (h : a = '\\') : False := hne (by rw [h]; rfl)
      exact Name.unescape.eq_4 '\\' [a] (fun _ _ h => ha (List.cons.inj h).1)
        (fun _ _ _ _ h => by simp at h)
  | a :: b :: r, hne, hhex =>
      have hnone : Text.hexByte? a b = none := hhex
      rw [Name.unescape.eq_3 a b r fun ha => hne (by rw [ha]; rfl), hnone]
      rfl

/-- What does not start an escape before a quote does not start one with it either. -/
lemma hexPair?_take_eq_none {body r : List Char} (h : hexPair? ((body ++ '"' :: r).take 2) = none) :
    hexPair? (body.take 2) = none := by
  match body with
  | [] => rfl
  | [a] => rfl
  | a :: b :: body => exact h

section QuotedBytes

variable (line : Nat) (bytes : List UInt8) (before rest : List Char)

lemma quotedBytes_nil : quotedBytes line bytes before [] = .error (.unterminatedString line) := rfl

lemma quotedBytes_quote :
    quotedBytes line bytes before ('"' :: rest) = .ok (bytes, before ++ ['"']) := by
  have hsplit : splitQuoted? ('"' :: rest) = some ([], rest) := by simp [splitQuoted?]
  rw [quotedBytes, hsplit]
  simp [Name.unescape]

lemma quotedBytes_slashes :
    quotedBytes line bytes before ('\\' :: '\\' :: rest) =
      quotedBytes line (bytes ++ [0x5c]) (before ++ ['\\'] ++ ['\\']) rest := by
  rw [List.append_assoc]
  exact @quotedBytes_append ['\\', '\\'] (by decide) line bytes [0x5c] before rest
    fun body _ _ => Name.unescape.eq_2 body

variable {rest}

lemma quotedBytes_slash (hhead : rest.head? ≠ some '\\') (hhex : hexPair? (rest.take 2) = none) :
    quotedBytes line bytes before ('\\' :: rest) =
      quotedBytes line (bytes ++ [0x5c]) (before ++ ['\\']) rest := by
  refine @quotedBytes_append ['\\'] (by decide) line bytes [0x5c] before rest fun body r hbody => ?_
  subst hbody
  refine unescape_backslash (fun h => hhead ?_) (hexPair?_take_eq_none hhex)
  rw [List.head?_append, show body.head? = _ from h]
  rfl

lemma quotedBytes_hex {a b : Char} {byte : UInt8} (h : Text.hexByte? a b = some byte) :
    quotedBytes line bytes before ('\\' :: a :: b :: rest) =
      quotedBytes line (bytes ++ [byte]) (before ++ ['\\'] ++ [a] ++ [b]) rest := by
  obtain ⟨hne, hnot⟩ := ne_of_hexByte? h
  rw [List.append_assoc, List.append_assoc]
  refine @quotedBytes_append ['\\', a, b] hnot line bytes [byte] before rest fun body _ _ => ?_
  have hescape : Name.unescape ('\\' :: a :: b :: body) = byte :: Name.unescape body := by
    rw [Name.unescape.eq_3 a b body hne, h]
  exact hescape

lemma quotedBytes_char {c : Char} (hquote : c ≠ '"') (hslash : c ≠ '\\') :
    quotedBytes line bytes before (c :: rest) =
      quotedBytes line (bytes ++ String.utf8EncodeChar c) (before ++ [c]) rest :=
  @quotedBytes_append [c] (by simpa using hquote.symm) line bytes _ before rest
    fun body _ _ => Name.unescape.eq_4 c body
      (fun _ hc _ => hslash hc) (fun _ _ _ hc _ => hslash hc)

end QuotedBytes

lemma runs_readBytesFrom (line : Nat) {bound : Nat} (bytes : List UInt8)
    (h : input = before ++ rest) (hbound : rest.length < bound) :
    Runs (readBytesFrom line bound bytes) input before (quotedBytes line bytes before rest) := by
  induction bound generalizing before rest bytes with
  | zero => exact absurd hbound (Nat.not_lt_zero _)
  | succ bound ih =>
      cases rest with
      | nil =>
          rw [quotedBytes_nil]
          exact (runs_nextChar_nil (by simpa using h)).bind (runs_throw _)
      | cons c rest =>
          rw [List.length_cons] at hbound
          refine (runs_nextChar h).bind ?_
          rw [List.append_cons] at h
          dsimp only
          by_cases hquote : c = '"'
          · rw [if_pos hquote, hquote, quotedBytes_quote]
            exact runs_pure bytes
          rw [if_neg hquote]
          by_cases hslash : c = '\\'
          · rw [if_pos hslash]
            subst hslash
            refine (runs_peekChar h).bind ?_
            by_cases hhead : rest.head? = some '\\'
            · obtain ⟨rest, rfl⟩ := List.head?_eq_some_iff.mp hhead
              rw [List.length_cons] at hbound
              rw [if_pos hhead, quotedBytes_slashes]
              refine (runs_nextChar h).bind ?_
              rw [List.append_cons] at h
              exact ih _ h (by omega)
            rw [if_neg hhead]
            refine (runs_ahead h).bind ?_
            cases hhex : hexPair? (rest.take 2) with
            | none =>
                rw [quotedBytes_slash line bytes before hhead hhex]
                exact ih _ h (by omega)
            | some byte =>
                obtain ⟨a, b, rest, rfl⟩ : ∃ a b r, rest = a :: b :: r := by
                  match rest, hhex with
                  | a :: b :: rest, _ => exact ⟨a, b, rest, rfl⟩
                simp only [List.length_cons] at hbound
                rw [quotedBytes_hex line bytes before hhex]
                refine (runs_nextChar h).bind ?_
                rw [List.append_cons] at h
                refine (runs_nextChar h).bind ?_
                rw [List.append_cons] at h
                exact ih _ h (by omega)
          · rw [if_neg hslash, quotedBytes_char line bytes before hquote hslash]
            exact ih _ h (by omega)

lemma runs_readString (line : Nat) (h : input = before ++ '"' :: rest) :
    Runs (readString line) input before
      (match splitQuoted? rest with
      | some (body, _) => .ok (Name.decode body, before ++ '"' :: body ++ ['"'])
      | none => .error (.unterminatedString line)) := by
  have hquote : input = before ++ ['"'] ++ rest := by rw [h, List.append_cons]
  have hbytes := @runs_readBytesFrom _ _ _ line (input.length + 1) [] hquote
    (by rw [h]; simp; omega)
  refine (runs_nextChar h).bind (runs_rounds.bind ?_)
  rw [quotedBytes] at hbytes
  cases hsplit : splitQuoted? rest with
  | none =>
      rw [hsplit] at hbytes
      exact hbytes.bind_error _
  | some parts =>
      rw [hsplit] at hbytes
      refine hbytes.bind ?_
      simpa [Name.decode] using runs_pure (Name.decode parts.1)

end CallGuard.Ir.Direct
