import CallGuard.Proofs.Ir.Direct.Scanner

/-!
Tokens by byte offsets, without a look first. A name or a numeral is the text between the offset
where it starts and the one where it ends; two marks of known length are gone over by adding it
to the offset.

* `runs_name`, `runs_readNumber`, `runs_labelOr`: the parts of tokens.
* `runs_readToken`: one token.
* `scan_eq`: every text is read as tokens without a crash, or refused.
-/

namespace CallGuard.Ir.Direct

open Text (byteLength)

variable {input before rest : List Char}

/-- The token of a lexeme behind the text `before` and the text up to its end, or the error. -/
def found (before : List Char) : Except LexFault Lexeme → Except ParseError (Token × List Char)
  | .ok l => .ok (l.token, before ++ l.text)
  | .error fault => .error (fault.at (.after {} before))

/-! ### Names -/

/-- Reads a name without quotes. -/
def readBareName : Scan String := do
  let start := (← get).offset
  skipAll isWordChar
  return String.ofList (← textFrom start)

/-- Reads the name after a sigil. -/
def readName (line : Nat) : Scan String := do
  if (← peekChar) = some '"' then readString line else readBareName

lemma runs_readBareName (h : input = before ++ rest) :
    Runs readBareName input before (.ok (String.ofList (rest.takeWhile isWordChar),
      before ++ rest.takeWhile isWordChar)) := by
  have hcut : input = before ++ rest.takeWhile isWordChar ++ rest.dropWhile isWordChar := by
    rw [List.append_assoc, List.takeWhile_append_dropWhile, h]
  refine runs_get ((runs_skipAll isWordChar h).bind ?_)
  rw [Position.offset_after]
  exact (runs_textFrom hcut).bind (runs_pure _)

section Start

-- the characters of the token that are gone over
variable {start : List Char} (token : String → Token)

lemma runs_word (h : input = before ++ start ++ rest) :
    Runs (do return token (← readBareName)) input (before ++ start)
      (found before (.ok (Lexeme.readWord token start rest))) := by
  refine (runs_readBareName h).bind ?_
  rw [found, Lexeme.readWord, ← List.append_assoc]
  exact runs_pure _

lemma runs_string (h : input = before ++ start ++ '"' :: rest) :
    Runs (do return token (← readString (Position.after {} before).line)) input (before ++ start)
      (found before (Lexeme.readString token (start ++ ['"']) rest)) := by
  have hread := runs_readString (Position.after {} before).line h
  rw [Lexeme.readString]
  cases hsplit : splitQuoted? rest with
  | none =>
      rw [hsplit] at hread
      exact hread.bind_error _
  | some parts =>
      rw [hsplit] at hread
      refine hread.bind ?_
      simpa [found] using runs_pure (token (Name.decode parts.1))

lemma runs_name {sigil : Char} (h : input = before ++ [sigil] ++ rest) :
    Runs (do return token (← readName (Position.after {} before).line)) input (before ++ [sigil])
      (found before (Lexeme.readName token sigil rest)) := by
  rw [readName, bind_assoc]
  refine (runs_peekChar h).bind ?_
  by_cases hquote : rest.head? = some '"'
  · obtain ⟨rest, rfl⟩ := List.head?_eq_some_iff.mp hquote
    rw [if_pos hquote]
    exact runs_string token h
  · have hword : Lexeme.readName token sigil rest = .ok (Lexeme.readWord token [sigil] rest) :=
      Lexeme.readName.eq_2 token sigil rest fun r hr => hquote (by rw [hr]; rfl)
    rw [if_neg hquote, hword]
    exact runs_word token h

end Start

/-! ### Labels -/

/-- A label if there is a colon, and another token otherwise. -/
def labelOr (name : String) (other : Token) : Scan Token := do
  if (← peekChar) = some ':' then
    let _ ← nextChar
    return .label name
  else return other

lemma runs_labelOr {l : Lexeme} (h : input = before ++ l.text ++ l.rest) :
    Runs (labelOr l.token.text l.token) input (before ++ l.text)
      (found before (.ok l.orLabel)) := by
  refine (runs_peekChar h).bind ?_
  by_cases hcolon : l.rest.head? = some ':'
  · obtain ⟨rest, hrest⟩ := List.head?_eq_some_iff.mp hcolon
    have hlabel : l.orLabel = ⟨.label l.token.text, l.text ++ [':'], rest⟩ := by
      simp only [Lexeme.orLabel, hrest]
    rw [hrest] at h
    rw [if_pos hcolon, hlabel, found, ← List.append_assoc]
    exact (runs_nextChar h).bind (runs_pure _)
  · have hsame : l.orLabel = l := by
      rw [Lexeme.orLabel.eq_def]
      split
      · rename_i hrest
        exact absurd (by rw [hrest]; rfl) hcolon
      · rfl
    rw [if_neg hcolon, hsame]
    exact runs_pure _

/-! ### Numerals -/

/-- Whether a character is the sign of a numeral. -/
def isSign (c : Char) : Bool :=
  c == '-' || c == '+'

lemma not_isSign_of_isDigit {c : Char} (hc : c.isDigit = true) : isSign c = false := by
  rw [isSign, Bool.or_eq_false_iff, beq_eq_false_iff_ne, beq_eq_false_iff_ne]
  refine ⟨?_, ?_⟩ <;> rintro rfl <;> exact absurd hc (by decide)

/-- Moves over a sign. -/
def skipSign : Scan Unit := do
  if (← peekChar).any isSign then
    let _ ← nextChar
    return ()
  else return ()

/-- Moves over digits, points and exponent marks; says whether there was a point or mark. -/
def skipNumeral : Nat → Bool → Scan Bool
  | 0, _ => crash .endless
  | bound + 1, float => do
    match ← peekChar with
    | some c =>
      if c.isDigit then
        let _ ← nextChar
        skipNumeral bound float
      else if c == '.' || c == 'e' || c == 'E' then
        let _ ← nextChar
        skipSign
        skipNumeral bound true
      else return float
    | none => return float

/-- Reads a numeral with its sign. -/
def readNumber : Scan Token := do
  let start := (← get).offset
  skipSign
  if (← ahead).take 2 = ['0', 'x'] then
    forward 2
    skipAll isHexNumeralChar
    return .float (String.ofList (← textFrom start))
  else
    let float ← skipNumeral (← rounds) false
    let text := String.ofList (← textFrom start)
    if float then return .float text else labelOr text (.integer text)

lemma runs_skipSign {c : Char} (hc : isSign c = true) (h : input = before ++ c :: rest) :
    Runs skipSign input before (.ok ((), before ++ [c])) := by
  refine (runs_peekChar h).bind ?_
  rw [if_pos (by simpa using hc)]
  exact (runs_nextChar h).bind (runs_pure ())

lemma runs_skipSign_none (hrest : rest.head?.any isSign = false) (h : input = before ++ rest) :
    Runs skipSign input before (.ok ((), before)) := by
  refine (runs_peekChar h).bind ?_
  rw [if_neg (by simp [hrest])]
  exact runs_pure ()

section Numeral

variable {c : Char} {bound : Nat} {float : Bool}

lemma runs_skipNumeral_nil (h : input = before) :
    Runs (skipNumeral (bound + 1) float) input before (.ok (float, before)) :=
  (@runs_peekChar input before [] (by simpa using h)).bind (runs_pure _)

lemma runs_skipNumeral_mark {r : Except ParseError (Bool × List Char)} (hdigit : ¬ c.isDigit = true)
    (hmark : (c == '.' || c == 'e' || c == 'E') = true) (h : input = before ++ c :: rest)
    (hr : Runs (do skipSign; skipNumeral bound true) input (before ++ [c]) r) :
    Runs (skipNumeral (bound + 1) float) input before r := by
  refine (runs_peekChar h).bind ?_
  dsimp only [List.head?_cons]
  rw [if_neg hdigit, if_pos hmark]
  exact (runs_nextChar h).bind hr

end Numeral

/-- A round takes a digit, or a mark with the sign behind it. -/
lemma runs_skipNumeral {bound : Nat} (float : Bool) (h : input = before ++ rest)
    (hbound : rest.length < bound) :
    Runs (skipNumeral bound float) input before
      (.ok (float || (splitNumeral rest).2.1, before ++ (splitNumeral rest).1)) := by
  obtain ⟨bound, rfl⟩ : ∃ k, bound = k + 1 := ⟨bound - 1, by omega⟩
  fun_induction splitNumeral rest generalizing before bound float with
  | case1 => simpa using @runs_skipNumeral_nil input before bound float (by simpa using h)
  | case2 c cs hdigit ih =>
      rw [List.length_cons] at hbound
      obtain ⟨bound, rfl⟩ : ∃ k, bound = k + 1 := ⟨bound - 1, by omega⟩
      refine (runs_peekChar h).bind ?_
      dsimp only [List.head?_cons]
      rw [if_pos hdigit]
      refine (runs_nextChar h).bind ?_
      rw [List.append_cons] at h
      simpa [consFirst] using ih float h bound (by omega)
  | case3 c hdigit hmark =>
      rw [List.length_singleton] at hbound
      obtain ⟨bound, rfl⟩ : ∃ k, bound = k + 1 := ⟨bound - 1, by omega⟩
      have hend : input = before ++ [c] ++ [] := by rw [h, List.append_nil]
      refine runs_skipNumeral_mark hdigit hmark h ((runs_skipSign_none rfl hend).bind ?_)
      rw [Bool.or_true]
      exact runs_skipNumeral_nil h
  | case4 c hdigit hmark s cs hsign ih =>
      simp only [List.length_cons] at hbound
      obtain ⟨bound, rfl⟩ : ∃ k, bound = k + 1 := ⟨bound - 1, by omega⟩
      refine runs_skipNumeral_mark hdigit hmark h ?_
      rw [List.append_cons] at h
      refine (runs_skipSign hsign h).bind ?_
      rw [List.append_cons] at h
      simpa [consFirst, markFloat] using ih true h bound (by omega)
  | case5 c hdigit hmark s cs hsign ih =>
      rw [List.length_cons] at hbound
      obtain ⟨bound, rfl⟩ : ∃ k, bound = k + 1 := ⟨bound - 1, by omega⟩
      refine runs_skipNumeral_mark hdigit hmark h ?_
      rw [List.append_cons] at h
      refine (runs_skipSign_none (by simpa [isSign] using hsign) h).bind ?_
      simpa [consFirst, markFloat] using ih true h bound (by omega)
  | case6 c cs hdigit hmark =>
      refine (runs_peekChar h).bind ?_
      dsimp only [List.head?_cons]
      rw [if_neg hdigit, if_neg hmark]
      simpa using runs_pure float

lemma readNumeral_hex (sign digits : List Char) :
    Lexeme.readNumeral sign (['0', 'x'] ++ digits) =
      ⟨.float (String.ofList (sign ++ (['0', 'x'] ++ digits.takeWhile isHexNumeralChar))),
        sign ++ (['0', 'x'] ++ digits.takeWhile isHexNumeralChar),
        digits.dropWhile isHexNumeralChar⟩ := rfl

lemma readNumeral_decimal {cs : List Char} (h : cs.take 2 ≠ ['0', 'x']) (sign : List Char) :
    Lexeme.readNumeral sign cs =
      if (splitNumeral cs).2.1 then
        ⟨.float (String.ofList (sign ++ (splitNumeral cs).1)), sign ++ (splitNumeral cs).1,
          (splitNumeral cs).2.2⟩
      else Lexeme.orLabel ⟨.integer (String.ofList (sign ++ (splitNumeral cs).1)),
        sign ++ (splitNumeral cs).1, (splitNumeral cs).2.2⟩ := by
  rw [Lexeme.readNumeral.eq_def]
  split
  · exact absurd rfl h
  · rfl

/-- The text of a numeral, from its sign on. -/
lemma runs_readNumber {sign : List Char}
    (hsign : Runs skipSign input before (.ok ((), before ++ sign)))
    (h : input = before ++ sign ++ rest) :
    Runs readNumber input before (found before (.ok (Lexeme.readNumeral sign rest))) := by
  refine runs_get (hsign.bind ((runs_ahead h).bind ?_))
  rw [Position.offset_after]
  by_cases hhex : rest.take 2 = ['0', 'x']
  · obtain ⟨digits, rfl⟩ : ∃ s, rest = ['0', 'x'] ++ s :=
      ⟨rest.drop 2, by rw [← hhex, List.take_append_drop]⟩
    rw [← List.append_assoc] at h
    have hcut : input = before ++ (sign ++ (['0', 'x'] ++ digits.takeWhile isHexNumeralChar)) ++
        digits.dropWhile isHexNumeralChar := by
      simpa [List.takeWhile_append_dropWhile] using h
    rw [if_pos hhex, readNumeral_hex, found]
    refine (@runs_forward input (before ++ sign) ['0', 'x'] (by decide)).bind ?_
    refine (runs_skipAll isHexNumeralChar h).bind ?_
    rw [List.append_assoc, List.append_assoc]
    exact (runs_textFrom hcut).bind (runs_pure _)
  · have hcut : input = before ++ (sign ++ (splitNumeral rest).1) ++ (splitNumeral rest).2.2 := by
      simpa [Lexeme.splitNumeral_append] using h
    rw [if_neg hhex, readNumeral_decimal hhex]
    refine runs_rounds.bind ((runs_skipNumeral false h ?_).bind ?_)
    · rw [h, List.length_append]
      omega
    rw [Bool.false_or, List.append_assoc]
    refine (runs_textFrom hcut).bind ?_
    cases (splitNumeral rest).2.1 with
    | true => exact runs_pure _
    | false => exact @runs_labelOr input before ⟨.integer _, _, _⟩ hcut

/-! ### One token -/

/-- Whether three points are next. -/
def startsEllipsis (c : Char) : Scan Bool := do
  if c = '.' then return (← ahead).take 3 == ['.', '.', '.'] else return false

/-- Whether a string after the letter `c` is next. -/
def startsByteString (c : Char) : Scan Bool := do
  if c = 'c' then return (← peekNth 1) == some '"' else return false

/-- Whether a numeral is next. -/
def startsNumeral (c : Char) : Scan Bool := do
  if c.isDigit then return true
  else if isSign c then return (← peekNth 1).any Char.isDigit
  else return false

/-- Reads the token after an exclamation mark. -/
def readBang (line : Nat) : Scan Token := do
  match ← peekChar with
  | some c =>
    if isWordChar c then return .metadata (← readBareName)
    else if c = '"' then return .metadata (← readString line)
    else return .bang
  | none => return .bang

/-- Reads the token that starts with the character `c`. -/
def readToken (line column : Nat) (c : Char) : Scan Token := do
  match punctuation? c with
  | some token =>
    let _ ← nextChar
    return token
  | none =>
    if c = '@' then
      let _ ← nextChar
      return .globalName (← readName line)
    else if c = '%' then
      let _ ← nextChar
      return .localName (← readName line)
    else if c = '$' then
      let _ ← nextChar
      return .comdat (← readName line)
    else if c = '#' then
      let _ ← nextChar
      return .hash (← readBareName)
    else if c = '^' then
      let _ ← nextChar
      return .summary (← readBareName)
    else if c = '!' then
      let _ ← nextChar
      readBang line
    else if c = '"' then
      let s ← readString line
      labelOr s (.string s)
    else if ← startsEllipsis c then
      forward 3
      return .ellipsis
    else if ← startsByteString c then
      let _ ← nextChar
      return .string (← readString line)
    else if ← startsNumeral c then readNumber
    else if c.isAlpha || c == '_' || c == '.' then
      let name ← readBareName
      labelOr name (.word name)
    else throw (.refused (.unexpectedChar line column c))

section Token

variable {c : Char}

/-- A test of the text decides between two scanners as the condition `Q` decides between what is
found. -/
lemma runs_ite {α ρ : Type} {P Q : Prop} [Decidable P] [Decidable Q] {m m' : Scan α} {a b : ρ}
    (g : ρ → Except ParseError (α × List Char)) (hiff : P ↔ Q) (h : Q → Runs m input before (g a))
    (h' : ¬ Q → Runs m' input before (g b)) :
    Runs (if P then m else m') input before (g (if Q then a else b)) := by
  by_cases hQ : Q
  · rw [if_pos (hiff.mpr hQ), if_pos hQ]
    exact h hQ
  · rw [if_neg (mt hiff.mp hQ), if_neg hQ]
    exact h' hQ

lemma runs_startsEllipsis (h : input = before ++ c :: rest) :
    Runs (startsEllipsis c) input before
      (.ok (decide (c = '.' ∧ rest.take 2 = ['.', '.']), before)) := by
  rw [startsEllipsis]
  by_cases hc : c = '.'
  · rw [if_pos hc]
    refine (runs_ahead h).bind ?_
    have htake : ((c :: rest).take 3 == ['.', '.', '.']) =
        decide (c = '.' ∧ rest.take 2 = ['.', '.']) := by
      simp [Bool.beq_eq_decide_eq]
    rw [← htake]
    exact runs_pure _
  · rw [if_neg hc, decide_eq_false fun h => hc h.1]
    exact runs_pure false

lemma runs_startsByteString (h : input = before ++ c :: rest) :
    Runs (startsByteString c) input before
      (.ok (decide (c = 'c' ∧ rest.head? = some '"'), before)) := by
  rw [startsByteString]
  by_cases hc : c = 'c'
  · rw [if_pos hc]
    refine (runs_peekNth h 1).bind ?_
    have hquote : ((c :: rest)[1]? == some '"') = decide (c = 'c' ∧ rest.head? = some '"') := by
      rw [List.getElem?_cons_succ, ← List.head?_eq_getElem?, Bool.beq_eq_decide_eq]
      simp [hc]
    rw [← hquote]
    exact runs_pure _
  · rw [if_neg hc, decide_eq_false fun h => hc h.1]
    exact runs_pure false

lemma runs_startsNumeral (h : input = before ++ c :: rest) :
    Runs (startsNumeral c) input before
      (.ok (c.isDigit || isSign c && Lexeme.startsWithDigit rest, before)) := by
  rw [startsNumeral]
  cases c.isDigit with
  | true => exact runs_pure true
  | false =>
      rw [if_neg Bool.false_ne_true, Bool.false_or]
      cases isSign c with
      | false => exact runs_pure false
      | true =>
          rw [if_pos rfl]
          refine (runs_peekNth h 1).bind ?_
          cases rest <;> exact runs_pure _

/-- A string, or a label in quotes. -/
lemma runs_quoted (h : input = before ++ '"' :: rest) :
    Runs (do
      let s ← readString (Position.after {} before).line
      labelOr s (.string s)) input before
      (found before ((Lexeme.readString .string ['"'] rest).map Lexeme.orLabel)) := by
  have hread := runs_readString (Position.after {} before).line h
  rw [Lexeme.readString]
  cases hsplit : splitQuoted? rest with
  | none =>
      rw [hsplit] at hread
      exact hread.bind_error _
  | some parts =>
      rw [hsplit] at hread
      refine hread.bind ?_
      have happend := Lexeme.splitQuoted?_append hsplit
      have hcut : input = before ++ ('"' :: parts.1 ++ ['"']) ++ parts.2 := by
        rw [h, ← happend]
        simp
      rw [List.append_assoc]
      exact @runs_labelOr input before ⟨.string (Name.decode parts.1), _, _⟩ hcut

/-- A word or a label. -/
lemma runs_bareWord (h : input = before ++ rest) :
    Runs (do
      let name ← readBareName
      labelOr name (.word name)) input before
      (found before (.ok (Lexeme.readWord .word [] rest).orLabel)) := by
  have hcut : input = before ++ (Lexeme.readWord .word [] rest).text ++
      (Lexeme.readWord .word [] rest).rest := by
    rw [List.append_assoc, Lexeme.readWord_append, List.nil_append, h]
  exact (runs_readBareName h).bind (runs_labelOr hcut)

lemma runs_readBang (h : input = before ++ ['!'] ++ rest) :
    Runs (readBang (Position.after {} before).line) input (before ++ ['!'])
      (found before (Lexeme.readBang rest)) := by
  refine (runs_peekChar h).bind ?_
  cases rest with
  | nil => exact runs_pure _
  | cons d rest =>
      rw [Lexeme.readBang]
      refine runs_ite (found before) Iff.rfl (fun _ => runs_word .metadata h) fun _ => ?_
      refine runs_ite (found before) Iff.rfl (fun hd => ?_) fun _ => runs_pure _
      rw [hd] at h
      exact runs_string .metadata h

/-- Reads the token of a kind. -/
def readAs (c : Char) (cs : List Char) : Lexeme.Lead → Except LexFault Lexeme
  | .punctuation token => .ok ⟨token, [c], cs⟩
  | .name token => Lexeme.readName token c cs
  | .marked token => .ok (Lexeme.readWord token [c] cs)
  | .bang => Lexeme.readBang cs
  | .quote => (Lexeme.readString .string [c] cs).map Lexeme.orLabel
  | .byteString => Lexeme.readString .string [c, '"'] cs.tail
  | .ellipsis => .ok ⟨.ellipsis, ['.', '.', '.'], cs.drop 2⟩
  | .numeral => .ok (Lexeme.readNumeral [] (c :: cs))
  | .signed => .ok (Lexeme.readNumeral [c] cs)
  | .word => .ok (Lexeme.orLabel (Lexeme.readWord .word [] (c :: cs)))
  | .stray => .error (.strayChar c)

lemma read_eq_readAs (c : Char) (cs : List Char) :
    Lexeme.read c cs = readAs c cs (Lexeme.lead c cs) := by
  rw [Lexeme.read]
  cases Lexeme.lead c cs <;> rfl

lemma runs_readToken (h : input = before ++ c :: rest) :
    Runs (readToken (Position.after {} before).line (Position.after {} before).column c) input
      before (found before (Lexeme.read c rest)) := by
  have hc : input = before ++ [c] ++ rest := by rw [h, List.append_cons]
  rw [read_eq_readAs, readToken, Lexeme.lead]
  cases punctuation? c with
  | some token => exact (runs_nextChar h).bind (runs_pure _)
  | none =>
      let g := fun kind => found before (readAs c rest kind)
      refine runs_ite g Iff.rfl (fun _ => (runs_nextChar h).bind (runs_name _ hc)) fun _ => ?_
      refine runs_ite g Iff.rfl (fun _ => (runs_nextChar h).bind (runs_name _ hc)) fun _ => ?_
      refine runs_ite g Iff.rfl (fun _ => (runs_nextChar h).bind (runs_name _ hc)) fun _ => ?_
      refine runs_ite g Iff.rfl (fun _ => (runs_nextChar h).bind (runs_word _ hc)) fun _ => ?_
      refine runs_ite g Iff.rfl (fun _ => (runs_nextChar h).bind (runs_word _ hc)) fun _ => ?_
      refine runs_ite g Iff.rfl (fun hbang => ?_) fun _ => ?_
      · subst hbang
        exact (runs_nextChar h).bind (runs_readBang hc)
      refine runs_ite g Iff.rfl (fun hquote => ?_) fun _ => ?_
      · subst hquote
        exact runs_quoted h
      refine (runs_startsEllipsis h).bind ?_
      refine runs_ite g decide_eq_true_iff (fun hdots => ?_) fun _ => ?_
      · exact (@runs_forward input before ['.', '.', '.'] (by decide)).bind (runs_pure _)
      refine (runs_startsByteString h).bind ?_
      refine runs_ite g decide_eq_true_iff (fun hquote => ?_) fun _ => ?_
      · obtain ⟨rest, rfl⟩ := List.head?_eq_some_iff.mp hquote.2
        exact (runs_nextChar h).bind (runs_string .string hc)
      refine (runs_startsNumeral h).bind ?_
      cases hdigit : c.isDigit with
      | true =>
        rw [Bool.true_or, if_pos rfl, if_pos rfl]
        have hsign : (c :: rest).head?.any isSign = false := not_isSign_of_isDigit hdigit
        have hnone : Runs skipSign input before (.ok ((), before ++ [])) := by
          rw [List.append_nil]
          exact runs_skipSign_none hsign h
        exact runs_readNumber hnone (by rw [h, List.append_nil])
      | false =>
        rw [Bool.false_or, if_neg Bool.false_ne_true]
        refine runs_ite g ?_ (fun hsigned => ?_) fun _ => ?_
        · simp [isSign]
        · exact runs_readNumber (runs_skipSign (by simpa [isSign] using hsigned.1) h) hc
        · exact runs_ite g Iff.rfl (fun _ => runs_bareWord h) fun _ => runs_throw _

end Token

/-! ### All tokens -/

/-- Reads the next token, behind blanks and comments. -/
def nextToken : Scan Located := do
  skipBlanks
  let p ← get
  let column := (← difference p.offset p.lineStart) + 1
  match ← peekChar with
  | none => return ⟨.eof, p.line, column, p.offset, p.offset⟩
  | some c =>
    let token ← readToken p.line column c
    return ⟨token, p.line, column, p.offset, (← get).offset⟩

/-- Reads tokens up to the end of the text. -/
def scanFrom : Nat → Scan (List Located)
  | 0 => crash .endless
  | bound + 1 => do
    let t ← nextToken
    if t.token = .eof then return [t]
    else return t :: (← scanFrom bound)

/-- The tokens of a text. -/
def scan (source : String) : Except Stop (List Located) :=
  match scanFrom (source.toList.length + 1) source.toList {} with
  | .ok tokens _ => .ok tokens
  | .error e _ => .error e

lemma runs_difference :
    Runs (difference (Position.after {} before).offset (Position.after {} before).lineStart) input
      before (.ok ((Position.after {} before).offset - (Position.after {} before).lineStart,
        before)) := by
  obtain ⟨hoffset, -, hstart⟩ := Position.after_eq before
  rw [difference_of_le (by omega)]
  exact runs_pure _

/-- A token behind the text `before`. -/
def locatedAt (before text : List Char) (t : Token) : Located :=
  ⟨t, (Position.after {} before).line, (Position.after {} before).column,
    (Position.after {} before).offset, (Position.after {} (before ++ text)).offset⟩

lemma runs_nextToken_nil {gap : List Char} (hgap : splitGap false rest = (gap, []))
    (h : input = before ++ rest) :
    Runs nextToken input before (.ok (locatedAt (before ++ gap) [] .eof, before ++ gap)) := by
  have happend := splitGap_append false rest
  have hskip := runs_skipBlanks h
  rw [hgap] at happend hskip
  have hend : input = before ++ gap ++ [] := by rw [h, ← happend, List.append_assoc]
  refine hskip.bind (runs_get (runs_difference.bind ((runs_peekChar hend).bind ?_)))
  rw [locatedAt, List.append_nil]
  exact runs_pure _

lemma runs_nextToken_cons {gap cs : List Char} {c : Char}
    (hgap : splitGap false rest = (gap, c :: cs)) (h : input = before ++ rest) :
    Runs nextToken input before
      (match Lexeme.read c cs with
      | .ok l => .ok (locatedAt (before ++ gap) l.text l.token, before ++ gap ++ l.text)
      | .error fault => .error (fault.at (.after {} (before ++ gap)))) := by
  have happend := splitGap_append false rest
  have hskip := runs_skipBlanks h
  rw [hgap] at happend hskip
  have hnext : input = before ++ gap ++ c :: cs := by rw [h, ← happend, List.append_assoc]
  have htoken := runs_readToken hnext
  refine hskip.bind (runs_get (runs_difference.bind ((runs_peekChar hnext).bind ?_)))
  cases hread : Lexeme.read c cs with
  | error fault =>
      rw [hread] at htoken
      exact htoken.bind_error _
  | ok l =>
      rw [hread] at htoken
      exact htoken.bind (runs_get (runs_pure _))

section Steps

variable {bound : Nat} {t : Located} {behind : List Char}

lemma runs_scanFrom_last (h : Runs nextToken input before (.ok (t, behind))) (ht : t.token = .eof) :
    Runs (scanFrom (bound + 1)) input before (.ok ([t], behind)) := by
  refine h.bind ?_
  rw [if_pos ht]
  exact runs_pure _

lemma runs_scanFrom_cons {tokens : Except ParseError (List Located)}
    (h : Runs nextToken input before (.ok (t, behind))) (ht : t.token ≠ .eof)
    (hlater : Runs (scanFrom bound) input behind (tokens.map fun ts => (ts, input))) :
    Runs (scanFrom (bound + 1)) input before
      ((tokens.map (t :: ·)).map fun ts => (ts, input)) := by
  refine h.bind ?_
  rw [if_neg ht]
  cases tokens with
  | error e => exact hlater.bind_error _
  | ok ts => exact hlater.bind (runs_pure _)

end Steps

/-- Every token takes a character, so there are no more tokens than characters. -/
lemma runs_scanFrom {bound : Nat} (h : input = before ++ rest) (hbound : rest.length < bound) :
    Runs (scanFrom bound) input before
      ((tokenizeFrom (.after {} before) rest).map fun tokens => (tokens, input)) := by
  induction bound generalizing before rest with
  | zero => exact absurd hbound (Nat.not_lt_zero _)
  | succ bound ih =>
      rw [tokenizeFrom_eq, ← Position.after_append]
      have happend := splitGap_append false rest
      rcases hgap : splitGap false rest with ⟨gap, _ | ⟨c, cs⟩⟩
      · rw [hgap, List.append_nil] at happend
        have hnext := runs_nextToken_nil hgap h
        have hend : before ++ gap = input := by rw [h, ← happend]
        rw [hend] at hnext
        have hlast := @runs_scanFrom_last _ _ bound _ _ hnext rfl
        rw [locatedAt, List.append_nil] at hlast
        rwa [show before ++ (gap, ([] : List Char)).1 = input from hend]
      · rw [hgap] at happend
        have hnext := runs_nextToken_cons hgap h
        rw [tokenizeAt]
        cases hread : Lexeme.read c cs with
        | error fault =>
            rw [hread] at hnext
            exact hnext.bind_error _
        | ok l =>
            rw [hread] at hnext
            have htext := Lexeme.text_append_rest hread
            have hpos := List.length_pos_iff.mpr (Lexeme.text_ne_nil hread)
            have hlater : input = before ++ gap ++ l.text ++ l.rest := by
              rw [h, ← happend, ← htext]
              simp only [List.append_assoc]
            have hlength : l.rest.length < bound := by
              rw [← happend, ← htext] at hbound
              simp only [List.length_append] at hbound
              omega
            have htokens := runs_scanFrom_cons hnext (Lexeme.token_ne_eof hread) (ih hlater hlength)
            rwa [locatedAt, Position.after_append _ (before ++ gap)] at htokens

/-- Every text is read as tokens, or refused, without a crash. -/
lemma scan_eq (source : String) : scan source = (tokenize source).mapError .refused := by
  have hruns := @runs_scanFrom source.toList [] source.toList (source.toList.length + 1) rfl
    (Nat.lt_succ_self _)
  have hstart : Position.after {} [] = {} := rfl
  rw [hstart] at hruns
  rw [scan, tokenize]
  cases htokens : tokenizeFrom {} source.toList with
  | error e =>
      rw [htokens] at hruns
      obtain ⟨p, hp⟩ := hruns
      rw [hstart] at hp
      rw [hp]
      rfl
  | ok tokens =>
      rw [htokens] at hruns
      have hp : _ = EStateM.Result.ok tokens _ := hruns
      rw [hstart] at hp
      rw [hp]
      rfl

end CallGuard.Ir.Direct
