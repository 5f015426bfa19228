import CallGuard.Ir.Error
import CallGuard.Ir.Name
import CallGuard.Ir.Token
import CallGuard.Text.Blank

/-!
Reading tokens. The input is a list of characters; blanks and comments, which
run from a semicolon to the end of the line, stand between tokens.

* `splitGap`: the blanks and comments at the start of a text, and the rest.
* `Lexeme.read`: the token at the start of a text, with the characters it is read
  from.
* `Lexeme.text_append_rest`: these characters and the rest make up the text.
* `tokenize`: all tokens with their places, and `eof` at the end.
-/

namespace CallGuard.Ir

/-! ### Places -/

/-- A place in a text: byte offset, line, and the offset at which the line
starts. -/
structure Position where
  /-- The bytes before this place. -/
  offset : Nat := 0
  /-- The line, counted from one. -/
  line : Nat := 1
  /-- The bytes before the line. -/
  lineStart : Nat := 0
  deriving DecidableEq, Repr

namespace Position

/-- The column in bytes, counted from one. -/
def column (p : Position) : Nat :=
  p.offset - p.lineStart + 1

/-- The place after a character. -/
def step (p : Position) (c : Char) : Position :=
  let offset := p.offset + c.utf8Size
  if c = '\n' then ⟨offset, p.line + 1, offset⟩ else ⟨offset, p.line, p.lineStart⟩

/-- The place after a text. -/
def after (p : Position) (s : List Char) : Position :=
  s.foldl step p

end Position

/-! ### Blanks and comments -/

/-- Adds a character to the first of two parts of a text. -/
def consFirst {β : Type} (c : Char) (parts : List Char × β) : List Char × β :=
  (c :: parts.1, parts.2)

/-- The blanks and comments at the start of a text, and the rest; `comment` says
whether the text starts inside a comment. -/
def splitGap (comment : Bool) : List Char → List Char × List Char
  | [] => ([], [])
  | c :: cs =>
    if comment && c != '\n' then consFirst c (splitGap true cs)
    else if Text.isBlank c then consFirst c (splitGap false cs)
    else if c = ';' then consFirst c (splitGap true cs)
    else ([], c :: cs)

/-- Nothing is lost between the gap and the rest. -/
theorem splitGap_append (comment : Bool) (cs : List Char) :
    (splitGap comment cs).1 ++ (splitGap comment cs).2 = cs := by
  induction cs generalizing comment with
  | nil => rfl
  | cons c cs ih =>
    rw [splitGap]
    repeat' split
    all_goals simp [consFirst, ih]

/-! ### One token -/

/-- A token with the characters it is read from and the text after it. -/
structure Lexeme where
  /-- The token. -/
  token : Token
  /-- The characters it is read from. -/
  text : List Char
  /-- The text after it. -/
  rest : List Char

/-- Why no token could be read. -/
inductive LexFault where
  /-- A character that starts no token. -/
  | strayChar (c : Char)
  /-- A string without closing quote. -/
  | openString

/-- The characters of a word: name characters and the backslash. -/
def isWordChar (c : Char) : Bool :=
  isNameChar c || c == '\\'

/-- The text between an opening quote, which `cs` follows, and the first quote
after it, and the text after that quote. A quote cannot be escaped. -/
def splitQuoted? (cs : List Char) : Option (List Char × List Char) :=
  match cs.dropWhile (· != '"') with
  | [] => none
  | _ :: rest => some (cs.takeWhile (· != '"'), rest)

/-- Notes that there is a point or an exponent mark. -/
def markFloat (parts : List Char × Bool × List Char) : List Char × Bool × List Char :=
  (parts.1, true, parts.2.2)

/-- The digits, points and exponent marks at the start of a text, whether there
is a point or mark among them, and the rest. A sign may follow each point or
mark. -/
def splitNumeral : List Char → List Char × Bool × List Char
  | [] => ([], false, [])
  | c :: cs =>
    if c.isDigit then consFirst c (splitNumeral cs)
    else if c == '.' || c == 'e' || c == 'E' then
      match cs with
      | [] => ([c], true, [])
      | s :: cs' =>
        if s == '-' || s == '+' then consFirst c (consFirst s (markFloat (splitNumeral cs')))
        else consFirst c (markFloat (splitNumeral (s :: cs')))
    else ([], false, c :: cs)

/-- The characters after the mark of a hexadecimal numeral: hexadecimal digits and
the letters that name a format. -/
def isHexNumeralChar (c : Char) : Bool :=
  Text.isHexDigit c || c == 'K' || c == 'L' || c == 'M' || c == 'H' || c == 'R'

/-- The token that one character is. -/
def punctuation? : Char → Option Token
  | '(' => some .lparen
  | ')' => some .rparen
  | '[' => some .lbracket
  | ']' => some .rbracket
  | '\x7b' => some .lbrace
  | '\x7d' => some .rbrace
  | '<' => some .less
  | '>' => some .greater
  | ',' => some .comma
  | '=' => some .equals
  | '*' => some .star
  | '|' => some .pipe
  | ':' => some .colon
  | _ => none

namespace Lexeme

/-- Makes a label of a lexeme when a colon follows it directly. -/
def orLabel (l : Lexeme) : Lexeme :=
  match l.rest with
  | ':' :: rest => ⟨.label l.token.text, l.text ++ [':'], rest⟩
  | _ => l

/-- Reads a word; `start` holds the characters before it that belong to the
lexeme. -/
def readWord (token : String → Token) (start cs : List Char) : Lexeme :=
  let name := cs.takeWhile isWordChar
  ⟨token (String.ofList name), start ++ name, cs.dropWhile isWordChar⟩

/-- Reads a string after its opening quote, which `start` ends with. -/
def readString (token : String → Token) (start cs : List Char) : Except LexFault Lexeme :=
  match splitQuoted? cs with
  | none => .error .openString
  | some (body, rest) => .ok ⟨token (Name.decode body), start ++ body ++ ['"'], rest⟩

/-- Reads the name after a sigil, with or without quotes. -/
def readName (token : String → Token) (sigil : Char) (cs : List Char) : Except LexFault Lexeme :=
  match cs with
  | '"' :: rest => readString token [sigil, '"'] rest
  | _ => .ok (readWord token [sigil] cs)

/-- Reads a numeral after its sign, which `sign` holds. -/
def readNumeral (sign cs : List Char) : Lexeme :=
  match cs with
  | '0' :: 'x' :: rest =>
    let text := sign ++ '0' :: 'x' :: rest.takeWhile isHexNumeralChar
    ⟨.float (String.ofList text), text, rest.dropWhile isHexNumeralChar⟩
  | _ =>
    let (text, float, rest) := splitNumeral cs
    if float then ⟨.float (String.ofList (sign ++ text)), sign ++ text, rest⟩
    else orLabel ⟨.integer (String.ofList (sign ++ text)), sign ++ text, rest⟩

/-- Whether a text starts with a digit. -/
def startsWithDigit : List Char → Bool
  | c :: _ => c.isDigit
  | [] => false

/-- What kind of token a text starts. -/
inductive Lead where
  /-- A token of one character. -/
  | punctuation (token : Token)
  /-- A name, with or without quotes, after its sigil. -/
  | name (token : String → Token)
  /-- A word after a mark. -/
  | marked (token : String → Token)
  /-- An exclamation mark, alone or before a metadata name. -/
  | bang
  /-- A string, or a label in quotes. -/
  | quote
  /-- A string after the letter `c`. -/
  | byteString
  /-- Three points. -/
  | ellipsis
  /-- A numeral. -/
  | numeral
  /-- A numeral after its sign. -/
  | signed
  /-- A word or label. -/
  | word
  /-- No token. -/
  | stray

/-- The kind of token that the character `c` starts, before the text `cs`. -/
def lead (c : Char) (cs : List Char) : Lead :=
  match punctuation? c with
  | some token => .punctuation token
  | none =>
    if c = '@' then .name .globalName
    else if c = '%' then .name .localName
    else if c = '$' then .name .comdat
    else if c = '#' then .marked .hash
    else if c = '^' then .marked .summary
    else if c = '!' then .bang
    else if c = '"' then .quote
    else if c = '.' ∧ cs.take 2 = ['.', '.'] then .ellipsis
    else if c = 'c' ∧ cs.head? = some '"' then .byteString
    else if c.isDigit then .numeral
    else if (c = '-' ∨ c = '+') ∧ startsWithDigit cs then .signed
    else if c.isAlpha || c == '_' || c == '.' then .word
    else .stray

/-- Reads the token after an exclamation mark. -/
def readBang (cs : List Char) : Except LexFault Lexeme :=
  match cs with
  | [] => .ok ⟨.bang, ['!'], []⟩
  | d :: rest =>
    if isWordChar d then .ok (readWord .metadata ['!'] (d :: rest))
    else if d = '"' then readString .metadata ['!', '"'] rest
    else .ok ⟨.bang, ['!'], d :: rest⟩

/-- Reads the token that starts with the character `c`, before the text `cs`. -/
def read (c : Char) (cs : List Char) : Except LexFault Lexeme :=
  match lead c cs with
  | .punctuation token => .ok ⟨token, [c], cs⟩
  | .name token => readName token c cs
  | .marked token => .ok (readWord token [c] cs)
  | .bang => readBang cs
  | .quote => (readString .string [c] cs).map orLabel
  | .byteString => readString .string [c, '"'] cs.tail
  | .ellipsis => .ok ⟨.ellipsis, ['.', '.', '.'], cs.drop 2⟩
  | .numeral => .ok (readNumeral [] (c :: cs))
  | .signed => .ok (readNumeral [c] cs)
  | .word => .ok (orLabel (readWord .word [] (c :: cs)))
  | .stray => .error (.strayChar c)

/-! ### The lexeme and the rest make up the text -/

theorem orLabel_append (l : Lexeme) : l.orLabel.text ++ l.orLabel.rest = l.text ++ l.rest := by
  unfold orLabel
  split
  · rename_i rest h
    simp [h]
  · rfl

theorem readWord_append (token : String → Token) (start cs : List Char) :
    (readWord token start cs).text ++ (readWord token start cs).rest = start ++ cs := by
  simp [readWord, List.takeWhile_append_dropWhile]

/-- The quote that closes a string stands between its body and the rest. -/
theorem splitQuoted?_append {cs body rest : List Char} (h : splitQuoted? cs = some (body, rest)) :
    body ++ '"' :: rest = cs := by
  unfold splitQuoted? at h
  split at h
  · simp at h
  · rename_i q r hd
    have hq : q = '"' := by
      have := List.head?_dropWhile_not (· != '"') cs
      rw [hd] at this
      simpa using this
    simp only [Option.some.injEq, Prod.mk.injEq] at h
    obtain ⟨rfl, rfl⟩ := h
    have happ := List.takeWhile_append_dropWhile (p := (· != '"')) (l := cs)
    rwa [hd, hq] at happ

theorem readString_append {token : String → Token} {start cs : List Char} {l : Lexeme}
    (h : readString token start cs = .ok l) : l.text ++ l.rest = start ++ cs := by
  unfold readString at h
  split at h
  · simp at h
  · rename_i body rest hs
    cases h
    simp [← splitQuoted?_append hs]

theorem readName_append {token : String → Token} {sigil : Char} {cs : List Char} {l : Lexeme}
    (h : readName token sigil cs = .ok l) : l.text ++ l.rest = sigil :: cs := by
  unfold readName at h
  split at h
  · simpa using readString_append h
  · cases h
    simpa using readWord_append token [sigil] cs

theorem splitNumeral_append (cs : List Char) :
    (splitNumeral cs).1 ++ (splitNumeral cs).2.2 = cs := by
  fun_induction splitNumeral cs <;> simp_all [consFirst, markFloat]

theorem readNumeral_append (sign cs : List Char) :
    (readNumeral sign cs).text ++ (readNumeral sign cs).rest = sign ++ cs := by
  unfold readNumeral
  split
  · simp [List.takeWhile_append_dropWhile]
  · have h := splitNumeral_append cs
    dsimp only
    split
    · simp [h]
    · rw [orLabel_append]
      simp [h]

/-- What the kind of a token says about the text it starts. -/
def Lead.Fits (c : Char) (cs : List Char) : Lead → Prop
  | bang => c = '!'
  | byteString => cs.head? = some '"'
  | ellipsis => c = '.' ∧ cs.take 2 = ['.', '.']
  | numeral => c.isDigit = true
  | signed => startsWithDigit cs = true
  | word => isWordChar c = true
  | _ => True

theorem lead_fits (c : Char) (cs : List Char) : (lead c cs).Fits c cs := by
  unfold lead
  split
  · trivial
  · repeat' (refine iteInduction (motive := Lead.Fits c cs) ?_ ?_ <;> intro h)
    all_goals simp only [Lead.Fits]
    · exact h
    · exact h
    · exact h.2
    · exact h
    · exact h.2
    · simp only [Bool.or_eq_true, beq_iff_eq] at h
      rcases h with (h | rfl) | rfl
      · simp [isWordChar, isNameChar, Char.isAlphanum, h]
      · decide
      · decide

theorem readBang_append {cs : List Char} {l : Lexeme} (h : readBang cs = .ok l) :
    l.text ++ l.rest = '!' :: cs := by
  unfold readBang at h
  split at h
  · cases h
    rfl
  · split at h
    · cases h
      exact readWord_append _ _ _
    split at h
    · rename_i hd
      rw [readString_append h, hd]
      rfl
    · cases h
      rfl

/-- A lexeme and the rest make up the text that it was read from. -/
theorem text_append_rest {c : Char} {cs : List Char} {l : Lexeme} (h : read c cs = .ok l) :
    l.text ++ l.rest = c :: cs := by
  have hf := lead_fits c cs
  unfold read at h
  split at h <;> rename_i hl <;> rw [hl] at hf
  · cases h
    rfl
  · exact readName_append h
  · cases h
    exact readWord_append _ _ _
  · rw [readBang_append h, show c = '!' from hf]
  · cases hs : readString .string [c] cs with
    | error e => simp [hs, Except.map] at h
    | ok k =>
      simp only [hs, Except.map, Except.ok.injEq] at h
      rw [← h, orLabel_append]
      exact readString_append hs
  · rw [readString_append h]
    cases cs with
    | nil => simp [Lead.Fits] at hf
    | cons d r => simp_all [Lead.Fits]
  · cases h
    rw [hf.1, ← List.take_append_drop 2 cs, hf.2]
    simp
  · cases h
    exact readNumeral_append _ _
  · cases h
    exact readNumeral_append _ _
  · cases h
    rw [orLabel_append, readWord_append]
    rfl
  · cases h

theorem orLabel_text_ne_nil {l : Lexeme} (h : l.text ≠ []) : l.orLabel.text ≠ [] := by
  unfold orLabel
  split <;> simp [h]

theorem readString_text_ne_nil {token : String → Token} {start cs : List Char} {l : Lexeme}
    (h : readString token start cs = .ok l) : l.text ≠ [] := by
  unfold readString at h
  split at h <;> cases h
  simp

theorem readName_text_ne_nil {token : String → Token} {sigil : Char} {cs : List Char}
    {l : Lexeme} (h : readName token sigil cs = .ok l) : l.text ≠ [] := by
  unfold readName at h
  split at h
  · exact readString_text_ne_nil h
  · cases h
    simp [readWord]

theorem readNumeral_text_ne_nil {sign cs : List Char} (h : startsWithDigit cs = true) :
    (readNumeral sign cs).text ≠ [] := by
  unfold readNumeral
  split
  · simp
  · have hn : (splitNumeral cs).1 ≠ [] := by
      cases cs with
      | nil => simp [startsWithDigit] at h
      | cons c cs =>
        have hc : c.isDigit = true := h
        unfold splitNumeral
        simp [hc, consFirst]
    dsimp only
    split
    · simp [hn]
    · exact orLabel_text_ne_nil (by simp [hn])

theorem readBang_text_ne_nil {cs : List Char} {l : Lexeme} (h : readBang cs = .ok l) :
    l.text ≠ [] := by
  unfold readBang at h
  split at h
  · cases h
    simp
  · split at h
    · cases h
      simp [readWord]
    split at h
    · exact readString_text_ne_nil h
    · cases h
      simp

/-- A lexeme is not empty. -/
theorem text_ne_nil {c : Char} {cs : List Char} {l : Lexeme} (h : read c cs = .ok l) :
    l.text ≠ [] := by
  have hf := lead_fits c cs
  unfold read at h
  split at h <;> rename_i hl <;> rw [hl] at hf
  · cases h
    simp
  · exact readName_text_ne_nil h
  · cases h
    simp [readWord]
  · exact readBang_text_ne_nil h
  · cases hs : readString .string [c] cs with
    | error e => simp [hs, Except.map] at h
    | ok k =>
      simp only [hs, Except.map, Except.ok.injEq] at h
      rw [← h]
      exact orLabel_text_ne_nil (readString_text_ne_nil hs)
  · exact readString_text_ne_nil h
  · cases h
    simp
  · cases h
    exact readNumeral_text_ne_nil hf
  · cases h
    exact readNumeral_text_ne_nil hf
  · cases h
    refine orLabel_text_ne_nil ?_
    simp [readWord, show isWordChar c = true from hf]
  · cases h

end Lexeme

/-! ### All tokens -/

/-- The error that a fault at a place is. -/
def LexFault.at (fault : LexFault) (p : Position) : ParseError :=
  match fault with
  | strayChar c => .unexpectedChar p.line p.column c
  | openString => .unterminatedString p.line

/-- The tokens of the text `cs`, which starts at the place `p`. -/
def tokenizeFrom (p : Position) (cs : List Char) : Except ParseError (List Located) :=
  let start := p.after (splitGap false cs).1
  match _hg : (splitGap false cs).2 with
  | [] => .ok [⟨.eof, start.line, start.column, start.offset, start.offset⟩]
  | c :: rest =>
    match _hl : Lexeme.read c rest with
    | .error fault => .error (fault.at start)
    | .ok l => do
      let stop := start.after l.text
      let tokens ← tokenizeFrom stop l.rest
      return ⟨l.token, start.line, start.column, start.offset, stop.offset⟩ :: tokens
termination_by cs.length
decreasing_by
  have h₁ := congrArg List.length (splitGap_append false cs)
  have h₂ := congrArg List.length (Lexeme.text_append_rest _hl)
  have h₃ := List.length_pos_iff.mpr (Lexeme.text_ne_nil _hl)
  simp only [_hg, List.length_append, List.length_cons] at h₁ h₂
  omega

/-- The tokens of a text with their places, `eof` last. -/
def tokenize (source : String) : Except ParseError (List Located) :=
  tokenizeFrom {} source.toList

end CallGuard.Ir
