import CallGuard.Ir.Token.Lexer
import CallGuard.Proofs.Ir.Name

/-!
Which tokens a text is read as. A text that is written on one line is read as the tokens of
its parts, if no part goes on with what follows it.

* `tokenizeFrom_blank`, `tokenizeFrom_read`: the steps of reading tokens.
* `Yields`: the tokens of a text before another text.
* `Spells`: the tokens of a text on one line, before another text.
* `Spells.append`: the tokens of parts.
* `WordEnds`: a word ends before the text.
* `spells_word`, `spells_decimal`, `spells_name`, …: the tokens of words, numerals and names.
-/

namespace CallGuard.Ir

/-! ### Places -/

namespace Position

lemma after_append (p : Position) (s s' : List Char) :
    p.after (s ++ s') = (p.after s).after s' := by
  rw [after, List.foldl_append]
  rfl

lemma line_step (p : Position) (c : Char) :
    (p.step c).line = p.line + if c = '\n' then 1 else 0 := by
  rw [step]
  split <;> simp_all

/-- Every line end starts a new line. -/
lemma line_after (p : Position) (s : List Char) :
    (p.after s).line = p.line + s.count '\n' := by
  induction s generalizing p with
  | nil => rfl
  | cons c s ih =>
      have hafter : p.after (c :: s) = (p.step c).after s := rfl
      rw [hafter, ih, line_step, List.count_cons]
      simp only [beq_iff_eq]
      omega

end Position

/-! ### Steps -/

/-- The tokens of a text that starts with no gap, from the place `p` on. -/
def tokenizeAt (p : Position) : List Char → Except ParseError (List Located)
  | [] => .ok [⟨.eof, p.line, p.column, p.offset, p.offset⟩]
  | c :: rest =>
    match Lexeme.read c rest with
    | .error fault => .error (fault.at p)
    | .ok l => (tokenizeFrom (p.after l.text) l.rest).map
        (⟨l.token, p.line, p.column, p.offset, (p.after l.text).offset⟩ :: ·)

lemma tokenizeFrom_eq (p : Position) (cs : List Char) :
    tokenizeFrom p cs = tokenizeAt (p.after (splitGap false cs).1) (splitGap false cs).2 := by
  rw [tokenizeFrom]
  split
  · rename_i hgap
    rw [hgap, tokenizeAt]
  · rename_i c rest hgap
    rw [hgap, tokenizeAt]
    split
    · rename_i hread
      rw [hread]
    · rename_i hread
      rw [hread]
      rfl

lemma tokenizeFrom_nil (p : Position) :
    tokenizeFrom p [] = .ok [⟨.eof, p.line, p.column, p.offset, p.offset⟩] :=
  tokenizeFrom_eq p []

/-- Blanks before a token do not matter. -/
lemma tokenizeFrom_blank {c : Char} (hc : Text.isBlank c) (p : Position) (cs : List Char) :
    tokenizeFrom p (c :: cs) = tokenizeFrom (p.step c) cs := by
  have hgap : splitGap false (c :: cs) = consFirst c (splitGap false cs) := by
    simp [splitGap, hc]
  rw [tokenizeFrom_eq, tokenizeFrom_eq, hgap]
  rfl

/-- A token is read where no gap is. -/
lemma tokenizeFrom_read {c : Char} {cs : List Char} {l : Lexeme} (hblank : Text.isBlank c = false)
    (hcomment : c ≠ ';') (hread : Lexeme.read c cs = .ok l) (p : Position) :
    tokenizeFrom p (c :: cs) = (tokenizeFrom (p.after l.text) l.rest).map
      (⟨l.token, p.line, p.column, p.offset, (p.after l.text).offset⟩ :: ·) := by
  have hgap : splitGap false (c :: cs) = ([], c :: cs) := by
    simp [splitGap, hblank, hcomment]
  rw [tokenizeFrom_eq, hgap, tokenizeAt, hread]
  rfl

/-! ### Parts of a text -/

/-- The text `s` at the place `p`, before the text `rest`, is read as the tokens `ls`. -/
def Yields (p : Position) (s rest : List Char) (ls : List Located) : Prop :=
  tokenizeFrom p (s ++ rest) = (tokenizeFrom (p.after s) rest).map (ls ++ ·)

lemma Yields.nil (p : Position) (rest : List Char) : Yields p [] rest [] := by
  have hstay : p.after [] = p := rfl
  rw [Yields, List.nil_append, hstay]
  cases tokenizeFrom p rest <;> rfl

/-- A text and another after it. -/
lemma Yields.append {p : Position} {s s' rest : List Char} {ls ls' : List Located}
    (h : Yields p s (s' ++ rest) ls) (h' : Yields (p.after s) s' rest ls') :
    Yields p (s ++ s') rest (ls ++ ls') := by
  rw [Yields] at h h'
  rw [Yields, List.append_assoc, h, h', Position.after_append]
  cases tokenizeFrom ((p.after s).after s') rest <;> simp [Except.map]

/-! ### Texts on one line -/

/-- The text `s` is on one line, and before `rest` it is read as the tokens `ts`. -/
structure Spells (s : List Char) (ts : List Token) (rest : List Char) : Prop where
  oneLine : '\n' ∉ s
  tokens : ∀ p : Position, ∃ ls : List Located, ls.map Located.token = ts ∧
    (∀ l ∈ ls, l.line = p.line) ∧ Yields p s rest ls

namespace Spells

lemma nil (rest : List Char) : Spells [] [] rest :=
  ⟨by simp, fun p => ⟨[], rfl, by simp, .nil p rest⟩⟩

/-- A text and another after it. -/
lemma append {s s' rest : List Char} {ts ts' : List Token} (h : Spells s ts (s' ++ rest))
    (h' : Spells s' ts' rest) : Spells (s ++ s') (ts ++ ts') rest := by
  refine ⟨by simp [h.oneLine, h'.oneLine], fun p => ?_⟩
  obtain ⟨ls, rfl, hline, hyields⟩ := h.tokens p
  obtain ⟨ls', rfl, hline', hyields'⟩ := h'.tokens (p.after s)
  have hsame : (p.after s).line = p.line := by
    rw [Position.line_after, List.count_eq_zero.mpr h.oneLine, Nat.add_zero]
  refine ⟨ls ++ ls', by simp, fun l hl => ?_, hyields.append hyields'⟩
  rcases List.mem_append.mp hl with hl | hl
  · exact hline l hl
  · rw [hline' l hl, hsame]

/-- A text that is one token, and another after it. -/
lemma append_cons {s s' rest : List Char} {t : Token} {ts : List Token}
    (h : Spells s [t] (s' ++ rest)) (h' : Spells s' ts rest) : Spells (s ++ s') (t :: ts) rest :=
  append h h'

lemma cons {c : Char} {s rest : List Char} {t : Token} {ts : List Token}
    (h : Spells [c] [t] (s ++ rest)) (h' : Spells s ts rest) : Spells (c :: s) (t :: ts) rest :=
  append h h'

/-- A blank before a text. -/
lemma blank {s rest : List Char} {ts : List Token} (h : Spells s ts rest) :
    Spells (' ' :: s) ts rest := by
  refine ⟨by simp [h.oneLine], fun p => ?_⟩
  obtain ⟨ls, htokens, hline, hyields⟩ := h.tokens (p.step ' ')
  refine ⟨ls, htokens, hline, ?_⟩
  rw [Yields] at hyields
  rw [Yields, List.cons_append, tokenizeFrom_blank (by decide), hyields]
  rfl

/-- One token. -/
lemma one {c : Char} {s rest : List Char} {t : Token} (hblank : Text.isBlank c = false)
    (hcomment : c ≠ ';') (hline : '\n' ∉ c :: s)
    (hread : Lexeme.read c (s ++ rest) = .ok ⟨t, c :: s, rest⟩) : Spells (c :: s) [t] rest := by
  refine ⟨hline, fun p => ?_⟩
  have heq := tokenizeFrom_read hblank hcomment hread p
  exact ⟨[⟨t, p.line, p.column, p.offset, (p.after (c :: s)).offset⟩], rfl, by simp, heq⟩

end Spells

/-! ### Punctuation -/

lemma ne_of_punctuation? {c : Char} {t : Token} (h : punctuation? c = some t) :
    Text.isBlank c = false ∧ c ≠ ';' ∧ c ≠ '\n' := by
  rw [punctuation?.eq_def] at h
  split at h
  all_goals first | decide | simp at h

lemma spells_punctuation {c : Char} {t : Token} (h : punctuation? c = some t) (rest : List Char) :
    Spells [c] [t] rest := by
  obtain ⟨hblank, hcomment, hline⟩ := ne_of_punctuation? h
  refine .one hblank hcomment (by simpa using hline.symm) ?_
  have hlead : Lexeme.lead c rest = .punctuation t := by simp only [Lexeme.lead, h]
  simp only [Lexeme.read, List.nil_append, hlead]

lemma spells_ellipsis (rest : List Char) : Spells "...".toList [.ellipsis] rest :=
  .one rfl (by decide) (by decide) rfl

/-! ### Words and numerals -/

/-- A word, or a numeral, ends before the text. -/
def WordEnds (rest : List Char) : Prop :=
  rest.head?.all fun c => !isWordChar c && c != ':'

lemma WordEnds.ne {rest : List Char} (h : WordEnds rest) {c : Char} (hc : rest.head? = some c) :
    isWordChar c = false ∧ c ≠ ':' := by
  rw [WordEnds, hc] at h
  simpa using h

/-- A run of characters that the text after it does not go on with. -/
lemma takeWhile_dropWhile_append {p : Char → Bool} {w rest : List Char} (hw : ∀ c ∈ w, p c)
    (hrest : ∀ c, rest.head? = some c → p c = false) :
    (w ++ rest).takeWhile p = w ∧ (w ++ rest).dropWhile p = rest := by
  rw [List.takeWhile_append_of_pos hw, List.dropWhile_append_of_pos hw]
  cases rest with
  | nil => simp
  | cons c rest => simp [hrest c rfl]

lemma readWord_append {w rest : List Char} (hw : ∀ c ∈ w, isWordChar c) (hrest : WordEnds rest)
    (token : String → Token) (start : List Char) :
    Lexeme.readWord token start (w ++ rest) = ⟨token (String.ofList w), start ++ w, rest⟩ := by
  obtain ⟨htake, hdrop⟩ := takeWhile_dropWhile_append hw fun c hc => (hrest.ne hc).1
  rw [Lexeme.readWord, htake, hdrop]

lemma orLabel_of_wordEnds {t : Token} {s rest : List Char} (hrest : WordEnds rest) :
    Lexeme.orLabel ⟨t, s, rest⟩ = ⟨t, s, rest⟩ := by
  rw [Lexeme.orLabel.eq_def]
  split
  · rename_i h
    exact absurd rfl (hrest.ne (by rw [show rest = _ from h]; rfl)).2
  · rfl

lemma isDigit_iff {c : Char} : c.isDigit ↔ 48 ≤ c.toNat ∧ c.toNat ≤ 57 := by
  simp [Char.isDigit, UInt32.le_iff_toNat_le]

lemma isAlpha_iff {c : Char} :
    c.isAlpha ↔ 65 ≤ c.toNat ∧ c.toNat ≤ 90 ∨ 97 ≤ c.toNat ∧ c.toNat ≤ 122 := by
  have hupper : c.isUpper = decide ('A'.val ≤ c.val ∧ c.val ≤ 'Z'.val) := rfl
  have hlower : c.isLower = (decide ('a'.val ≤ c.val) && decide (c.val ≤ 'z'.val)) := rfl
  have halpha : c.isAlpha = (c.isUpper || c.isLower) := rfl
  simp [halpha, hupper, hlower, UInt32.le_iff_toNat_le]

/-- The characters of words are printable ASCII characters. -/
lemma toNat_of_isWordChar {c : Char} (hc : isWordChar c) : 33 ≤ c.toNat ∧ c.toNat < 127 := by
  simp only [isWordChar, isNameChar, Char.isAlphanum, Bool.or_eq_true, beq_iff_eq, isAlpha_iff,
    isDigit_iff] at hc
  rcases hc with (((((hc | hc) | rfl) | rfl) | rfl) | rfl) | rfl
  · omega
  · omega
  all_goals decide

lemma ne_of_isWordChar {c : Char} (hc : isWordChar c) :
    Text.isBlank c = false ∧ c ≠ ';' ∧ c ≠ '\n' := by
  have hbounds := toNat_of_isWordChar hc
  refine ⟨?_, ?_, ?_⟩
  · simp [Text.isBlank]
    omega
  · rintro rfl
    exact absurd hc (by decide)
  · rintro rfl
    exact absurd hc (by decide)

lemma isWordChar_of_isDigit {c : Char} (hc : c.isDigit) : isWordChar c := by
  simp [isWordChar, isNameChar, Char.isAlphanum, hc]

/-- Neither letters nor digits are punctuation. -/
lemma punctuation?_of_isAlphanum {c : Char} (hc : c.isAlphanum) : punctuation? c = none := by
  rw [punctuation?.eq_def]
  split
  all_goals first | exact absurd hc (by decide) | rfl

/-- The kind of token that a letter starts. -/
lemma lead_of_isAlpha {c : Char} (hc : c.isAlpha) {cs : List Char}
    (hcs : ¬ (c = 'c' ∧ cs.head? = some '"')) : Lexeme.lead c cs = .word := by
  have hne (d : Char) (hd : d.isAlpha = false) : c ≠ d := by
    rintro rfl
    simp [hc] at hd
  have hpunct : punctuation? c = none := punctuation?_of_isAlphanum (by simp [Char.isAlphanum, hc])
  have hdigit : c.isDigit = false := by
    rw [← Bool.not_eq_true, isDigit_iff]
    have := isAlpha_iff.mp hc
    omega
  simp [Lexeme.lead, hpunct, hdigit, hc, hcs, hne '@' rfl, hne '%' rfl, hne '$' rfl, hne '#' rfl,
    hne '^' rfl, hne '!' rfl, hne '"' rfl, hne '.' rfl, hne '-' rfl, hne '+' rfl]

/-- The kind of token that a digit starts. -/
lemma lead_of_isDigit {c : Char} (hc : c.isDigit) (cs : List Char) :
    Lexeme.lead c cs = .numeral := by
  have hne (d : Char) (hd : d.isDigit = false) : c ≠ d := by
    rintro rfl
    simp [hc] at hd
  have hpunct : punctuation? c = none := punctuation?_of_isAlphanum (by simp [Char.isAlphanum, hc])
  simp [Lexeme.lead, hpunct, hc, hne '@' rfl, hne '%' rfl, hne '$' rfl, hne '#' rfl, hne '^' rfl,
    hne '!' rfl, hne '"' rfl, hne '.' rfl, hne 'c' rfl]

/-- A word that starts with a letter, and is not the mark of a string. -/
def isPlainWord (w : List Char) : Bool :=
  w.all isWordChar && w.head?.any Char.isAlpha && w != ['c']

lemma spells_word {w rest : List Char} (hw : isPlainWord w) (hrest : WordEnds rest) :
    Spells w [.word (String.ofList w)] rest := by
  simp only [isPlainWord, Bool.and_eq_true, List.all_eq_true, Option.any_eq_true, bne_iff_ne] at hw
  obtain ⟨⟨hall, c, hc, halpha⟩, hne⟩ := hw
  obtain ⟨cs, rfl⟩ := List.head?_eq_some_iff.mp hc
  obtain ⟨hblank, hcomment, -⟩ := ne_of_isWordChar (hall c (by simp))
  refine .one hblank hcomment (fun hline => (ne_of_isWordChar (hall _ hline)).2.2 rfl) ?_
  have hlead : Lexeme.lead c (cs ++ rest) = .word := by
    refine lead_of_isAlpha halpha ?_
    rintro ⟨rfl, hquote⟩
    -- only the single letter could start a string
    cases cs with
    | nil => exact hne rfl
    | cons d cs =>
        obtain rfl : d = '"' := Option.some.inj hquote
        exact absurd (hall '"' (by simp)) (by decide)
  have hread := readWord_append hall hrest .word []
  rw [Lexeme.read, hlead]
  simp only
  rw [← List.cons_append, hread, List.nil_append, orLabel_of_wordEnds hrest]

lemma spells_keyword {w : String} {rest : List Char} (hw : isPlainWord w.toList)
    (hrest : WordEnds rest) : Spells w.toList [.word w] rest := by
  have h := spells_word hw hrest
  rwa [String.ofList_toList] at h

/-- Digits that no point or exponent mark follows. -/
lemma splitNumeral_append {w rest : List Char} (hw : ∀ c ∈ w, c.isDigit) (hrest : WordEnds rest) :
    splitNumeral (w ++ rest) = (w, false, rest) := by
  induction w with
  | nil =>
      cases rest with
      | nil => rfl
      | cons c rest =>
          have hc := (hrest.ne rfl).1
          have hne (d : Char) (hd : isWordChar d) : c ≠ d := by
            rintro rfl
            simp [hd] at hc
          have hdigit : c.isDigit = false := by
            rw [← Bool.not_eq_true]
            exact fun h => by simp [isWordChar_of_isDigit h] at hc
          rw [List.nil_append, splitNumeral.eq_def]
          simp [hdigit, hne '.' rfl, hne 'e' rfl, hne 'E' rfl]
  | cons c w ih =>
      have hc := hw c (by simp)
      rw [List.cons_append, splitNumeral.eq_def]
      simp only [hc, if_true]
      rw [ih fun d hd => hw d (List.mem_cons_of_mem _ hd)]
      rfl

/-- A run of digits. -/
lemma spells_digits {w rest : List Char} (hw : ∀ c ∈ w, c.isDigit) (hne : w ≠ [])
    (hrest : WordEnds rest) : Spells w [.integer (String.ofList w)] rest := by
  obtain ⟨c, cs, rfl⟩ := List.exists_cons_of_ne_nil hne
  have hc := hw c (by simp)
  obtain ⟨hblank, hcomment, -⟩ := ne_of_isWordChar (isWordChar_of_isDigit hc)
  refine .one hblank hcomment
    (fun hline => (ne_of_isWordChar (isWordChar_of_isDigit (hw _ hline))).2.2 rfl) ?_
  have hnumeral : Lexeme.readNumeral [] (c :: cs ++ rest) =
      ⟨.integer (String.ofList (c :: cs)), c :: cs, rest⟩ := by
    rw [Lexeme.readNumeral.eq_def]
    split
    · -- the mark of a hexadecimal numeral is no digit
      rename_i rest' h
      rw [List.cons_append, List.cons.injEq] at h
      cases cs with
      | nil => exact absurd (hrest.ne (by rw [← List.nil_append rest, h.2]; rfl)).1 (by decide)
      | cons d cs =>
          obtain rfl : d = 'x' := (List.cons.inj h.2).1
          exact absurd (hw 'x' (by simp)) (by decide)
    · simp only [splitNumeral_append hw hrest, List.nil_append]
      exact orLabel_of_wordEnds hrest
  rw [Lexeme.read, lead_of_isDigit hc]
  simp only
  rw [← List.cons_append, hnumeral]

/-- The numeral of a number. -/
def numeral (n : Nat) : Token :=
  .integer (String.ofList (Text.decimal n))

lemma spells_decimal (n : Nat) {rest : List Char} (hrest : WordEnds rest) :
    Spells (Text.decimal n) [numeral n] rest :=
  spells_digits (fun _ hc => Nat.isDigit_of_mem_toDigits (by omega) (by omega) hc)
    Nat.toDigits_ne_nil hrest

/-! ### Names and strings -/

lemma splitQuoted?_append {body rest : List Char} (h : '"' ∉ body) :
    splitQuoted? (body ++ '"' :: rest) = some (body, rest) := by
  have hbody : ∀ c ∈ body, (c != '"') = true := fun c hc => by
    rw [bne_iff_ne]
    rintro rfl
    exact h hc
  obtain ⟨htake, hdrop⟩ :=
    @takeWhile_dropWhile_append (· != '"') body ('"' :: rest) hbody (by simp)
  rw [splitQuoted?.eq_def, htake, hdrop]

lemma readString_printQuoted (token : String → Token) (start name rest : List Char) :
    Lexeme.readString token start (Name.escape name ++ '"' :: rest) =
      .ok ⟨token (String.ofList name), start ++ (Name.escape name ++ ['"']), rest⟩ := by
  rw [Lexeme.readString, splitQuoted?_append fun h => (Name.ne_of_mem_escape h).1 rfl]
  simp only [Name.decode_escape, List.append_assoc]

lemma notMem_printQuoted (name : List Char) : '\n' ∉ Name.printQuoted name := by
  intro h
  simp only [Name.printQuoted, List.mem_cons, List.mem_append, List.not_mem_nil, or_false] at h
  rcases h with h | h | h
  · exact absurd h (by decide)
  · exact (Name.ne_of_mem_escape h).2 rfl
  · exact absurd h (by decide)

/-- The sigils that names follow. -/
def sigil? : Char → Option (String → Token)
  | '@' => some .globalName
  | '%' => some .localName
  | '$' => some .comdat
  | _ => none

lemma ne_of_sigil? {c : Char} {token : String → Token} (hc : sigil? c = some token) :
    Text.isBlank c = false ∧ c ≠ ';' ∧ c ≠ '\n' ∧ ∀ cs, Lexeme.lead c cs = .name token := by
  rw [sigil?.eq_def] at hc
  split at hc
  all_goals first
    | exact ⟨rfl, by decide, by decide, fun cs => Option.some.inj hc ▸ rfl⟩
    | simp at hc

section Sigil

variable {c : Char} {token : String → Token} (hc : sigil? c = some token)
include hc

/-- A word after a sigil. -/
lemma spells_sigil_word {w rest : List Char} (hne : w ≠ []) (hw : ∀ d ∈ w, isWordChar d)
    (hrest : WordEnds rest) : Spells (c :: w) [token (String.ofList w)] rest := by
  obtain ⟨hblank, hcomment, hline, hlead⟩ := ne_of_sigil? hc
  have hname :
      Lexeme.readName token c (w ++ rest) = .ok (Lexeme.readWord token [c] (w ++ rest)) := by
    rw [Lexeme.readName.eq_def]
    split
    · -- a quote is no character of a word
      rename_i h
      obtain ⟨d, ds, rfl⟩ := List.exists_cons_of_ne_nil hne
      obtain rfl : d = '"' := (List.cons.inj h).1
      exact absurd (hw '"' (by simp)) (by decide)
    · rfl
  refine .one hblank hcomment (fun h => ?_) ?_
  · rcases List.mem_cons.mp h with h | h
    · exact hline h.symm
    · exact (ne_of_isWordChar (hw _ h)).2.2 rfl
  · rw [Lexeme.read, hlead]
    simp only [hname, readWord_append hw hrest, List.singleton_append]

/-- A name in quotes after a sigil. -/
lemma spells_sigil_printQuoted (name rest : List Char) :
    Spells (c :: Name.printQuoted name) [token (String.ofList name)] rest := by
  obtain ⟨hblank, hcomment, hline, hlead⟩ := ne_of_sigil? hc
  have hread := readString_printQuoted token [c, '"'] name rest
  refine .one hblank hcomment ?_ ?_
  · exact fun h => (List.mem_cons.mp h).elim (fun h => hline h.symm) (notMem_printQuoted name)
  · rw [Lexeme.read, hlead]
    simp only [Name.printQuoted, List.cons_append, List.append_assoc, Lexeme.readName, hread,
      List.nil_append]

/-- A name after its sigil. -/
lemma spells_name (name : List Char) {rest : List Char} (hrest : WordEnds rest) :
    Spells (c :: Name.print name) [token (String.ofList name)] rest := by
  rw [Name.print]
  split
  · rename_i hbare
    cases name with
    | nil => simp [Name.isBare] at hbare
    | cons d ds =>
        simp only [Name.isBare, Bool.and_eq_true, List.all_eq_true] at hbare
        refine spells_sigil_word hc (List.cons_ne_nil d ds) (fun e he => ?_) hrest
        simp [isWordChar, hbare.2 e he]
  · exact spells_sigil_printQuoted hc name rest

end Sigil

/-- A string, which no colon follows. -/
lemma spells_string (name : List Char) {rest : List Char} (hrest : rest.head? ≠ some ':') :
    Spells (Name.printQuoted name) [.string (String.ofList name)] rest := by
  have hread := readString_printQuoted .string ['"'] name rest
  have hlabel : Lexeme.orLabel ⟨.string (String.ofList name), Name.printQuoted name, rest⟩ =
      ⟨.string (String.ofList name), Name.printQuoted name, rest⟩ := by
    rw [Lexeme.orLabel.eq_def]
    split
    · rename_i h
      exact absurd (by rw [show rest = _ from h]; rfl) hrest
    · rfl
  refine .one rfl (by decide) (notMem_printQuoted name) ?_
  rw [Lexeme.read, show Lexeme.lead '"' _ = .quote from rfl]
  simp only [List.append_assoc, List.singleton_append, hread, Except.map]
  exact congrArg Except.ok hlabel

/-- A label in quotes. -/
lemma spells_label (name rest : List Char) :
    Spells (Name.printQuoted name ++ [':']) [.label (String.ofList name)] rest := by
  have hread := readString_printQuoted .string ['"'] name (':' :: rest)
  have hline : '\n' ∉ Name.printQuoted name ++ [':'] := by simp [notMem_printQuoted]
  refine @Spells.one '"' (Name.escape name ++ ['"'] ++ [':']) rest _ rfl (by decide) hline ?_
  rw [Lexeme.read, show Lexeme.lead '"' _ = .quote from rfl]
  simp only [List.append_assoc, List.cons_append, List.nil_append, hread, Except.map,
    Lexeme.orLabel, Token.text]

end CallGuard.Ir
