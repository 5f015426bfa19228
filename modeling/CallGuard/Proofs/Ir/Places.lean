import CallGuard.Proofs.Ir.Listing.Lines

/-!
Where tokens stand. The tokens of a text are read from parts of it that follow each other, and
between the parts there are blanks and comments only; lines and columns are those of the text
before each part, whatever line ends the parts themselves and the comments have.

* `lineAfter`, `columnAfter`: line and column after a text, by its line ends.
* `Position.after_eq`: the place that is kept while reading says the same.
* `Gap`: blanks and comments.
* `Piece`, `locate`: a token with its text, and where the tokens of pieces stand.
* `SplitsInto`: a text is read as pieces up to the rest.
* `tokenize_places`: the tokens of a text, and the place of the error if it has none.
-/

namespace CallGuard.Ir

open Text (byteLength)

/-! ### Lines and columns -/

/-- The line after a text: one more than its line ends. -/
def lineAfter (before : List Char) : Nat :=
  1 + before.count '\n'

/-- The text after the last line end of a text. -/
def lastLine (before : List Char) : List Char :=
  (before.reverse.takeWhile (· != '\n')).reverse

/-- The column after a text: one more than the bytes after its last line end. -/
def columnAfter (before : List Char) : Nat :=
  1 + byteLength (lastLine before)

lemma lastLine_append_singleton (before : List Char) (c : Char) :
    lastLine (before ++ [c]) = if c = '\n' then [] else lastLine before ++ [c] := by
  rw [lastLine, List.reverse_append, List.reverse_singleton, List.singleton_append,
    List.takeWhile_cons]
  by_cases hc : c = '\n' <;> simp [hc, lastLine]

namespace Position

lemma after_append_singleton (p : Position) (s : List Char) (c : Char) :
    p.after (s ++ [c]) = (p.after s).step c :=
  after_append p s [c]

/-- The place after a text, from its start on. -/
lemma after_eq (before : List Char) :
    (after {} before).offset = byteLength before ∧
      (after {} before).line = lineAfter before ∧
      (after {} before).lineStart + byteLength (lastLine before) = byteLength before := by
  induction before using List.reverseRecOn with
  | nil => exact ⟨rfl, rfl, rfl⟩
  | append_singleton before c ih =>
      obtain ⟨hoffset, hline, hstart⟩ := ih
      rw [after_append_singleton, lastLine_append_singleton, lineAfter, List.count_append, step]
      rw [lineAfter] at hline
      by_cases hc : c = '\n'
      · simp only [hc, if_true, hoffset, hline, Text.byteLength_append]
        simp
        omega
      · simp only [hc, if_false, hoffset, hline, Text.byteLength_append]
        simp [hc]
        omega

lemma offset_after (before : List Char) : (after {} before).offset = byteLength before :=
  (after_eq before).1

lemma line_after_start (before : List Char) : (after {} before).line = lineAfter before :=
  (after_eq before).2.1

lemma column_after (before : List Char) : (after {} before).column = columnAfter before := by
  have hstart := (after_eq before).2.2
  rw [column, offset_after, columnAfter]
  omega

end Position

/-! ### Gaps -/

/-- Blanks and comments. A comment runs from its semicolon to the end of its line, which only
the last comment before the end of the text may lack. -/
inductive Gap : (atEnd : Bool) → List Char → Prop
  | nil {atEnd : Bool} : Gap atEnd []
  | blank {atEnd : Bool} {c : Char} {s : List Char} :
      Text.isBlank c = true → Gap atEnd s → Gap atEnd (c :: s)
  | comment {atEnd : Bool} {body s : List Char} :
      '\n' ∉ body → Gap atEnd s → Gap atEnd (';' :: (body ++ '\n' :: s))
  | last {body : List Char} : '\n' ∉ body → Gap true (';' :: body)

/-- A comment gets one more character. -/
lemma Gap.extend {atEnd : Bool} {c : Char} {s : List Char} (hc : c ≠ '\n')
    (h : Gap atEnd (';' :: s)) : Gap atEnd (';' :: c :: s) := by
  cases h with
  | blank hblank _ => exact absurd hblank (by decide)
  | @comment _ body s hbody h => exact @Gap.comment _ (c :: body) s (by simp [hc.symm, hbody]) h
  | last hbody => exact @Gap.last (c :: s) (by simp [hc.symm, hbody])

/-- What is split off is a gap; inside a comment it is one with the semicolon. -/
lemma gap_splitGap (comment : Bool) (s : List Char) :
    Gap (splitGap comment s).2.isEmpty
      (if comment then ';' :: (splitGap comment s).1 else (splitGap comment s).1) := by
  induction s generalizing comment with
  | nil =>
      cases comment with
      | true => exact @Gap.last [] (by simp)
      | false => exact Gap.nil
  | cons c s ih =>
      rw [splitGap]
      split
      · rename_i hcomment
        simp only [Bool.and_eq_true, bne_iff_ne] at hcomment
        rw [hcomment.1]
        exact (ih true).extend hcomment.2
      · rename_i hcomment
        split
        · rename_i hblank
          cases comment with
          | true =>
              obtain rfl : c = '\n' := by simpa using hcomment
              exact @Gap.comment _ [] _ (by simp) (ih false)
          | false => exact Gap.blank hblank (ih false)
        · rename_i hblank
          -- a comment ends at a line end, which is blank
          obtain rfl : comment = false := by
            cases comment with
            | false => rfl
            | true =>
                obtain rfl : c = '\n' := by simpa using hcomment
                exact absurd (by decide) hblank
          split
          · rename_i hsemicolon
            rw [hsemicolon]
            exact ih true
          · exact Gap.nil

/-- A gap goes on as far as it can. -/
lemma not_blank_of_splitGap {comment : Bool} {s rest : List Char} {c : Char}
    (h : (splitGap comment s).2 = c :: rest) : Text.isBlank c = false ∧ c ≠ ';' := by
  induction s generalizing comment with
  | nil => simp [splitGap] at h
  | cons d s ih =>
      rw [splitGap] at h
      split at h
      · exact ih h
      · split at h
        · exact ih h
        · rename_i hblank
          split at h
          · exact ih h
          · rename_i hsemicolon
            obtain ⟨rfl, -⟩ := List.cons.inj h
            exact ⟨by simpa using hblank, hsemicolon⟩

/-! ### Pieces -/

/-- A token with the text that it is read from and the gap before it. -/
structure Piece where
  /-- The blanks and comments before the token. -/
  gap : List Char
  /-- The characters of the token. -/
  text : List Char
  /-- The token. -/
  token : Token

/-- The text of pieces. -/
def spell (pieces : List Piece) : List Char :=
  pieces.flatMap fun p => p.gap ++ p.text

/-- A token after the text `before`, read from the text `text`. -/
def placed (before text : List Char) (token : Token) : Located :=
  ⟨token, lineAfter before, columnAfter before, byteLength before,
    byteLength before + byteLength text⟩

/-- The tokens of pieces after the text `before`, and the end marker after the text `last`
behind them. -/
def locate (before : List Char) : List Piece → (last : List Char) → List Located
  | [], last => [placed (before ++ last) [] .eof]
  | p :: ps, last =>
    placed (before ++ p.gap) p.text p.token :: locate (before ++ p.gap ++ p.text) ps last

/-- From the front of the text `s` the pieces are read one after the other, and the text `rest`
is left. -/
inductive SplitsInto : (s : List Char) → List Piece → (rest : List Char) → Prop
  | nil (s : List Char) : SplitsInto s [] s
  | cons {gap cs rest : List Char} {c : Char} {l : Lexeme} {pieces : List Piece} :
      Gap false gap → Lexeme.read c cs = .ok l → SplitsInto l.rest pieces rest →
      SplitsInto (gap ++ c :: cs) (⟨gap, l.text, l.token⟩ :: pieces) rest

/-- Pieces and the rest make up the text. -/
lemma SplitsInto.spell_append {s rest : List Char} {pieces : List Piece}
    (h : SplitsInto s pieces rest) :
    spell pieces ++ rest = s := by
  induction h with
  | nil s => rfl
  | cons _ hread _ ih =>
      rw [← Lexeme.text_append_rest hread, ← ih]
      simp [spell]

/-- The gaps of pieces are gaps, and their texts are tokens other than the end marker. -/
lemma SplitsInto.forall_pieces {s rest : List Char} {pieces : List Piece}
    (h : SplitsInto s pieces rest) :
    ∀ p ∈ pieces, Gap false p.gap ∧ p.text ≠ [] ∧ p.token ≠ .eof := by
  induction h with
  | nil s => simp
  | cons hgap hread _ ih =>
      rw [List.forall_mem_cons]
      exact ⟨⟨hgap, Lexeme.text_ne_nil hread, Lexeme.token_ne_eof hread⟩, ih⟩

/-! ### The order of tokens -/

/-- The token `a` ends before the token `b` starts. -/
structure Precedes (a b : Located) : Prop where
  start_lt : a.start < b.start
  stop_le : a.stop ≤ b.start
  line_le : a.line ≤ b.line

lemma lineAfter_append (s s' : List Char) :
    lineAfter (s ++ s') = lineAfter s + s'.count '\n' := by
  rw [lineAfter, lineAfter, List.count_append, Nat.add_assoc]

/-- No token stands before the text that the pieces follow. -/
lemma bounds_of_mem_locate {before last : List Char} {pieces : List Piece} {l : Located}
    (h : l ∈ locate before pieces last) :
    byteLength before ≤ l.start ∧ lineAfter before ≤ l.line := by
  induction pieces generalizing before with
  | nil =>
      obtain rfl := List.mem_singleton.mp h
      simp [placed, lineAfter_append]
  | cons p pieces ih =>
      rcases List.mem_cons.mp h with rfl | h
      · simp [placed, lineAfter_append]
      · have hbounds := ih h
        simp only [Text.byteLength_append, lineAfter_append] at hbounds
        omega

/-- The tokens of pieces follow each other. -/
lemma pairwise_locate (before last : List Char) {pieces : List Piece}
    (h : ∀ p ∈ pieces, p.text ≠ []) : (locate before pieces last).Pairwise Precedes := by
  induction pieces generalizing before with
  | nil => exact List.pairwise_singleton _ _
  | cons p pieces ih =>
      rw [List.forall_mem_cons] at h
      refine List.pairwise_cons.mpr ⟨fun l hl => ?_, ih _ h.2⟩
      have hpos := Text.byteLength_pos h.1
      have hbounds := bounds_of_mem_locate hl
      simp only [Text.byteLength_append, lineAfter_append] at hbounds
      constructor <;> simp only [placed, Text.byteLength_append, lineAfter_append] <;> omega

/-- The end marker comes last, and only there. -/
lemma exists_locate_eq (before last : List Char) {pieces : List Piece}
    (h : ∀ p ∈ pieces, p.text ≠ [] ∧ p.token ≠ .eof) :
    ∃ front : List Located, locate before pieces last =
        front ++ [placed (before ++ spell pieces ++ last) [] .eof] ∧
      ∀ l ∈ front, l.token ≠ .eof ∧ l.start < l.stop := by
  induction pieces generalizing before with
  | nil => exact ⟨[], by simp [locate, spell], by simp⟩
  | cons p pieces ih =>
      rw [List.forall_mem_cons] at h
      obtain ⟨⟨hne, htoken⟩, hlater⟩ := h
      obtain ⟨front, heq, hfront⟩ := ih (before ++ p.gap ++ p.text) hlater
      refine ⟨placed (before ++ p.gap) p.text p.token :: front, ?_, ?_⟩
      · rw [locate, heq]
        simp [spell]
      · have hpos := Text.byteLength_pos hne
        rw [List.forall_mem_cons]
        exact ⟨⟨htoken, by simp only [placed]; omega⟩, hfront⟩

/-! ### Reading -/

/-- A character that starts no token is the one that is reported. -/
lemma eq_of_strayChar {c d : Char} {cs : List Char}
    (h : Lexeme.read c cs = .error (.strayChar d)) : d = c := by
  have hstring {token : String → Token} {start cs : List Char} :
      Lexeme.readString token start cs ≠ .error (.strayChar d) := by
    rw [Lexeme.readString]
    split <;> simp
  rw [Lexeme.read] at h
  split at h
  · simp at h
  · rw [Lexeme.readName.eq_def] at h
    split at h
    · exact absurd h hstring
    · simp at h
  · simp at h
  · rw [Lexeme.readBang.eq_def] at h
    split at h
    · simp at h
    · split_ifs at h
      exact absurd h hstring
  · cases hread : Lexeme.readString .string [c] cs with
    | ok l => simp [hread, Except.map] at h
    | error fault =>
        rw [hread] at h
        obtain rfl := Except.error.inj h
        exact absurd hread hstring
  · exact absurd h hstring
  · simp at h
  · simp at h
  · simp at h
  · simp at h
  · exact (LexFault.strayChar.inj (Except.error.inj h)).symm

/-- After pieces and a gap, no token can be read at the character `c`, which is not in the gap,
and the error `e` says where it stands. -/
def FailsAt (before : List Char) (c : Char) (rest : List Char) (e : ParseError) : Prop :=
  Text.isBlank c = false ∧ c ≠ ';' ∧
    (Lexeme.read c rest = .error (.strayChar c) ∧
        e = .unexpectedChar (lineAfter before) (columnAfter before) c ∨
      Lexeme.read c rest = .error .openString ∧ e = .unterminatedString (lineAfter before))

/-- The tokens of a text that another one stands before. -/
lemma tokenizeFrom_after (before s : List Char) :
    match tokenizeFrom (Position.after {} before) s with
    | .ok tokens => ∃ pieces last, SplitsInto s pieces last ∧ Gap true last ∧
        tokens = locate before pieces last
    | .error e => ∃ pieces gap c rest, SplitsInto s pieces (gap ++ c :: rest) ∧ Gap false gap ∧
        FailsAt (before ++ spell pieces ++ gap) c rest e := by
  induction hn : s.length using Nat.strongRecOn generalizing before s with
  | ind n ih =>
      subst hn
      have hgap := gap_splitGap false s
      have happend := splitGap_append false s
      rw [tokenizeFrom_eq]
      rcases hsplit : splitGap false s with ⟨gap, later⟩
      rw [hsplit] at hgap happend
      dsimp only at hgap happend ⊢
      subst happend
      rw [← Position.after_append]
      cases later with
      | nil =>
          refine ⟨[], gap, ?_, hgap, ?_⟩
          · rw [List.append_nil]
            exact .nil gap
          · simp [locate, placed, Position.offset_after, Position.line_after_start,
              Position.column_after]
      | cons c cs =>
          have hstart := not_blank_of_splitGap (congrArg Prod.snd hsplit)
          rw [tokenizeAt]
          cases hread : Lexeme.read c cs with
          | error fault =>
              refine ⟨[], gap, c, cs, .nil _, hgap, hstart.1, hstart.2, ?_⟩
              simp only [spell, List.flatMap_nil, List.append_nil]
              rw [← Position.line_after_start, ← Position.column_after]
              cases fault with
              | strayChar d =>
                  obtain rfl := eq_of_strayChar hread
                  exact .inl ⟨hread, rfl⟩
              | openString => exact .inr ⟨hread, rfl⟩
          | ok l =>
              have hlength : l.rest.length < (gap ++ c :: cs).length := by
                have htext := congrArg List.length (Lexeme.text_append_rest hread)
                have hpos := List.length_pos_of_ne_nil (Lexeme.text_ne_nil hread)
                simp only [List.length_append] at htext ⊢
                omega
              have hlater := ih _ hlength (before ++ gap ++ l.text) l.rest rfl
              dsimp only
              rw [← Position.after_append]
              cases htail : tokenizeFrom (Position.after {} (before ++ gap ++ l.text)) l.rest with
              | error e =>
                  rw [htail] at hlater
                  obtain ⟨pieces, gap', d, rest, hsplits, hgap', hfails⟩ := hlater
                  refine ⟨_, gap', d, rest, .cons hgap hread hsplits, hgap', ?_⟩
                  simpa [spell] using hfails
              | ok tokens =>
                  rw [htail] at hlater
                  obtain ⟨pieces, last, hsplits, hlast, rfl⟩ := hlater
                  refine ⟨_, last, .cons hgap hread hsplits, hlast, ?_⟩
                  simp only [locate, placed, Position.offset_after, Position.line_after_start,
                    Position.column_after, Text.byteLength_append]

/-- **Where tokens stand.** If a text has tokens, it is made up of pieces and a rest: every piece
is a gap of blanks and comments and the text of one token, which is not empty, and the rest is
a gap. The tokens are those of the pieces, each with the line, the column and the offsets that
the text before it gives, and the end marker comes last and only there; they follow each other
without overlap, on lines that do not decrease. Otherwise the text is made up of pieces, a gap
and a text that starts with no token, and the error gives the line and the column of its first
character, or its line if a string starts there that has no end. -/
theorem tokenize_places (source : String) :
    match tokenize source with
    | .ok tokens => ∃ pieces last, SplitsInto source.toList pieces last ∧
        source.toList = spell pieces ++ last ∧
        (∀ p ∈ pieces, Gap false p.gap ∧ p.text ≠ [] ∧ p.token ≠ .eof) ∧ Gap true last ∧
        tokens = locate [] pieces last ∧ tokens.Pairwise Precedes ∧
        ∃ front, tokens = front ++ [placed source.toList [] .eof] ∧
          ∀ l ∈ front, l.token ≠ .eof ∧ l.start < l.stop
    | .error e => ∃ pieces gap c rest, SplitsInto source.toList pieces (gap ++ c :: rest) ∧
        source.toList = spell pieces ++ gap ++ c :: rest ∧
        (∀ p ∈ pieces, Gap false p.gap ∧ p.text ≠ [] ∧ p.token ≠ .eof) ∧ Gap false gap ∧
        FailsAt (spell pieces ++ gap) c rest e := by
  have h := tokenizeFrom_after [] source.toList
  have hsame : tokenizeFrom (Position.after {} []) source.toList = tokenize source := rfl
  rw [hsame] at h
  cases htokens : tokenize source with
  | ok tokens =>
      rw [htokens] at h
      obtain ⟨pieces, last, hsplits, hlast, rfl⟩ := h
      have hpieces := hsplits.forall_pieces
      obtain ⟨front, hfront, hends⟩ := exists_locate_eq [] last fun p hp => (hpieces p hp).2
      rw [List.nil_append, hsplits.spell_append] at hfront
      exact ⟨pieces, last, hsplits, hsplits.spell_append.symm, hpieces, hlast, rfl,
        pairwise_locate [] last fun p hp => (hpieces p hp).2.1, front, hfront, hends⟩
  | error e =>
      rw [htokens] at h
      obtain ⟨pieces, gap, c, rest, hsplits, hgap, hfails⟩ := h
      refine ⟨pieces, gap, c, rest, hsplits, ?_, hsplits.forall_pieces, hgap, hfails⟩
      rw [List.append_assoc, hsplits.spell_append]

end CallGuard.Ir
