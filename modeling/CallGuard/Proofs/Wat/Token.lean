import CallGuard.Proofs.Wat.Piece

/-!
The tokens of a text and the bytes that they take.

* `Lexeme`, `lexemes`: tokens without their places.
* `bounds_of_mem_tokensFrom`, `pairwise_tokens`: where tokens are.
* `exists_pieces`, `exists_pieces_span`: the pieces that tokens are.
-/

namespace CallGuard

namespace Wat

open Text (byteLength)

/-! ### Tokens without their places -/

/-- The kind and the characters of a token. -/
abbrev Lexeme := TokenKind × List Char

/-- A token without its place. -/
def Token.lexeme (t : Token) : Lexeme :=
  (t.kind, t.text)

/-- The tokens of a text without their places. -/
def lexemes (text : List Char) : List Lexeme :=
  (tokens text).map Token.lexeme

/-- The tokens among pieces without their places. -/
def lexemesOf (ps : List Piece) : List Lexeme :=
  ps.filterMap fun p => p.kind.map (·, p.text)

@[simp] lemma lexemesOf_append (ps qs : List Piece) :
    lexemesOf (ps ++ qs) = lexemesOf ps ++ lexemesOf qs :=
  List.filterMap_append ..

@[simp] lemma lexemesOf_cons_none (text : List Char) (ps : List Piece) :
    lexemesOf (⟨none, text⟩ :: ps) = lexemesOf ps := rfl

@[simp] lemma lexemesOf_cons_some (kind : TokenKind) (text : List Char) (ps : List Piece) :
    lexemesOf (⟨some kind, text⟩ :: ps) = (kind, text) :: lexemesOf ps := rfl

lemma map_lexeme_tokensFrom (offset : Nat) (ps : List Piece) :
    (tokensFrom offset ps).map Token.lexeme = lexemesOf ps := by
  induction ps generalizing offset with
  | nil => rfl
  | cons p ps ih =>
      obtain ⟨kind, text⟩ := p
      cases kind with
      | none => simp [tokensFrom, ih]
      | some kind => simp [tokensFrom, ih, Token.lexeme]

@[simp] lemma lexemes_nil : lexemes [] = [] := by
  rw [lexemes, tokens, pieces]
  rfl

lemma lexemes_eq (text : List Char) : lexemes text = lexemesOf (pieces text) :=
  map_lexeme_tokensFrom 0 _

lemma tokensFrom_append (offset : Nat) (ps qs : List Piece) :
    tokensFrom offset (ps ++ qs) =
      tokensFrom offset ps ++ tokensFrom (offset + byteLength (flat ps)) qs := by
  induction ps generalizing offset with
  | nil => simp [tokensFrom]
  | cons p ps ih =>
      have h := ih (offset + byteLength p.text)
      rw [Nat.add_assoc, ← Text.byteLength_append, ← flat_cons] at h
      obtain ⟨kind, text⟩ := p
      cases kind <;> simp [tokensFrom, h]

/-- A token lies within the pieces that it is one of. -/
lemma bounds_of_mem_tokensFrom {offset : Nat} {ps : List Piece} (hps : ∀ p ∈ ps, p.text ≠ [])
    {t : Token} (ht : t ∈ tokensFrom offset ps) :
    offset ≤ t.start ∧ t.start < t.stop ∧ t.stop ≤ offset + byteLength (flat ps) := by
  induction ps generalizing offset with
  | nil => simp [tokensFrom] at ht
  | cons p ps ih =>
      have hpos := Text.byteLength_pos (hps p (by simp))
      have ih := @ih (offset + byteLength p.text) fun q hq => hps q (List.mem_cons_of_mem _ hq)
      rw [flat_cons, Text.byteLength_append]
      rw [tokensFrom] at ht
      split at ht
      · rcases List.mem_cons.mp ht with rfl | ht
        · exact ⟨le_rfl, by simpa using hpos, by simp⟩
        · have := ih ht
          omega
      · have := ih ht
        omega

/-! ### Where tokens are -/

lemma text_ne_nil_of_mem_pieces {text : List Char} {p : Piece} (hp : p ∈ pieces text) :
    p.text ≠ [] := by
  obtain ⟨ps, qs, heq⟩ := List.append_of_mem hp
  have h := standAll_pieces text
  rw [heq, standAll_append] at h
  exact h.2.1.text_ne_nil

/-- Tokens do not overlap and are in order. -/
lemma pairwise_tokensFrom {offset : Nat} {ps : List Piece} (hps : ∀ p ∈ ps, p.text ≠ []) :
    (tokensFrom offset ps).Pairwise fun t t' => t.stop ≤ t'.start := by
  induction ps generalizing offset with
  | nil => exact List.Pairwise.nil
  | cons p ps ih =>
      have hps' : ∀ q ∈ ps, q.text ≠ [] := fun q hq => hps q (List.mem_cons_of_mem _ hq)
      obtain ⟨kind, text⟩ := p
      cases kind with
      | none => exact ih hps'
      | some kind =>
          refine List.pairwise_cons.mpr ⟨fun t ht => ?_, ih hps'⟩
          exact (bounds_of_mem_tokensFrom hps' ht).1

lemma pairwise_tokens (text : List Char) :
    (tokens text).Pairwise fun t t' => t.stop ≤ t'.start :=
  pairwise_tokensFrom fun _ => text_ne_nil_of_mem_pieces

/-- A token ends before a later one starts. -/
lemma stop_le_start_of_lt {text : List Char} {i j : Nat} {t t' : Token}
    (ht : (tokens text)[i]? = some t) (ht' : (tokens text)[j]? = some t') (h : i < j) :
    t.stop ≤ t'.start := by
  obtain ⟨hi, rfl⟩ := List.getElem?_eq_some_iff.mp ht
  obtain ⟨hj, rfl⟩ := List.getElem?_eq_some_iff.mp ht'
  exact List.pairwise_iff_getElem.mp (pairwise_tokens text) i j hi hj h

lemma bounds_of_mem_tokens {text : List Char} {t : Token} (ht : t ∈ tokens text) :
    t.start < t.stop ∧ t.stop ≤ byteLength text := by
  have := bounds_of_mem_tokensFrom (fun _ => text_ne_nil_of_mem_pieces) ht
  rw [flat_pieces] at this
  omega

lemma pairwise_start (text : List Char) :
    (tokens text).Pairwise fun t t' => t.start < t'.start := by
  refine (pairwise_tokens text).imp_of_mem fun {t t'} ht _ h => ?_
  have := bounds_of_mem_tokens ht
  omega

/-- A token that starts within the bytes of a token is that token. -/
lemma index_eq_of_covers {text : List Char} {i j : Nat} {t t' : Token}
    (ht : (tokens text)[i]? = some t) (ht' : (tokens text)[j]? = some t')
    (hstart : t'.start ≤ t.start) (hstop : t.start < t'.stop) : i = j := by
  have hb := bounds_of_mem_tokens (List.mem_of_getElem? ht)
  rcases lt_trichotomy i j with hlt | heq | hlt
  · have := stop_le_start_of_lt ht ht' hlt
    omega
  · exact heq
  · have := stop_le_start_of_lt ht' ht hlt
    omega

/-- Tokens at different places start at different offsets. -/
lemma index_eq_of_start_eq {text : List Char} {i j : Nat} {t t' : Token}
    (ht : (tokens text)[i]? = some t) (ht' : (tokens text)[j]? = some t')
    (h : t.start = t'.start) : i = j := by
  have hb := bounds_of_mem_tokens (List.mem_of_getElem? ht')
  exact index_eq_of_covers ht ht' (by omega) (by omega)

/-- A token is one of the pieces, and its bytes are those of the piece. -/
lemma exists_pieces {offset : Nat} {ps : List Piece} {front back : List Token} {t : Token}
    (h : tokensFrom offset ps = front ++ t :: back) :
    ∃ ks rest, ps = ks ++ ⟨some t.kind, t.text⟩ :: rest ∧
      t.start = offset + byteLength (flat ks) ∧ t.stop = t.start + byteLength t.text ∧
      tokensFrom offset ks = front ∧ tokensFrom t.stop rest = back := by
  induction ps generalizing offset front with
  | nil => simp [tokensFrom] at h
  | cons p ps ih =>
      obtain ⟨kind, text⟩ := p
      cases kind with
      | none =>
          obtain ⟨ks, rest, rfl, hstart, hstop, hfront, hback⟩ := ih h
          refine ⟨⟨none, text⟩ :: ks, rest, rfl, ?_, hstop, hfront, hback⟩
          rw [hstart, flat_cons, Text.byteLength_append, Nat.add_assoc]
      | some kind =>
          cases front with
          | nil =>
              obtain ⟨rfl, rfl⟩ := List.cons.inj h
              exact ⟨[], ps, rfl, rfl, rfl, rfl, rfl⟩
          | cons t' front =>
              obtain ⟨rfl, htail⟩ := List.cons.inj h
              obtain ⟨ks, rest, rfl, hstart, hstop, hfront, hback⟩ := ih htail
              refine ⟨⟨some kind, text⟩ :: ks, rest, rfl, ?_, hstop, ?_, hback⟩
              · rw [hstart, flat_cons, Text.byteLength_append, Nat.add_assoc]
              · rw [tokensFrom, hfront]

/-- The pieces from the first to the last of tokens that follow each other. -/
lemma exists_pieces_span {offset : Nat} {ps : List Piece} {front ts back : List Token}
    {first last : Token} (h : tokensFrom offset ps = front ++ (ts ++ back))
    (hfirst : ts.head? = some first) (hlast : ts.getLast? = some last) :
    ∃ ks ds rest, ps = ks ++ (ds ++ rest) ∧ first.start = offset + byteLength (flat ks) ∧
      last.stop = first.start + byteLength (flat ds) ∧
      ds.head? = some ⟨some first.kind, first.text⟩ ∧
      ds.getLast? = some ⟨some last.kind, last.text⟩ := by
  obtain ⟨ts, rfl⟩ := List.head?_eq_some_iff.mp hfirst
  obtain ⟨ks, rest, rfl, hstart, hstop, -, hback⟩ := exists_pieces h
  rcases List.eq_nil_or_concat' ts with rfl | ⟨ts, last', rfl⟩
  · obtain rfl : first = last := by simpa using hlast
    exact ⟨ks, [⟨some first.kind, first.text⟩], rest, rfl, hstart, by simpa using hstop, rfl, rfl⟩
  · obtain rfl : last' = last := by
      rw [← List.cons_append, List.getLast?_concat] at hlast
      exact Option.some.inj hlast
    have hback := hback.trans (List.append_assoc ts [last'] back)
    obtain ⟨ms, rest, rfl, hstart', hstop', -, -⟩ := exists_pieces hback
    refine ⟨ks, ⟨some first.kind, first.text⟩ :: (ms ++ [⟨some last'.kind, last'.text⟩]), rest,
      by simp, hstart, ?_, rfl, ?_⟩
    · rw [hstop', hstart', hstop]
      simp only [flat_cons, flat_append, flat_nil, Text.byteLength_append, Text.byteLength_nil]
      omega
    · rw [← List.cons_append, List.getLast?_concat]

end Wat

end CallGuard
