import CallGuard.Proofs.Wat.Words

/-!
Edits that change nothing. An edit of a text puts its replacement at one place of the edited
text; an edit that puts the same there once more leaves the text as it is.

* `Edited.exists_split`, `exists_edited_splice`: the pieces before and after a replacement.
* `exists_replacement`: the tokens before a replacement are those that the edits make of the
  tokens before what it replaces.
* `exists_span_wordPieces`: the place of words with blanks between them.
* `Idle`, `splice_eq_self`: edits that change nothing.
-/

namespace CallGuard.Wat

open Text (byteLength)

/-! ### Where a replacement lies -/

/-- Of pieces that make up the same, those that reach as far are the same. -/
lemma append_inj_of_byteLength {ks ps ks' ps' : List Piece} (h : ks ++ ps = ks' ++ ps')
    (hne : ∀ p ∈ ks ++ ps, p.text ≠ []) (hlength : byteLength (flat ks) = byteLength (flat ks')) :
    ks = ks' ∧ ps = ps' := by
  obtain ⟨ms, rfl, rfl⟩ := exists_append_of_byteLength_le h
    (fun p hp => hne p (List.mem_append_left _ hp)) hlength.le
  cases ms with
  | nil => simp
  | cons m ms =>
      have := Text.byteLength_pos (hne m (by simp))
      simp only [flat_append, flat_cons, Text.byteLength_append] at hlength
      omega

/-- Edits that end before a token do nothing to it. -/
lemma edited_append_of_le {es₁ : List Edit} (es₂ : List Edit) {t : Token}
    (h : ∀ e ∈ es₁, e.start ≠ t.start ∧ e.stop ≤ t.start) :
    edited (es₁ ++ es₂) t = edited es₂ t := by
  induction es₁ with
  | nil => rfl
  | cons e es ih =>
      obtain ⟨hstart, hstop⟩ := h e (by simp)
      rw [List.cons_append, edited_cons_of_le hstart hstop,
        ih fun e he => h e (List.mem_cons_of_mem _ he)]

/-- Edits that start elsewhere put nothing at an offset. -/
lemma inserted_append_of_ne {es₁ : List Edit} (es₂ : List Edit) {offset : Nat}
    (h : ∀ e ∈ es₁, e.start ≠ offset) : inserted (es₁ ++ es₂) offset = inserted es₂ offset := by
  induction es₁ with
  | nil => rfl
  | cons e es ih =>
      rw [List.cons_append, inserted_cons, if_neg (h e (by simp)), List.nil_append,
        ih fun e he => h e (List.mem_cons_of_mem _ he)]

namespace Edited

variable {offset : Nat} {ps qs : List Piece}

lemma eq_of_nil (h : Edited offset ps [] qs) : qs = ps := by
  generalize hes : ([] : List Edit) = es at h
  induction h with
  | nil => rfl
  | keep _ ih => rw [ih hes]
  | edit => cases hes

/-- What comes after the replacement of an edit are the pieces after the edits that follow
it. -/
lemma exists_split {es₁ es₂ : List Edit} {e : Edit} (h : Edited offset ps (es₁ ++ e :: es₂) qs) :
    ∃ ks ds ps' qs₁ qs₂, ps = ks ++ (ds ++ ps') ∧ qs = qs₁ ++ (pieces e.replacement ++ qs₂) ∧
      e.start = offset + byteLength (flat ks) ∧ e.stop = e.start + byteLength (flat ds) ∧
      Edited e.stop ps' es₂ qs₂ := by
  generalize hes : es₁ ++ e :: es₂ = es at h
  induction h generalizing es₁ with
  | nil => simp at hes
  | @keep offset p ps qs es _ ih =>
      obtain ⟨ks, ds, ps', qs₁, qs₂, rfl, rfl, hstart, hstop, hafter⟩ := ih hes
      refine ⟨p :: ks, ds, ps', p :: qs₁, qs₂, rfl, rfl, ?_, hstop, hafter⟩
      rw [hstart, flat_cons, Text.byteLength_append, Nat.add_assoc]
  | @edit ds ps qs e' es hstop _ hafter ih =>
      cases es₁ with
      | nil =>
          obtain ⟨rfl, rfl⟩ := List.cons.inj hes
          exact ⟨[], ds, ps, [], qs, rfl, rfl, by simp, hstop, hafter⟩
      | cons e₁ es₁ =>
          obtain ⟨rfl, hrest⟩ := List.cons.inj hes
          obtain ⟨ks, ds', ps', qs₁, qs₂, rfl, rfl, hstart, hstop', hafter⟩ := ih hrest
          refine ⟨ds ++ ks, ds', ps', pieces e₁.replacement ++ qs₁, qs₂, by simp, by simp, ?_,
            hstop', hafter⟩
          rw [hstart, hstop, flat_append, Text.byteLength_append, Nat.add_assoc]

end Edited

section Splice

variable {text : List Char} {es : List Edit} (hterm : Terminated text)
  (hfits : ∀ e ∈ es, Fits text e) (hes : es.Pairwise Apart) {e : Edit} (he : e ∈ es)
include hterm hfits hes he

/-- An edit puts its replacement between the pieces that the edits before it make and those
that the edits after it make. -/
lemma exists_edited_splice {ks ds ps : List Piece} (hpieces : pieces text = ks ++ (ds ++ ps))
    (hstart : e.start = byteLength (flat ks)) (hstop : e.stop = e.start + byteLength (flat ds)) :
    ∃ es₁ es₂ qs₁ qs₂, es.mergeSort (fun a b => a.start ≤ b.start) = es₁ ++ e :: es₂ ∧
      pieces (splice text es) = qs₁ ++ (pieces e.replacement ++ qs₂) ∧
      Edited e.stop ps es₂ qs₂ := by
  have hperm := List.mergeSort_perm es fun a b => decide (a.start ≤ b.start)
  have hedited := (edited_splice hterm hfits hes).1
  obtain ⟨es₁, es₂, hsorted⟩ := List.append_of_mem (hperm.mem_iff.mpr he)
  rw [hsorted] at hedited
  obtain ⟨ks', ds', ps', qs₁, qs₂, hsplit, hqs, hstart', hstop', hafter⟩ := hedited.exists_split
  -- the pieces that the edit replaces are found by their bytes
  have hsame : (ks ++ ds) ++ ps = (ks' ++ ds') ++ ps' := by
    rw [List.append_assoc, List.append_assoc, ← hpieces, hsplit]
  obtain ⟨-, rfl⟩ := append_inj_of_byteLength hsame
    (fun p hp => @text_ne_nil_of_mem_pieces text p (by rwa [hpieces, ← List.append_assoc]))
    (by simp only [flat_append, Text.byteLength_append]; omega)
  exact ⟨es₁, es₂, qs₁, qs₂, hsorted, hqs, hafter⟩

omit hterm in
/-- The tokens after a replacement are those that the edits make of the tokens after what it
replaces. -/
lemma lexemesOf_after {es₁ es₂ : List Edit}
    (hsorted : es.mergeSort (fun a b => a.start ≤ b.start) = es₁ ++ e :: es₂)
    {front ps qs : List Piece} (hpieces : pieces text = front ++ ps)
    (hstop : e.stop = byteLength (flat front)) (hlt : e.start < e.stop)
    (h : Edited e.stop ps es₂ qs) :
    lexemesOf qs = (tokensFrom e.stop ps).flatMap (edited es) ++
      inserted es (byteLength text) := by
  have hperm := List.mergeSort_perm es fun a b => decide (a.start ≤ b.start)
  have hpair := pairwise_mergeSort_of_apart hfits hes
  rw [hsorted] at hperm hpair
  rw [show es₁ ++ e :: es₂ = (es₁ ++ [e]) ++ es₂ by simp] at hperm hpair
  have hbefore : ∀ e' ∈ es₁ ++ [e], e'.start < e.stop ∧ e'.stop ≤ e.stop := by
    intro e' he'
    obtain ⟨_, _, _, -, -, hle, -⟩ := hfits e' (hperm.mem_iff.mp (List.mem_append_left _ he'))
    rcases List.mem_append.mp he' with h | h
    · have := (List.pairwise_append.mp (List.pairwise_append.mp hpair).1).2.2 e' h e (by simp)
      omega
    · obtain rfl := List.mem_singleton.mp h
      omega
  have hps : ∀ p ∈ ps, p.text ≠ [] := fun p hp =>
    @text_ne_nil_of_mem_pieces text p (hpieces ▸ List.mem_append_right _ hp)
  have hend : e.stop + byteLength (flat ps) = byteLength text := by
    rw [hstop, ← Text.byteLength_append, ← flat_append, ← hpieces, flat_pieces]
  rw [h.lexemesOf_eq hps, edited_perm hperm.symm hes, inserted_perm hperm.symm hes, hend]
  congr 1
  · refine List.flatMap_congr fun t ht => (edited_append_of_le es₂ fun e' he' => ?_).symm
    have := bounds_of_mem_tokensFrom hps ht
    have := hbefore e' he'
    omega
  · refine (inserted_append_of_ne es₂ fun e' he' => ?_).symm
    have := hbefore e' he'
    omega

/-- The tokens before a replacement are those that the edits make of the tokens before what
it replaces. -/
lemma exists_replacement {front ts back : List Token} {last : Token}
    (htokens : tokens text = front ++ (ts ++ back)) (hlast : ts.getLast? = some last)
    (hlt : e.start < e.stop) (hstop : e.stop = last.stop)
    (hts : ts.flatMap (edited es) = lexemes e.replacement) :
    ∃ qs₁ qs₂, pieces (splice text es) = qs₁ ++ (pieces e.replacement ++ qs₂) ∧
      lexemesOf qs₁ = front.flatMap (edited es) := by
  obtain ⟨ks, ds, ps, hpieces, hstart, hds, -⟩ := hfits e he
  obtain ⟨es₁, es₂, qs₁, qs₂, hsorted, hqs, hafter⟩ :=
    exists_edited_splice hterm hfits hes he hpieces hstart hds
  have hne : ∀ p ∈ pieces text, p.text ≠ [] := fun p => text_ne_nil_of_mem_pieces
  -- the tokens after the edit
  have hback : tokensFrom e.stop ps = back := by
    obtain ⟨ts, rfl⟩ := List.getLast?_eq_some_iff.mp hlast
    have hsplit : tokens text = (front ++ ts) ++ last :: back := by
      rw [htokens]
      simp
    obtain ⟨ks', ps', hpieces', hlstart, hlstop, -, hback⟩ := exists_pieces hsplit
    have hsame : (ks ++ ds) ++ ps = (ks' ++ [⟨some last.kind, last.text⟩]) ++ ps' := by
      rw [List.append_assoc, ← hpieces, hpieces', List.append_assoc, List.singleton_append]
    obtain ⟨-, rfl⟩ := append_inj_of_byteLength hsame
      (fun p hp => hne p (by rwa [hpieces, ← List.append_assoc]))
      (by simp only [flat_append, flat_cons, flat_nil, Text.byteLength_append, Text.byteLength_nil]
          omega)
    rw [hstop, hback]
  have hlater := lexemesOf_after hfits hes he hsorted
    (by rw [hpieces, ← List.append_assoc])
    (by rw [hds, hstart, flat_append, Text.byteLength_append]) hlt hafter
  have hall := (lexemes_splice hterm hfits hes).1
  rw [lexemes_eq, hqs, htokens, lexemesOf_append, lexemesOf_append, ← lexemes_eq, hlater, hback,
    List.flatMap_append, List.flatMap_append, hts, List.append_assoc, List.append_assoc] at hall
  exact ⟨qs₁, qs₂, hqs, List.append_cancel_right hall⟩

end Splice

/-- Words with blanks between them start with a token and end with one. -/
lemma exists_span_wordPieces {ws : List (List Char)} (hne : ws ≠ []) (offset : Nat) :
    ∃ first last, (tokensFrom offset (wordPieces ws)).head? = some first ∧
      (tokensFrom offset (wordPieces ws)).getLast? = some last ∧ first.start = offset ∧
      last.stop = offset + byteLength (flat (wordPieces ws)) := by
  induction ws generalizing offset with
  | nil => exact absurd rfl hne
  | cons w ws ih =>
      cases ws with
      | nil =>
          refine ⟨⟨.atom, w, offset, offset + byteLength w⟩,
            ⟨.atom, w, offset, offset + byteLength w⟩, rfl, rfl, rfl, ?_⟩
          rw [flat_wordPieces, List.intercalate_singleton]
      | cons v ws =>
          have hpieces : wordPieces (w :: v :: ws) =
              wordPiece w :: ⟨none, [' ']⟩ :: wordPieces (v :: ws) := rfl
          obtain ⟨first, last, hfirst, hlast, -, hstop⟩ :=
            ih (by simp) (offset + byteLength w + byteLength [' '])
          refine ⟨⟨.atom, w, offset, offset + byteLength w⟩, last, rfl, ?_, rfl, ?_⟩
          · have htokens : tokensFrom offset (wordPieces (w :: v :: ws)) =
                ⟨.atom, w, offset, offset + byteLength w⟩ ::
                  tokensFrom (offset + byteLength w + byteLength [' '])
                    (wordPieces (v :: ws)) := rfl
            rw [htokens, List.getLast?_cons, hlast]
            rfl
          · rw [hstop, hpieces, flat_cons, flat_cons, Text.byteLength_append,
              Text.byteLength_append]
            simp only [wordPiece]
            omega

/-! ### Edits that change nothing -/

/-- An edit that puts in what is there. -/
def Idle (text : List Char) (e : Edit) : Prop :=
  ∃ front back, text = front ++ (e.replacement ++ back) ∧ e.start = byteLength front ∧
    e.stop = e.start + byteLength e.replacement

lemma spliceFrom_eq_self {text : List Char} {es : List Edit} (h : ∀ e ∈ es, Idle text e)
    {front rest : List Char} (htext : text = front ++ rest) :
    spliceFrom text (byteLength front) es = rest := by
  induction es generalizing front rest with
  | nil => rw [spliceFrom, htext, Text.dropBytes_left]
  | cons e es ih =>
      have ih := @ih fun e he => h e (List.mem_cons_of_mem _ he)
      rw [spliceFrom]
      split
      · exact ih htext
      · rename_i hle
        obtain ⟨front', back, htext', hstart, hstop⟩ := h e (by simp)
        obtain ⟨middle, rfl, rfl⟩ := exists_append_of_start (htext.symm.trans htext') (by omega)
        have hslice : Text.sliceBytes text (byteLength front) e.start = middle := by
          rw [htext, hstart, Text.byteLength_append, Text.sliceBytes_append]
        have hafter := @ih (front ++ middle ++ e.replacement) back (by rw [htext']; simp)
        rw [Text.byteLength_append, ← hstart, ← hstop] at hafter
        rw [hslice, hafter, List.append_assoc]

/-- Edits that put in what is there leave a text as it is. -/
lemma splice_eq_self {text : List Char} {es : List Edit} (h : ∀ e ∈ es, Idle text e) :
    splice text es = text := by
  have hall : ∀ e ∈ es.mergeSort fun a b => a.start ≤ b.start, Idle text e := fun e he =>
    h e ((List.mergeSort_perm es _).mem_iff.mp he)
  exact @spliceFrom_eq_self text _ hall [] text rfl

/-- What a token is already is put in its place. -/
lemma idle_of_mem_tokens {text : List Char} {t : Token} (ht : t ∈ tokens text) :
    Idle text ⟨t.start, t.stop, t.text⟩ := by
  obtain ⟨front, back, hsplit⟩ := List.append_of_mem ht
  obtain ⟨ks, rest, hpieces, hstart, hstop, -⟩ := exists_pieces hsplit
  refine ⟨flat ks, flat rest, ?_, by simpa using hstart, hstop⟩
  have hflat := congrArg flat hpieces
  rwa [flat_pieces, flat_append, flat_cons] at hflat

/-- Nothing is put in where a token ends. -/
lemma idle_nil_of_mem_tokens {text : List Char} {t : Token} (ht : t ∈ tokens text) :
    Idle text ⟨t.stop, t.stop, []⟩ := by
  obtain ⟨front, back, htext, hstart, hstop⟩ := idle_of_mem_tokens ht
  refine ⟨front ++ t.text, back, by simpa using htext, ?_, rfl⟩
  rw [Text.byteLength_append, ← hstart]
  exact hstop

end CallGuard.Wat
