import CallGuard.Proofs.Wat.Token
import CallGuard.Wat.Splice

/-!
The tokens of a text after edits. Edits that replace whole pieces and lie apart from
each other are all applied, and if none of them makes pieces run into each other, every
token that no edit covers is still there and the tokens of a replacement stand where the
edit starts.

* `Apt`: an edit that makes no pieces run into each other.
* `Edited`: pieces after edits in order.
* `Edited.spliceFrom_eq`, `Edited.standAll`: the text of such pieces is the edited text,
  and its pieces are these.
* `Fits`, `Apart`: where edits may lie.
* `edited_splice`, `lexemes_splice`: the pieces and the tokens of an edited text.
-/

namespace CallGuard

/-! ### Cutting at the ends of characters -/

namespace Text

lemma dropBytes_append (s t : List Char) (n : Nat) :
    dropBytes (byteLength s + n) (s ++ t) = dropBytes n t := by
  induction s with
  | nil => simp
  | cons c s ih =>
      have hle : c.utf8Size ≤ c.utf8Size + byteLength s + n := by omega
      rw [List.cons_append, byteLength_cons, dropBytes, if_pos hle,
        show c.utf8Size + byteLength s + n - c.utf8Size = byteLength s + n by omega, ih]

lemma takeBytes_append (s t : List Char) (n : Nat) :
    takeBytes (byteLength s + n) (s ++ t) = s ++ takeBytes n t := by
  induction s with
  | nil => simp
  | cons c s ih =>
      have hle : c.utf8Size ≤ c.utf8Size + byteLength s + n := by omega
      rw [List.cons_append, byteLength_cons, takeBytes, if_pos hle,
        show c.utf8Size + byteLength s + n - c.utf8Size = byteLength s + n by omega, ih,
        List.cons_append]

@[simp] lemma dropBytes_zero (s : List Char) : dropBytes 0 s = s := by
  cases s with
  | nil => rfl
  | cons c s =>
      have := c.utf8Size_pos
      rw [dropBytes, if_neg (by omega)]

@[simp] lemma takeBytes_zero (s : List Char) : takeBytes 0 s = [] := by
  cases s with
  | nil => rfl
  | cons c s =>
      have := c.utf8Size_pos
      rw [takeBytes, if_neg (by omega)]

lemma dropBytes_left (s t : List Char) : dropBytes (byteLength s) (s ++ t) = t := by
  have hdrop := dropBytes_append s t 0
  rwa [Nat.add_zero, dropBytes_zero] at hdrop

lemma takeBytes_left (s t : List Char) : takeBytes (byteLength s) (s ++ t) = s := by
  have htake := takeBytes_append s t 0
  rwa [Nat.add_zero, takeBytes_zero, List.append_nil] at htake

/-- A part of a text is cut out between its offsets. -/
lemma sliceBytes_append (front part rest : List Char) :
    sliceBytes (front ++ (part ++ rest)) (byteLength front)
      (byteLength front + byteLength part) = part := by
  rw [sliceBytes, dropBytes_left, Nat.add_sub_cancel_left, takeBytes_left]

end Text

namespace Wat

open Text (byteLength)

/-! ### Edits of pieces -/

/-- An edit that puts its replacement in the place of the pieces `ds` before the pieces
`ps` and makes no pieces run into each other. What follows may have been edited too. An
edit starts at a token, at the end of the text, or does nothing. -/
structure Apt (ds ps : List Piece) (e : Edit) : Prop where
  stands : ∀ rest, Blends (flat ps) rest → StandAll (pieces e.replacement) rest
  blends : ∀ rest, Blends (flat ps) rest → Blends (flat ds ++ flat ps) (e.replacement ++ rest)
  terminated : Terminated e.replacement
  placed : (∀ p, (ds ++ ps).head? = some p → p.kind.isSome) ∨ ds = [] ∧ e.replacement = []

/-- Pieces from an offset on, the edits of them in order, and the pieces after these. -/
inductive Edited : Nat → List Piece → List Edit → List Piece → Prop where
  | nil (offset : Nat) : Edited offset [] [] []
  | keep {offset : Nat} {p : Piece} {ps qs : List Piece} {es : List Edit} :
      Edited (offset + byteLength p.text) ps es qs → Edited offset (p :: ps) es (p :: qs)
  | edit {ds ps qs : List Piece} {e : Edit} {es : List Edit} :
      e.stop = e.start + byteLength (flat ds) → Apt ds ps e → Edited e.stop ps es qs →
      Edited e.start (ds ++ ps) (e :: es) (pieces e.replacement ++ qs)

/-- What edits put at an offset. -/
def inserted (es : List Edit) (offset : Nat) : List Lexeme :=
  (es.filter (·.start = offset)).flatMap fun e => lexemes e.replacement

/-- What edits make of a token: it is kept unless one of them covers it, and what they
put at its offset comes before it. -/
def edited (es : List Edit) (t : Token) : List Lexeme :=
  inserted es t.start ++ if ∃ e ∈ es, e.start ≤ t.start ∧ t.start < e.stop then [] else [t.lexeme]

lemma inserted_cons (e : Edit) (es : List Edit) (offset : Nat) :
    inserted (e :: es) offset =
      (if e.start = offset then lexemes e.replacement else []) ++ inserted es offset := by
  by_cases h : e.start = offset <;> simp [inserted, h]

lemma inserted_eq_nil {es : List Edit} {offset : Nat}
    (h : ∀ e ∈ es, e.start = offset → e.replacement = []) : inserted es offset = [] := by
  rw [inserted, List.flatMap_eq_nil_iff]
  intro e he
  rw [List.mem_filter, decide_eq_true_eq] at he
  rw [h e he.1 he.2, lexemes_nil]

lemma inserted_of_lt {es : List Edit} {offset : Nat} (h : ∀ e ∈ es, offset < e.start) :
    inserted es offset = [] := by
  refine inserted_eq_nil fun e he heq => ?_
  have := h e he
  omega

lemma edited_of_lt {es : List Edit} {t : Token} (h : ∀ e ∈ es, t.start < e.start) :
    edited es t = [t.lexeme] := by
  rw [edited, inserted_of_lt h, if_neg, List.nil_append]
  rintro ⟨e, he, hle, -⟩
  have := h e he
  omega

/-- An edit that ends before a token does nothing to it. -/
lemma edited_cons_of_le {e : Edit} {es : List Edit} {t : Token} (hstart : e.start ≠ t.start)
    (hstop : e.stop ≤ t.start) : edited (e :: es) t = edited es t := by
  have hnot : ¬ (e.start ≤ t.start ∧ t.start < e.stop) := by omega
  simp only [edited, inserted_cons, if_neg hstart, List.nil_append, List.exists_mem_cons_iff, hnot,
    false_or]

/-- An edit that starts where a token does, and removes nothing. -/
lemma edited_cons_of_eq {e : Edit} {es : List Edit} {t : Token} (hstart : e.start = t.start)
    (hstop : e.stop = t.start) : edited (e :: es) t = lexemes e.replacement ++ edited es t := by
  have hnot : ¬ (e.start ≤ t.start ∧ t.start < e.stop) := by omega
  simp only [edited, inserted_cons, if_pos hstart, List.append_assoc, List.exists_mem_cons_iff,
    hnot, false_or]

/-- A token that is covered by an edit goes. -/
lemma edited_cons_of_covers {e : Edit} {es : List Edit} {t : Token} (hstart : e.start ≤ t.start)
    (hstop : t.start < e.stop) (h : ∀ e' ∈ es, t.start < e'.start) :
    edited (e :: es) t = if e.start = t.start then lexemes e.replacement else [] := by
  have hcovers : ∃ e' ∈ e :: es, e'.start ≤ t.start ∧ t.start < e'.stop :=
    ⟨e, by simp, hstart, hstop⟩
  rw [edited, inserted_cons, inserted_of_lt h, if_pos hcovers, List.append_nil, List.append_nil]

/-- An edit that neither removes nor puts in anything. -/
lemma edited_cons_of_empty {e : Edit} {es : List Edit} (hstop : e.stop = e.start)
    (hempty : e.replacement = []) :
    edited (e :: es) = edited es ∧ inserted (e :: es) = inserted es := by
  have hinserted : inserted (e :: es) = inserted es := by
    funext offset
    rw [inserted_cons, hempty, lexemes_nil, ite_self, List.nil_append]
  refine ⟨?_, hinserted⟩
  funext t
  have hnot : ¬ (e.start ≤ t.start ∧ t.start < e.stop) := by omega
  simp only [edited, hinserted, List.exists_mem_cons_iff, hnot, false_or]

/-- The tokens after an edit. -/
lemma flatMap_edited_cons {e : Edit} {es : List Edit} {offset : Nat} {ps : List Piece}
    (hps : ∀ p ∈ ps, p.text ≠ []) (hstart : e.start < offset) (hstop : e.stop ≤ offset) :
    (tokensFrom offset ps).flatMap (edited (e :: es)) =
      (tokensFrom offset ps).flatMap (edited es) := by
  refine List.flatMap_congr fun t ht => ?_
  have := bounds_of_mem_tokensFrom hps ht
  exact edited_cons_of_le (by omega) (by omega)

/-- An edit that only puts something in, at a token or at the end. -/
lemma flatMap_edited_insert {e : Edit} {es : List Edit} {ps : List Piece}
    (hps : ∀ p ∈ ps, p.text ≠ []) (hsame : e.stop = e.start)
    (htoken : ∀ p, ps.head? = some p → p.kind.isSome) :
    (tokensFrom e.start ps).flatMap (edited (e :: es)) ++
        inserted (e :: es) (e.start + byteLength (flat ps)) =
      lexemes e.replacement ++ ((tokensFrom e.start ps).flatMap (edited es) ++
        inserted es (e.start + byteLength (flat ps))) := by
  cases ps with
  | nil => simp [tokensFrom, inserted_cons]
  | cons p ps =>
      obtain ⟨kind, text⟩ := p
      obtain ⟨kind, rfl⟩ := Option.isSome_iff_exists.mp (htoken _ rfl)
      have hpos : 0 < byteLength text := Text.byteLength_pos (hps _ (List.mem_cons_self ..))
      have hend : e.start ≠ e.start + byteLength (flat (⟨some kind, text⟩ :: ps)) := by
        simp only [flat_cons, Text.byteLength_append]
        omega
      have hrest := @flatMap_edited_cons e es (e.start + byteLength text) ps
        (fun p hp => hps p (List.mem_cons_of_mem _ hp)) (by omega) (by omega)
      rw [tokensFrom, List.flatMap_cons, List.flatMap_cons, hrest, edited_cons_of_eq rfl hsame,
        inserted_cons, if_neg hend, List.nil_append, List.append_assoc, List.append_assoc,
        List.append_assoc]

/-- The tokens that an edit replaces, of which the first is where it starts. -/
lemma flatMap_edited_replace {e : Edit} {es : List Edit} {kind : TokenKind} {text : List Char}
    {ds : List Piece} (hds : ∀ p ∈ ⟨some kind, text⟩ :: ds, p.text ≠ [])
    (hstop : e.stop = e.start + byteLength (flat (⟨some kind, text⟩ :: ds)))
    (hle : ∀ e' ∈ es, e.stop ≤ e'.start) :
    (tokensFrom e.start (⟨some kind, text⟩ :: ds)).flatMap (edited (e :: es)) =
      lexemes e.replacement := by
  have hpos : 0 < byteLength text := Text.byteLength_pos (hds _ (List.mem_cons_self ..))
  simp only [flat_cons, Text.byteLength_append] at hstop
  have hlt : ∀ offset, offset < e.stop → ∀ e' ∈ es, offset < e'.start :=
    fun offset h e' he' => h.trans_le (hle e' he')
  have hrest : (tokensFrom (e.start + byteLength text) ds).flatMap (edited (e :: es)) = [] := by
    rw [List.flatMap_eq_nil_iff]
    intro t ht
    have := bounds_of_mem_tokensFrom (fun p hp => hds p (List.mem_cons_of_mem _ hp)) ht
    rw [edited_cons_of_covers (by omega) (by omega) (hlt _ (by omega)), if_neg (by omega)]
  rw [tokensFrom, List.flatMap_cons, hrest, List.append_nil,
    edited_cons_of_covers le_rfl (by simp only; omega) (hlt _ (by simp only; omega)), if_pos rfl]

namespace Edited

variable {offset : Nat} {ps qs : List Piece} {es : List Edit}

lemma le_start (h : Edited offset ps es qs) : ∀ e ∈ es, offset ≤ e.start := by
  induction h with
  | nil => simp
  | keep _ ih =>
      intro e he
      have := ih e he
      omega
  | @edit ds ps qs e es hstop _ _ ih =>
      intro e' he'
      rcases List.mem_cons.mp he' with rfl | he'
      · exact le_rfl
      · have := ih e' he'
        omega

/-- Without edits everything is kept. -/
lemma refl (offset : Nat) (ps : List Piece) : Edited offset ps [] ps := by
  induction ps generalizing offset with
  | nil => exact nil offset
  | cons p ps ih => exact keep (ih _)

/-- Pieces before all edits are kept. -/
lemma append (ks : List Piece) {offset : Nat}
    (h : Edited (offset + byteLength (flat ks)) ps es qs) :
    Edited offset (ks ++ ps) es (ks ++ qs) := by
  induction ks generalizing offset with
  | nil => simpa using h
  | cons k ks ih =>
      refine keep (ih ?_)
      rwa [Nat.add_assoc, ← Text.byteLength_append, ← flat_cons]

/-- The text of edited pieces is the edited text. -/
lemma spliceFrom_eq {text front : List Char} (h : Edited offset ps es qs)
    (htext : text = front ++ flat ps) (hoffset : byteLength front = offset) :
    spliceFrom text offset es = flat qs := by
  subst hoffset htext
  generalize hoff : byteLength front = offset at h
  induction h generalizing front with
  | nil =>
      rw [spliceFrom, ← hoff, flat_nil, List.append_nil]
      simpa using Text.dropBytes_left front []
  | @keep offset p ps qs es h ih =>
      have ih := @ih (front ++ p.text) (by rw [Text.byteLength_append, hoff])
      rw [List.append_assoc, ← flat_cons] at ih
      rw [flat_cons p qs, ← ih]
      cases es with
      | nil =>
          rw [spliceFrom, spliceFrom, ← hoff, ← Text.byteLength_append, flat_cons,
            ← List.append_assoc, Text.dropBytes_left, List.append_assoc, Text.dropBytes_left]
      | cons e es =>
          have hle := h.le_start e (by simp)
          have hpos : ¬ e.start < offset := by omega
          have hpos' : ¬ e.start < offset + byteLength p.text := by omega
          rw [spliceFrom, spliceFrom, if_neg hpos, if_neg hpos', ← List.append_assoc,
            ← List.append_assoc]
          congr 2
          -- the kept piece is the first part of what lies before the edit
          rw [Text.sliceBytes, Text.sliceBytes, ← hoff, ← Text.byteLength_append, flat_cons,
            Text.dropBytes_left, ← List.append_assoc, Text.dropBytes_left, Text.byteLength_append,
            hoff,
            show e.start - offset =
              byteLength p.text + (e.start - (offset + byteLength p.text)) by omega,
            Text.takeBytes_append]
  | @edit ds ps qs e es hstop _ _ ih =>
      have ih := @ih (front ++ flat ds) (by rw [Text.byteLength_append, hoff, hstop])
      rw [List.append_assoc, ← flat_append] at ih
      rw [spliceFrom, if_neg (by omega), ih, Text.sliceBytes, Nat.sub_self, Text.takeBytes_zero,
        flat_append, flat_pieces, List.nil_append]

/-- The edited pieces are the pieces of their text. -/
lemma standAll (h : Edited offset ps es qs) (hps : StandAll ps [])
    (hterm : ∀ p ∈ ps, p.Terminated) :
    StandAll qs [] ∧ Blends (flat ps) (flat qs) ∧ ∀ q ∈ qs, q.Terminated := by
  induction h with
  | nil => exact ⟨trivial, Blends.refl _, by simp⟩
  | @keep offset p ps qs es _ ih =>
      obtain ⟨hqs, hblend, hq⟩ := ih hps.2 fun p' hp' => hterm p' (List.mem_cons_of_mem _ hp')
      have hp : p.Terminated := hterm p (by simp)
      refine ⟨⟨?_, hqs⟩, blends_of_append hps.1.text_ne_nil, ?_⟩
      · have := hps.1
        rw [List.append_nil] at this ⊢
        exact this.blend hp hblend
      · intro q hq'
        rcases List.mem_cons.mp hq' with rfl | hq'
        · exact hp
        · exact hq q hq'
  | @edit ds ps qs e es _ hapt _ ih =>
      obtain ⟨hqs, hblend, hq⟩ := ih (standAll_append.mp hps).2
        fun p hp => hterm p (List.mem_append_right _ hp)
      refine ⟨standAll_append.mpr ⟨?_, hqs⟩, ?_, ?_⟩
      · rw [List.append_nil]
        exact hapt.stands _ hblend
      · rw [flat_append, flat_append, flat_pieces]
        exact hapt.blends _ hblend
      · intro q hq'
        rcases List.mem_append.mp hq' with hq' | hq'
        · exact hapt.terminated q hq'
        · exact hq q hq'

/-- Applying edits in order gives every token that none of them covers and, where an edit
starts, the tokens of its replacement. -/
lemma lexemesOf_eq (h : Edited offset ps es qs) (hps : ∀ p ∈ ps, p.text ≠ []) :
    lexemesOf qs = (tokensFrom offset ps).flatMap (edited es) ++
      inserted es (offset + byteLength (flat ps)) := by
  induction h with
  | nil => rfl
  | @keep offset p ps qs es h ih =>
      have ih := ih fun p' hp' => hps p' (List.mem_cons_of_mem _ hp')
      have hpos := Text.byteLength_pos (hps p (by simp))
      have hlt : ∀ e ∈ es, offset < e.start := fun e he => by
        have := h.le_start e he
        omega
      rw [flat_cons, Text.byteLength_append, ← Nat.add_assoc]
      obtain ⟨kind, text⟩ := p
      cases kind with
      | none => exact ih
      | some kind =>
          rw [lexemesOf_cons_some, ih, tokensFrom, List.flatMap_cons,
            edited_of_lt hlt]
          rfl
  | @edit ds ps qs e es hstop hapt h ih =>
      have ih := ih fun p hp => hps p (List.mem_append_right _ hp)
      have hle : ∀ e' ∈ es, e.stop ≤ e'.start := h.le_start
      rw [lexemesOf_append, ← lexemes_eq, ih, flat_append, Text.byteLength_append, ← Nat.add_assoc,
        ← hstop]
      cases ds with
      | nil =>
          have hsame : e.stop = e.start := by simpa using hstop
          rw [hsame, List.nil_append]
          rcases hapt.placed with htoken | ⟨-, hempty⟩
          · exact (flatMap_edited_insert hps hsame htoken).symm
          · obtain ⟨hedited, hinserted⟩ := @edited_cons_of_empty e es hsame hempty
            rw [hedited, hinserted, hempty, lexemes_nil, List.nil_append]
      | cons d ds =>
          obtain ⟨kind, text⟩ := d
          have htoken := hapt.placed.resolve_right (by simp)
          obtain ⟨kind, rfl⟩ := Option.isSome_iff_exists.mp (htoken _ rfl)
          have hds := fun p hp => hps p (List.mem_append_left ps hp)
          have hps := fun p hp => hps p (List.mem_append_right (⟨some kind, text⟩ :: ds) hp)
          have hlt : e.start < e.stop := by
            have := Text.byteLength_pos (hds _ (List.mem_cons_self ..))
            rw [flat_cons, Text.byteLength_append] at hstop
            omega
          rw [tokensFrom_append, List.flatMap_append, flatMap_edited_replace hds hstop hle, ← hstop,
            flatMap_edited_cons hps hlt le_rfl, inserted_cons, if_neg (by omega), List.nil_append,
            List.append_assoc]

end Edited

/-! ### Edits of a text -/

/-- An edit that replaces whole pieces of a text and makes none run into each other. -/
def Fits (text : List Char) (e : Edit) : Prop :=
  ∃ ks ds ps, pieces text = ks ++ (ds ++ ps) ∧ e.start = byteLength (flat ks) ∧
    e.stop = e.start + byteLength (flat ds) ∧ Apt ds ps e

/-- Edits that start at different offsets and do not overlap. -/
def Apart (e e' : Edit) : Prop :=
  e.start ≠ e'.start ∧ (e.stop ≤ e'.start ∨ e'.stop ≤ e.start)

lemma Apart.symm {e e' : Edit} (h : Apart e e') : Apart e' e :=
  ⟨h.1.symm, h.2.symm⟩

/-- Of two starts of a text the longer one starts with the other. -/
lemma exists_append_of_start {front rest front' rest' : List Char}
    (h : front ++ rest = front' ++ rest') (hle : byteLength front ≤ byteLength front') :
    ∃ middle, front' = front ++ middle ∧ rest = middle ++ rest' := by
  rcases List.append_eq_append_iff.mp h with ⟨middle, rfl, rfl⟩ | ⟨middle, rfl, rfl⟩
  · exact ⟨middle, rfl, rfl⟩
  · cases middle with
    | nil => exact ⟨[], by simp, by simp⟩
    | cons c cs =>
        have := c.utf8Size_pos
        rw [Text.byteLength_append, Text.byteLength_cons] at hle
        omega

/-- Pieces that reach further have the others at their start. -/
lemma exists_append_of_byteLength_le {ks ps ks' ps' : List Piece} (h : ks ++ ps = ks' ++ ps')
    (hks : ∀ p ∈ ks, p.text ≠ []) (hle : byteLength (flat ks) ≤ byteLength (flat ks')) :
    ∃ ms, ks' = ks ++ ms ∧ ps = ms ++ ps' := by
  rcases List.append_eq_append_iff.mp h with ⟨ms, rfl, rfl⟩ | ⟨ms, rfl, rfl⟩
  · exact ⟨ms, rfl, rfl⟩
  · cases ms with
    | nil => exact ⟨[], by simp, by simp⟩
    | cons m ms =>
        have := Text.byteLength_pos (hks m (by simp))
        simp only [flat_append, flat_cons, Text.byteLength_append] at hle
        omega

/-- Edits that fit and come one after the other are all applied. -/
lemma exists_edited {text : List Char} {es : List Edit} (hfits : ∀ e ∈ es, Fits text e)
    (hes : es.Pairwise fun e e' => e.stop ≤ e'.start) {ks ps : List Piece}
    (htext : pieces text = ks ++ ps) (hle : ∀ e ∈ es, byteLength (flat ks) ≤ e.start) :
    ∃ qs, Edited (byteLength (flat ks)) ps es qs := by
  induction es generalizing ks ps with
  | nil => exact ⟨ps, Edited.refl _ _⟩
  | cons e es ih =>
      obtain ⟨ks', ds, ps', heq, hstart, hstop, hapt⟩ := hfits e (by simp)
      have hne : ∀ p ∈ ks, p.text ≠ [] := fun p hp =>
        text_ne_nil_of_mem_pieces (htext ▸ List.mem_append_left ps hp)
      obtain ⟨ms, rfl, rfl⟩ := exists_append_of_byteLength_le (htext.symm.trans heq) hne
        (hstart ▸ hle e (by simp))
      have hafter : byteLength (flat (ks ++ ms ++ ds)) = e.stop := by
        rw [hstop, hstart, flat_append (ks ++ ms), Text.byteLength_append]
      obtain ⟨qs, hqs⟩ := @ih (fun e' he' => hfits e' (List.mem_cons_of_mem _ he'))
        (List.pairwise_cons.mp hes).2 (ks ++ ms ++ ds) ps' (by rw [heq, List.append_assoc _ ds])
        (fun e' he' => hafter ▸ (List.pairwise_cons.mp hes).1 e' he')
      refine ⟨ms ++ (pieces e.replacement ++ qs), Edited.append ms ?_⟩
      rw [← Text.byteLength_append, ← flat_append, ← hstart]
      exact Edited.edit hstop hapt (hafter ▸ hqs)

/-- Edits that start at different offsets put the same in whatever their order. -/
lemma inserted_perm {es es' : List Edit} (hperm : es.Perm es') (hes : es.Pairwise Apart) :
    inserted es = inserted es' := by
  funext offset
  have hp := hperm.filter (·.start = offset)
  have hpair := hes.filter (·.start = offset)
  have hall : ∀ e ∈ es.filter (·.start = offset), e.start = offset := fun e he => by
    simpa using (List.mem_filter.mp he).2
  rw [inserted, inserted]
  generalize es.filter (·.start = offset) = fs at hp hpair hall ⊢
  rcases fs with _ | ⟨e, _ | ⟨e', fs⟩⟩
  · rw [List.nil_perm.mp hp]
  · rw [List.singleton_perm.mp hp]
  · have happart := (List.pairwise_cons.mp hpair).1 e' (by simp)
    exact absurd ((hall e (by simp)).trans (hall e' (by simp)).symm) happart.1

lemma edited_perm {es es' : List Edit} (hperm : es.Perm es') (hes : es.Pairwise Apart) :
    edited es = edited es' := by
  funext t
  simp only [edited, inserted_perm hperm hes, hperm.mem_iff]

lemma pairwise_start_mergeSort (es : List Edit) :
    (es.mergeSort fun a b => a.start ≤ b.start).Pairwise fun e e' => e.start ≤ e'.start := by
  have hsorted := @List.pairwise_mergeSort Edit (fun a b => decide (a.start ≤ b.start))
    (fun a b c hab hbc => by simp only [decide_eq_true_eq] at *; omega)
    (fun a b => by simp only [Bool.or_eq_true, decide_eq_true_eq]; omega) es
  exact hsorted.imp fun h => of_decide_eq_true h

/-- In order, edits that lie apart come one after the other. -/
lemma pairwise_mergeSort_of_le {es : List Edit} (hle : ∀ e ∈ es, e.start ≤ e.stop)
    (hes : es.Pairwise Apart) :
    (es.mergeSort fun a b => a.start ≤ b.start).Pairwise fun e e' => e.stop ≤ e'.start := by
  have hperm := List.mergeSort_perm es fun a b => decide (a.start ≤ b.start)
  have hapart := hes.perm hperm.symm Apart.symm
  refine ((pairwise_start_mergeSort es).and hapart).imp_of_mem
    fun {e e'} he he' ⟨hstart, hne, hdisjoint⟩ => ?_
  have := hle e' (hperm.mem_iff.mp he')
  omega

lemma Fits.start_le_stop {text : List Char} {e : Edit} (h : Fits text e) : e.start ≤ e.stop := by
  obtain ⟨_, _, _, -, -, hstop, -⟩ := h
  omega

lemma pairwise_mergeSort_of_apart {text : List Char} {es : List Edit}
    (hfits : ∀ e ∈ es, Fits text e) (hes : es.Pairwise Apart) :
    (es.mergeSort fun a b => a.start ≤ b.start).Pairwise fun e e' => e.stop ≤ e'.start :=
  pairwise_mergeSort_of_le (fun e he => (hfits e he).start_le_stop) hes

/-- Edits that fit a text and lie apart make, in the order of their starts, the pieces of the
edited text out of those of the text. -/
lemma edited_splice {text : List Char} {es : List Edit} (hterm : Terminated text)
    (hfits : ∀ e ∈ es, Fits text e) (hes : es.Pairwise Apart) :
    Edited 0 (pieces text) (es.mergeSort fun a b => a.start ≤ b.start) (pieces (splice text es)) ∧
      Terminated (splice text es) := by
  have hperm := List.mergeSort_perm es fun a b => decide (a.start ≤ b.start)
  obtain ⟨qs, hqs⟩ := @exists_edited text (es.mergeSort fun a b => a.start ≤ b.start)
    (fun e he => hfits e (hperm.mem_iff.mp he)) (pairwise_mergeSort_of_apart hfits hes)
    [] (pieces text) rfl (by simp)
  rw [flat_nil, Text.byteLength_nil] at hqs
  have hsplice : splice text es = flat qs :=
    @Edited.spliceFrom_eq 0 _ _ _ text [] hqs (by simp) rfl
  obtain ⟨hstand, -, hq⟩ := hqs.standAll (standAll_pieces text) hterm
  have hpieces : pieces (splice text es) = qs := by rw [hsplice, pieces_flat hstand]
  exact ⟨hpieces ▸ hqs, fun q hq' => hq q (hpieces ▸ hq')⟩

/-- Edits that fit a text and lie apart are all applied, in the order of their starts,
and nothing else changes. -/
theorem lexemes_splice {text : List Char} {es : List Edit} (hterm : Terminated text)
    (hfits : ∀ e ∈ es, Fits text e) (hes : es.Pairwise Apart) :
    lexemes (splice text es) =
        (tokens text).flatMap (edited es) ++ inserted es (byteLength text) ∧
      Terminated (splice text es) := by
  obtain ⟨hedited, hterm'⟩ := edited_splice hterm hfits hes
  refine ⟨?_, hterm'⟩
  have hperm := List.mergeSort_perm es fun a b => decide (a.start ≤ b.start)
  have hne : ∀ p ∈ pieces text, p.text ≠ [] := fun p => text_ne_nil_of_mem_pieces
  rw [lexemes_eq, hedited.lexemesOf_eq hne, flat_pieces, Nat.zero_add,
    ← edited_perm hperm.symm hes, ← inserted_perm hperm.symm hes, tokens]

/-! ### What becomes of a token -/

instance : Std.Symm Apart := ⟨fun _ _ => Apart.symm⟩

section Tokens

variable {es : List Edit} (hes : es.Pairwise Apart) {e : Edit} (he : e ∈ es) {t : Token}
include hes he

/-- Only one edit puts something in at an offset. -/
lemma inserted_of_mem : inserted es e.start = lexemes e.replacement := by
  obtain ⟨before, after, rfl⟩ := List.append_of_mem he
  have hperm : (before ++ e :: after).Perm (e :: (before ++ after)) := List.perm_middle
  rw [inserted_perm hperm hes, inserted_cons, if_pos rfl, inserted_eq_nil, List.append_nil]
  intro e' he' heq
  exact absurd heq.symm ((List.pairwise_cons.mp (hes.perm hperm Apart.symm)).1 e' he').1

/-- The first token that an edit covers becomes the replacement. -/
lemma edited_of_replaced (hstart : e.start = t.start) (hstop : t.start < e.stop) :
    edited es t = lexemes e.replacement := by
  rw [edited, ← hstart, inserted_of_mem hes he, if_pos ⟨e, he, le_rfl, hstart ▸ hstop⟩,
    List.append_nil]

/-- The other tokens that an edit covers go. -/
lemma edited_of_covered (hle : ∀ e' ∈ es, e'.start ≤ e'.stop) (hstart : e.start < t.start)
    (hstop : t.start < e.stop) : edited es t = [] := by
  rw [edited, if_pos ⟨e, he, hstart.le, hstop⟩, List.append_nil]
  refine inserted_eq_nil fun e' he' heq => ?_
  have hne : e ≠ e' := by
    rintro rfl
    omega
  have hapart := hes.forall he he' hne
  have := hle e' he'
  rcases hapart.2 with h | h <;> omega

end Tokens

lemma edited_of_not_covered {es : List Edit} {t : Token}
    (h : ∀ e ∈ es, ¬ (e.start ≤ t.start ∧ t.start < e.stop)) :
    edited es t = inserted es t.start ++ [t.lexeme] := by
  rw [edited, if_neg]
  rintro ⟨e, he, hcovers⟩
  exact h e he hcovers

end Wat

end CallGuard
