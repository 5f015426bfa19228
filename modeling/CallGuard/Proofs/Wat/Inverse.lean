import CallGuard.Proofs.Wat.Direct.Safety

/-!
Edits that are all applied, and how they are taken back. A text and edits of it are cut into
changes: what is kept before an edit, what the edit takes out and what it puts in. The edited
text has the new parts in the places of the old ones, and the edits that put the old parts back
are those of the opposite changes.

* `Change`, `textBefore`, `textAfter`, `editsOf`: changes, the texts that they are between, and
  the edits that make them.
* `spliceFrom_editsOf`: edits that come one after the other are all applied.
* `exists_changes`: edits of a text in order make changes.
* `inverseEdits`, `inverseFrom_editsOf`: the edits that take edits back.
* `splice_inverse`: what edits make of a text, and that they are taken back.
-/

namespace CallGuard.Wat

open Direct (IsCut IsEditOf exists_append_of_isCut)
open Text (byteLength)

/-! ### Changes -/

/-- A change of a text: a part that is replaced, and the text that is kept before it. -/
structure Change where
  /-- What is kept since the change before. -/
  kept : List Char
  /-- What is taken out. -/
  old : List Char
  /-- What is put in. -/
  new : List Char

/-- The change that takes a change back. -/
def Change.inverse (c : Change) : Change :=
  ⟨c.kept, c.new, c.old⟩

/-- The text before changes; `last` is kept after all of them. -/
def textBefore (cs : List Change) (last : List Char) : List Char :=
  cs.flatMap (fun c => c.kept ++ c.old) ++ last

/-- The text after changes. -/
def textAfter (cs : List Change) (last : List Char) : List Char :=
  cs.flatMap (fun c => c.kept ++ c.new) ++ last

/-- The edits that make changes of a text from an offset on. -/
def editsOf : Nat → List Change → List Edit
  | _, [] => []
  | offset, c :: cs =>
    let start := offset + byteLength c.kept
    let stop := start + byteLength c.old
    ⟨start, stop, c.new⟩ :: editsOf stop cs

lemma textBefore_cons (c : Change) (cs : List Change) (last : List Char) :
    textBefore (c :: cs) last = c.kept ++ (c.old ++ textBefore cs last) := by
  simp [textBefore]

lemma textAfter_cons (c : Change) (cs : List Change) (last : List Char) :
    textAfter (c :: cs) last = c.kept ++ (c.new ++ textAfter cs last) := by
  simp [textAfter]

lemma textBefore_inverse (cs : List Change) (last : List Char) :
    textBefore (cs.map Change.inverse) last = textAfter cs last := by
  rw [textBefore, textAfter, List.flatMap_map]
  rfl

lemma textAfter_inverse (cs : List Change) (last : List Char) :
    textAfter (cs.map Change.inverse) last = textBefore cs last := by
  rw [textBefore, textAfter, List.flatMap_map]
  rfl

/-- Edits of changes come one after the other, from where the changes start. -/
lemma pairwise_editsOf (offset : Nat) (cs : List Change) :
    (∀ e ∈ editsOf offset cs, offset ≤ e.start) ∧
      (editsOf offset cs).Pairwise fun e e' => e.start ≤ e'.start := by
  induction cs generalizing offset with
  | nil => exact ⟨by simp [editsOf], List.Pairwise.nil⟩
  | cons c cs ih =>
      obtain ⟨hle, hpair⟩ := ih (offset + byteLength c.kept + byteLength c.old)
      rw [editsOf, List.forall_mem_cons, List.pairwise_cons]
      refine ⟨⟨Nat.le_add_right _ _, ?_⟩, ?_, hpair⟩
      · intro e he
        have := hle e he
        omega
      · intro e he
        have := hle e he
        dsimp only
        omega

section Splice

variable {text front last : List Char}

/-- Edits of changes are all applied. -/
lemma spliceFrom_editsOf (cs : List Change) (h : text = front ++ textBefore cs last) :
    spliceFrom text (byteLength front) (editsOf (byteLength front) cs) = textAfter cs last := by
  induction cs generalizing front with
  | nil =>
      rw [editsOf, spliceFrom, h, Text.dropBytes_left]
      rfl
  | cons c cs ih =>
      have hkept : Text.sliceBytes text (byteLength front)
          (byteLength front + byteLength c.kept) = c.kept := by
        rw [h, textBefore_cons, Text.sliceBytes_append]
      have hrest := @ih (front ++ c.kept ++ c.old) (by rw [h, textBefore_cons]; simp)
      rw [Text.byteLength_append, Text.byteLength_append] at hrest
      rw [editsOf, spliceFrom, if_neg (by dsimp only; omega), hkept, hrest, textAfter_cons,
        List.append_assoc]

/-- The edits of changes start and end between characters. -/
lemma isEditOf_editsOf (cs : List Change) (h : text = front ++ textBefore cs last) :
    ∀ e ∈ editsOf (byteLength front) cs, IsEditOf text e := by
  induction cs generalizing front with
  | nil => simp [editsOf]
  | cons c cs ih =>
      have hstop : byteLength (front ++ c.kept ++ c.old) =
          byteLength front + byteLength c.kept + byteLength c.old := by
        rw [Text.byteLength_append, Text.byteLength_append]
      have hrest := @ih (front ++ c.kept ++ c.old) (by rw [h, textBefore_cons]; simp)
      rw [hstop] at hrest
      rw [editsOf, List.forall_mem_cons]
      refine ⟨⟨⟨front ++ c.kept, c.old ++ textBefore cs last, ?_, Text.byteLength_append _ _⟩,
        ⟨front ++ c.kept ++ c.old, textBefore cs last, ?_, hstop⟩, Nat.le_add_right _ _⟩, hrest⟩
      · rw [h, textBefore_cons, List.append_assoc]
      · rw [h, textBefore_cons]
        simp

end Splice

/-! ### Edits in order -/

/-- Edits that come one after the other make changes. -/
lemma exists_changes {text front rest : List Char} {es : List Edit} (h : text = front ++ rest)
    (hes : ∀ e ∈ es, IsEditOf text e) (hpair : es.Pairwise fun e e' => e.stop ≤ e'.start)
    (hle : ∀ e ∈ es, byteLength front ≤ e.start) :
    ∃ cs last, rest = textBefore cs last ∧ editsOf (byteLength front) cs = es := by
  induction es generalizing front rest with
  | nil => exact ⟨[], rest, rfl, rfl⟩
  | cons e es ih =>
      obtain ⟨he, hes⟩ := List.forall_mem_cons.mp hes
      obtain ⟨hbefore, hpair⟩ := List.pairwise_cons.mp hpair
      obtain ⟨kept, behind, rfl, hstart⟩ := exists_append_of_isCut (h ▸ he.start)
        (hle e List.mem_cons_self)
      rw [← List.append_assoc] at h
      rw [← Text.byteLength_append] at hstart
      obtain ⟨old, after, rfl, hstop⟩ := exists_append_of_isCut (h ▸ he.stop)
        (hstart ▸ he.le)
      rw [← List.append_assoc] at h
      rw [← Text.byteLength_append] at hstop
      obtain ⟨cs, last, rfl, hedits⟩ := ih h hes hpair
        (fun e' he' => hstop ▸ hbefore e' he')
      refine ⟨⟨kept, old, e.replacement⟩ :: cs, last, ?_, ?_⟩
      · rw [textBefore_cons]
      · rw [editsOf, ← Text.byteLength_append, ← Text.byteLength_append, hedits, ← hstart, ← hstop]

/-- Edits that lie apart have one order. -/
lemma mergeSort_eq_of_perm {es sorted : List Edit} (hes : es.Pairwise Apart)
    (hperm : sorted.Perm es) (hsorted : sorted.Pairwise fun e e' => e.start ≤ e'.start) :
    es.mergeSort (fun a b => a.start ≤ b.start) = sorted := by
  have hall := (List.mergeSort_perm es fun a b => decide (a.start ≤ b.start)).trans hperm.symm
  refine List.Perm.eq_of_pairwise ?_ (pairwise_start_mergeSort es) hsorted hall
  intro e e' he he' hle hle'
  by_contra hne
  have hapart := hes.forall (hperm.mem_iff.mp (hall.mem_iff.mp he)) (hperm.mem_iff.mp he') hne
  exact hapart.1 (Nat.le_antisymm hle hle')

/-! ### Taking edits back -/

/-- The edits that take back edits in order. Those before them have put in and taken out the
given numbers of bytes, so what an edit has put in is shifted by their difference. -/
def inverseFrom (text : List Char) : Nat → Nat → List Edit → List Edit
  | _, _, [] => []
  | added, removed, e :: es =>
    let start := e.start + added - removed
    let added' := byteLength e.replacement
    ⟨start, start + added', Text.sliceBytes text e.start e.stop⟩ ::
      inverseFrom text (added + added') (removed + (e.stop - e.start)) es

/-- The edits that take edits of a text back, in order: each has the range of what an edit has
put in, and the old content of the range of the edit. -/
def inverseEdits (text : List Char) (edits : List Edit) : List Edit :=
  inverseFrom text 0 0 (edits.mergeSort fun a b => a.start ≤ b.start)

/-- The edits of changes are taken back by the edits of the opposite changes. -/
lemma inverseFrom_editsOf {text front last : List Char} (cs : List Change)
    (h : text = front ++ textBefore cs last) {added removed offset : Nat}
    (hoffset : offset + removed = byteLength front + added) :
    inverseFrom text added removed (editsOf (byteLength front) cs) =
      editsOf offset (cs.map Change.inverse) := by
  induction cs generalizing front added removed offset with
  | nil => rfl
  | cons c cs ih =>
      have hstart : byteLength front + byteLength c.kept + added - removed =
          offset + byteLength c.kept := by
        omega
      have hold : Text.sliceBytes text (byteLength front + byteLength c.kept)
          (byteLength front + byteLength c.kept + byteLength c.old) = c.old := by
        rw [h, textBefore_cons, ← List.append_assoc, ← Text.byteLength_append,
          Text.sliceBytes_append]
      have hrest := @ih (front ++ c.kept ++ c.old) (by rw [h, textBefore_cons]; simp)
        (added + byteLength c.new) (removed + byteLength c.old)
        (offset + byteLength c.kept + byteLength c.new)
        (by rw [Text.byteLength_append, Text.byteLength_append]; omega)
      rw [Text.byteLength_append, Text.byteLength_append] at hrest
      rw [editsOf, inverseFrom, List.map_cons, editsOf]
      dsimp only
      rw [Nat.add_sub_cancel_left, hstart, hold, hrest]
      rfl

/-- **Edits that lie apart are all applied, and nothing else changes.** Let edits of a text start
and end between characters, at different starts and without overlap. Then the text is cut into
changes that these edits make, and whatever the order of the edits, the edited text has the new
parts in the places of the old ones. The edits that take them back are edits of this text, and
applying them gives the text as it was. Neither way is a text cut inside a character. -/
theorem splice_inverse {text : List Char} {edits : List Edit}
    (hedits : ∀ e ∈ edits, IsEditOf text e) (hapart : edits.Pairwise Apart) :
    ∃ changes last, text = textBefore changes last ∧ (editsOf 0 changes).Perm edits ∧
      (∀ edits', edits'.Perm edits → splice text edits' = textAfter changes last ∧
        Direct.splice text edits' = .ok (splice text edits')) ∧
      (∀ e ∈ inverseEdits text edits, IsEditOf (splice text edits) e) ∧
      splice (splice text edits) (inverseEdits text edits) = text ∧
      Direct.splice (splice text edits) (inverseEdits text edits) = .ok text := by
  have hsort := List.mergeSort_perm edits fun a b => decide (a.start ≤ b.start)
  obtain ⟨cs, last, htext, hcs⟩ := @exists_changes text [] text _ rfl
    (fun e he => hedits e (hsort.mem_iff.mp he))
    (pairwise_mergeSort_of_le (fun e he => (hedits e he).le) hapart) (fun e _ => Nat.zero_le _)
  rw [Text.byteLength_nil] at hcs
  have hperm : (editsOf 0 cs).Perm edits := hcs ▸ hsort
  have happlied (edits' : List Edit) (hedits' : edits'.Perm edits) :
      splice text edits' = textAfter cs last := by
    have hapart' := hapart.perm hedits'.symm Apart.symm
    rw [splice, mergeSort_eq_of_perm hapart' (hperm.trans hedits'.symm) (pairwise_editsOf 0 cs).2]
    exact @spliceFrom_editsOf text [] last cs htext
  have hinverse : inverseEdits text edits = editsOf 0 (cs.map Change.inverse) := by
    rw [inverseEdits, ← hcs]
    exact @inverseFrom_editsOf text [] last cs htext 0 0 0 rfl
  have hafter : splice text edits = textBefore (cs.map Change.inverse) last := by
    rw [happlied edits (List.Perm.refl _), textBefore_inverse]
  have hedits' : ∀ e ∈ inverseEdits text edits, IsEditOf (splice text edits) e := by
    rw [hinverse]
    exact @isEditOf_editsOf _ [] last _ hafter
  have hback : splice (splice text edits) (inverseEdits text edits) = text := by
    rw [hinverse, splice, List.mergeSort_of_pairwise]
    · exact (@spliceFrom_editsOf _ [] last _ hafter).trans
        ((textAfter_inverse cs last).trans htext.symm)
    · exact (pairwise_editsOf 0 _).2.imp fun h => decide_eq_true h
  refine ⟨cs, last, htext, hperm, fun edits' hperm' => ⟨happlied edits' hperm', ?_⟩, hedits',
    hback, ?_⟩
  · exact Direct.splice_eq fun e he => hedits e (hperm'.mem_iff.mp he)
  · rw [Direct.splice_eq hedits', hback]

/-- Three edits out of order that touch: `a` is replaced, `é` is taken out and `xy` is put in
where it was. The edits that take back the last two have the same start. -/
theorem splice_inverse_touching :
    let text := "aéb".toList
    let edits : List Edit := [⟨3, 3, "xy".toList⟩, ⟨1, 3, []⟩, ⟨0, 1, "ü".toList⟩]
    (∀ e ∈ edits, IsEditOf text e) ∧ edits.Pairwise Apart ∧
      splice text edits = "üxyb".toList ∧
      inverseEdits text edits = [⟨0, 2, "a".toList⟩, ⟨2, 2, "é".toList⟩, ⟨2, 4, []⟩] ∧
      splice "üxyb".toList [⟨0, 2, "a".toList⟩, ⟨2, 2, "é".toList⟩, ⟨2, 4, []⟩] = text := by
  intro text edits
  have hstart : IsCut text 0 := Direct.isCut_zero
  have hsecond : IsCut text 1 := ⟨['a'], ['é', 'b'], rfl, rfl⟩
  have hthird : IsCut text 3 := ⟨['a', 'é'], ['b'], rfl, rfl⟩
  have hedits : ∀ e ∈ edits, IsEditOf text e := by
    intro e he
    simp only [edits, List.mem_cons, List.not_mem_nil, or_false] at he
    rcases he with rfl | rfl | rfl
    · exact ⟨hthird, hthird, by decide⟩
    · exact ⟨hsecond, hthird, by decide⟩
    · exact ⟨hstart, hsecond, by decide⟩
  have hapart : edits.Pairwise Apart := by
    simp [edits, Apart]
  have hsorted : edits.mergeSort (fun a b => a.start ≤ b.start) = edits.reverse :=
    mergeSort_eq_of_perm hapart (List.reverse_perm edits) (by decide)
  have hafter : splice text edits = "üxyb".toList := by
    rw [splice, hsorted]
    rfl
  have hinverse : inverseEdits text edits =
      [⟨0, 2, "a".toList⟩, ⟨2, 2, "é".toList⟩, ⟨2, 4, []⟩] := by
    rw [inverseEdits, hsorted]
    rfl
  obtain ⟨changes, last, -, -, -, -, hback, -⟩ := splice_inverse hedits hapart
  rw [hafter, hinverse] at hback
  exact ⟨hedits, hapart, hafter, hinverse, hback⟩

end CallGuard.Wat
