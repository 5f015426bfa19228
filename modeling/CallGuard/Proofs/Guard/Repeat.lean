import CallGuard.Proofs.Guard.Rerun
import CallGuard.Proofs.Wat.Idle
import CallGuard.Proofs.Wat.Lines
import CallGuard.Proofs.Wat.Place

/-!
Guarding a module twice with one guard. The first run adds new fields at the end of the
module, and the global among them is its last line. A second run knows the module by this
line, so it depends on what the text has after the end of the module. If it knows the module,
it puts the references and the indices where they are already.

* `Module.FieldsInside`: a module with no field after its end.
* `Guarding.exists_splice_edits`: the new fields are the last change of the first run.
* `Guarding.isInstrumented_iff`: when the module is known again.
* `Guarding.idle_elemEdit`: the table is in its new order already.
* `Guard.instrument_repeats_iff`: when a second run leaves what the first one left.
-/

namespace CallGuard

namespace Wat

/-- All fields start before the parenthesis that closes the module, if there is one. -/
def Module.FieldsInside (m : Module) : Prop :=
  ∀ f ∈ m.fields, ∀ t offset, m.tokens[f.opening]? = some t → m.close = some offset →
    t.start < offset

lemma Module.FieldsInside.dataInside {m : Module} (h : m.FieldsInside) : m.DataInside :=
  fun f hf => h f (List.mem_of_mem_filter hf)

end Wat

namespace Guard

open Wat
open Text (byteLength AllBlank)

/-! ### The end of the module -/

/-- What is added ends with a line that starts a global. -/
lemma exists_trailer (g : Guard) (global : Nat) :
    ∃ front line, '\n' ∉ line ∧ g.trailer global = front ++ '\n' :: (globalStart ++ line) := by
  have hdecimal (n : Nat) : '\n' ∉ Text.decimal n := fun h =>
    absurd ((isWord_decimal n).2 '\n' h) (by decide)
  have hglobal : ")\n\t(global (;".toList = ')' :: '\n' :: (globalStart ++ " (;".toList) := by
    decide
  refine ⟨"\n\t(data (i32.const ".toList ++ Text.decimal g.offset.toNat ++ ") ".toList ++
    g.dataText ++ [')'], " (;".toList ++ Text.decimal global ++ ";) (mut i32) (i32.const ".toList ++
    Text.decimal g.dataEnd ++ "))".toList, ?_, ?_⟩
  · simp only [List.mem_append, not_or]
    exact ⟨⟨⟨⟨by decide, hdecimal _⟩, by decide⟩, hdecimal _⟩, by decide⟩
  · delta trailer
    rw [hglobal]
    simp only [List.append_assoc, List.cons_append, List.nil_append]

namespace Guarding

variable {g : Guard} {text : List Char} {F : Forest Token} {elem : ElemSegment} {f : Form}
  {front refs back : List Token} {checks : List Edit}

/-- Without fields after the end of the module, the tokens of fields come before it. -/
lemma start_lt_insertPoint (h : Guarding g text F elem f front refs back checks)
    (hinside : (F.toModule text).FieldsInside) {form : Form}
    (hform : form ∈ (F.toModule text).fields) {i : Nat} {t : Token} (ht : F.flatten[i]? = some t)
    (hi : i ≤ form.closing) : t.start < (F.toModule text).insertPoint := by
  rcases h.insertPoint_eq with ⟨-, hpoint⟩ | ⟨j, c, hc, -, hpoint, hclose, hout⟩
  · have := bounds_of_mem_tokens (List.mem_of_getElem? (h.flatten_eq ▸ ht))
    omega
  · have hlt := opening_lt_of_mem_fields hform
    obtain ⟨o, ho⟩ : ∃ o, F.flatten[form.opening]? = some o :=
      ⟨_, List.getElem?_eq_getElem (by omega)⟩
    have hopening := hinside form hform o c.start ho hclose
    rw [h.flatten_eq] at ht hc ho
    have hafter : form.closing < j := by
      rcases hout form hform with hlt | hlt
      · have := stop_le_start_of_lt hc ho hlt
        have := bounds_of_mem_tokens (List.mem_of_getElem? hc)
        omega
      · exact hlt
    have := stop_le_start_of_lt ht hc (by omega)
    have := bounds_of_mem_tokens (List.mem_of_getElem? ht)
    omega

/-- Without fields after the end of the module, all other edits start before it. -/
lemma eq_added_of_le (h : Guarding g text F elem f front refs back checks)
    (hinside : (F.toModule text).FieldsInside) {e : Edit}
    (he : e ∈ edits g (F.toModule text) elem checks)
    (hle : (F.toModule text).insertPoint ≤ e.start) : e = added g (F.toModule text) := by
  rcases mem_edits_iff.mp he with rfl | he | rfl
  · have hf := List.mem_of_mem_filter (List.mem_of_mem_head? h.references.field)
    obtain ⟨c, hc⟩ : ∃ c, F.flatten[f.closing]? = some c :=
      ⟨_, List.getElem?_eq_getElem (opening_lt_of_mem_fields hf).2⟩
    have := h.start_lt_insertPoint hinside hf hc le_rfl
    have := h.references.stop_le h.flatten_eq hc h.references.le_closing
    have := h.references.start_le_stop h.flatten_eq
    simp only [elemEdit] at hle
    omega
  · obtain ⟨i, t, name, k, ht, hsite, rfl⟩ := h.mem_checks_iff.mp he
    obtain ⟨form, hform, -, hlt⟩ := exists_function_of_callSite? hsite
    have := h.start_lt_insertPoint hinside (List.mem_of_mem_filter hform) ht hlt.le
    simp only at hle
    omega
  · rfl

/-- The new fields come before what was after the end of the module. -/
lemma exists_splice_edits (h : Guarding g text F elem f front refs back checks)
    (hinside : (F.toModule text).FieldsInside) :
    ∃ before, splice text (edits g (F.toModule text) elem checks) =
      before ++ (g.trailer (F.toModule text).globalCount ++
        Text.dropBytes (F.toModule text).insertPoint text) := by
  have hmem : added g (F.toModule text) ∈ edits g (F.toModule text) elem checks :=
    mem_edits_iff.mpr (Or.inr (Or.inr rfl))
  obtain ⟨ks, ds, ps, hpieces, hstart, hstop, -⟩ := h.fits_of_mem_edits _ hmem
  obtain ⟨es₁, es₂, qs₁, qs₂, hsorted, hqs, hafter⟩ := exists_edited_splice h.terminated
    h.fits_of_mem_edits h.pairwise_edits hmem hpieces hstart hstop
  have hlast : es₂ = [] := by
    refine List.eq_nil_iff_forall_not_mem.mpr fun e he => ?_
    have hperm := List.mergeSort_perm (edits g (F.toModule text) elem checks)
      fun a b => decide (a.start ≤ b.start)
    rw [hsorted] at hperm
    have hedit := hperm.mem_iff.mp (List.mem_append_right _ (List.mem_cons_of_mem _ he))
    obtain rfl := h.eq_added_of_le hinside hedit (hafter.le_start e he)
    -- no edit is made twice
    have hpair := (h.pairwise_edits.perm hperm.symm Apart.symm)
    rw [List.pairwise_append, List.pairwise_cons] at hpair
    exact (hpair.2.1.1 _ he).1 rfl
  subst hlast
  obtain rfl := hafter.eq_of_nil
  refine ⟨flat qs₁, ?_⟩
  have htext : text = flat (ks ++ ds) ++ flat qs₂ := by
    rw [← flat_append, List.append_assoc, ← hpieces, flat_pieces]
  have hpoint : (F.toModule text).insertPoint = byteLength (flat (ks ++ ds)) := by
    rw [flat_append, Text.byteLength_append, ← hstart]
    exact hstop
  have hdrop : Text.dropBytes (F.toModule text).insertPoint text = flat qs₂ := by
    rw [hpoint, htext, Text.dropBytes_left]
  have hflat := congrArg flat hqs
  rwa [flat_pieces, flat_append, flat_append, flat_pieces, ← hdrop] at hflat

/-- The module is known again exactly if nothing but blanks comes after the line on which it
ends. -/
lemma isInstrumented_iff (h : Guarding g text F elem f front refs back checks)
    (hinside : (F.toModule text).FieldsInside) (hnot : isInstrumented text = false) :
    isInstrumented (splice text (edits g (F.toModule text) elem checks)) = true ↔
      AllBlank (afterLine (Text.dropBytes (F.toModule text).insertPoint text)) := by
  obtain ⟨before, hsplice⟩ := h.exists_splice_edits hinside
  obtain ⟨start, line, hline, htrailer⟩ := exists_trailer g (F.toModule text).globalCount
  have htext := Text.takeBytes_append_dropBytes (F.toModule text).insertPoint text
  rw [hsplice, htrailer]
  generalize Text.dropBytes (F.toModule text).insertPoint text = rest at htext
  rcases eq_or_append_afterLine rest with ⟨hrest, hnone⟩ | ⟨last, hlast, hrest⟩
  · -- the text ends on this line
    have hend := @isInstrumented_of_globalStart (before ++ start) (line ++ rest) []
      (by simp [hline, hrest]) (Or.inl rfl)
    rw [hnone]
    refine iff_of_true ?_ (by simp [AllBlank])
    simpa using hend
  · generalize afterLine rest = after at hrest
    subst hrest
    by_cases hblank : AllBlank after
    · have hend := @isInstrumented_of_globalStart (before ++ start) (line ++ last) ('\n' :: after)
        (by simp [hline, hlast]) (Or.inr ⟨after, rfl, hblank⟩)
      refine iff_of_true ?_ hblank
      simpa using hend
    · refine iff_of_false ?_ hblank
      -- the last line is that of the text before the run
      have hsame : isInstrumented text = isInstrumented after := by
        rw [← htext, ← isInstrumented_append_newline hblank, ← List.append_assoc]
      have hlater := @isInstrumented_append_newline
        (before ++ (start ++ '\n' :: (globalStart ++ line) ++ last)) after hblank
      rw [hnot] at hsame
      rw [← hsame] at hlater
      rw [Bool.not_eq_true, ← hlater]
      congr 1
      simp

/-! ### The second run -/

/-- The place of references has a length. -/
lemma start_lt_stop (h : Guarding g text F elem f front refs back checks) (hne : refs ≠ []) :
    elem.start < elem.stop := by
  obtain ⟨first, last, hfirst, -, hstart, -⟩ := h.references.span.resolve_right fun h => hne h.1
  have hpos := List.length_pos_iff.mpr hne
  have hget : F.flatten[front.length + 0]? = some first :=
    (h.references.getElem?_add hpos).trans (List.head?_eq_getElem?.symm.trans hfirst)
  have := h.references.start_le h.flatten_eq hget le_rfl (by omega)
  omega

/-- The new text has the reordered references after what becomes of the tokens before the
table. -/
lemma exists_pieces_referenceWords (h : Guarding g text F elem f front refs back checks)
    (hne : refs ≠ []) :
    ∃ qs₁ qs₂, pieces (splice text (edits g (F.toModule text) elem checks)) =
        qs₁ ++ (wordPieces g.referenceWords ++ qs₂) ∧
      lexemesOf qs₁ = front.flatMap (edited (edits g (F.toModule text) elem checks)) := by
  have hmem : g.elemEdit elem ∈ edits g (F.toModule text) elem checks :=
    mem_edits_iff.mpr (Or.inl rfl)
  have hwords := h.flatMap_edited_refs h.pairwise_edits hmem h.start_le_stop_of_mem_edits
  have htokens : tokens text = front ++ (refs ++ back) :=
    h.flatten_eq.symm.trans h.references.tokens_eq
  obtain ⟨_, last, -, hlast, -, hstop⟩ := h.references.span.resolve_right fun h => hne h.1
  obtain ⟨qs₁, qs₂, hqs, hqs₁⟩ := exists_replacement h.terminated h.fits_of_mem_edits
    h.pairwise_edits hmem htokens hlast (h.start_lt_stop hne) hstop
    (hwords.trans h.lexemes_elemList.symm)
  have hpieces : pieces (g.elemEdit elem).replacement = wordPieces g.referenceWords := by
    rw [elemEdit, toList_elemList]
    exact pieces_flat
      ((laid_wordPieces h.isWord_of_mem_referenceWords).stands [] (by simp [AtomEnds]))
  exact ⟨qs₁, qs₂, hpieces ▸ hqs, hqs₁⟩

/-- The references are where the table of the new text is: the edit that puts them there
changes nothing. -/
lemma idle_elemEdit_of_ne_nil (h : Guarding g text F elem f front refs back checks)
    (hne : refs ≠ []) {m' : Wat.Module} {elem' : ElemSegment}
    (hparse : Module.parse? (splice text (edits g (F.toModule text) elem checks)) = some m')
    (helem : m'.elemSegment? = some elem') :
    Idle (splice text (edits g (F.toModule text) elem checks)) (g.elemEdit elem') := by
  have hmem : g.elemEdit elem ∈ edits g (F.toModule text) elem checks :=
    mem_edits_iff.mpr (Or.inl rfl)
  have hwords := h.flatMap_edited_refs h.pairwise_edits hmem h.start_le_stop_of_mem_edits
  obtain ⟨qs₁, qs₂, hqs, hqs₁⟩ := h.exists_pieces_referenceWords hne
  have htokens : tokens (splice text (edits g (F.toModule text) elem checks)) =
      tokensFrom 0 qs₁ ++ (tokensFrom (byteLength (flat qs₁)) (wordPieces g.referenceWords) ++
        tokensFrom (byteLength (flat qs₁) + byteLength (flat (wordPieces g.referenceWords)))
          qs₂) := by
    rw [tokens, hqs, tokensFrom_append, tokensFrom_append, Nat.zero_add]
  have hfront : (tokensFrom 0 qs₁).length =
      (front.flatMap (edited (edits g (F.toModule text) elem checks))).length := by
    rw [← hqs₁, ← map_lexeme_tokensFrom 0 qs₁, List.length_map]
  have hlength : (tokensFrom (byteLength (flat qs₁)) (wordPieces g.referenceWords)).length =
      g.referenceWords.length := by
    rw [← List.length_map Token.lexeme, map_lexeme_tokensFrom, lexemesOf_wordPieces,
      List.length_map]
  -- the table of the new text spans these words
  have hr := h.replacing
  obtain ⟨m'', elem'', hparse', helem', hspan⟩ := hr.exists_elemSegment h.flatten_forest_edits
    h.references hwords (fun w hw => h.references.functions_eq ▸ h.mem_of_mem_referenceWords w hw)
    h.edited_in_table htokens hfront hlength
  obtain rfl := Option.some.inj (hparse.symm.trans hparse')
  obtain rfl := Option.some.inj (helem.symm.trans helem')
  have hwordsne : g.referenceWords ≠ [] := by
    rw [← List.length_pos_iff, h.length_referenceWords, List.length_pos_iff]
    exact hne
  obtain ⟨first, last, hfirst, hlast, hstart, hstop⟩ :=
    exists_span_wordPieces hwordsne (byteLength (flat qs₁))
  obtain ⟨hs, hs'⟩ := hspan first last hfirst hlast
  refine ⟨flat qs₁, flat qs₂, ?_, hs.trans hstart, ?_⟩
  · have hflat := congrArg flat hqs
    rw [flat_pieces, flat_append, flat_append, ← toList_elemList] at hflat
    exact hflat
  · simp only [elemEdit]
    rw [hs', hs, hstart, hstop, toList_elemList]

/-- So does the edit of an empty table. -/
lemma idle_elemEdit (h : Guarding g text F elem f front refs back checks) {m' : Wat.Module}
    {elem' : ElemSegment}
    (hparse : Module.parse? (splice text (edits g (F.toModule text) elem checks)) = some m')
    (helem : m'.elemSegment? = some elem') (hfunctions : elem'.functions = g.referenceWords) :
    Idle (splice text (edits g (F.toModule text) elem checks)) (g.elemEdit elem') := by
  by_cases hrefs : refs = []
  · have hempty : g.referenceWords = [] := by
      rw [← List.length_eq_zero_iff, h.length_referenceWords, hrefs, List.length_nil]
    obtain ⟨F', hF', hflat', rfl⟩ := exists_forest_of_parse? hparse
    obtain ⟨f', front', refs', back', hrefs'⟩ := exists_referencesAt hF' helem
    have hnone : refs' = [] := by
      have := hrefs'.functions_eq
      rw [hfunctions, hempty] at this
      exact List.map_eq_nil_iff.mp this.symm
    obtain ⟨first, -, hfirst, -⟩ | ⟨-, t, ht, hstart, hstop⟩ := hrefs'.span
    · rw [hnone] at hfirst
      cases hfirst
    · have hmem : t ∈ tokens (splice text (edits g (F.toModule text) elem checks)) := by
        rw [← hflat', show F'.flatten = _ from hrefs'.tokens_eq]
        exact List.mem_append_left _ (List.mem_of_mem_getLast? ht)
      have hidle := idle_nil_of_mem_tokens hmem
      rwa [elemEdit, toList_elemList, hempty, hstart, hstop]
  · exact h.idle_elemEdit_of_ne_nil hrefs hparse helem

/-- A second run finds all in its place, if it knows the module. -/
lemma instrument_again (h : Guarding g text F elem f front refs back checks)
    (hinside : (F.toModule text).FieldsInside) {text' : List Char}
    (htext : text' = splice text (edits g (F.toModule text) elem checks))
    (hinst : isInstrumented text' = true) : g.instrument text' = .ok ⟨text', true, 0⟩ := by
  obtain ⟨m', elem', d, hparse, helem, hfunctions, hdata, hd⟩ := h.reads hinside.dataInside
  have hidle := h.idle_elemEdit hparse helem hfunctions
  rw [← htext] at hparse hidle
  obtain ⟨F', hF', hflat', rfl⟩ := exists_forest_of_parse? hparse
  have hmem : d ∈ tokens text' := hflat' ▸ Forest.mem_flatten_of_lastData? hF' hdata
  have hsame : splice text' [g.elemEdit elem', ⟨d.start, d.stop, g.dataText⟩] = text' := by
    refine splice_eq_self fun e he => ?_
    rcases List.mem_pair.mp he with rfl | rfl
    · exact hidle
    · rw [← hd]
      exact idle_of_mem_tokens hmem
  have hrefresh : g.refresh (F'.toModule text') elem' = .ok ⟨text', true, 0⟩ := by
    rw [refresh, hdata]
    simp only [show (F'.toModule text').text = text' from rfl, hsame]
  rw [instrument, tableOf_eq_ok_iff.mpr ⟨hparse, helem⟩]
  simp only [bind, Except.bind, hinst, if_pos, hrefresh]

end Guarding

/-- Only a module that seems guarded is renewed. -/
lemma isInstrumented_of_refreshed {g : Guard} {text : List Char} {out : Instrumented}
    (hout : g.instrument text = .ok out) (hrefreshed : out.refreshed = true) :
    isInstrumented text = true := by
  obtain ⟨⟨m, elem⟩, htable, -⟩ := ok_of_bind_eq_ok hout
  rcases instrument_cases htable hout with ⟨hinst, -⟩ | ⟨-, checks, -, rfl⟩
  · exact hinst
  · cases hrefreshed

/-- **A second run with the same guard leaves the text as it is exactly if nothing comes after
the line on which the module ends.** Take a module without fields after its end and a first
run that guards it, whatever the order of the table and the options of the guard are. The text
that the run leaves seems guarded exactly if only blanks come after the line with the end of
the module. Under the same condition a second run succeeds, renews the module, checks no call
and leaves this text. -/
theorem instrument_repeats_iff {report : Report} {text : List Char} {m : Wat.Module}
    {elem : ElemSegment} {g : Guard} {out : Instrumented} (htable : tableOf text = .ok (m, elem))
    (hg : Built report (elem.functions.map String.ofList) g) (hterm : Terminated text)
    (hrefs : ∀ r ∈ elem.functions, r.head? ≠ some ';')
    (hname : ∀ c ∈ g.checkFunction.toList, isAtomChar c) (hinside : m.FieldsInside)
    (hout : g.instrument text = .ok out) (hfresh : out.refreshed = false) :
    (isInstrumented out.text = true ↔
        AllBlank (afterLine (Text.dropBytes m.insertPoint text))) ∧
      (g.instrument out.text = .ok ⟨out.text, true, 0⟩ ↔
        AllBlank (afterLine (Text.dropBytes m.insertPoint text))) := by
  obtain ⟨F, f, front, refs, back, checks, rfl, h, htext⟩ :=
    exists_guarding htable hg hterm hrefs hname hout hfresh
  have hnot : isInstrumented text = false := by
    by_contra hinst
    rcases instrument_cases htable hout with ⟨-, d, -, rfl⟩ | ⟨hnot, -⟩
    · cases hfresh
    · exact hinst hnot
  have hknown := h.isInstrumented_iff hinside hnot
  rw [← htext] at hknown
  refine ⟨hknown, fun hagain => ?_, fun hblank => ?_⟩
  · exact hknown.mp (isInstrumented_of_refreshed hagain rfl)
  · exact h.instrument_again hinside htext (hknown.mpr hblank)

/-- All fields of this module are inside it. -/
lemma fieldsInside_pairModule : pairModule.FieldsInside := by
  have hopening : pairModule.tokens[2]? = some ⟨.opening, ['('], 8, 9⟩ := by cbv
  intro f hf t offset ht hclose
  obtain rfl : f = ⟨2, 7, 1⟩ := List.mem_singleton.mp hf
  obtain rfl := Option.some.inj (hopening.symm.trans ht)
  obtain rfl : 25 = offset := Option.some.inj hclose
  show 8 < 25
  omega

/-- It ends on the last line of its text. -/
lemma afterLine_pairText : afterLine (Text.dropBytes pairModule.insertPoint pairText) = [] := by
  cbv

/-- So a second run leaves what the first one left. -/
theorem instrument_repeats_iff_pairText :
    Built pairReport ["$a", "$b"] pairGuard ∧ Terminated pairText ∧
      tableOf pairText = .ok (pairModule, ⟨["$a".toList, "$b".toList], 19, 24⟩) ∧
      pairModule.FieldsInside ∧ pairGuard.instrument pairText = .ok ⟨pairOnce, false, 0⟩ ∧
      AllBlank (afterLine (Text.dropBytes pairModule.insertPoint pairText)) ∧
      (isInstrumented pairOnce = true ↔
        AllBlank (afterLine (Text.dropBytes pairModule.insertPoint pairText))) ∧
      (pairGuard.instrument pairOnce = .ok ⟨pairOnce, true, 0⟩ ↔
        AllBlank (afterLine (Text.dropBytes pairModule.insertPoint pairText))) := by
  have hrefs : ∀ r ∈ ["$a".toList, "$b".toList], r.head? ≠ some ';' := by decide
  have hblank : AllBlank (afterLine (Text.dropBytes pairModule.insertPoint pairText)) := by
    rw [afterLine_pairText]
    exact List.forall_mem_nil _
  exact ⟨built_pairGuard, terminated_pairText, tableOf_pairText, fieldsInside_pairModule,
    instrument_pairText, hblank, instrument_repeats_iff tableOf_pairText built_pairGuard
      terminated_pairText hrefs isAtomChar_of_mem_checkFunction fieldsInside_pairModule
      instrument_pairText rfl⟩

/-! ### A comment after the module -/

/-- A module with a comment on a line after its end. -/
def remarkText : List Char :=
  "(module (elem func $a))\n;; end".toList

/-- What it spells. -/
def remarkModule : Wat.Module :=
  ⟨remarkText, tokens remarkText, [⟨2, 6, 1⟩], some 22⟩

/-- Its table. -/
def remarkElem : ElemSegment :=
  ⟨["$a".toList], 19, 21⟩

/-- Its guard. -/
def remarkGuard : Guard :=
  ofTable .empty ["$a"]

lemma tableOf_remarkText : tableOf remarkText = .ok (remarkModule, remarkElem) := by
  have hforms : forms? (tokens remarkText) = some [⟨0, 7, 0⟩, ⟨2, 6, 1⟩] := by cbv
  refine tableOf_eq_ok_iff.mpr ⟨?_, by cbv⟩
  rw [Module.parse?]
  simp only [hforms]
  cbv

lemma terminated_remarkText : Terminated remarkText := by
  have : (pieces remarkText).all Piece.Terminated = true := by cbv
  simpa [Terminated] using this

/-- All fields of this module are inside it. -/
lemma fieldsInside_remarkModule : remarkModule.FieldsInside := by
  have hopening : remarkModule.tokens[2]? = some ⟨.opening, ['('], 8, 9⟩ := by cbv
  intro f hf t offset ht hclose
  obtain rfl : f = ⟨2, 6, 1⟩ := List.mem_singleton.mp hf
  obtain rfl := Option.some.inj (hopening.symm.trans ht)
  obtain rfl : 22 = offset := Option.some.inj hclose
  show 8 < 22
  omega

/-- The comment comes after the line on which the module ends. -/
lemma afterLine_remarkText :
    afterLine (Text.dropBytes remarkModule.insertPoint remarkText) = ";; end".toList := by
  cbv

/-- A first run on this module guards it, and there are no calls to check. -/
lemma instrument_remarkText : remarkGuard.instrument remarkText =
    .ok ⟨splice remarkText (Guarding.edits remarkGuard remarkModule remarkElem []), false, 0⟩ := by
  have hnot : isInstrumented remarkText = false := by cbv
  have hfunctions : remarkModule.functions = [] := by cbv
  have hfresh : remarkGuard.guardFresh remarkModule remarkElem = .ok
      ⟨splice remarkText (Guarding.edits remarkGuard remarkModule remarkElem []), false, 0⟩ := by
    rw [guardFresh, hfunctions]
    rfl
  rw [instrument, tableOf_remarkText]
  simp only [bind, Except.bind, hnot, Bool.false_eq_true, if_false, hfresh]

/-- The text that this run leaves does not seem guarded, so a second run of the same guard
does not renew it. -/
theorem instrument_guards_again :
    ∃ g out, ofText .empty remarkText = .ok g ∧ (∀ c ∈ g.checkFunction.toList, isAtomChar c) ∧
      g.instrument remarkText = .ok out ∧ out.refreshed = false ∧ isInstrumented out.text = false ∧
      ∀ out', g.instrument out.text = .ok out' → out'.refreshed = false := by
  have hname : ∀ c ∈ remarkGuard.checkFunction.toList, isAtomChar c := List.all_eq_true.mp rfl
  have hrefs : ∀ r ∈ remarkElem.functions, r.head? ≠ some ';' := by decide
  obtain ⟨F, f, front, refs, back, checks, hm, h, htext⟩ := exists_guarding tableOf_remarkText
    (.sorted : Built .empty ["$a"] remarkGuard) terminated_remarkText hrefs hname
    instrument_remarkText rfl
  have hinside : (F.toModule remarkText).FieldsInside := hm ▸ fieldsInside_remarkModule
  have hnot : isInstrumented remarkText = false := by cbv
  have hknown := h.isInstrumented_iff hinside hnot
  rw [← hm, ← htext, afterLine_remarkText] at hknown
  have hlost : isInstrumented
      (splice remarkText (Guarding.edits remarkGuard remarkModule remarkElem [])) = false := by
    by_contra hinst
    have hblank := hknown.mp (by simpa using hinst)
    exact absurd (hblank ';' (by decide)) (by decide)
  have hg : ofText .empty remarkText = .ok remarkGuard := by
    rw [ofText, tableOf_remarkText]
    rfl
  refine ⟨remarkGuard, _, hg, hname, instrument_remarkText, rfl, hlost, fun out' hout' => ?_⟩
  by_contra hrefreshed
  have hinst := isInstrumented_of_refreshed hout' (by simpa using hrefreshed)
  exact absurd (hinst.symm.trans hlost) (by decide)

end Guard

end CallGuard
