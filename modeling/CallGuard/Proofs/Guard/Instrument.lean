import CallGuard.Proofs.Guard.Edits

/-!
What guarding a module for the first time does to its tokens. The references of the table
come in their new order, every indirect call in a function becomes its check, the new
fields come before the end of the module, and all else stays.

* `Guarding`: a module and the edits that guard it.
* `Guarding.fits_of_mem_edits`, `Guarding.pairwise_edits`: the edits are all applied.
* `Guard.guardedLexemes`: what a token becomes.
* `instrument_cases`: what a run does.
* `lexemes_instrument`: the tokens of the guarded module.
-/

namespace CallGuard

namespace Guard

open Wat
open Text (byteLength)

/-- What a token and its position become: a call becomes its check, everything else is
kept, and the new fields come before the end of the module. -/
def guardedLexemes (g : Guard) (m : Wat.Module) (t : Token × Nat) : List Lexeme :=
  (if m.close = some t.1.start then g.trailerLexemes else []) ++
    match m.callSite? t.2 with
    | some (name, k) =>
        (g.siteCheck m.globalCount name k).flatMap fun i => i.words.map fun w => (.atom, w)
    | none => [t.1.lexeme]

/-! ### The edits -/

/-- A module that is guarded for the first time, its references and the edits of its
calls. -/
structure Guarding (g : Guard) (text : List Char) (F : Forest Token) (elem : ElemSegment)
    (f : Form) (front refs back : List Token) (checks : List Edit) : Prop
    extends Tabled g text F elem f front refs back where
  named : ∀ c ∈ g.checkFunction.toList, isAtomChar c
  checks_eq : checks = (F.toModule text).functions.flatMap fun fn =>
    fn.calls.zipIdx.map fun c => g.callEdit (F.toModule text).globalCount fn.name c.2 c.1
  checked : ∀ fn ∈ (F.toModule text).functions, ∀ i < fn.calls.length,
    (g.sets.find? (g.siteKey fn.name i)).isSome

namespace Guarding

variable {g : Guard} {text : List Char} {F : Forest Token} {elem : ElemSegment} {f : Form}
  {front refs back : List Token} {checks : List Edit}

/-- The edit that adds the new fields. -/
def added (g : Guard) (m : Wat.Module) : Edit :=
  ⟨m.insertPoint, m.insertPoint, g.trailer m.globalCount⟩

/-- All edits of the module. -/
def edits (g : Guard) (m : Wat.Module) (elem : ElemSegment) (checks : List Edit) : List Edit :=
  g.elemEdit elem :: (checks ++ [added g m])

lemma mem_edits_iff {m : Wat.Module} {e : Edit} :
    e ∈ edits g m elem checks ↔ e = g.elemEdit elem ∨ e ∈ checks ∨ e = added g m := by
  rw [edits, List.mem_cons, List.mem_append, List.mem_singleton]

lemma mem_checks_iff (h : Guarding g text F elem f front refs back checks) {e : Edit} :
    e ∈ checks ↔ ∃ i t name k, F.flatten[i]? = some t ∧
      (F.toModule text).callSite? i = some (name, k) ∧
      e = ⟨t.start, t.stop, sequenceText ((F.toModule text).indentAt t.start)
        (g.siteCheck (F.toModule text).globalCount name k)⟩ := by
  rw [h.checks_eq, List.mem_flatMap]
  constructor
  · rintro ⟨fn, hfn, he⟩
    obtain ⟨⟨call, k⟩, hcall, rfl⟩ := List.mem_map.mp he
    obtain ⟨i, t, ht, hsite, hspan⟩ := exists_call_iff_callSite?.mp
      ⟨fn, hfn, rfl, call, List.mk_mem_zipIdx_iff_getElem?.mp hcall, rfl⟩
    simp only [Prod.mk.injEq] at hspan
    obtain ⟨hstart, hstop, hindent⟩ := hspan
    refine ⟨i, t, fn.name, k, ht, hsite, ?_⟩
    rw [callEdit, hindent, hstart, hstop]
  · rintro ⟨i, t, name, k, ht, hsite, rfl⟩
    obtain ⟨fn, hfn, rfl, call, hcall, hspan⟩ := exists_call_iff_callSite?.mpr
      ⟨i, t, ht, hsite, rfl⟩
    simp only [Prod.mk.injEq] at hspan
    obtain ⟨hstart, hstop, hindent⟩ := hspan
    refine ⟨fn, hfn, List.mem_map.mpr ⟨(call, k), List.mk_mem_zipIdx_iff_getElem?.mpr hcall, ?_⟩⟩
    rw [callEdit, hstart, hstop, hindent]

/-- Every call site has a set to be checked against. -/
lemma isSome_of_callSite? (h : Guarding g text F elem f front refs back checks) {i : Nat}
    {name : Option (List Char)} {k : Nat} (hsite : (F.toModule text).callSite? i = some (name, k)) :
    (g.sets.find? (g.siteKey name k)).isSome := by
  obtain ⟨form, hform, j, t, rfl, hj, -⟩ := callSite?_eq_some_iff.mp hsite
  obtain ⟨fn, hfn, rfl, call, hcall, -⟩ := exists_call_iff_callSite?.mpr
    ⟨_, t, (getElem?_body_eq_some_iff.mp hj).1, hsite, rfl⟩
  exact h.checked fn hfn k (List.getElem?_eq_some_iff.mp hcall).1

lemma isSpace_of_mem_indentAt (m : Wat.Module) (offset : Nat) :
    ∀ c ∈ m.indentAt offset, isSpace c := by
  intro c hc
  have hc := List.mem_takeWhile_imp hc
  simp only [Bool.or_eq_true, beq_iff_eq] at hc
  rcases hc with rfl | rfl <;> decide

/-- All edits fit. -/
lemma fits_of_mem_edits (h : Guarding g text F elem f front refs back checks) :
    ∀ e ∈ edits g (F.toModule text) elem checks, Fits text e := by
  intro e he
  rw [mem_edits_iff] at he
  rcases he with rfl | he | rfl
  · exact h.fits_elemEdit
  · obtain ⟨i, t, name, k, ht, hsite, rfl⟩ := h.mem_checks_iff.mp he
    obtain ⟨form, -, j, t', rfl, hj, hcall, -⟩ := callSite?_eq_some_iff.mp hsite
    obtain rfl := Option.some.inj (ht.symm.trans (getElem?_body_eq_some_iff.mp hj).1)
    rw [h.flatten_eq] at ht
    exact fits_callEdit h.named ht hcall (isSpace_of_mem_indentAt _ _) (h.isSome_of_callSite? hsite)
  · exact fits_trailer g _ h.sound h.flatten_eq

/-- A call site lies in a function, after its name. -/
lemma exists_function_of_callSite? {i : Nat} {site : Option (List Char) × Nat}
    (hsite : (F.toModule text).callSite? i = some site) :
    ∃ form ∈ (F.toModule text).fieldsNamed "func", form.opening + 1 < i ∧ i < form.closing := by
  obtain ⟨form, hform, j, t, rfl, hj, hcall, -⟩ := callSite?_eq_some_iff.mp hsite
  obtain ⟨ht, hlt⟩ := getElem?_body_eq_some_iff.mp hj
  refine ⟨form, hform, ?_, hlt⟩
  rcases Nat.eq_zero_or_pos j with rfl | hpos
  · -- the name is no call
    obtain ⟨t', ht', -, htext⟩ := exists_head hform
    obtain rfl := Option.some.inj (ht.symm.trans ht')
    have hcall := congrArg Prod.snd (isAtom_iff.mp hcall)
    exact absurd (htext.symm.trans hcall) (by decide)
  · omega

/-- A call site lies outside the field of the table. -/
lemma callSite?_outside (h : Guarding g text F elem f front refs back checks) {i : Nat}
    {site : Option (List Char) × Nat} (hsite : (F.toModule text).callSite? i = some site) :
    i < f.opening ∨ f.closing < i := by
  obtain ⟨form, hform, hlt, hlt'⟩ := exists_function_of_callSite? hsite
  have hf := List.mem_of_mem_head? h.references.field
  rcases disjoint_of_mem_fieldsNamed (by decide) hform hf with hd | hd <;> omega

/-- A call site lies before the table or after it. -/
lemma callSite?_apart (h : Guarding g text F elem f front refs back checks) {i : Nat} {t : Token}
    (ht : F.flatten[i]? = some t) {site : Option (List Char) × Nat}
    (hsite : (F.toModule text).callSite? i = some site) :
    t.stop ≤ elem.start ∨ elem.stop < t.start := by
  have hopening := h.references.opening_lt
  rcases h.callSite?_outside hsite with hlt | hlt
  · exact Or.inl (h.references.stop_le_start h.flatten_eq ht (by omega))
  · exact Or.inr (h.references.stop_lt h.flatten_eq ht hlt)

/-- The place of the new fields is the end of the text, or the start of a parenthesis that
lies in no field. -/
lemma insertPoint_eq (h : Guarding g text F elem f front refs back checks) :
    ((F.toModule text).close = none ∧ (F.toModule text).insertPoint = byteLength text) ∨
      ∃ i c, F.flatten[i]? = some c ∧ c.kind = .closing ∧
        (F.toModule text).insertPoint = c.start ∧ (F.toModule text).close = some c.start ∧
        ∀ f ∈ (F.toModule text).fields, i < f.opening ∨ f.closing < i := by
  cases hclose : (F.toModule text).close with
  | none =>
      refine Or.inl ⟨rfl, ?_⟩
      rw [Module.insertPoint, hclose]
      rfl
  | some offset =>
      obtain ⟨i, c, hc, hkind, rfl, hout⟩ := exists_close h.sound hclose
      refine Or.inr ⟨i, c, hc, hkind, ?_, rfl, hout⟩
      rw [Module.insertPoint, hclose]
      rfl

/-- The place of the new fields lies before the table or after it. -/
lemma insertPoint_apart (h : Guarding g text F elem f front refs back checks) :
    (F.toModule text).insertPoint < elem.start ∨ elem.stop < (F.toModule text).insertPoint := by
  have hf := List.mem_of_mem_filter (List.mem_of_mem_head? h.references.field)
  have hopening := h.references.opening_lt
  rcases h.insertPoint_eq with ⟨-, hpoint⟩ | ⟨i, c, hc, -, hpoint, -, hout⟩
  · rw [hpoint]
    exact Or.inr h.stop_lt_byteLength
  · rw [hpoint]
    rcases hout f hf with hlt | hlt
    · have := h.references.stop_le_start h.flatten_eq hc (by omega)
      rw [h.flatten_eq] at hc
      have := bounds_of_mem_tokens (List.mem_of_getElem? hc)
      exact Or.inl (by omega)
    · exact Or.inr (h.references.stop_lt h.flatten_eq hc hlt)

lemma kind_of_callSite? {i : Nat} {t : Token} (ht : F.flatten[i]? = some t)
    {site : Option (List Char) × Nat} (hsite : (F.toModule text).callSite? i = some site) :
    t.kind = .atom := by
  obtain ⟨form, -, j, t', rfl, hj, hcall, -⟩ := callSite?_eq_some_iff.mp hsite
  obtain rfl := Option.some.inj (ht.symm.trans (getElem?_body_eq_some_iff.mp hj).1)
  simp only [Token.isAtom, Bool.and_eq_true, beq_iff_eq] at hcall
  exact hcall.1

/-- The edits of calls come one after the other. -/
lemma pairwise_checks (h : Guarding g text F elem f front refs back checks) :
    checks.Pairwise fun e e' => e.stop ≤ e'.start := by
  have hspans : checks.map (fun e => (e.start, e.stop)) =
      ((F.toModule text).functions.flatMap FunctionField.calls).map fun c => (c.start, c.stop) := by
    rw [h.checks_eq, List.map_flatMap, List.map_flatMap]
    refine List.flatMap_congr fun fn _ => ?_
    conv_rhs => rw [← List.zipIdx_map_fst 0 fn.calls, List.map_map]
    rw [List.map_map]
    rfl
  have hcalls : (((F.toModule text).functions.flatMap FunctionField.calls).map
      fun c => (c.start, c.stop)).Pairwise fun s s' => s.2 ≤ s'.1 :=
    List.pairwise_map.mpr (pairwise_calls h.flatten_eq)
  rw [← hspans] at hcalls
  exact List.pairwise_map.mp hcalls

/-- No two edits get in each other's way. -/
lemma pairwise_edits (h : Guarding g text F elem f front refs back checks) :
    (edits g (F.toModule text) elem checks).Pairwise Apart := by
  have hle := h.references.start_le_stop h.flatten_eq
  have hpoint := h.insertPoint_apart
  refine List.pairwise_cons.mpr ⟨fun e he => ?_, List.pairwise_append.mpr ⟨?_, by simp, ?_⟩⟩
  · rw [List.mem_append, List.mem_singleton] at he
    rcases he with he | rfl
    · obtain ⟨i, t, name, k, ht, hsite, rfl⟩ := h.mem_checks_iff.mp he
      have happart := h.callSite?_apart ht hsite
      rw [h.flatten_eq] at ht
      have := bounds_of_mem_tokens (List.mem_of_getElem? ht)
      simp only [Apart, elemEdit]
      omega
    · simp only [Apart, elemEdit, added]
      omega
  · refine h.pairwise_checks.imp_of_mem fun {e e'} he _ hlt => ?_
    obtain ⟨i, t, name, k, ht, -, rfl⟩ := h.mem_checks_iff.mp he
    rw [h.flatten_eq] at ht
    have := bounds_of_mem_tokens (List.mem_of_getElem? ht)
    simp only [Apart] at hlt ⊢
    omega
  · intro e he e' he'
    obtain rfl := List.mem_singleton.mp he'
    obtain ⟨i, t, name, k, ht, hsite, rfl⟩ := h.mem_checks_iff.mp he
    have hkind := kind_of_callSite? ht hsite
    rw [h.flatten_eq] at ht
    have hbounds := bounds_of_mem_tokens (List.mem_of_getElem? ht)
    rcases h.insertPoint_eq with ⟨-, heq⟩ | ⟨j, c, hc, hclosing, heq, -⟩
    · simp only [Apart, added, heq]
      omega
    · rw [h.flatten_eq] at hc
      have hbounds' := bounds_of_mem_tokens (List.mem_of_getElem? hc)
      simp only [Apart, added, heq]
      rcases lt_trichotomy i j with hlt | rfl | hlt
      · have := stop_le_start_of_lt ht hc hlt
        omega
      · obtain rfl := Option.some.inj (ht.symm.trans hc)
        rw [hkind] at hclosing
        exact absurd hclosing (by decide)
      · have := stop_le_start_of_lt hc ht hlt
        omega

/-! ### What becomes of the tokens -/

lemma start_le_stop_of_mem_edits (h : Guarding g text F elem f front refs back checks) :
    ∀ e ∈ edits g (F.toModule text) elem checks, e.start ≤ e.stop := by
  intro e he
  obtain ⟨_, _, _, -, -, hstop, -⟩ := h.fits_of_mem_edits e he
  omega

/-- No edit covers a token that is neither a reference nor a call. -/
lemma not_covered (h : Guarding g text F elem f front refs back checks) {i : Nat} {t : Token}
    (ht : F.flatten[i]? = some t) (hi : i < front.length ∨ front.length + refs.length ≤ i)
    (hsite : (F.toModule text).callSite? i = none) :
    ∀ e ∈ edits g (F.toModule text) elem checks,
      ¬ (e.start ≤ t.start ∧ t.start < e.stop) := by
  intro e he
  rw [mem_edits_iff] at he
  have ht' : (tokens text)[i]? = some t := h.flatten_eq ▸ ht
  have hbounds := bounds_of_mem_tokens (List.mem_of_getElem? ht')
  rcases he with rfl | he | rfl
  · exact h.not_covered_elemEdit ht hi
  · obtain ⟨j, t', name, k, hj, hsite', rfl⟩ := h.mem_checks_iff.mp he
    rintro ⟨hstart, hstop⟩
    obtain rfl := index_eq_of_covers ht' (h.flatten_eq ▸ hj) hstart hstop
    rw [hsite] at hsite'
    simp at hsite'
  · simp only [added]
    omega

/-- Where no new fields come, nothing is put before a token that is neither a reference
nor a call. -/
lemma inserted_eq_nil_of_close_ne (h : Guarding g text F elem f front refs back checks) {i : Nat}
    {t : Token} (ht : F.flatten[i]? = some t)
    (hi : i < front.length ∨ front.length + refs.length ≤ i)
    (hsite : (F.toModule text).callSite? i = none)
    (hclose : (F.toModule text).close ≠ some t.start) :
    inserted (edits g (F.toModule text) elem checks) t.start = [] := by
  have ht' : (tokens text)[i]? = some t := h.flatten_eq ▸ ht
  have hbounds := bounds_of_mem_tokens (List.mem_of_getElem? ht')
  refine inserted_eq_nil fun e he hstart => ?_
  rw [mem_edits_iff] at he
  rcases he with rfl | he | rfl
  · exact h.replacement_eq_nil ht hi hstart
  · obtain ⟨j, t', name, k, hj, hsite', rfl⟩ := h.mem_checks_iff.mp he
    obtain rfl := index_eq_of_start_eq (h.flatten_eq ▸ hj) ht' hstart
    rw [hsite] at hsite'
    simp at hsite'
  · have hstart : (F.toModule text).insertPoint = t.start := hstart
    rcases h.insertPoint_eq with ⟨-, heq⟩ | ⟨-, c, -, -, heq, hsome, -⟩
    · omega
    · rw [← heq, hstart] at hsome
      exact absurd hsome hclose

/-- The end of the module is the end of a form. -/
lemma close_ne_of_kind_ne (h : Guarding g text F elem f front refs back checks) {i : Nat}
    {t : Token} (ht : F.flatten[i]? = some t) (hkind : t.kind ≠ .closing) :
    (F.toModule text).close ≠ some t.start := by
  intro hclose
  rcases h.insertPoint_eq with ⟨hnone, -⟩ | ⟨j, c, hc, hclosing, -, hsome, -⟩
  · rw [hnone] at hclose
    simp at hclose
  · have hstart : c.start = t.start := Option.some.inj (hsome.symm.trans hclose)
    obtain rfl := index_eq_of_start_eq (h.flatten_eq ▸ hc) (h.flatten_eq ▸ ht) hstart
    obtain rfl := Option.some.inj (ht.symm.trans hc)
    exact hkind hclosing

/-- The module does not end inside a field. -/
lemma close_ne_of_mem_fields (h : Guarding g text F elem f front refs back checks) {form : Form}
    (hform : form ∈ (F.toModule text).fields) {i : Nat} {t : Token} (ht : F.flatten[i]? = some t)
    (hlt : form.opening < i) (hlt' : i < form.closing) :
    (F.toModule text).close ≠ some t.start := by
  intro hclose
  rcases h.insertPoint_eq with ⟨hnone, -⟩ | ⟨j, c, hc, -, -, hsome, hout⟩
  · rw [hnone] at hclose
    simp at hclose
  · have hstart : c.start = t.start := Option.some.inj (hsome.symm.trans hclose)
    obtain rfl := index_eq_of_start_eq (h.flatten_eq ▸ hc) (h.flatten_eq ▸ ht) hstart
    rcases hout form hform with hout | hout <;> omega

/-- Other tokens become what they are to become. -/
lemma edited_eq_guardedLexemes (h : Guarding g text F elem f front refs back checks) {i : Nat}
    {t : Token} (ht : F.flatten[i]? = some t)
    (hi : i < front.length ∨ front.length + refs.length ≤ i) :
    edited (edits g (F.toModule text) elem checks) t =
      g.guardedLexemes (F.toModule text) (t, i) := by
  have hes := h.pairwise_edits
  rw [guardedLexemes]
  dsimp only
  cases hsite : (F.toModule text).callSite? i with
  | none =>
      rw [edited_of_not_covered (h.not_covered ht hi hsite)]
      split_ifs with hclose
      · have hpoint : (added g (F.toModule text)).start = t.start := by
          rw [added, Module.insertPoint, hclose]
          rfl
        rw [← hpoint, inserted_of_mem hes (mem_edits_iff.mpr (Or.inr (Or.inr rfl))), added,
          lexemes_trailer]
      · rw [h.inserted_eq_nil_of_close_ne ht hi hsite hclose]
  | some site =>
      obtain ⟨name, k⟩ := site
      have hne := h.close_ne_of_kind_ne ht (by rw [kind_of_callSite? ht hsite]; decide)
      have hbounds := bounds_of_mem_tokens (List.mem_of_getElem? (h.flatten_eq ▸ ht))
      have hmem := h.mem_checks_iff.mpr ⟨i, t, name, k, ht, hsite, rfl⟩
      rw [if_neg hne, List.nil_append, edited_of_replaced hes
        (mem_edits_iff.mpr (Or.inr (Or.inl hmem))) rfl hbounds.1]
      exact lexemes_siteCheck h.named (isSpace_of_mem_indentAt _ _) (h.isSome_of_callSite? hsite) _

/-- At the end of the text come the new fields, if they come nowhere else. -/
lemma inserted_byteLength (h : Guarding g text F elem f front refs back checks) :
    inserted (edits g (F.toModule text) elem checks) (byteLength text) =
      if (F.toModule text).close = none then g.trailerLexemes else [] := by
  rcases h.insertPoint_eq with ⟨hclose, hpoint⟩ | ⟨i, c, hc, -, hpoint, hclose, -⟩
  · rw [if_pos hclose, ← lexemes_trailer g (F.toModule text).globalCount, ← hpoint]
    exact inserted_of_mem h.pairwise_edits (mem_edits_iff.mpr (Or.inr (Or.inr rfl)))
  · rw [if_neg (by simp [hclose])]
    refine inserted_eq_nil fun e he hstart => ?_
    rw [mem_edits_iff] at he
    rcases he with rfl | he | rfl
    · have hstart : elem.start = byteLength text := hstart
      have := h.references.start_le_stop h.flatten_eq
      have := h.stop_lt_byteLength
      omega
    · obtain ⟨j, t, name, k, ht, -, rfl⟩ := h.mem_checks_iff.mp he
      have hstart : t.start = byteLength text := hstart
      have := bounds_of_mem_tokens (List.mem_of_getElem? (h.flatten_eq ▸ ht))
      omega
    · have hstart : (F.toModule text).insertPoint = byteLength text := hstart
      have := bounds_of_mem_tokens (List.mem_of_getElem? (h.flatten_eq ▸ hc))
      omega

/-- The tokens of the guarded text. -/
lemma lexemes_splice_edits (h : Guarding g text F elem f front refs back checks) :
    lexemes (splice text (edits g (F.toModule text) elem checks)) =
        front.zipIdx.flatMap (g.guardedLexemes (F.toModule text)) ++
          (g.referenceWords.map (fun w => (.atom, w)) ++
            (back.zipIdx (front.length + refs.length)).flatMap
              (g.guardedLexemes (F.toModule text))) ++
          (if (F.toModule text).close = none then g.trailerLexemes else []) ∧
      Terminated (splice text (edits g (F.toModule text) elem checks)) := by
  obtain ⟨hlexemes, hterm⟩ := lexemes_splice h.terminated h.fits_of_mem_edits h.pairwise_edits
  refine ⟨?_, hterm⟩
  have hflat : F.flatten = front ++ (refs ++ back) := h.references.tokens_eq
  have hpart (ts : List Token) (n : Nat)
      (hts : ∀ t i, (t, i) ∈ ts.zipIdx n → F.flatten[i]? = some t ∧
        (i < front.length ∨ front.length + refs.length ≤ i)) :
      ts.flatMap (edited (edits g (F.toModule text) elem checks)) =
        (ts.zipIdx n).flatMap (g.guardedLexemes (F.toModule text)) := by
    conv_lhs => rw [← List.zipIdx_map_fst n ts, List.flatMap_map]
    refine List.flatMap_congr fun ⟨t, i⟩ ht => ?_
    obtain ⟨hget, hi⟩ := hts t i ht
    exact h.edited_eq_guardedLexemes hget hi
  rw [hlexemes, h.inserted_byteLength, ← h.flatten_eq, hflat, List.flatMap_append,
    List.flatMap_append, h.flatMap_edited_refs h.pairwise_edits (mem_edits_iff.mpr (Or.inl rfl))
      h.start_le_stop_of_mem_edits,
    hpart front 0, hpart back (front.length + refs.length)]
  · intro t i ht
    obtain ⟨hle, hget⟩ := List.mk_mem_zipIdx_iff_le_and_getElem?_sub.mp ht
    refine ⟨?_, Or.inr hle⟩
    rw [hflat, List.getElem?_append_right (by omega), List.getElem?_append_right (by omega), ← hget,
      Nat.sub_sub]
  · intro t i ht
    have hget := List.mk_mem_zipIdx_iff_getElem?.mp ht
    have hlt := (List.getElem?_eq_some_iff.mp hget).1
    refine ⟨?_, Or.inl hlt⟩
    rw [hflat, List.getElem?_append_left hlt, hget]

end Guarding

lemma tableOf_eq_ok_iff {text : List Char} {m : Wat.Module} {elem : ElemSegment} :
    tableOf text = .ok (m, elem) ↔
      Module.parse? text = some m ∧ m.elemSegment? = some elem := by
  constructor
  · intro h
    rw [tableOf] at h
    split at h
    · simp at h
    · rename_i hparse
      split at h
      · simp at h
      · rename_i helem
        obtain ⟨rfl, rfl⟩ := Prod.mk.inj (Except.ok.inj h)
        exact ⟨hparse, helem⟩
  · rintro ⟨hparse, helem⟩
    rw [tableOf, hparse]
    dsimp only
    rw [helem]

/-- A run renews the module if its text seems guarded, and guards it if not. -/
lemma instrument_cases {text : List Char} {m : Wat.Module} {elem : ElemSegment} {g : Guard}
    {out : Instrumented} (htable : tableOf text = .ok (m, elem))
    (hout : g.instrument text = .ok out) :
    (isInstrumented text = true ∧ ∃ d, m.lastData? = some d ∧
        out = ⟨splice m.text [g.elemEdit elem, ⟨d.start, d.stop, g.dataText⟩], true, 0⟩) ∨
      (isInstrumented text = false ∧ ∃ checks,
        g.guardFunctions m.globalCount m.functions g.codes = .ok checks ∧
        out = ⟨splice m.text (Guarding.edits g m elem checks), false, checks.length⟩) := by
  obtain ⟨⟨m', elem'⟩, htable', hout⟩ := ok_of_bind_eq_ok hout
  obtain ⟨rfl, rfl⟩ := Prod.mk.inj (Except.ok.inj (htable.symm.trans htable'))
  dsimp only at hout
  split at hout
  · rename_i hinst
    rw [refresh] at hout
    split at hout
    · simp at hout
    · rename_i d hdata
      exact Or.inl ⟨hinst, d, hdata, (Except.ok.inj hout).symm⟩
  · rename_i hnot
    obtain ⟨checks, hchecks, hout⟩ := ok_of_bind_eq_ok hout
    exact Or.inr ⟨by simpa using hnot, checks, hchecks, (Except.ok.inj hout).symm⟩

/-- Guarding a module for the first time applies the edits. -/
lemma exists_guarding {report : Report} {text : List Char} {m : Wat.Module}
    {elem : ElemSegment} {g : Guard} {out : Instrumented} (htable : tableOf text = .ok (m, elem))
    (hg : Built report (elem.functions.map String.ofList) g) (hterm : Terminated text)
    (hrefs : ∀ r ∈ elem.functions, r.head? ≠ some ';')
    (hname : ∀ c ∈ g.checkFunction.toList, isAtomChar c)
    (hout : g.instrument text = .ok out) (hfresh : out.refreshed = false) :
    ∃ F f front refs back checks, m = F.toModule text ∧
      Guarding g text F elem f front refs back checks ∧
      out.text = splice text (Guarding.edits g m elem checks) := by
  obtain ⟨hparse, helem⟩ := tableOf_eq_ok_iff.mp htable
  obtain ⟨F, hF, hflat, rfl⟩ := exists_forest_of_parse? hparse
  obtain ⟨f, front, refs, back, hrefsAt⟩ := exists_referencesAt hF helem
  rcases instrument_cases htable hout with ⟨-, d, -, rfl⟩ | ⟨-, checks, hchecks, rfl⟩
  · -- renewing a module says so
    simp at hfresh
  · obtain ⟨heq, hchecked⟩ := hg.guardFunctions_spec hg.reached_codes hchecks
    exact ⟨F, f, front, refs, back, checks, rfl, ⟨⟨hF, hflat, hterm, hrefsAt, hg.table_eq, hrefs⟩,
      hname, heq, hchecked⟩, rfl⟩

/-- **What guarding a module for the first time does to its tokens.** The references of
the table are replaced by the references in their new order. Every indirect call in a
function is replaced by the check against the set of its recorded signature, or of the
fallback signature if none is recorded, and this set exists. The new fields come before
the parenthesis that closes the module, or at the end without one. Nothing else
changes. -/
theorem lexemes_instrument {report : Report} {text : List Char} {m : Wat.Module}
    {elem : ElemSegment} {g : Guard} {out : Instrumented} (htable : tableOf text = .ok (m, elem))
    (hg : Built report (elem.functions.map String.ofList) g) (hterm : Terminated text)
    (hrefs : ∀ r ∈ elem.functions, r.head? ≠ some ';')
    (hname : ∀ c ∈ g.checkFunction.toList, isAtomChar c)
    (hout : g.instrument text = .ok out) (hfresh : out.refreshed = false) :
    ∃ f front refs back, ReferencesAt m elem f front refs back ∧
      lexemes out.text = front.zipIdx.flatMap (g.guardedLexemes m) ++
          ((g.layout.reorder g.table).map (fun r => (.atom, r.toList)) ++
            (back.zipIdx (front.length + refs.length)).flatMap (g.guardedLexemes m)) ++
          (if m.close = none then g.trailerLexemes else []) ∧
      ∀ i name k, m.callSite? i = some (name, k) → (g.sets.find? (g.siteKey name k)).isSome := by
  obtain ⟨F, f, front, refs, back, checks, rfl, h, htext⟩ :=
    exists_guarding htable hg hterm hrefs hname hout hfresh
  refine ⟨f, front, refs, back, h.references, ?_, fun i name k => h.isSome_of_callSite?⟩
  have hlexemes := h.lexemes_splice_edits.1
  rw [referenceWords, List.map_map] at hlexemes
  rw [htext]
  exact hlexemes

/-- A module with an indirect call after a comment with a quote. -/
def sampleText : List Char :=
  "(module (func $f (; \" ;) call_indirect) (elem func $f $g))".toList

/-- What it spells. -/
def sampleModule : Wat.Module :=
  ⟨sampleText, tokens sampleText, [⟨2, 6, 1⟩, ⟨7, 12, 1⟩], some 57⟩

lemma tableOf_sampleText :
    tableOf sampleText = .ok (sampleModule, ⟨["$f".toList, "$g".toList], 51, 56⟩) := by
  have hforms : forms? (tokens sampleText) = some [⟨0, 13, 0⟩, ⟨2, 6, 1⟩, ⟨7, 12, 1⟩] := by cbv
  refine tableOf_eq_ok_iff.mpr ⟨?_, by cbv⟩
  rw [Module.parse?]
  simp only [hforms]
  cbv

/-- Guarding it succeeds. -/
lemma exists_instrument_sampleText :
    ∃ out, ((ofTable .empty ["$f", "$g"]).randomize [3]).instrument sampleText = .ok out ∧
      out.refreshed = false := by
  have hfunctions : sampleModule.functions = [⟨some ['f'], [⟨25, 38, false, []⟩]⟩] := by
    decide +kernel
  obtain ⟨set, hset⟩ := Option.isSome_iff_exists.mp
    (show ((ofTable .empty ["$f", "$g"]).sets.find? fallbackKey).isSome by cbv)
  generalize hg : (ofTable .empty ["$f", "$g"]).randomize [3] = g
  have hset' : g.sets.find? fallbackKey = some set := hg ▸ hset
  have hrecorded : g.recordedCalls (some ['f']) = [] := hg ▸ rfl
  have hchecks : ∃ checks,
      g.guardFunctions sampleModule.globalCount sampleModule.functions g.codes = .ok checks := by
    rw [hfunctions]
    simp [guardFunctions, guardCalls, hrecorded, resolve, hset', Except.map, bind, Except.bind,
      pure, Except.pure]
  obtain ⟨checks, hchecks⟩ := hchecks
  have hnot : isInstrumented sampleText = false := by cbv
  refine ⟨⟨splice sampleText (g.elemEdit ⟨["$f".toList, "$g".toList], 51, 56⟩ ::
    (checks ++ [Guarding.added g sampleModule])), false, checks.length⟩, ?_, rfl⟩
  rw [instrument, tableOf_sampleText]
  simp [bind, Except.bind, hnot, guardFresh, hchecks, pure, Except.pure]
  rfl

/-- The call in it becomes a check, and the table is shuffled. -/
theorem lexemes_instrument_sampleText :
    ∃ g out, Built .empty ["$f", "$g"] g ∧ Terminated sampleText ∧
      (∀ r ∈ ["$f".toList, "$g".toList], r.head? ≠ some ';') ∧
      (∀ c ∈ g.checkFunction.toList, isAtomChar c) ∧
      tableOf sampleText = .ok (sampleModule, ⟨["$f".toList, "$g".toList], 51, 56⟩) ∧
      sampleModule.callSite? 5 = some (some ['f'], 0) ∧
      g.instrument sampleText = .ok out ∧ out.refreshed = false ∧
      ∃ f front refs back,
        ReferencesAt sampleModule ⟨["$f".toList, "$g".toList], 51, 56⟩ f front refs back ∧
        lexemes out.text = front.zipIdx.flatMap (g.guardedLexemes sampleModule) ++
          ((g.layout.reorder g.table).map (fun r => (.atom, r.toList)) ++
            (back.zipIdx (front.length + refs.length)).flatMap (g.guardedLexemes sampleModule)) ++
          (if sampleModule.close = none then g.trailerLexemes else []) ∧
        ∀ i name k, sampleModule.callSite? i = some (name, k) →
          (g.sets.find? (g.siteKey name k)).isSome := by
  obtain ⟨out, hout, hfresh⟩ := exists_instrument_sampleText
  have hg : Built .empty ["$f", "$g"] _ := .shuffled [3] .sorted
  have hterm : Terminated sampleText := by
    have : (pieces sampleText).all Piece.Terminated = true := by cbv
    simpa [Terminated] using this
  have hrefs : ∀ r ∈ ["$f".toList, "$g".toList], r.head? ≠ some ';' := by decide
  have hname : ∀ c ∈ defaultCheckFunction.toList, isAtomChar c := List.all_eq_true.mp rfl
  exact ⟨_, out, hg, hterm, hrefs, hname, tableOf_sampleText, by cbv, hout, hfresh,
    lexemes_instrument tableOf_sampleText hg hterm hrefs hname hout hfresh⟩

end Guard

end CallGuard
