import CallGuard.Proofs.Guard.Instrument
import CallGuard.Proofs.Wat.Replace

/-!
What the table and the data of a module are after a run. Guarding a module for the first
time and renewing one that has been guarded before both replace tokens, so the module that
they leave has the fields of the module that they found.

* `Guard.trailerForest`: what is added by the first run.
* `Guarding.replacing`, `Renewing.replacing`: what the runs do to tokens.
* `Guarding.flatten_forest_edits`, `Renewing.flatten_forest_edits`: the tokens that they leave.
* `Guarding.reads`, `Renewing.reads`: after a run the table is in its new order, and the last
  data holds the indices.
-/

namespace CallGuard

namespace Guard

open Wat
open Text (byteLength)

/-! ### The first run -/

/-- What is inside the added data. -/
def dataForest (g : Guard) : Forest Lexeme :=
  .leaf (.atom, "data".toList)
    (.node (.opening, "(".toList)
      (.ofList [(.atom, "i32.const".toList), (.atom, Text.decimal g.offset.toNat)])
      (.closing, ")".toList) (.leaf (.string, g.dataText) .nil))

/-- What is inside the added global. -/
def globalForest (g : Guard) : Forest Lexeme :=
  .leaf (.atom, "global".toList)
    (.node (.opening, "(".toList) (.ofList [(.atom, "mut".toList), (.atom, "i32".toList)])
      (.closing, ")".toList)
      (.node (.opening, "(".toList)
        (.ofList [(.atom, "i32.const".toList), (.atom, Text.decimal g.dataEnd)])
        (.closing, ")".toList) .nil))

/-- What is added at the end. -/
def trailerForest (g : Guard) : Forest Lexeme :=
  .node (.opening, "(".toList) g.dataForest (.closing, ")".toList)
    (.node (.opening, "(".toList) g.globalForest (.closing, ")".toList) .nil)

lemma flatten_trailerForest (g : Guard) : g.trailerForest.flatten = g.trailerLexemes := rfl

lemma sound_trailerForest (g : Guard) : g.trailerForest.Sound Prod.fst := by
  simp [trailerForest, dataForest, globalForest, Forest.Sound, Forest.ofList]

lemma named_dataForest (g : Guard) (name : String) :
    g.dataForest.named id name = decide ("data" = name) :=
  Forest.named_word "data" name _

lemma named_globalForest (g : Guard) (name : String) :
    g.globalForest.named id name = decide ("global" = name) :=
  Forest.named_word "global" name _

/-- Only data and a global are added. -/
lemma named_of_mem_tops_trailerForest (g : Guard) (name : String) (hdata : "data" ≠ name)
    (hglobal : "global" ≠ name) : ∀ x ∈ g.trailerForest.tops, x.1.named id name = false := by
  intro x hx
  simp only [trailerForest, Forest.tops, List.mem_cons, List.not_mem_nil, or_false] at hx
  rcases hx with rfl | rfl
  · rw [named_dataForest, decide_eq_false hdata]
  · rw [named_globalForest, decide_eq_false hglobal]

lemma getLast?_data_trailerForest (g : Guard) :
    (g.trailerForest.tops.filter fun x => x.1.named id "data").getLast? =
      some (g.dataForest, (.closing, ")".toList)) := by
  simp [trailerForest, Forest.tops, named_dataForest, named_globalForest]

namespace Guarding

variable {g : Guard} {text : List Char} {F : Forest Token} {elem : ElemSegment} {f : Form}
  {front refs back : List Token} {checks : List Edit}

/-- A token that is neither a reference nor a call stays. -/
lemma edited_of_notMem (h : Guarding g text F elem f front refs back checks) {i : Nat} {t : Token}
    (ht : F.flatten[i]? = some t) (hnot : t ∉ refs)
    (hsite : (F.toModule text).callSite? i = none) :
    edited (edits g (F.toModule text) elem checks) t =
      (if (F.toModule text).close = some t.start then g.trailerForest.flatten else []) ++
        [t.lexeme] := by
  rw [h.edited_eq_guardedLexemes ht (h.outside_of_notMem ht hnot), guardedLexemes]
  dsimp only
  rw [hsite, flatten_trailerForest]

/-- A call becomes words. -/
lemma edited_of_callSite? (h : Guarding g text F elem f front refs back checks) {i : Nat}
    {t : Token} (ht : F.flatten[i]? = some t) (hnot : t ∉ refs)
    {site : Option (List Char) × Nat} (hsite : (F.toModule text).callSite? i = some site) :
    ∀ l ∈ edited (edits g (F.toModule text) elem checks) t, l.1 = .atom := by
  have hne := h.close_ne_of_kind_ne ht (by rw [kind_of_callSite? ht hsite]; decide)
  rw [h.edited_eq_guardedLexemes ht (h.outside_of_notMem ht hnot), guardedLexemes]
  dsimp only
  rw [hsite, if_neg hne, List.nil_append]
  intro l hl
  obtain ⟨i, -, hl⟩ := List.mem_flatMap.mp hl
  obtain ⟨w, -, rfl⟩ := List.mem_map.mp hl
  rfl

/-- Parentheses and strings are neither references nor calls. -/
lemma edited_of_kind_ne (h : Guarding g text F elem f front refs back checks) {t : Token}
    (ht : t ∈ F.flatten) (hkind : t.kind ≠ .atom) :
    edited (edits g (F.toModule text) elem checks) t =
      (if (F.toModule text).close = some t.start then g.trailerForest.flatten else []) ++
        [t.lexeme] := by
  obtain ⟨i, hi⟩ := List.mem_iff_getElem?.mp ht
  refine h.edited_of_notMem hi (fun hr => hkind (h.references.atoms t hr)) ?_
  rw [Option.eq_none_iff_forall_ne_some]
  exact fun site hsite => hkind (kind_of_callSite? hi hsite)

/-- Guarding replaces tokens and adds fields. -/
lemma replacing (h : Guarding g text F elem f front refs back checks) :
    Replacing text F (edited (edits g (F.toModule text) elem checks)) g.trailerForest where
  sound := h.sound
  flatten_eq := h.flatten_eq
  opening t ht hkind := by
    obtain ⟨i, hi⟩ := List.mem_iff_getElem?.mp ht
    have hne := h.close_ne_of_kind_ne hi (by rw [hkind]; decide)
    rw [h.edited_of_kind_ne ht (by rw [hkind]; decide), if_neg hne, List.nil_append]
  closing t ht hkind := h.edited_of_kind_ne ht (by rw [hkind]; decide)
  leaf t ht ho hc l hl := by
    obtain ⟨i, hi⟩ := List.mem_iff_getElem?.mp ht
    by_cases hr : t ∈ refs
    · rw [h.kind_of_mem_edited h.pairwise_edits (mem_edits_iff.mpr (Or.inl rfl))
        h.start_le_stop_of_mem_edits hr l hl]
      decide
    cases hsite : (F.toModule text).callSite? i with
    | none =>
        rw [h.edited_of_notMem hi hr hsite, if_neg (h.close_ne_of_kind_ne hi hc)] at hl
        obtain rfl := List.mem_singleton.mp hl
        exact ⟨ho, hc⟩
    | some site =>
        rw [h.edited_of_callSite? hi hr hsite l hl]
        decide
  inside i t hi _ hc := by
    by_cases hr : t ∈ refs
    · exact Or.inr (h.exists_field_of_mem hi hr)
    cases hsite : (F.toModule text).callSite? i with
    | none =>
        rw [h.edited_of_notMem hi hr hsite, if_neg (h.close_ne_of_kind_ne hi hc)]
        exact Or.inl rfl
    | some site =>
        obtain ⟨form, hform, hin⟩ := exists_function_of_callSite? hsite
        exact Or.inr ⟨form, List.mem_of_mem_filter hform, hin⟩
  added_sound := g.sound_trailerForest
  added_head l hl := by
    obtain rfl := Option.some.inj hl
    decide
  added_fields x hx := ⟨g.named_of_mem_tops_trailerForest "module" (by decide) (by decide) x hx,
    g.named_of_mem_tops_trailerForest "elem" (by decide) (by decide) x hx⟩

/-- The tokens of the guarded text are those of its forest. -/
lemma flatten_forest_edits (h : Guarding g text F elem f front refs back checks) :
    (Replacing.forest text F (edited (edits g (F.toModule text) elem checks))
        g.trailerForest).flatten =
      lexemes (splice text (edits g (F.toModule text) elem checks)) := by
  rw [h.replacing.flatten_forest, flatten_trailerForest, ← h.inserted_byteLength]
  exact (lexemes_splice h.terminated h.fits_of_mem_edits h.pairwise_edits).1.symm

/-- In the field of the table only references are replaced. -/
lemma edited_in_table (h : Guarding g text F elem f front refs back checks) (i : Nat) (t : Token)
    (hi : F.flatten[i]? = some t) (hlt : f.opening < i) (hlt' : i < f.closing) (hnot : t ∉ refs) :
    edited (edits g (F.toModule text) elem checks) t = [t.lexeme] := by
  have hf := List.mem_of_mem_head? h.references.field
  have hsite : (F.toModule text).callSite? i = none := by
    rw [Option.eq_none_iff_forall_ne_some]
    intro site hsite
    rcases h.callSite?_outside hsite with hout | hout <;> omega
  have hclose := h.close_ne_of_mem_fields (List.mem_of_mem_filter hf) hi hlt hlt'
  rw [h.edited_of_notMem hi hnot hsite, if_neg hclose, List.nil_append]

/-- After the first run the table is in its new order, and the data holds its indices. -/
lemma reads (h : Guarding g text F elem f front refs back checks)
    (hinside : (F.toModule text).DataInside) :
    Reads (splice text (edits g (F.toModule text) elem checks)) g.referenceWords g.dataText := by
  have hr := h.replacing
  obtain ⟨x, hx, hlists⟩ := hr.lists_forest h.references
    (h.flatMap_edited_refs h.pairwise_edits (mem_edits_iff.mpr (Or.inl rfl))
      h.start_le_stop_of_mem_edits)
    (fun w hw => h.references.functions_eq ▸ h.mem_of_mem_referenceWords w hw) h.edited_in_table
  exact reads_of_forest hr.sound_forest h.flatten_forest_edits hx hlists
    (hr.getLast?_data_of_added g.getLast?_data_trailerForest hinside) rfl

end Guarding

/-! ### The second run -/

/-- A module whose table and data are renewed, and the string of the data. -/
structure Renewing (g : Guard) (text : List Char) (F : Forest Token) (elem : ElemSegment)
    (f : Form) (front refs back : List Token) (d : Token) : Prop
    extends Tabled g text F elem f front refs back where
  data : (F.toModule text).lastData? = some d

namespace Renewing

variable {g : Guard} {text : List Char} {F : Forest Token} {elem : ElemSegment} {f : Form}
  {front refs back : List Token} {d : Token}

/-- The edits of the module. -/
def edits (g : Guard) (elem : ElemSegment) (d : Token) : List Edit :=
  [g.elemEdit elem, ⟨d.start, d.stop, g.dataText⟩]

lemma mem_edits_iff {e : Edit} :
    e ∈ edits g elem d ↔ e = g.elemEdit elem ∨ e = ⟨d.start, d.stop, g.dataText⟩ := by
  rw [edits, List.mem_cons, List.mem_singleton]

/-- The string is in a field for data, after its name. -/
lemma exists_field (h : Renewing g text F elem f front refs back d) :
    d.kind = .string ∧ ∃ f' ∈ (F.toModule text).fieldsNamed "data", ∃ j, F.flatten[j]? = some d ∧
      f'.opening + 1 < j ∧ j < f'.closing := by
  obtain ⟨f', hf', hfind⟩ := Option.bind_eq_some_iff.mp h.data
  have hf' := List.mem_of_mem_getLast? hf'
  have hkind : d.kind = .string := by simpa using List.find?_some hfind
  refine ⟨hkind, f', hf', ?_⟩
  obtain ⟨inner, c, hnode⟩ := exists_node (List.mem_of_mem_filter hf')
  have hmem := List.mem_of_find?_eq_some hfind
  have hroots : ((F.toModule text).children f').map (·.1) = inner.items := by
    rw [children_of_mem_nodes h.sound hnode]
    exact Forest.map_fst_roots _ _
  rw [hroots] at hmem
  obtain ⟨j, hj, hlt, hlt'⟩ := Replacing.exists_getElem?_of_mem_items h.sound hnode hmem
  refine ⟨j, hj, lt_of_le_of_ne hlt fun heq => ?_, hlt'⟩
  -- the name is an atom
  obtain ⟨t, ht, hatom, -⟩ := exists_head hf'
  obtain rfl := Option.some.inj (ht.symm.trans (heq ▸ hj))
  rw [hkind] at hatom
  exact absurd hatom (by decide)

lemma pieces_dataText (g : Guard) : pieces g.dataText = [⟨some .string, g.dataText⟩] := by
  have hstands : StandAll [⟨some .string, g.dataText⟩] [] :=
    ⟨Stands.string g.splitString_dataText.1 (Or.inr g.splitString_dataText.2), trivial⟩
  have := pieces_flat hstands
  rwa [flat_cons, flat_nil, List.append_nil] at this

lemma lexemes_dataText (g : Guard) : lexemes g.dataText = [(.string, g.dataText)] := by
  rw [lexemes_eq, pieces_dataText]
  rfl

/-- The new string can take the place of the string. -/
lemma fits_dataEdit (h : Renewing g text F elem f front refs back d) :
    Fits text ⟨d.start, d.stop, g.dataText⟩ := by
  obtain ⟨hkind, -, -, j, hj, -⟩ := h.exists_field
  obtain ⟨front, back, hsplit⟩ := List.append_of_mem (List.mem_of_getElem? (h.flatten_eq ▸ hj))
  obtain ⟨ks, ps, hpieces, hstart, hstop, -⟩ := exists_pieces hsplit
  rw [hkind] at hpieces
  have hstand := standAll_pieces text
  rw [hpieces, standAll_append] at hstand
  refine ⟨ks, [⟨some .string, d.text⟩], ps, hpieces, by simpa using hstart, by simpa using hstop,
    ?_⟩
  refine ⟨fun rest _ => ?_, fun rest _ => Or.inl ?_, ?_, Or.inl ?_⟩
  · rw [pieces_dataText]
    exact ⟨Stands.string g.splitString_dataText.1 (Or.inr g.splitString_dataText.2), trivial⟩
  · -- both start with a quote
    obtain ⟨cs, hcs⟩ : ∃ cs, d.text = '"' :: cs := by
      generalize d.text = cs at hstand
      cases hstand.2.1
      exact ⟨_, rfl⟩
    rw [flat_cons, hcs]
    rfl
  · rw [Terminated, pieces_dataText]
    simpa [Piece.Terminated, dataText] using g.splitString_dataText.2
  · rintro p hp
    obtain rfl := Option.some.inj hp
    rfl

lemma fits_of_mem_edits (h : Renewing g text F elem f front refs back d) :
    ∀ e ∈ edits g elem d, Fits text e := by
  intro e he
  rcases mem_edits_iff.mp he with rfl | rfl
  · exact h.fits_elemEdit
  · exact h.fits_dataEdit

lemma start_le_stop_of_mem_edits (h : Renewing g text F elem f front refs back d) :
    ∀ e ∈ edits g elem d, e.start ≤ e.stop := by
  intro e he
  obtain ⟨_, _, _, -, -, hstop, -⟩ := h.fits_of_mem_edits e he
  omega

/-- The table and the string lie apart. -/
lemma pairwise_edits (h : Renewing g text F elem f front refs back d) :
    (edits g elem d).Pairwise Apart := by
  obtain ⟨-, f', hf', j, hj, hlt, hlt'⟩ := h.exists_field
  have hopening := h.references.opening_lt
  have hle := h.references.start_le_stop h.flatten_eq
  have hbounds := bounds_of_mem_tokens (List.mem_of_getElem? (h.flatten_eq ▸ hj))
  have hf := List.mem_of_mem_head? h.references.field
  refine List.pairwise_pair.mpr ?_
  simp only [Apart, elemEdit]
  rcases disjoint_of_mem_fieldsNamed (by decide) hf' hf with hd | hd
  · have := h.references.stop_le_start h.flatten_eq hj (by omega)
    omega
  · have := h.references.stop_lt h.flatten_eq hj (by omega)
    omega

lemma edited_data (h : Renewing g text F elem f front refs back d) :
    edited (edits g elem d) d = [(.string, g.dataText)] := by
  obtain ⟨-, -, -, j, hj, -⟩ := h.exists_field
  have hbounds := bounds_of_mem_tokens (List.mem_of_getElem? (h.flatten_eq ▸ hj))
  have hmem : ⟨d.start, d.stop, g.dataText⟩ ∈ edits g elem d := mem_edits_iff.mpr (Or.inr rfl)
  rw [edited_of_replaced h.pairwise_edits hmem rfl hbounds.1]
  exact lexemes_dataText g

/-- All other tokens stay. -/
lemma edited_of_ne (h : Renewing g text F elem f front refs back d) {t : Token}
    (ht : t ∈ F.flatten) (hnot : t ∉ refs) (hne : t ≠ d) :
    edited (edits g elem d) t = [t.lexeme] := by
  obtain ⟨-, -, -, j, hj, -⟩ := h.exists_field
  obtain ⟨i, hi⟩ := List.mem_iff_getElem?.mp ht
  have hside := h.outside_of_notMem hi hnot
  have hbounds := bounds_of_mem_tokens (List.mem_of_getElem? (h.flatten_eq ▸ hj))
  -- a token that starts within the string is the string
  have hout : ¬ (d.start ≤ t.start ∧ t.start < d.stop) := by
    rintro ⟨hstart, hstop⟩
    obtain rfl := index_eq_of_covers (h.flatten_eq ▸ hi) (h.flatten_eq ▸ hj) hstart hstop
    exact hne (Option.some.inj (hi.symm.trans hj))
  rw [edited_of_not_covered, inserted_eq_nil, List.nil_append]
  · intro e he hstart
    rcases mem_edits_iff.mp he with rfl | rfl
    · exact h.replacement_eq_nil hi hside hstart
    · simp only at hstart
      omega
  · intro e he
    rcases mem_edits_iff.mp he with rfl | rfl
    · exact h.not_covered_elemEdit hi hside
    · exact hout

lemma inserted_byteLength (h : Renewing g text F elem f front refs back d) :
    inserted (edits g elem d) (byteLength text) = [] := by
  obtain ⟨-, -, -, j, hj, -⟩ := h.exists_field
  have hbounds := bounds_of_mem_tokens (List.mem_of_getElem? (h.flatten_eq ▸ hj))
  refine inserted_eq_nil fun e he hstart => ?_
  rcases mem_edits_iff.mp he with rfl | rfl
  · have hstart : elem.start = byteLength text := hstart
    have := h.references.start_le_stop h.flatten_eq
    have := h.stop_lt_byteLength
    omega
  · have hstart : d.start = byteLength text := hstart
    omega

/-- Renewing a module replaces tokens and adds nothing. -/
lemma replacing (h : Renewing g text F elem f front refs back d) :
    Replacing text F (edited (edits g elem d)) .nil where
  sound := h.sound
  flatten_eq := h.flatten_eq
  opening t ht hkind := by
    refine h.edited_of_ne ht (fun hr => ?_) ?_
    · simp [h.references.atoms t hr] at hkind
    · rintro rfl
      simp [h.exists_field.1] at hkind
  closing t ht hkind := by
    rw [Forest.flatten, ite_self, List.nil_append]
    refine h.edited_of_ne ht (fun hr => ?_) ?_
    · simp [h.references.atoms t hr] at hkind
    · rintro rfl
      simp [h.exists_field.1] at hkind
  leaf t ht ho hc l hl := by
    by_cases hr : t ∈ refs
    · rw [h.kind_of_mem_edited h.pairwise_edits (mem_edits_iff.mpr (Or.inl rfl))
        h.start_le_stop_of_mem_edits hr l hl]
      decide
    by_cases hd : t = d
    · rw [hd, h.edited_data] at hl
      obtain rfl := List.mem_singleton.mp hl
      simp
    · rw [h.edited_of_ne ht hr hd] at hl
      obtain rfl := List.mem_singleton.mp hl
      exact ⟨ho, hc⟩
  inside i t hi _ _ := by
    by_cases hr : t ∈ refs
    · exact Or.inr (h.exists_field_of_mem hi hr)
    by_cases hd : t = d
    · obtain ⟨-, f', hf', j, hj, hin⟩ := h.exists_field
      obtain rfl := index_eq_of_start_eq (h.flatten_eq ▸ hi) (h.flatten_eq ▸ hj) (by rw [hd])
      exact Or.inr ⟨f', List.mem_of_mem_filter hf', hin⟩
    · exact Or.inl (h.edited_of_ne (List.mem_of_getElem? hi) hr hd)
  added_sound := trivial
  added_head l hl := by simp [Forest.flatten] at hl
  added_fields x hx := by simp [Forest.tops] at hx

/-- The tokens of the renewed text are those of its forest. -/
lemma flatten_forest_edits (h : Renewing g text F elem f front refs back d) :
    (Replacing.forest text F (edited (edits g elem d)) .nil).flatten =
      lexemes (splice text (edits g elem d)) := by
  rw [h.replacing.flatten_forest, Forest.flatten, ite_self, ← h.inserted_byteLength]
  exact (lexemes_splice h.terminated h.fits_of_mem_edits h.pairwise_edits).1.symm

/-- In the field of the table only references are replaced. -/
lemma edited_in_table (h : Renewing g text F elem f front refs back d) (i : Nat) (t : Token)
    (hi : F.flatten[i]? = some t) (hlt : f.opening < i) (hlt' : i < f.closing) (hnot : t ∉ refs) :
    edited (edits g elem d) t = [t.lexeme] := by
  refine h.edited_of_ne (List.mem_of_getElem? hi) hnot ?_
  rintro rfl
  obtain ⟨-, f', hf', j, hj, hin⟩ := h.exists_field
  obtain rfl := index_eq_of_start_eq (h.flatten_eq ▸ hi) (h.flatten_eq ▸ hj) rfl
  have hf := List.mem_of_mem_head? h.references.field
  rcases disjoint_of_mem_fieldsNamed (by decide) hf' hf with hd | hd <;> omega

/-- After the second run the table is in its new order, and the data holds its indices. -/
lemma reads (h : Renewing g text F elem f front refs back d) :
    Reads (splice text (edits g elem d)) g.referenceWords g.dataText := by
  have hr := h.replacing
  have hf := List.mem_of_mem_head? h.references.field
  obtain ⟨x, hx, hlists⟩ := hr.lists_forest h.references
    (h.flatMap_edited_refs h.pairwise_edits (mem_edits_iff.mpr (Or.inl rfl))
      h.start_le_stop_of_mem_edits)
    (fun w hw => h.references.functions_eq ▸ h.mem_of_mem_referenceWords w hw)
    h.edited_in_table
  obtain ⟨y, hy, hdata⟩ := hr.exists_getLast?_data h.data h.edited_data
    fun f' hf' i t hi hlt hlt' hne => by
      refine h.edited_of_ne (List.mem_of_getElem? hi) (fun hmem => ?_) hne
      have hin := h.inside_field_of_mem hi hmem
      rcases disjoint_of_mem_fieldsNamed (by decide) hf' hf with hd | hd <;> omega
  exact reads_of_forest hr.sound_forest h.flatten_forest_edits hx hlists hy hdata

end Renewing

end Guard

end CallGuard
