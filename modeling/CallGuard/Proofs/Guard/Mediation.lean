import CallGuard.Proofs.Guard.Renew
import CallGuard.Proofs.Wat.Sites

/-!
Whether a run leaves an indirect call without its check. A run that guards a module puts a
check right before every indirect call of its functions. A run that takes the module for
one that has been guarded before puts none, and it takes every module for such a one whose
last line starts a global.

* `Module.indirectCallCount`: how many indirect calls the functions of a module have.
* `Guard.Precedes`, `Guard.Mediates`: checks stand right before the indirect calls.
* `Guarding.exists_mediates`, `Renewing.exists_functions`: what the two kinds of runs leave.
* `Guard.instrument_mediates_iff`: which runs leave no call without its check.
-/

namespace CallGuard

open Wat

/-- The number of indirect calls in the functions of a module. -/
def Wat.Module.indirectCallCount (m : Wat.Module) : Nat :=
  ((m.fieldsNamed "func").flatMap (body m)).countP (·.isAtom "call_indirect")

namespace Guard

/-! ### Checks before calls -/

/-- The tokens of a check, up to the call. -/
def checkLexemes (g : Guard) (global : Nat) (set : SignatureSet) : List Lexeme :=
  (g.checkSequence global set).dropLast.flatMap fun i => i.words.map fun w => (.atom, w)

/-- Right before every word for an indirect call stands the check against one of the sets. -/
def Precedes (g : Guard) (global : Nat) (ls : List Lexeme) : Prop :=
  ∀ before after, ls = before ++ callWord :: after →
    ∃ set ∈ g.sets.sets, g.checkLexemes global set <:+ before

/-- In every function checks stand right before the indirect calls. -/
def Mediates (g : Guard) (global : Nat) (m : Wat.Module) : Prop :=
  ∀ f ∈ m.fieldsNamed "func", g.Precedes global ((body m f).map Token.lexeme)

/-- A call of the function that checks indices. -/
def checkCall (g : Guard) : List Lexeme :=
  [(.atom, "call".toList), (.atom, '$' :: g.checkFunction.toList)]

variable {g : Guard} {global : Nat}

lemma Precedes.append {ls ls' : List Lexeme} (h : g.Precedes global ls)
    (h' : g.Precedes global ls') : g.Precedes global (ls ++ ls') := by
  intro before after heq
  rcases List.append_eq_append_iff.mp heq with ⟨front, rfl, hrest⟩ | ⟨back, hls, hrest⟩
  · obtain ⟨set, hset, hsuffix⟩ := h' front after hrest
    exact ⟨set, hset, hsuffix.trans (List.suffix_append _ _)⟩
  · cases back with
    | nil =>
        obtain ⟨set, hset, hsuffix⟩ := h' [] after hrest.symm
        exact ⟨set, hset, hsuffix.trans (List.nil_suffix)⟩
    | cons l back =>
        obtain ⟨rfl, -⟩ := List.cons.inj hrest
        exact h before back hls

lemma precedes_flatMap {α : Type} {ts : List α} {ε : α → List Lexeme}
    (h : ∀ t ∈ ts, g.Precedes global (ε t)) : g.Precedes global (ts.flatMap ε) := by
  induction ts with
  | nil => exact fun before after heq => absurd heq (by simp)
  | cons t ts ih =>
      rw [List.flatMap_cons]
      exact (h t (by simp)).append (ih fun t' ht' => h t' (List.mem_cons_of_mem _ ht'))

/-- Where there is no call, there is nothing to check. -/
lemma precedes_of_notMem {ls : List Lexeme} (h : callWord ∉ ls) : g.Precedes global ls := by
  rintro before after rfl
  exact absurd (by simp) h

/-- Only the indirect call has the word for it. -/
lemma callWord_notMem_words {i : Instruction} (hi : i ≠ .callIndirect) :
    "call_indirect".toList ∉ i.words := by
  have hdecimal (n : Nat) : "call_indirect".toList ≠ Text.decimal n := fun heq =>
    absurd (Nat.isDigit_of_mem_toDigits (by omega) (by omega)
      (heq ▸ (by decide : 'c' ∈ "call_indirect".toList))) (by decide)
  have hpair {w v : List Char} (hw : "call_indirect".toList ≠ w) (hv : "call_indirect".toList ≠ v) :
      "call_indirect".toList ∉ [w, v] := by
    simpa using ⟨hw, hv⟩
  cases i with
  | const value => exact hpair (by decide) (hdecimal _)
  | sub => decide
  | mul => decide
  | load offset =>
      refine hpair (by decide) fun heq => ?_
      have hhead : some 'c' = some 'o' := congrArg List.head? heq
      exact absurd hhead (by decide)
  | globalGet index => exact hpair (by decide) (hdecimal _)
  | globalSet index => exact hpair (by decide) (hdecimal _)
  | call name =>
      refine hpair (by decide) fun heq => ?_
      have hhead : some 'c' = some '$' := congrArg List.head? heq
      exact absurd hhead (by decide)
  | callIndirect => exact absurd rfl hi

lemma dropLast_checkSequence (g : Guard) (global : Nat) (set : SignatureSet) :
    g.checkSequence global set = (g.checkSequence global set).dropLast ++ [.callIndirect] ∧
      .callIndirect ∉ (g.checkSequence global set).dropLast := by
  simp [checkSequence, remap]

/-- A check is read as its tokens and the call. -/
lemma flatMap_checkSequence (g : Guard) (global : Nat) (set : SignatureSet) :
    (g.checkSequence global set).flatMap (fun i => i.words.map fun w => (TokenKind.atom, w)) =
      g.checkLexemes global set ++ [callWord] := by
  rw [(g.dropLast_checkSequence global set).1, List.flatMap_append]
  rfl

lemma callWord_notMem_checkLexemes (g : Guard) (global : Nat) (set : SignatureSet) :
    callWord ∉ g.checkLexemes global set := by
  intro hmem
  obtain ⟨i, hi, hw⟩ := List.mem_flatMap.mp hmem
  obtain ⟨w, hw, heq⟩ := List.mem_map.mp hw
  obtain rfl : w = "call_indirect".toList := congrArg Prod.snd heq
  refine callWord_notMem_words ?_ hw
  rintro rfl
  exact (g.dropLast_checkSequence global set).2 hi

/-- The check before a call calls the function that checks indices. -/
lemma checkCall_infix (g : Guard) (global : Nat) (set : SignatureSet) :
    g.checkCall <:+: g.checkLexemes global set := by
  refine ⟨(Instruction.globalSet global :: .const (.ofNat set.lower) :: .const (.ofNat set.upper) ::
      .globalGet global :: g.remap).flatMap fun i => i.words.map fun w => (.atom, w),
    (Instruction.globalGet global :: g.remap).flatMap fun i => i.words.map fun w => (.atom, w), ?_⟩
  simp [checkLexemes, checkSequence, remap, checkCall, Instruction.words]

/-- A check against one of the sets stands right before its call. -/
lemma precedes_checkSequence {set : SignatureSet} (hset : set ∈ g.sets.sets) :
    g.Precedes global
      ((g.checkSequence global set).flatMap fun i => i.words.map fun w => (TokenKind.atom, w)) := by
  rw [flatMap_checkSequence]
  intro before after heq
  obtain ⟨rfl, -⟩ := (List.append_cons_inj_of_notMem
    (g.callWord_notMem_checkLexemes global set) List.not_mem_nil).mp heq
  exact ⟨set, hset, List.suffix_refl _⟩

/-! ### What is left by a run -/

lemma siteCheck_eq_of_mem {name : Option (List Char)} {k : Nat}
    (hset : (g.sets.find? (g.siteKey name k)).isSome) (global : Nat) :
    ∃ set ∈ g.sets.sets, g.siteCheck global name k = g.checkSequence global set := by
  obtain ⟨set, hset⟩ := Option.isSome_iff_exists.mp hset
  refine ⟨set, List.mem_of_find?_eq_some hset, ?_⟩
  rw [siteCheck, hset]
  rfl

section Runs

variable {text : List Char} {F : Forest Token} {elem : ElemSegment} {f : Form}
  {front refs back : List Token}

/-- A token inside a function is no reference of the table. -/
lemma Tabled.notMem_refs_of_mem_func (h : Tabled g text F elem f front refs back) {form : Form}
    (hform : form ∈ (F.toModule text).fieldsNamed "func") {i : Nat} {t : Token}
    (ht : F.flatten[i]? = some t) (hlt : form.opening < i) (hlt' : i < form.closing) :
    t ∉ refs := by
  intro hr
  have hin := h.inside_field_of_mem ht hr
  have hf := List.mem_of_mem_head? h.references.field
  rcases disjoint_of_mem_fieldsNamed (by decide) hform hf with hd | hd <;> omega

/-- What a token inside a function becomes has checks right before its calls. -/
lemma Guarding.precedes_edited {checks : List Edit}
    (h : Guarding g text F elem f front refs back checks) {form : Form}
    (hform : form ∈ (F.toModule text).fieldsNamed "func") {t : Token}
    (ht : t ∈ body (F.toModule text) form) :
    g.Precedes (F.toModule text).globalCount
      (edited (Guarding.edits g (F.toModule text) elem checks) t) := by
  obtain ⟨j, hj⟩ := List.mem_iff_getElem?.mp ht
  obtain ⟨hget, hlt⟩ := getElem?_body_eq_some_iff.mp hj
  have hnot := h.notMem_refs_of_mem_func hform hget (by omega) hlt
  have hclose := h.close_ne_of_mem_fields (List.mem_of_mem_filter hform) hget (by omega) hlt
  cases hsite : (F.toModule text).callSite? (form.opening + 1 + j) with
  | none =>
      rw [h.edited_of_notMem hget hnot hsite, if_neg hclose, List.nil_append]
      refine precedes_of_notMem fun hmem => ?_
      -- a call in a function is a call site
      have hcall : t.isAtom "call_indirect" := isAtom_iff.mpr (List.mem_singleton.mp hmem).symm
      rw [callSite?_eq_some_iff.mpr ⟨form, hform, j, t, rfl, hj, hcall, rfl, rfl⟩] at hsite
      simp at hsite
  | some site =>
      obtain ⟨name, k⟩ := site
      obtain ⟨set, hset, hcheck⟩ :=
        siteCheck_eq_of_mem (h.isSome_of_callSite? hsite) (F.toModule text).globalCount
      rw [h.edited_eq_guardedLexemes hget (h.outside_of_notMem hget hnot), guardedLexemes]
      dsimp only
      rw [if_neg hclose, List.nil_append, hsite]
      dsimp only
      rw [hcheck]
      exact precedes_checkSequence hset

/-- After guarding a module for the first time, every indirect call has its check. -/
lemma Guarding.exists_mediates {checks : List Edit}
    (h : Guarding g text F elem f front refs back checks) :
    ∃ m', Module.parse? (splice text (Guarding.edits g (F.toModule text) elem checks)) = some m' ∧
      g.Mediates (F.toModule text).globalCount m' := by
  have hr := h.replacing
  obtain ⟨m', hparse, hbodies⟩ := hr.exists_module h.flatten_forest_edits
    (g.named_of_mem_tops_trailerForest "func" (by decide) (by decide))
  refine ⟨m', hparse, fun f' hf' => ?_⟩
  have hmem := List.mem_map_of_mem (f := fun f => (body m' f).map Token.lexeme) hf'
  rw [hbodies] at hmem
  obtain ⟨form, hform, hbody⟩ := List.mem_map.mp hmem
  rw [← hbody]
  exact precedes_flatMap fun t ht => h.precedes_edited hform ht

/-- Renewing a module leaves its functions as they are. -/
lemma Renewing.exists_functions {d : Token} (h : Renewing g text F elem f front refs back d) :
    ∃ m', Module.parse? (splice text (Renewing.edits g elem d)) = some m' ∧
      (m'.fieldsNamed "func").map (fun f => (body m' f).map Token.lexeme) =
        ((F.toModule text).fieldsNamed "func").map
          fun f => (body (F.toModule text) f).map Token.lexeme := by
  obtain ⟨m', hparse, hbodies⟩ :=
    @Replacing.exists_module _ _ _ _ h.replacing _ h.flatten_forest_edits "func"
      (by simp [Forest.tops])
  refine ⟨m', hparse, hbodies.trans (List.map_congr_left fun form hform => ?_)⟩
  rw [List.map_eq_flatMap]
  refine List.flatMap_congr fun t ht => ?_
  obtain ⟨j, hj⟩ := List.mem_iff_getElem?.mp ht
  obtain ⟨hget, hlt⟩ := getElem?_body_eq_some_iff.mp hj
  have hget : F.flatten[form.opening + 1 + j]? = some t := hget
  refine h.edited_of_ne (List.mem_of_getElem? hget)
    (h.notMem_refs_of_mem_func hform hget (by omega) hlt) ?_
  -- the string of the data is in another field
  rintro rfl
  obtain ⟨-, f', hf', i, hi, hin⟩ := h.exists_field
  obtain rfl := index_eq_of_start_eq (h.flatten_eq ▸ hi) (h.flatten_eq ▸ hget) rfl
  rcases disjoint_of_mem_fieldsNamed (by decide) hform hf' with hd | hd <;> omega

end Runs

/-- The edits of calls are as many as the calls. -/
lemma length_checks_eq {report : Report} {table : List String} (hg : Built report table g)
    {m : Wat.Module} {checks : List Edit}
    (hchecks : g.guardFunctions m.globalCount m.functions g.codes = .ok checks) :
    checks.length = m.indirectCallCount := by
  obtain ⟨rfl, -⟩ := hg.guardFunctions_spec hg.reached_codes hchecks
  rw [functions_eq, List.flatMap_map, List.length_flatMap, Module.indirectCallCount,
    List.countP_flatMap]
  refine congrArg List.sum (List.map_congr_left fun f hf => ?_)
  have hlength := congrArg List.length (map_callsOf hf)
  simpa [List.countP_eq_length_filter] using hlength

section Mediation

variable {report : Report} {text : List Char} {m : Wat.Module} {elem : ElemSegment}
  {out : Instrumented}

/-- In a module that has the functions of one without checks, checks stand before all indirect
calls only if there are none. -/
lemma mediates_iff_of_functions {m' : Wat.Module}
    (hsame : (m'.fieldsNamed "func").map (fun f => (body m' f).map Token.lexeme) =
      (m.fieldsNamed "func").map fun f => (body m f).map Token.lexeme)
    (hnever : ∀ f ∈ m.fieldsNamed "func", ¬ g.checkCall <:+: (body m f).map Token.lexeme) :
    g.Mediates global m' ↔ m.indirectCallCount = 0 := by
  have hall : g.Mediates global m' ↔
      ∀ f ∈ m.fieldsNamed "func", g.Precedes global ((body m f).map Token.lexeme) := by
    have := congrArg (fun l => ∀ ls ∈ l, g.Precedes global ls) hsame
    simpa [Mediates] using this
  rw [hall, Module.indirectCallCount, List.countP_eq_zero]
  constructor
  · intro h t ht hcall
    obtain ⟨f, hf, ht⟩ := List.mem_flatMap.mp ht
    obtain ⟨before, after, hsplit⟩ := List.append_of_mem ht
    obtain ⟨set, -, hsuffix⟩ := h f hf (before.map Token.lexeme) (after.map Token.lexeme)
      (by rw [hsplit, List.map_append, List.map_cons, isAtom_iff.mp hcall]; rfl)
    refine hnever f hf ((g.checkCall_infix global set).trans (hsuffix.isInfix.trans ?_))
    rw [hsplit, List.map_append]
    exact (List.prefix_append _ _).isInfix
  · intro h f hf
    refine precedes_of_notMem fun hmem => ?_
    obtain ⟨t, ht, heq⟩ := List.mem_map.mp hmem
    exact h t (List.mem_flatMap.mpr ⟨f, hf, ht⟩) (isAtom_iff.mpr heq)

/-- **A run leaves no indirect call without its check exactly if the module does not end
like a guarded one.** Take a module in which no function calls the function that checks
indices, so it has never been guarded, and a run on it that succeeds. The count that the run
gives is the number of indirect calls in the functions exactly if the last line of the text
does not start a global, or if there are no such calls. The text that the run leaves spells a
module, and checks stand right before all indirect calls of its functions under the same
condition. -/
theorem instrument_mediates_iff (htable : tableOf text = .ok (m, elem))
    (hg : Built report (elem.functions.map String.ofList) g) (hterm : Terminated text)
    (hrefs : ∀ r ∈ elem.functions, r.head? ≠ some ';')
    (hname : ∀ c ∈ g.checkFunction.toList, isAtomChar c)
    (hnever : ∀ f ∈ m.fieldsNamed "func", ¬ g.checkCall <:+: (body m f).map Token.lexeme)
    (hout : g.instrument text = .ok out) :
    ∃ m', Module.parse? out.text = some m' ∧
      (out.checked = m.indirectCallCount ↔
        isInstrumented text = false ∨ m.indirectCallCount = 0) ∧
      (g.Mediates m.globalCount m' ↔
        isInstrumented text = false ∨ m.indirectCallCount = 0) := by
  rcases instrument_cases htable hout with ⟨hinst, d, hdata, rfl⟩ | ⟨hnot, checks, hchecks, rfl⟩
  · obtain ⟨hparse, helem⟩ := tableOf_eq_ok_iff.mp htable
    obtain ⟨F, hF, hflat, rfl⟩ := exists_forest_of_parse? hparse
    obtain ⟨f, front, refs, back, hrefsAt⟩ := exists_referencesAt hF helem
    have h : Renewing g text F elem f front refs back d :=
      ⟨⟨hF, hflat, hterm, hrefsAt, hg.table_eq, hrefs⟩, hdata⟩
    obtain ⟨m', hparse', hsame⟩ := h.exists_functions
    refine ⟨m', hparse', ?_, ?_⟩
    · simp [hinst, eq_comm]
    · simpa [hinst] using mediates_iff_of_functions hsame hnever
  · obtain ⟨F, f, front, refs, back, checks', rfl, h, htext⟩ :=
      exists_guarding htable hg hterm hrefs hname hout rfl
    obtain ⟨m', hparse', hmediates⟩ := h.exists_mediates
    rw [← htext] at hparse'
    refine ⟨m', hparse', ?_, ?_⟩
    · simp [hnot, length_checks_eq hg hchecks]
    · simpa [hnot] using hmediates

end Mediation

/-- A module whose last line is a global of its own. -/
def endingText : List Char :=
  "(module (table 2 funcref)\n".toList ++ "(elem (i32.const 1) func $f)\n".toList ++
    "(func $f i32.const 1 call_indirect)\n".toList ++ "(data \"hi\")\n".toList ++
    "(global i32 (i32.const 0)))".toList

/-- What it spells. -/
def endingModule : Wat.Module :=
  ⟨endingText, tokens endingText,
    [⟨2, 6, 1⟩, ⟨7, 15, 1⟩, ⟨16, 22, 1⟩, ⟨23, 26, 1⟩, ⟨27, 34, 1⟩], some 129⟩

/-- Its table. -/
def endingElem : ElemSegment :=
  ⟨["$f".toList], 51, 53⟩

/-- The string of its data. -/
def endingData : Token :=
  ⟨.string, "\"hi\"".toList, 97, 101⟩

/-- Its guard. -/
def endingGuard : Guard :=
  ofTable .empty ["$f"]

lemma tableOf_endingText : tableOf endingText = .ok (endingModule, endingElem) := by
  have hforms : forms? (tokens endingText) = some [⟨0, 35, 0⟩, ⟨2, 6, 1⟩, ⟨7, 15, 1⟩, ⟨9, 12, 2⟩,
      ⟨16, 22, 1⟩, ⟨23, 26, 1⟩, ⟨27, 34, 1⟩, ⟨30, 33, 2⟩] := by cbv
  refine tableOf_eq_ok_iff.mpr ⟨?_, by cbv⟩
  rw [Module.parse?]
  simp only [hforms]
  cbv

lemma lastData?_endingModule : endingModule.lastData? = some endingData := by
  cbv

lemma terminated_endingText : Terminated endingText := by
  have : (pieces endingText).all Piece.Terminated = true := by cbv
  simpa [Terminated] using this

lemma indirectCallCount_endingModule : endingModule.indirectCallCount = 1 := by
  cbv

/-- No function of it calls the function that checks indices. -/
lemma not_checkCall_endingModule : ∀ f ∈ endingModule.fieldsNamed "func",
    ¬ endingGuard.checkCall <:+: (body endingModule f).map Token.lexeme := by
  have hfields : endingModule.fieldsNamed "func" = [⟨16, 22, 1⟩] := by cbv
  rw [hfields]
  decide +kernel

lemma instrument_endingText :
    endingGuard.instrument endingText =
      .ok ⟨splice endingText (Renewing.edits endingGuard endingElem endingData), true, 0⟩ := by
  have hinst : isInstrumented endingText = true := by cbv
  have hrefresh : endingGuard.refresh endingModule endingElem =
      .ok ⟨splice endingText (Renewing.edits endingGuard endingElem endingData), true, 0⟩ := by
    rw [refresh, lastData?_endingModule]
    rfl
  rw [instrument, tableOf_endingText]
  simp only [bind, Except.bind, hinst, if_pos, hrefresh]

lemma head?_ne_of_mem_endingElem : ∀ r ∈ endingElem.functions, r.head? ≠ some ';' := by
  decide

/-- The call of this module stays without its check. -/
theorem instrument_mediates_iff_endingText :
    ∃ out, tableOf endingText = .ok (endingModule, endingElem) ∧
      Built .empty (endingElem.functions.map String.ofList) endingGuard ∧ Terminated endingText ∧
      (∀ f ∈ endingModule.fieldsNamed "func",
        ¬ endingGuard.checkCall <:+: (body endingModule f).map Token.lexeme) ∧
      endingGuard.instrument endingText = .ok out ∧
      ∃ m', Module.parse? out.text = some m' ∧
        (out.checked = endingModule.indirectCallCount ↔
          isInstrumented endingText = false ∨ endingModule.indirectCallCount = 0) ∧
        (endingGuard.Mediates endingModule.globalCount m' ↔
          isInstrumented endingText = false ∨ endingModule.indirectCallCount = 0) := by
  have hg : Built .empty (endingElem.functions.map String.ofList) endingGuard := .sorted
  have hname : ∀ c ∈ endingGuard.checkFunction.toList, isAtomChar c := List.all_eq_true.mp rfl
  exact ⟨_, tableOf_endingText, hg, terminated_endingText, not_checkCall_endingModule,
    instrument_endingText, instrument_mediates_iff tableOf_endingText hg terminated_endingText
      head?_ne_of_mem_endingElem hname not_checkCall_endingModule instrument_endingText⟩

/-- A run on a module that has never been guarded succeeds, counts no call and leaves the one
that there is without a check. -/
theorem instrument_leaves_call :
    ∃ g out m elem m', ofText .empty endingText = .ok g ∧ tableOf endingText = .ok (m, elem) ∧
      (∀ f ∈ m.fieldsNamed "func", ¬ g.checkCall <:+: (body m f).map Token.lexeme) ∧
      g.instrument endingText = .ok out ∧ out.checked = 0 ∧ m.indirectCallCount = 1 ∧
      Module.parse? out.text = some m' ∧ ¬ g.Mediates m.globalCount m' := by
  obtain ⟨hparse, helem⟩ := tableOf_eq_ok_iff.mp tableOf_endingText
  obtain ⟨F, hF, hflat, hm⟩ := exists_forest_of_parse? hparse
  have hdata := lastData?_endingModule
  have hnever := not_checkCall_endingModule
  have hcount := indirectCallCount_endingModule
  have htable := tableOf_endingText
  rw [hm] at helem hdata hnever hcount htable
  obtain ⟨f, front, refs, back, hrefsAt⟩ := exists_referencesAt hF helem
  have h : Renewing endingGuard endingText F endingElem f front refs back endingData :=
    ⟨⟨hF, hflat, terminated_endingText, hrefsAt, rfl, head?_ne_of_mem_endingElem⟩, hdata⟩
  obtain ⟨m', hparse', hsame⟩ := h.exists_functions
  refine ⟨endingGuard, _, F.toModule endingText, endingElem, m', ?_, htable, hnever,
    instrument_endingText, rfl, hcount, hparse', fun hmediates => ?_⟩
  · rw [ofText, tableOf_endingText]
    rfl
  · have := (mediates_iff_of_functions hsame hnever).mp hmediates
    omega

end Guard

end CallGuard
