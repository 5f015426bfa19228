import CallGuard.Proofs.Guard.Instrument
import CallGuard.Proofs.Wat.Direct.Fields
import CallGuard.Proofs.Wat.Direct.Table

/-!
Guarding a module without a look first: what is found in the module is found by offsets and
indices, the text is cut at the ends of the edits, and the guard of the module is made in numbers
of 32 bits.

* `IsCut`: the offsets between characters; `IsEditOf`: edits that start and end at such offsets.
* `splice`, `splice_eq`: a text after such edits.
* `plan`, `instrument`, `ofText`: guarding a module, and the guard of one.
* `plan_cases`: the edits of a module start and end between characters.
* `ofText_crashed_iff`: the guard of a module is made without a crash, but for a table that has too
  many references for sums of 32 bits, where these do not wrap around.
* `instrument_never_crashes`: no text and no guard makes the programs crash otherwise.

Offsets into a text, indices of its tokens, the numbers of types and the address behind the new
indices have no bound here: they measure what is in memory, and their 64 bits measure more than
fits there.
-/

namespace CallGuard.Wat.Direct

open Forest Guard
open Text (byteLength)

/-! ### Offsets between characters -/

/-- An offset is not inside of a character and not behind the end of the text. -/
def IsCut (text : List Char) (n : Nat) : Prop :=
  ∃ before after, text = before ++ after ∧ byteLength before = n

section Cuts

variable {text : List Char}

lemma isCut_zero : IsCut text 0 :=
  ⟨[], text, rfl, rfl⟩

lemma isCut_byteLength : IsCut text (byteLength text) :=
  ⟨text, [], (List.append_nil text).symm, rfl⟩

/-- A token starts and ends between characters. -/
lemma isCut_token {t : Token} (ht : t ∈ tokens text) : IsCut text t.start ∧ IsCut text t.stop := by
  obtain ⟨front, back, hsplit⟩ := List.append_of_mem ht
  obtain ⟨ks, rest, hpieces, hstart, hstop, -, -⟩ := exists_pieces hsplit
  have htext : text = flat ks ++ (t.text ++ flat rest) := by
    rw [← flat_pieces text, hpieces]
    simp
  rw [Nat.zero_add] at hstart
  refine ⟨⟨flat ks, _, htext, hstart.symm⟩, ⟨flat ks ++ t.text, flat rest, ?_, ?_⟩⟩
  · rw [List.append_assoc]
    exact htext
  · rw [Text.byteLength_append, hstop, hstart]

/-- An offset between characters that is not before another one cuts what follows that one. -/
lemma exists_append_of_isCut {front rest : List Char} {n : Nat} (h : IsCut (front ++ rest) n)
    (hle : byteLength front ≤ n) :
    ∃ part after, rest = part ++ after ∧ n = byteLength front + byteLength part := by
  obtain ⟨before, after, hsplit, rfl⟩ := h
  obtain ⟨part, rfl, rfl⟩ := exists_append_of_start hsplit hle
  exact ⟨part, after, rfl, Text.byteLength_append front part⟩

/-- Of two offsets between characters, the part of the text between them is the one that is cut
out. -/
lemma slice_of_isCut {start stop : Nat} (hstart : IsCut text start) (hstop : IsCut text stop)
    (hle : start ≤ stop) : slice text start stop = .ok (Text.sliceBytes text start stop) := by
  obtain ⟨before, after, rfl, rfl⟩ := hstart
  obtain ⟨part, back, rfl, rfl⟩ := exists_append_of_isCut hstop hle
  rw [Text.sliceBytes_append, ← List.append_assoc]
  exact slice_append before part back rfl rfl

end Cuts

/-! ### Edits -/

/-- The text from a byte on after edits, which are sorted by their starts. -/
def spliceFrom (text : List Char) (pos : Nat) : List Edit → Checked (List Char)
  | [] => slice text pos (byteLength text)
  | e :: es =>
    if e.start < pos then spliceFrom text pos es
    else do
      let kept ← slice text pos e.start
      return kept ++ e.replacement ++ (← spliceFrom text e.stop es)

/-- A text after edits. -/
def splice (text : List Char) (edits : List Edit) : Checked (List Char) :=
  spliceFrom text 0 (edits.mergeSort fun a b => a.start ≤ b.start)

/-- An edit starts and ends between characters of a text. -/
structure IsEditOf (text : List Char) (e : Edit) : Prop where
  /-- It starts between characters. -/
  start : IsCut text e.start
  /-- It ends between characters. -/
  stop : IsCut text e.stop
  /-- It does not end before it starts. -/
  le : e.start ≤ e.stop

lemma spliceFrom_eq {text : List Char} {pos : Nat} {es : List Edit} (hpos : IsCut text pos)
    (hes : ∀ e ∈ es, IsEditOf text e) :
    spliceFrom text pos es = .ok (Wat.spliceFrom text pos es) := by
  induction es generalizing pos with
  | nil =>
      obtain ⟨before, after, rfl, rfl⟩ := hpos
      rw [spliceFrom, Wat.spliceFrom, Text.dropBytes_left, Text.byteLength_append]
      have hslice := slice_append before after [] rfl rfl
      rwa [List.append_nil] at hslice
  | cons e es ih =>
      obtain ⟨he, hrest⟩ := List.forall_mem_cons.mp hes
      rw [spliceFrom, Wat.spliceFrom]
      split
      · exact ih hpos hrest
      · rename_i hlt
        rw [slice_of_isCut hpos he.start (Nat.le_of_not_lt hlt), ok_bind, ih he.stop hrest]
        rfl

lemma splice_eq {text : List Char} {edits : List Edit} (hedits : ∀ e ∈ edits, IsEditOf text e) :
    splice text edits = .ok (Wat.splice text edits) :=
  spliceFrom_eq isCut_zero fun e he => hedits e (List.mem_mergeSort.mp he)

/-! ### Guarding a module -/

/-- What is done to a module. -/
structure Plan where
  /-- The edits of its text. -/
  edits : List Edit
  /-- Whether it had been guarded before. -/
  refreshed : Bool
  /-- The number of calls that get a check. -/
  checked : Nat

/-- The module that a text spells, and its table. -/
def tableOf (text : List Char) : Checked (Outline × ElemSegment) := do
  let o ← parse text
  let elem ← demand .missingElem (← elemSegment o)
  return (o, elem)

/-- The guard of the module that a text spells. -/
def ofText (overflow : Overflow) (report : Report) (text : List Char) : Checked Guard := do
  let (_, elem) ← tableOf text
  ofTable overflow report (elem.functions.map String.ofList)

/-- What renews the table and the indices of a module. -/
def refreshPlan (g : Guard) (o : Outline) (elem : ElemSegment) : Checked Plan := do
  let data ← demand .missingData (← lastData o)
  return ⟨[g.elemEdit elem, ⟨data.start, data.stop, g.dataText⟩], true, 0⟩

/-- What guards a module for the first time. Whether there is the function that checks an index
only matters to a warning. -/
def freshPlan (g : Guard) (o : Outline) (elem : ElemSegment) : Checked Plan := do
  let _ ← hasFunction o g.checkFunction
  let global ← globalCount o
  let checks ← (g.guardFunctions global (← functions o) g.codes).mapError .refused
  let point := o.close.getD (byteLength o.text)
  return ⟨g.elemEdit elem :: (checks ++ [⟨point, point, g.trailer global⟩]), false, checks.length⟩

/-- What is done to the module that a text spells. -/
def plan (g : Guard) (text : List Char) : Checked Plan := do
  let (o, elem) ← tableOf text
  if isInstrumented text then refreshPlan g o elem else freshPlan g o elem

/-- The guarded text of a module. -/
def instrument (g : Guard) (text : List Char) : Checked Instrumented := do
  let p ← plan g text
  return ⟨← splice text p.edits, p.refreshed, p.checked⟩

/-- The edits of calls are where the calls are. -/
lemma exists_call_of_guardCalls {g : Guard} {global : Nat} {function : String}
    {calls : List IndirectCall} {recorded : List Signature} {codes codes' : TypeCodes}
    {edits : List Edit}
    (h : g.guardCalls global function calls recorded codes = .ok (edits, codes')) :
    ∀ e ∈ edits, ∃ c ∈ calls, e.start = c.start ∧ e.stop = c.stop := by
  induction calls generalizing recorded codes edits with
  | nil =>
      obtain ⟨rfl, -⟩ := Prod.mk.inj (Except.ok.inj h)
      simp
  | cons call calls ih =>
      rw [guardCalls] at h
      split at h
      · simp at h
      · dsimp only at h
        split at h
        · simp at h
        · obtain ⟨⟨more, codes''⟩, hmore, heq⟩ := ok_of_map_eq_ok h
          obtain ⟨rfl, rfl⟩ := Prod.mk.inj heq
          rintro e (_ | ⟨_, he⟩)
          · exact ⟨call, by simp, rfl, rfl⟩
          · obtain ⟨c, hc, hspan⟩ := ih hmore e he
            exact ⟨c, by simp [hc], hspan⟩

lemma exists_call_of_guardFunctions {g : Guard} {global : Nat} {functions : List FunctionField}
    {codes : TypeCodes} {edits : List Edit}
    (h : g.guardFunctions global functions codes = .ok edits) :
    ∀ e ∈ edits, ∃ f ∈ functions, ∃ c ∈ f.calls, e.start = c.start ∧ e.stop = c.stop := by
  induction functions generalizing codes edits with
  | nil =>
      obtain rfl := Except.ok.inj h
      simp
  | cons f fs ih =>
      obtain ⟨⟨checks, codes'⟩, hcalls, h⟩ := ok_of_bind_eq_ok h
      obtain ⟨more, hmore, h⟩ := ok_of_bind_eq_ok h
      obtain rfl := Except.ok.inj h
      intro e he
      rcases List.mem_append.mp he with he | he
      · exact ⟨f, by simp, exists_call_of_guardCalls hcalls e he⟩
      · obtain ⟨f', hf', hcall⟩ := ih hmore e he
        exact ⟨f', by simp [hf'], hcall⟩

section Module

variable {g : Guard} {F : Forest Token} {text : List Char} {elem : ElemSegment}
  (hF : F.Sound Token.kind) (hflat : F.flatten = tokens text)
include hF hflat

lemma refreshPlan_eq : refreshPlan g (outlineOf (F.toModule text)) elem =
    (demand .missingData (F.toModule text).lastData?).map fun data =>
      ⟨[g.elemEdit elem, ⟨data.start, data.stop, g.dataText⟩], true, 0⟩ := by
  rw [refreshPlan, lastData_eq hF hflat, ok_bind]
  cases (F.toModule text).lastData? <;> rfl

lemma freshPlan_eq : freshPlan g (outlineOf (F.toModule text)) elem =
    ((g.guardFunctions (F.toModule text).globalCount (F.toModule text).functions g.codes).mapError
      .refused).map fun checks =>
        ⟨Guarding.edits g (F.toModule text) elem checks, false, checks.length⟩ := by
  rw [freshPlan, hasFunction_eq hF hflat, ok_bind, globalCount_eq hF hflat, ok_bind,
    functions_eq hF hflat, ok_bind]
  cases g.guardFunctions (F.toModule text).globalCount (F.toModule text).functions g.codes <;> rfl

/-- The table starts and ends between characters. -/
lemma isEditOf_elemEdit (helem : (F.toModule text).elemSegment? = some elem) :
    IsEditOf text (g.elemEdit elem) := by
  obtain ⟨f, front, refs, back, href⟩ := exists_referencesAt hF helem
  have htokens : (F.toModule text).tokens = tokens (F.toModule text).text := hflat
  obtain ⟨last, hlast, hstop⟩ := href.exists_stop
  rw [htokens] at hlast
  have hcut : IsCut text elem.stop := hstop ▸ (isCut_token (List.mem_of_getElem? hlast)).2
  refine ⟨?_, hcut, href.start_le_stop htokens⟩
  change IsCut text elem.start
  rcases href.exists_start with ⟨-, first, hfirst, hstart⟩ | ⟨-, hempty⟩
  · rw [htokens] at hfirst
    exact hstart ▸ (isCut_token (List.mem_of_getElem? hfirst)).1
  · exact hempty ▸ hcut

omit hF in
/-- An edit in the place of a token starts and ends between characters. -/
lemma isEditOf_token {i : Nat} {t : Token} {e : Edit} (ht : F.flatten[i]? = some t)
    (hstart : e.start = t.start) (hstop : e.stop = t.stop) : IsEditOf text e := by
  have hmem : t ∈ tokens text := hflat ▸ List.mem_of_getElem? ht
  obtain ⟨hfirst, hlast⟩ := isCut_token hmem
  have hlt := (bounds_of_mem_tokens hmem).1
  refine ⟨hstart ▸ hfirst, hstop ▸ hlast, ?_⟩
  omega

omit hF in
lemma isEditOf_checks {checks : List Edit}
    (hchecks : g.guardFunctions (F.toModule text).globalCount (F.toModule text).functions g.codes =
      .ok checks) : ∀ e ∈ checks, IsEditOf text e := by
  intro e he
  obtain ⟨fn, hfn, c, hc, hstart, hstop⟩ := exists_call_of_guardFunctions hchecks e he
  rw [Wat.functions_eq] at hfn
  obtain ⟨f, hf, rfl⟩ := List.mem_map.mp hfn
  obtain ⟨i, t, ht, -, -, hfirst, hlast⟩ := exists_token_of_mem_callsOf hf hc
  exact isEditOf_token hflat ht (hstart.trans hfirst) (hstop.trans hlast)

/-- New fields are put between characters. -/
lemma isCut_insertPoint : IsCut text (F.toModule text).insertPoint := by
  rw [Module.insertPoint]
  cases hclose : (F.toModule text).close with
  | none => exact isCut_byteLength
  | some offset =>
      obtain ⟨i, t, ht, -, rfl, -⟩ := exists_close hF hclose
      exact (isCut_token (hflat ▸ List.mem_of_getElem? ht)).1

lemma isEditOf_edits {checks : List Edit} (helem : (F.toModule text).elemSegment? = some elem)
    (hchecks : g.guardFunctions (F.toModule text).globalCount (F.toModule text).functions g.codes =
      .ok checks) : ∀ e ∈ Guarding.edits g (F.toModule text) elem checks, IsEditOf text e := by
  intro e he
  rcases Guarding.mem_edits_iff.mp he with rfl | he | rfl
  · exact isEditOf_elemEdit hF hflat helem
  · exact isEditOf_checks hflat hchecks e he
  · exact ⟨isCut_insertPoint hF hflat, isCut_insertPoint hF hflat, le_rfl⟩

lemma isEditOf_refresh {data : Token} (helem : (F.toModule text).elemSegment? = some elem)
    (hdata : (F.toModule text).lastData? = some data) :
    ∀ e ∈ [g.elemEdit elem, ⟨data.start, data.stop, g.dataText⟩], IsEditOf text e := by
  obtain ⟨f, hf, hfind⟩ := Option.bind_eq_some_iff.mp hdata
  obtain ⟨c, hc, rfl⟩ := List.mem_map.mp (List.mem_of_find?_eq_some hfind)
  have hfields : f ∈ (F.toModule text).fields :=
    List.mem_of_mem_filter (List.mem_of_getLast? hf)
  have hitem := (getElem?_of_mem_children hF hfields hc).1
  intro e he
  simp only [List.mem_cons, List.not_mem_nil, or_false] at he
  rcases he with rfl | rfl
  · exact isEditOf_elemEdit hF hflat helem
  · exact isEditOf_token hflat hitem rfl rfl

end Module

lemma tableOf_eq (text : List Char) :
    tableOf text = ((Guard.tableOf text).mapError .refused).map
      fun found => (outlineOf found.1, found.2) := by
  rw [tableOf, parse_eq, Guard.tableOf]
  cases hparse : Module.parse? text with
  | none => rfl
  | some m =>
      obtain ⟨F, hF, hflat, rfl⟩ := exists_forest_of_parse? hparse
      change (elemSegment (outlineOf (F.toModule text)) >>= _) = _
      rw [elemSegment_eq hF hflat, ok_bind]
      dsimp only
      cases (F.toModule text).elemSegment? <;> rfl

lemma ofText_of_error (overflow : Overflow) (report : Report) {text : List Char} {e : GuardError}
    (htable : Guard.tableOf text = .error e) :
    ofText overflow report text = .error (.refused e) := by
  rw [ofText, tableOf_eq, htable]
  rfl

lemma ofText_of_ok (overflow : Overflow) (report : Report) {text : List Char} {m : Module}
    {elem : ElemSegment} (htable : Guard.tableOf text = .ok (m, elem)) :
    ofText overflow report text = ofTable overflow report (elem.functions.map String.ofList) := by
  rw [ofText, tableOf_eq, htable]
  rfl

/-- A text spells a module whose table has `2 ^ 32 - 1` references or more. -/
def HasLongTable (text : List Char) : Prop :=
  ∃ m elem, Guard.tableOf text = .ok (m, elem) ∧ 2 ^ 32 - 1 ≤ elem.functions.length

/-- The guard of a module is made without a crash if its table is not too long. -/
lemma ofText_eq (overflow : Overflow) (report : Report) {text : List Char}
    (h : ¬HasLongTable text) :
    ofText overflow report text = (Guard.ofText report text).mapError .refused := by
  rw [Guard.ofText]
  cases htable : Guard.tableOf text with
  | error e => exact ofText_of_error overflow report htable
  | ok found =>
      obtain ⟨m, elem⟩ := found
      have hlength : (elem.functions.map String.ofList).length < 2 ^ 32 - 1 := by
        rw [List.length_map]
        exact Nat.lt_of_not_le fun hlong => h ⟨m, elem, htable, hlong⟩
      rw [ofText_of_ok overflow report htable, ofTable_eq overflow hlength]
      rfl

/-- If sums wrap around, a module has a guard or is refused. -/
lemma ofText_wraps (report : Report) (text : List Char) :
    (∃ g, ofText .wraps report text = .ok g) ∨
      ∃ e, Guard.tableOf text = .error e ∧ ofText .wraps report text = .error (.refused e) := by
  cases htable : Guard.tableOf text with
  | error e => exact Or.inr ⟨e, rfl, ofText_of_error .wraps report htable⟩
  | ok found =>
      obtain ⟨g, hg⟩ := exists_ofTable report (found.2.functions.map String.ofList)
      exact Or.inl ⟨g, (ofText_of_ok .wraps report htable).trans hg⟩

/-- If sums do not wrap around, only a table that is too long makes the guard crash. -/
lemma ofText_crashed_iff (report : Report) (text : List Char) (c : Ir.Direct.Crash) :
    ofText .crashes report text = .error (.crashed c) ↔ c = .overflow ∧ HasLongTable text := by
  constructor
  · intro hcrash
    have hlong : HasLongTable text := by
      by_contra hshort
      rw [ofText_eq .crashes report hshort] at hcrash
      cases hfound : Guard.ofText report text <;> rw [hfound] at hcrash <;> cases hcrash
    obtain ⟨m, elem, htable, hlength⟩ := hlong
    rw [ofText_of_ok .crashes report htable, ofTable_crashes (by rwa [List.length_map])] at hcrash
    cases hcrash
    exact ⟨rfl, m, elem, htable, hlength⟩
  · rintro ⟨rfl, m, elem, htable, hlength⟩
    rw [ofText_of_ok .crashes report htable]
    exact ofTable_crashes (by rwa [List.length_map])

/-- The edits of a module start and end between characters, and are made without a crash. -/
lemma plan_cases (g : Guard) (text : List Char) :
    (∃ e, plan g text = .error (.refused e) ∧ g.instrument text = .error e) ∨
      ∃ p, plan g text = .ok p ∧ (∀ e ∈ p.edits, IsEditOf text e) ∧
        g.instrument text = .ok ⟨Wat.splice text p.edits, p.refreshed, p.checked⟩ := by
  rw [plan, tableOf_eq, Guard.instrument]
  cases htable : Guard.tableOf text with
  | error e => exact Or.inl ⟨e, rfl, rfl⟩
  | ok found =>
      obtain ⟨m, elem⟩ := found
      obtain ⟨hparse, helem⟩ := tableOf_eq_ok_iff.mp htable
      obtain ⟨F, hF, hflat, rfl⟩ := exists_forest_of_parse? hparse
      change (∃ e, (if isInstrumented text then refreshPlan g (outlineOf (F.toModule text)) elem
        else freshPlan g (outlineOf (F.toModule text)) elem) = _ ∧
          (if isInstrumented text then g.refresh (F.toModule text) elem
            else g.guardFresh (F.toModule text) elem) = _) ∨
        ∃ p, (if isInstrumented text then refreshPlan g (outlineOf (F.toModule text)) elem
          else freshPlan g (outlineOf (F.toModule text)) elem) = _ ∧ _ ∧
            (if isInstrumented text then g.refresh (F.toModule text) elem
              else g.guardFresh (F.toModule text) elem) = _
      rw [refreshPlan_eq hF hflat, freshPlan_eq hF hflat, refresh, guardFresh]
      split
      · cases hdata : (F.toModule text).lastData? with
        | none => exact Or.inl ⟨.missingData, rfl, rfl⟩
        | some data =>
            exact Or.inr ⟨_, rfl, isEditOf_refresh hF hflat helem hdata, rfl⟩
      · cases hchecks : g.guardFunctions (F.toModule text).globalCount (F.toModule text).functions
          g.codes with
        | error e => exact Or.inl ⟨e, rfl, rfl⟩
        | ok checks =>
            exact Or.inr ⟨_, rfl, isEditOf_edits hF hflat helem hchecks, rfl⟩

/-- The edits of a module start and end between characters. -/
lemma isEditOf_of_mem_edits {g : Guard} {text : List Char} {p : Plan} (h : plan g text = .ok p) :
    ∀ e ∈ p.edits, IsEditOf text e := by
  rcases plan_cases g text with ⟨e, herror, -⟩ | ⟨p', hplan, hedits, -⟩
  · rw [herror] at h
    cases h
  · obtain rfl := Except.ok.inj (h.symm.trans hplan)
    exact hedits

/-- A module is guarded without a crash. -/
lemma instrument_eq (g : Guard) (text : List Char) :
    instrument g text = (g.instrument text).mapError .refused := by
  rcases plan_cases g text with ⟨e, herror, hmodel⟩ | ⟨p, hplan, hedits, hmodel⟩
  · rw [instrument, herror, hmodel]
    rfl
  · rw [instrument, hplan, hmodel, ok_bind, splice_eq hedits]
    rfl

/-! ### No crash -/

/-- The tokens of a text are not empty, follow each other, and lie in the text with their ends
between characters. -/
lemma spans_tokens (text : List Char) :
    ((tokens text).map spanOf).Pairwise (fun s s' => s.start < s'.start ∧ s.stop ≤ s'.start) ∧
      ∀ s ∈ (tokens text).map spanOf, s.start < s.stop ∧ s.stop ≤ byteLength text ∧
        IsCut text s.start ∧ IsCut text s.stop := by
  refine ⟨?_, List.forall_mem_map.mpr fun t ht => ?_⟩
  · rw [List.pairwise_map]
    exact (pairwise_start text).and (pairwise_tokens text)
  · obtain ⟨hlt, hle⟩ := bounds_of_mem_tokens ht
    exact ⟨hlt, hle, isCut_token ht⟩

/-- **Guarding a module without a look first never crashes.** For every text:

* The tokens are found, whatever strings and comments have no end: they are not empty, each starts
  after the one before ends, and they lie in the text with their ends between characters.
* A module is refused if its parentheses do not match. Of any other, the name and the tokens
  directly inside of each field are found, the end of each form, and then the table, the functions
  with their indirect calls, the globals, the functions of a name and the data. So no index is
  behind the tokens, and no depth goes below zero.
* The edits of every guard start and end between characters.
* The guarded module is what it is for programs that look first, or the error of these.
* The module has a guard or is refused, whatever its table is, where sums of 32 bits wrap around.
  Where they do not, the one crash is that of such a sum, for a table with `2 ^ 32 - 1` references
  or more. For any other table the guard is the same in both cases, and it is what it is for
  programs that look first, or the error of these. -/
theorem instrument_never_crashes (text : List Char) :
    (∃ spans, tokenize text = .ok spans ∧
      spans.Pairwise (fun s s' => s.start < s'.start ∧ s.stop ≤ s'.start) ∧
      ∀ s ∈ spans, s.start < s.stop ∧ s.stop ≤ byteLength text ∧
        IsCut text s.start ∧ IsCut text s.stop) ∧
    parse text = (demand .unbalanced (Module.parse? text)).map outlineOf ∧
    (∀ m, Module.parse? text = some m →
      (∀ f ∈ m.fields, head text (outlineOf m).spans f = .ok (head? m.tokens f) ∧
        children (outlineOf m) f = .ok ((m.children f).map Prod.snd)) ∧
      (∀ i t, m.tokens[i]? = some t → t.kind = .opening →
        matchingClose (outlineOf m) i = .ok (m.closeOf i) ∧ m.closeOf i < m.tokens.length) ∧
      elemSegment (outlineOf m) = .ok m.elemSegment? ∧
      functions (outlineOf m) = .ok m.functions ∧
      globalCount (outlineOf m) = .ok m.globalCount ∧
      (∀ name, hasFunction (outlineOf m) name = .ok (m.hasFunction name)) ∧
      lastData (outlineOf m) = .ok (m.lastData?.map spanOf)) ∧
    (∀ g p, plan g text = .ok p → ∀ e ∈ p.edits, IsEditOf text e) ∧
    (∀ g, instrument g text = (Guard.instrument g text).mapError .refused) ∧
    ∀ report,
      ((∃ g, ofText .wraps report text = .ok g) ∨
        ∃ e, Guard.tableOf text = .error e ∧ ofText .wraps report text = .error (.refused e)) ∧
      (∀ c, ofText .crashes report text = .error (.crashed c) ↔
        c = .overflow ∧ HasLongTable text) ∧
      ∀ overflow, ¬HasLongTable text →
        ofText overflow report text = (Guard.ofText report text).mapError .refused := by
  refine ⟨⟨_, tokenize_eq text, spans_tokens text⟩, parse_eq text, fun m hm => ?_,
    fun g p hp => isEditOf_of_mem_edits hp, fun g => instrument_eq g text, fun report =>
      ⟨ofText_wraps report text, ofText_crashed_iff report text, fun overflow hshort =>
        ofText_eq overflow report hshort⟩⟩
  obtain ⟨F, hF, hflat, rfl⟩ := exists_forest_of_parse? hm
  exact ⟨fun f hf => ⟨head_eq hflat (mem_forms_of_mem_fields hf), children_eq hF hf⟩,
    fun i t ht hkind => ⟨matchingClose_eq ht hkind, closeOf_lt (List.getElem?_eq_some_iff.mp ht).1⟩,
    elemSegment_eq hF hflat, functions_eq hF hflat, globalCount_eq hF hflat,
    hasFunction_eq hF hflat, lastData_eq hF hflat⟩

end CallGuard.Wat.Direct
