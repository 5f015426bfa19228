import CallGuard.Proofs.Guard.Renew

/-!
Guarding a module that has been guarded before. The second run makes its guard of the table
that the first run left, so its indices count the references in their new order, while the
program still counts them in their old one.

* `Guard.target?`: the function that an index of the program leads to.
* `Guard.exists_rerun_reads`: what the table and the data are after each run.
* `Guard.exists_rerun`: where indices lead after each run.
* `Guard.rerun_keeps_target_iff`: which indices lead to the same function after both.
-/

namespace CallGuard

namespace Guard

open Wat

/-- The item at a place, counted from one. -/
def atIndex? {α : Type} (items : List α) (index : Nat) : Option α :=
  if index = 0 then none else items[index - 1]?

/-- The function that an index of the program leads to. The word at the index in the last
data is the place of the function in the table. -/
def target? (text : List Char) (index : Nat) : Option (List Char) := do
  let m ← Module.parse? text
  let elem ← m.elemSegment?
  let data ← m.lastData?
  let words ← Layout.readData? data.text.tail.dropLast
  let new ← atIndex? words index
  atIndex? elem.functions new

/-- After a run of a guard an index leads to the reference at this index in the table that
the guard was made of. -/
lemma target?_of_reads {report : Report} {table : List String} {g : Guard} {text : List Char}
    (hg : Built report table g) (hn : table.length < 2 ^ 32)
    (h : Reads text g.referenceWords g.dataText) {i : Nat} (hi : 1 ≤ i) (hin : i ≤ table.length) :
    target? text i = (table.map String.toList)[i - 1]? := by
  obtain ⟨m, elem, d, hparse, helem, hfunctions, hdata, htext⟩ := h
  obtain ⟨j, hj, hj1, -, hnew⟩ := hg.exists_newIndex hi hin
  have hwords : Layout.readData? d.text.tail.dropLast = some g.layout.indices := by
    rw [htext, dataText, List.cons_append, List.tail_cons, List.dropLast_concat,
      hg.readData?_dataString hn]
  have hindex : atIndex? g.layout.indices i = some j := by
    rw [atIndex?, if_neg (by omega), hj]
  rw [target?, hparse]
  simp only [Option.bind_eq_bind, Option.bind_some, helem, hdata, hwords, hindex]
  rw [atIndex?, if_neg (by omega), hfunctions, referenceWords, hg.table_eq, List.getElem?_map, hnew,
    List.getElem?_map]

section Rerun

variable {report : Report} {text : List Char} {m : Wat.Module} {elem : ElemSegment} {g : Guard}
  {out : Instrumented}

/-- What the two runs leave: the second one succeeds, and after each run the table is in the
order of its guard and the last data holds the indices. -/
lemma exists_rerun_reads (htable : tableOf text = .ok (m, elem))
    (hg : Built report (elem.functions.map String.ofList) g) (hterm : Terminated text)
    (hrefs : ∀ r ∈ elem.functions, r.head? ≠ some ';')
    (hname : ∀ c ∈ g.checkFunction.toList, isAtomChar c)
    (hinside : m.DataInside) (hout : g.instrument text = .ok out)
    (hfresh : out.refreshed = false) (hinst : isInstrumented out.text) :
    Reads out.text g.referenceWords g.dataText ∧
      ∃ m' elem', tableOf out.text = .ok (m', elem') ∧ elem'.functions = g.referenceWords ∧
        elem'.functions.length = elem.functions.length ∧
        ∀ g', Built report (elem'.functions.map String.ofList) g' →
          ∃ out', g'.instrument out.text = .ok out' ∧ out'.refreshed = true ∧
            Reads out'.text g'.referenceWords g'.dataText := by
  obtain ⟨F, f, front, refs, back, checks, rfl, h, htext⟩ :=
    exists_guarding htable hg hterm hrefs hname hout hfresh
  have hreads := h.reads hinside
  have hterm' := h.lexemes_splice_edits.2
  rw [← htext] at hreads hterm'
  obtain ⟨m', elem', d, hparse, helem, hfunctions, hdata, hd⟩ := id hreads
  have hlength : elem'.functions.length = elem.functions.length := by
    rw [hfunctions, h.length_referenceWords, h.references.functions_eq, List.length_map]
  refine ⟨hreads, m', elem', tableOf_eq_ok_iff.mpr ⟨hparse, helem⟩, hfunctions, hlength,
    fun g' hg' => ?_⟩
  obtain ⟨F', hF', hflat', rfl⟩ := exists_forest_of_parse? hparse
  obtain ⟨f', front', refs', back', hrefs'⟩ := exists_referencesAt hF' helem
  have h' : Renewing g' out.text F' elem' f' front' refs' back' d := by
    refine ⟨⟨hF', hflat', hterm', hrefs', hg'.table_eq, fun r hr => ?_⟩, hdata⟩
    exact hrefs r (h.mem_of_mem_referenceWords r (hfunctions ▸ hr))
  refine ⟨⟨splice out.text (Renewing.edits g' elem' d), true, 0⟩, ?_, rfl, h'.reads⟩
  rw [instrument, tableOf_eq_ok_iff.mpr ⟨hparse, helem⟩]
  simp only [bind, Except.bind, hinst, if_pos, refresh, hdata]
  rfl

/-- Where an index leads after each run: to the reference at this index in the table that the
run was made of. -/
lemma exists_rerun (htable : tableOf text = .ok (m, elem))
    (hg : Built report (elem.functions.map String.ofList) g)
    (hn : elem.functions.length < 2 ^ 32) (hterm : Terminated text)
    (hrefs : ∀ r ∈ elem.functions, r.head? ≠ some ';')
    (hname : ∀ c ∈ g.checkFunction.toList, isAtomChar c)
    (hinside : m.DataInside) (hout : g.instrument text = .ok out)
    (hfresh : out.refreshed = false) (hinst : isInstrumented out.text) :
    ∃ m' elem', tableOf out.text = .ok (m', elem') ∧ elem'.functions = g.referenceWords ∧
      ∀ g', Built report (elem'.functions.map String.ofList) g' →
        ∃ out', g'.instrument out.text = .ok out' ∧ out'.refreshed = true ∧
          ∀ i, 1 ≤ i → i ≤ elem.functions.length →
            target? out.text i = elem.functions[i - 1]? ∧
              target? out'.text i = elem'.functions[i - 1]? := by
  obtain ⟨hreads, m', elem', htable', hfunctions, hlength, hrerun⟩ :=
    exists_rerun_reads htable hg hterm hrefs hname hinside hout hfresh hinst
  refine ⟨m', elem', htable', hfunctions, fun g' hg' => ?_⟩
  obtain ⟨out', hout', hrefreshed, hreads'⟩ := hrerun g' hg'
  refine ⟨out', hout', hrefreshed, fun i hi hin => ⟨?_, ?_⟩⟩
  · rw [target?_of_reads hg (by simpa using hn) hreads hi (by simpa using hin)]
    simp
  · rw [target?_of_reads hg' (by simpa [hlength] using hn) hreads' hi
      (by simpa [hlength] using hin)]
    simp

/-- **A second run keeps where indices lead exactly if the first one left the table in its
order.** After the first run, which found the module not guarded before, every index of the
table leads to the reference at this index. The second run makes its guard of the table
that is now in the module. It succeeds whatever its shuffle and options are, and after it an
index leads to where it led before exactly if the first run brought the same reference to
this place of the table. So all indices lead to where they led before exactly if the first
run did not change the order of the references. -/
theorem rerun_keeps_target_iff (htable : tableOf text = .ok (m, elem))
    (hg : Built report (elem.functions.map String.ofList) g)
    (hn : elem.functions.length < 2 ^ 32) (hterm : Terminated text)
    (hrefs : ∀ r ∈ elem.functions, r.head? ≠ some ';')
    (hname : ∀ c ∈ g.checkFunction.toList, isAtomChar c)
    (hinside : m.DataInside) (hout : g.instrument text = .ok out)
    (hfresh : out.refreshed = false) (hinst : isInstrumented out.text) :
    ∃ m' elem', tableOf out.text = .ok (m', elem') ∧
      ∀ g', Built report (elem'.functions.map String.ofList) g' →
        ∃ out', g'.instrument out.text = .ok out' ∧ out'.refreshed = true ∧
          (∀ i, 1 ≤ i → i ≤ elem.functions.length →
            target? out.text i = elem.functions[i - 1]? ∧
              (target? out'.text i = target? out.text i ↔
                (g.layout.reorder g.table)[i - 1]? = g.table[i - 1]?)) ∧
          ((∀ i, 1 ≤ i → i ≤ elem.functions.length →
              target? out'.text i = target? out.text i) ↔
            g.layout.reorder g.table = g.table) := by
  obtain ⟨m', elem', htable', hfunctions, hrerun⟩ :=
    exists_rerun htable hg hn hterm hrefs hname hinside hout hfresh hinst
  refine ⟨m', elem', htable', fun g' hg' => ?_⟩
  obtain ⟨out', hout', hrefreshed, htargets⟩ := hrerun g' hg'
  have hold : elem.functions = g.table.map String.toList := by
    rw [hg.table_eq, List.map_map]
    simp [Function.comp_def]
  have hlength : g.table.length = elem.functions.length := by rw [hold, List.length_map]
  have hiff (i : Nat) (hi : 1 ≤ i) (hin : i ≤ elem.functions.length) :
      target? out'.text i = target? out.text i ↔
        (g.layout.reorder g.table)[i - 1]? = g.table[i - 1]? := by
    rw [(htargets i hi hin).1, (htargets i hi hin).2, hfunctions, referenceWords, hold,
      List.getElem?_map, List.getElem?_map]
    exact (Option.map_injective fun _ _ => String.toList_injective).eq_iff
  refine ⟨out', hout', hrefreshed, fun i hi hin => ⟨(htargets i hi hin).1, hiff i hi hin⟩, ?_⟩
  constructor
  · intro h
    refine List.ext_getElem? fun k => ?_
    by_cases hk : k < elem.functions.length
    · exact (hiff (k + 1) (by omega) (by omega)).mp (h (k + 1) (by omega) (by omega))
    · rw [List.getElem?_eq_none (by rw [Layout.length_reorder]; omega),
        List.getElem?_eq_none (by omega)]
  · intro h i hi hin
    rw [hiff i hi hin, h]

end Rerun

/-- A report on one of two functions. -/
def pairReport : Report :=
  .ofList [("a", ⟨⟨"i32", []⟩, []⟩)]

/-- A module with both in its table. -/
def pairText : List Char :=
  "(module (elem func $a $b))".toList

/-- What it spells. -/
def pairModule : Wat.Module :=
  ⟨pairText, tokens pairText, [⟨2, 7, 1⟩], some 25⟩

/-- Its guard, shuffled. -/
def pairGuard : Guard :=
  (ofTable pairReport ["$a", "$b"]).randomize [1, 2, 3]

/-- What is added to it. -/
def pairTrailer : List Char :=
  ("\n\t(data (i32.const 65535) \"\\02\\00\\00\\00\\01\\00\\00\\00\")" ++
    "\n\t(global (;0;) (mut i32) (i32.const 65543))").toList

/-- The guarded module: the function of the fallback signature comes first. -/
def pairOnce : List Char :=
  "(module (elem func $b $a)".toList ++ pairTrailer ++ ")".toList

lemma tableOf_pairText :
    tableOf pairText = .ok (pairModule, ⟨["$a".toList, "$b".toList], 19, 24⟩) := by
  have hforms : forms? (tokens pairText) = some [⟨0, 8, 0⟩, ⟨2, 7, 1⟩] := by cbv
  refine tableOf_eq_ok_iff.mpr ⟨?_, by cbv⟩
  rw [Module.parse?]
  simp only [hforms]
  cbv

lemma trailer_pairGuard : pairGuard.trailer 0 = pairTrailer := by
  have hdata : pairGuard.dataText = "\"\\02\\00\\00\\00\\01\\00\\00\\00\"".toList := by cbv
  have hend : pairGuard.dataEnd = 65543 := by cbv
  have hoffset : pairGuard.offset.toNat = 65535 := by cbv
  delta trailer
  simp only [hdata, hend, hoffset]
  cbv

lemma instrument_pairText : pairGuard.instrument pairText = .ok ⟨pairOnce, false, 0⟩ := by
  have hnot : isInstrumented pairText = false := by cbv
  have hfunctions : pairModule.functions = [] := by cbv
  have hglobal : pairModule.globalCount = 0 := by cbv
  have helem : pairGuard.elemList.toList = "$b $a".toList := by cbv
  have hsplice : splice pairText [⟨19, 24, "$b $a".toList⟩, ⟨25, 25, pairTrailer⟩] =
      pairOnce := by cbv
  have hfresh : pairGuard.guardFresh pairModule ⟨["$a".toList, "$b".toList], 19, 24⟩ =
      .ok ⟨splice pairText [pairGuard.elemEdit ⟨["$a".toList, "$b".toList], 19, 24⟩,
        ⟨25, 25, pairGuard.trailer 0⟩], false, 0⟩ := by
    rw [guardFresh, hfunctions, hglobal]
    rfl
  rw [instrument, tableOf_pairText]
  simp only [bind, Except.bind, hnot, Bool.false_eq_true, if_false]
  rw [hfresh, trailer_pairGuard, elemEdit, helem, hsplice]

lemma built_pairGuard : Built pairReport ["$a", "$b"] pairGuard :=
  .shuffled [1, 2, 3] .sorted

lemma terminated_pairText : Terminated pairText := by
  have : (pieces pairText).all Piece.Terminated = true := by cbv
  simpa [Terminated] using this

lemma isAtomChar_of_mem_checkFunction :
    ∀ c ∈ pairGuard.checkFunction.toList, isAtomChar c :=
  List.all_eq_true.mp rfl

/-- It has no data. -/
lemma dataInside_pairModule : pairModule.DataInside := by
  have hnone : pairModule.fieldsNamed "data" = [] := by cbv
  simp [Module.DataInside, hnone]

lemma isInstrumented_pairOnce : isInstrumented pairOnce := by
  cbv

/-- The first run changes the order of this table. -/
theorem rerun_keeps_target_iff_pairText :
    Built pairReport ["$a", "$b"] pairGuard ∧ Terminated pairText ∧
      tableOf pairText = .ok (pairModule, ⟨["$a".toList, "$b".toList], 19, 24⟩) ∧
      pairGuard.instrument pairText = .ok ⟨pairOnce, false, 0⟩ ∧ isInstrumented pairOnce ∧
      ∃ m' elem', tableOf pairOnce = .ok (m', elem') ∧
        ∀ g', Built pairReport (elem'.functions.map String.ofList) g' →
          ∃ out', g'.instrument pairOnce = .ok out' ∧ out'.refreshed = true ∧
            (∀ i, 1 ≤ i → i ≤ 2 →
              target? pairOnce i = ["$a".toList, "$b".toList][i - 1]? ∧
                (target? out'.text i = target? pairOnce i ↔
                  (pairGuard.layout.reorder pairGuard.table)[i - 1]? = pairGuard.table[i - 1]?)) ∧
            ((∀ i, 1 ≤ i → i ≤ 2 → target? out'.text i = target? pairOnce i) ↔
              pairGuard.layout.reorder pairGuard.table = pairGuard.table) := by
  have hn : ["$a".toList, "$b".toList].length < 2 ^ 32 := by decide
  have hrefs : ∀ r ∈ ["$a".toList, "$b".toList], r.head? ≠ some ';' := by decide
  exact ⟨built_pairGuard, terminated_pairText, tableOf_pairText, instrument_pairText,
    isInstrumented_pairOnce, rerun_keeps_target_iff tableOf_pairText built_pairGuard hn
      terminated_pairText hrefs isAtomChar_of_mem_checkFunction dataInside_pairModule
      instrument_pairText rfl
      isInstrumented_pairOnce⟩

/-- A second run of the same report and the same words leads the first index to another
function. -/
theorem rerun_moves_target :
    ∃ g out g' out', ofText pairReport pairText = .ok g ∧
      (g.randomize [1, 2, 3]).instrument pairText = .ok out ∧ out.refreshed = false ∧
      isInstrumented out.text ∧ ofText pairReport out.text = .ok g' ∧
      (g'.randomize [1, 2, 3]).instrument out.text = .ok out' ∧
      target? out.text 1 = some "$a".toList ∧ target? out'.text 1 = some "$b".toList := by
  have hn : ["$a".toList, "$b".toList].length < 2 ^ 32 := by decide
  have hrefs : ∀ r ∈ ["$a".toList, "$b".toList], r.head? ≠ some ';' := by decide
  obtain ⟨m', elem', htable', hfunctions, hrerun⟩ := exists_rerun tableOf_pairText
    built_pairGuard hn terminated_pairText hrefs isAtomChar_of_mem_checkFunction
    dataInside_pairModule instrument_pairText rfl isInstrumented_pairOnce
  obtain ⟨out', hout', -, htargets⟩ := hrerun _ (.shuffled [1, 2, 3] .sorted)
  obtain ⟨hfirst, hsecond⟩ := htargets 1 le_rfl (by decide)
  have hwords : pairGuard.referenceWords = ["$b".toList, "$a".toList] := by cbv
  refine ⟨ofTable pairReport ["$a", "$b"], ⟨pairOnce, false, 0⟩,
    ofTable pairReport (elem'.functions.map String.ofList), out', ?_, instrument_pairText, rfl,
    isInstrumented_pairOnce, ?_, hout', hfirst, ?_⟩
  · rw [ofText, tableOf_pairText]
    rfl
  · rw [ofText, htable']
    rfl
  · rw [hsecond, hfunctions, hwords]
    rfl

end Guard

end CallGuard
