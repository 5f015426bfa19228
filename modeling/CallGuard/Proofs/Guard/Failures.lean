import CallGuard.Proofs.Guard.Instrument
import CallGuard.Proofs.Wat.Sites

/-!
Which modules can be guarded, and why the others cannot. The parentheses decide first, then
the table, and then the data of a module that seems guarded, or else the first indirect call
that has no check.

* `Guard.offence?`: why a call cannot get a check.
* `Built.guardFunctions_outcome`: the first such call decides.
* `Guard.instrument_outcome`: when guarding succeeds, and with which error it fails.
-/

namespace CallGuard

namespace Guard

open Wat

/-- A call has no set: there is no fallback set, and no set has the key of the signature that
is recorded for the call, if one is. -/
def unmatched (g : Guard) (s : Site) : Bool :=
  !g.sets.contains "0_-1" &&
    match (g.recordedCalls s.function)[s.number]? with
    | some recorded => !g.sets.contains (g.codes.signature recorded).1.key
    | none => true

/-- Why a call cannot get a check, if it cannot. -/
def offence? (g : Guard) (s : Site) : Option GuardError :=
  if s.folded then some (.foldedCall (functionLabel s.function))
  else if g.unmatched s then some (.missingFallback (functionLabel s.function))
  else none

variable {report : Report} {table : List String} {g : Guard}

/-- A call has no set exactly if none is found for its key. -/
lemma find?_siteKey_eq_none_iff (s : Site) :
    g.sets.find? (g.siteKey s.function s.number) = none ↔ g.unmatched s := by
  have hcontains (key : String) : g.sets.contains key = false ↔ g.sets.find? key = none := by
    rw [SignatureSets.contains, Option.isSome_eq_false_iff, Option.isNone_iff_eq_none]
  rw [siteKey, unmatched, ← hcontains]
  cases (g.recordedCalls s.function)[s.number]? with
  | none => simp [fallbackKey]
  | some recorded =>
      rw [Option.map_some, Option.getD_some, callKey, resolve]
      cases hkey : g.sets.contains (g.codes.signature recorded).1.key <;> simp [hkey, fallbackKey]

/-- A call that has no offence gets a check. -/
lemma offence?_eq_none_iff {s : Site} :
    g.offence? s = none ↔ s.folded = false ∧ ∃ set, g.sets.find? (g.siteKey s.function s.number) =
      some set := by
  rw [← Option.ne_none_iff_exists', Ne, find?_siteKey_eq_none_iff, offence?]
  cases s.folded <;> simp

lemma offence?_eq_some {s : Site} {e : GuardError} (h : g.offence? s = some e) :
    s.folded = true ∧ e = .foldedCall (functionLabel s.function) ∨
      s.folded = false ∧ g.sets.find? (g.siteKey s.function s.number) = none ∧
        e = .missingFallback (functionLabel s.function) := by
  rw [offence?] at h
  cases hfolded : s.folded with
  | true =>
      rw [if_pos hfolded] at h
      exact Or.inl ⟨rfl, (Option.some.inj h).symm⟩
  | false =>
      rw [if_neg (by simp [hfolded])] at h
      split at h
      · rename_i hunmatched
        exact Or.inr ⟨rfl, (find?_siteKey_eq_none_iff s).mpr hunmatched, (Option.some.inj h).symm⟩
      · simp at h

namespace Built

/-- The first call of a function that cannot get a check decides what becomes of its calls
from one number on. -/
lemma guardCalls_outcome (hg : Built report table g) (global : Nat) (name : Option (List Char))
    (calls : List IndirectCall) (k : Nat) {codes : TypeCodes} (hc : Reached g codes) :
    (∀ e, (((calls.map IndirectCall.folded).zipIdx k).map
          fun c => (⟨name, c.2, c.1⟩ : Site)).findSome? g.offence? = some e →
        g.guardCalls global (functionLabel name) calls ((g.recordedCalls name).drop k) codes =
          .error e) ∧
      ((((calls.map IndirectCall.folded).zipIdx k).map
          fun c => (⟨name, c.2, c.1⟩ : Site)).findSome? g.offence? = none →
        ∃ edits codes', Reached g codes' ∧
          g.guardCalls global (functionLabel name) calls ((g.recordedCalls name).drop k) codes =
            .ok (edits, codes')) := by
  induction calls generalizing k codes with
  | nil => exact ⟨by simp, fun _ => ⟨[], codes, hc, rfl⟩⟩
  | cons call calls ih =>
      have hkey := hg.resolve_eq_siteKey hc name k
      have ih := ih (k + 1) (hc.resolve ((g.recordedCalls name).drop k).head?)
      have hnone := @offence?_eq_none_iff g ⟨name, k, call.folded⟩
      rw [List.map_cons, List.zipIdx_cons, List.map_cons, List.findSome?_cons, guardCalls]
      dsimp only at hnone ⊢
      rw [hkey, List.tail_drop]
      cases hoffence : g.offence? ⟨name, k, call.folded⟩ with
      | some e =>
          refine ⟨fun e' he => ?_, by simp⟩
          obtain rfl : e = e' := Option.some.inj he
          rcases offence?_eq_some hoffence with ⟨hfolded, rfl⟩ | ⟨hfolded, hset, rfl⟩
          · rw [if_pos hfolded]
          · dsimp only at hfolded hset
            rw [hfolded, hset]
            rfl
      | none =>
          obtain ⟨hfolded, set, hset⟩ := hnone.mp hoffence
          rw [hfolded, hset]
          dsimp only
          rw [if_neg Bool.false_ne_true]
          refine ⟨fun e he => ?_, fun h => ?_⟩
          · rw [ih.1 e he]
            rfl
          · obtain ⟨edits, codes', hc', heq⟩ := ih.2 h
            rw [heq]
            exact ⟨_, codes', hc', rfl⟩

/-- The first call of all functions that cannot get a check decides. -/
lemma guardFunctions_outcome (hg : Built report table g) (global : Nat)
    (functions : List FunctionField) {codes : TypeCodes} (hc : Reached g codes) :
    (∀ e, (functions.flatMap FunctionField.sites).findSome? g.offence? = some e →
        g.guardFunctions global functions codes = .error e) ∧
      ((functions.flatMap FunctionField.sites).findSome? g.offence? = none →
        ∃ edits, g.guardFunctions global functions codes = .ok edits) := by
  induction functions generalizing codes with
  | nil => exact ⟨by simp, fun _ => ⟨[], rfl⟩⟩
  | cons f fs ih =>
      obtain ⟨hsome, hnone⟩ := hg.guardCalls_outcome global f.name f.calls 0 hc
      rw [List.drop_zero] at hsome hnone
      rw [List.flatMap_cons, List.findSome?_append, guardFunctions]
      cases hoffence : f.sites.findSome? g.offence? with
      | some e =>
          refine ⟨fun e' he => ?_, by simp⟩
          obtain rfl : e = e' := Option.some.inj he
          rw [hsome e hoffence]
          rfl
      | none =>
          obtain ⟨edits, codes', hc', heq⟩ := hnone hoffence
          rw [heq]
          refine ⟨fun e he => ?_, fun h => ?_⟩
          · have hmore := (ih hc').1 e he
            simp [bind, Except.bind, hmore]
          · obtain ⟨more, hmore⟩ := (ih hc').2 h
            exact ⟨edits ++ more, by simp [bind, Except.bind, hmore, pure, Except.pure]⟩

end Built

/-! ### Modules -/

section Outcome

variable {F : Forest Token} {text : List Char} (hF : F.Sound Token.kind)
  (hflat : F.flatten = tokens text)
include hF hflat

/-- Without a function list in the forest there is no table. -/
lemma tableOf_of_forest :
    ((F.map Token.lexeme).HasList → ∃ elem, tableOf text = .ok (F.toModule text, elem)) ∧
      (¬ (F.map Token.lexeme).HasList → tableOf text = .error .missingElem) := by
  have hnone := elemSegment?_eq_none_iff hF text
  rw [tableOf, parse?_eq hF hflat]
  dsimp only
  cases helem : (F.toModule text).elemSegment? with
  | none => exact ⟨fun h => absurd h (hnone.mp helem), fun _ => rfl⟩
  | some elem =>
      refine ⟨fun _ => ⟨elem, rfl⟩, fun h => ?_⟩
      rw [hnone.mpr h] at helem
      simp at helem

/-- Without a function list guarding fails. -/
lemma instrument_of_not_hasList (h : ¬ (F.map Token.lexeme).HasList) :
    g.instrument text = .error .missingElem := by
  rw [instrument, (tableOf_of_forest hF hflat).2 h]
  rfl

/-- A module that seems guarded is renewed if it has data. -/
lemma instrument_of_isInstrumented (h : (F.map Token.lexeme).HasList)
    (hinst : isInstrumented text = true) :
    ((F.map Token.lexeme).HasData → ∃ out, g.instrument text = .ok out) ∧
      (¬ (F.map Token.lexeme).HasData → g.instrument text = .error .missingData) := by
  obtain ⟨elem, htable⟩ := (tableOf_of_forest hF hflat).1 h
  have hnone := lastData?_eq_none_iff hF text
  have hrun : g.instrument text = g.refresh (F.toModule text) elem := by
    rw [instrument, htable]
    exact if_pos hinst
  rw [hrun, refresh]
  cases hdata : (F.toModule text).lastData? with
  | none => exact ⟨fun h => absurd h (hnone.mp hdata), fun _ => rfl⟩
  | some d =>
      refine ⟨fun _ => ⟨_, rfl⟩, fun h => ?_⟩
      rw [hnone.mpr h] at hdata
      simp at hdata

/-- Any other module is guarded if all its calls get a check. -/
lemma instrument_of_not_isInstrumented (hg : Built report table g)
    (h : (F.map Token.lexeme).HasList) (hinst : isInstrumented text = false) :
    (∀ e, (F.map Token.lexeme).sites.findSome? g.offence? = some e →
        g.instrument text = .error e) ∧
      ((F.map Token.lexeme).sites.findSome? g.offence? = none →
        ∃ out, g.instrument text = .ok out) := by
  obtain ⟨elem, htable⟩ := (tableOf_of_forest hF hflat).1 h
  have hrun : g.instrument text = g.guardFresh (F.toModule text) elem := by
    rw [instrument, htable]
    exact if_neg (by simp [hinst])
  obtain ⟨hsome, hnone⟩ := hg.guardFunctions_outcome (F.toModule text).globalCount
    (F.toModule text).functions hg.reached_codes
  rw [flatMap_sites_functions hF] at hsome hnone
  rw [hrun, guardFresh]
  refine ⟨fun e he => ?_, fun h => ?_⟩
  · rw [hsome e he]
    rfl
  · obtain ⟨edits, hedits⟩ := hnone h
    exact ⟨_, by rw [hedits]; rfl⟩

/-- Why guarding a module whose parentheses match can fail. -/
lemma error_of_instrument (hg : Built report table g) {e : GuardError}
    (he : g.instrument text = .error e) :
    ¬ (F.map Token.lexeme).HasList ∧ e = .missingElem ∨
      (F.map Token.lexeme).HasList ∧ (e = .missingData ∨ ∃ s, g.offence? s = some e) := by
  by_cases h : (F.map Token.lexeme).HasList
  · refine Or.inr ⟨h, ?_⟩
    cases hinst : isInstrumented text with
    | true =>
        obtain ⟨hdata, hnone⟩ := @instrument_of_isInstrumented g F text hF hflat h hinst
        by_cases hd : (F.map Token.lexeme).HasData
        · obtain ⟨out, hout⟩ := hdata hd
          simp [hout] at he
        · exact Or.inl (Except.error.inj (he.symm.trans (hnone hd)))
    | false =>
        obtain ⟨hsome, hnone⟩ := instrument_of_not_isInstrumented hF hflat hg h hinst
        cases hfirst : (F.map Token.lexeme).sites.findSome? g.offence? with
        | none =>
            obtain ⟨out, hout⟩ := hnone hfirst
            simp [hout] at he
        | some e' =>
            obtain rfl : e = e' := Except.error.inj (he.symm.trans (hsome e' hfirst))
            obtain ⟨s, -, hs⟩ := List.exists_of_findSome?_eq_some hfirst
            exact Or.inr ⟨s, hs⟩
  · exact Or.inl ⟨h, Except.error.inj (he.symm.trans (instrument_of_not_hasList hF hflat h))⟩

end Outcome

lemma instrument_of_not_balanced {text : List Char} (h : ¬ Balanced (lexemes text)) :
    g.instrument text = .error .unbalanced := by
  rw [instrument, tableOf, (parse?_eq_none_iff text).mpr h]
  rfl

/-- What stands in the way of a check is neither the parentheses nor the table. -/
lemma offence?_ne {s : Site} :
    g.offence? s ≠ some .unbalanced ∧ g.offence? s ≠ some .missingElem := by
  constructor <;>
  · intro h
    rcases offence?_eq_some h with ⟨-, h⟩ | ⟨-, -, h⟩ <;> simp at h

/-- **When guarding succeeds, and with which error it fails.** It fails for the parentheses
exactly if those outside strings and comments do not match; otherwise the tokens make a forest.
It then fails for the table exactly if the first field for elements, if there is one, has
neither the word for functions nor a form directly inside. A module with a table that seems
guarded fails exactly if its last field for data, if there is one, has no string directly
inside. For any other module the first indirect call of its functions decides that has an
offence: it is the head of a form, or it has no set. Without one guarding succeeds. -/
theorem instrument_outcome (hg : Built report table g) (text : List Char) :
    (g.instrument text = .error .unbalanced ↔ ¬ Balanced (lexemes text)) ∧
      (Balanced (lexemes text) ↔
        ∃ G : Forest Lexeme, G.Sound Prod.fst ∧ G.flatten = lexemes text) ∧
      ∀ G : Forest Lexeme, G.Sound Prod.fst → G.flatten = lexemes text →
        (g.instrument text = .error .missingElem ↔ ¬ G.HasList) ∧
        (G.HasList → isInstrumented text = true →
          (g.instrument text = .error .missingData ↔ ¬ G.HasData) ∧
            ((∃ out, g.instrument text = .ok out) ↔ G.HasData)) ∧
        (G.HasList → isInstrumented text = false →
          (∀ e, g.instrument text = .error e ↔ G.sites.findSome? g.offence? = some e) ∧
            ((∃ out, g.instrument text = .ok out) ↔
              G.sites.findSome? g.offence? = none)) := by
  have hforest := balanced_iff_exists_forest text
  refine ⟨⟨fun he hbalanced => ?_, instrument_of_not_balanced⟩, hforest, fun G hG hflat => ?_⟩
  · obtain ⟨G, hG, hflat⟩ := hforest.mp hbalanced
    obtain ⟨F, hF, htokens, rfl⟩ := exists_forest_of_lexemes hG hflat
    rcases error_of_instrument hF htokens hg he with ⟨-, h⟩ | ⟨-, h | ⟨s, hs⟩⟩
    · simp at h
    · simp at h
    · exact offence?_ne.1 hs
  obtain ⟨F, hF, htokens, rfl⟩ := exists_forest_of_lexemes hG hflat
  refine ⟨⟨fun he hlist => ?_, instrument_of_not_hasList hF htokens⟩, fun hlist hinst => ?_,
    fun hlist hinst => ?_⟩
  · rcases error_of_instrument hF htokens hg he with ⟨hnot, -⟩ | ⟨-, h | ⟨s, hs⟩⟩
    · exact hnot hlist
    · simp at h
    · exact offence?_ne.2 hs
  · obtain ⟨hdata, hnone⟩ := @instrument_of_isInstrumented g F text hF htokens hlist hinst
    refine ⟨⟨fun he hd => ?_, hnone⟩, ⟨fun ⟨out, hout⟩ => ?_, hdata⟩⟩
    · obtain ⟨out, hout⟩ := hdata hd
      simp [hout] at he
    · by_contra hd
      simp [hnone hd] at hout
  · obtain ⟨hsome, hnone⟩ := instrument_of_not_isInstrumented hF htokens hg hlist hinst
    cases hfirst : (F.map Token.lexeme).sites.findSome? g.offence? with
    | none =>
        obtain ⟨out, hout⟩ := hnone hfirst
        simp [hout]
    | some e => simp [hsome e hfirst]

/-- A report on a function and the first of its indirect calls, of the same signature. -/
def thriceReport : Report :=
  .ofList [("f", ⟨⟨"i32", ["i32"]⟩, [⟨"i32", ["i32"]⟩]⟩)]

/-- A module where the function makes three indirect calls, of which the last is a form. -/
def thriceText : List Char :=
  "(module (func $f call_indirect call_indirect (call_indirect)) (elem func $f))".toList

/-- Its tokens as a forest. -/
def thriceForest : Forest Lexeme :=
  .node (.opening, "(".toList)
    (.leaf (.atom, "module".toList)
      (.node (.opening, "(".toList)
        (.leaf (.atom, "func".toList) (.leaf (.atom, "$f".toList) (.leaf callWord (.leaf callWord
          (.node (.opening, "(".toList) (.leaf callWord .nil) (.closing, ")".toList) .nil)))))
        (.closing, ")".toList)
        (.node (.opening, "(".toList)
          (.ofList [(.atom, "elem".toList), (.atom, "func".toList), (.atom, "$f".toList)])
          (.closing, ")".toList) .nil)))
    (.closing, ")".toList) .nil

/-- The first call has a set, and the second one decides: none is recorded for it, and there is
no fallback set. -/
theorem instrument_outcome_thrice :
    ∃ g, Built thriceReport ["$f"] g ∧ thriceForest.Sound Prod.fst ∧
      thriceForest.flatten = lexemes thriceText ∧ thriceForest.HasList ∧
      isInstrumented thriceText = false ∧
      thriceForest.sites = [⟨some ['f'], 0, false⟩, ⟨some ['f'], 1, false⟩, ⟨some ['f'], 2, true⟩] ∧
      g.offence? ⟨some ['f'], 0, false⟩ = none ∧
      g.instrument thriceText = .error (.missingFallback "f") := by
  have hg : Built thriceReport ["$f"] (ofTable thriceReport ["$f"]) := .sorted
  have hsound : thriceForest.Sound Prod.fst := by
    simp [thriceForest, callWord, Forest.Sound, Forest.ofList]
  have hflat : thriceForest.flatten = lexemes thriceText := by cbv
  have hlist : thriceForest.HasList := ⟨_, rfl, Or.inl (by decide)⟩
  have hinst : isInstrumented thriceText = false := by cbv
  have hsites : thriceForest.sites =
      [⟨some ['f'], 0, false⟩, ⟨some ['f'], 1, false⟩, ⟨some ['f'], 2, true⟩] := by cbv
  have hfirst : (ofTable thriceReport ["$f"]).offence? ⟨some ['f'], 0, false⟩ = none := by
    decide +kernel
  have hsecond : (ofTable thriceReport ["$f"]).offence? ⟨some ['f'], 1, false⟩ =
      some (.missingFallback "f") := by cbv
  refine ⟨_, hg, hsound, hflat, hlist, hinst, hsites, hfirst, ?_⟩
  refine ((((instrument_outcome hg thriceText).2.2 thriceForest hsound hflat).2.2 hlist hinst).1
    (.missingFallback "f")).mpr ?_
  rw [hsites, List.findSome?_cons, hfirst]
  dsimp only
  rw [List.findSome?_cons, hsecond]

end Guard

end CallGuard
