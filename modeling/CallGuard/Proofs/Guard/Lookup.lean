import CallGuard.Guard.Instrument
import CallGuard.Proofs.Guard.Table

/-!
Looking up calls one after the other. All calls of a module are looked up in one numbering,
which grows with the types that it has not seen. What it has grown by never changes a key, so
every call could as well be looked up in the numbering of the table.

* `Guard.lookUpAll`: the numbering after calls have been looked up.
* `Guard.checkAlone`: the edit for a call, looked up in the numbering of the table.
* `Built.guardFunctions_eq_mapM`: the edits of a module are those of its calls alone.
* `Guard.resolve_lookUpAll`: the key of a call, whatever was looked up before it.
-/

namespace CallGuard

namespace Guard

open Wat

/-- The numbering after calls have been looked up one after the other. -/
def lookUpAll (g : Guard) (codes : TypeCodes) (calls : List (Option Signature)) : TypeCodes :=
  calls.foldl (fun codes s => (g.resolve codes s).2) codes

/-- The edit for a call of a function with the signature that is recorded for it, looked up in
the numbering of the table. -/
def checkAlone (g : Guard) (global : Nat) (function : String) (call : IndirectCall)
    (recorded : Option Signature) : Except GuardError Edit :=
  if call.folded then .error (.foldedCall function)
  else
    match g.sets.find? (g.resolve g.codes recorded).1 with
    | none => .error (.missingFallback function)
    | some set =>
      .ok ⟨call.start, call.stop, sequenceText call.indent (g.checkSequence global set)⟩

/-- The calls of a function, the first with the first recorded signature and so on. -/
def recordedSites (calls : List IndirectCall) (recorded : List Signature) :
    List (IndirectCall × Option Signature) :=
  calls.zipIdx.map fun c => (c.1, recorded[c.2]?)

lemma recordedSites_cons (call : IndirectCall) (calls : List IndirectCall)
    (recorded : List Signature) :
    recordedSites (call :: calls) recorded =
      (call, recorded.head?) :: recordedSites calls recorded.tail := by
  rw [recordedSites, recordedSites, List.zipIdx_cons, List.map_cons, ← List.head?_eq_getElem?,
    List.zipIdx_succ, List.map_map]
  simp [Function.comp_def]

/-- The indirect calls of functions, each with the name of its function and the signature that
is recorded for it. -/
def moduleSites (g : Guard) (functions : List FunctionField) :
    List (Option (List Char) × IndirectCall × Option Signature) :=
  functions.flatMap fun f =>
    (recordedSites f.calls (g.recordedCalls f.name)).map fun c => (f.name, c)

namespace Built

variable {report : Report} {table : List String} {g : Guard}

/-- Any number of look-ups leaves a numbering that look-ups can have come to. -/
lemma reached_lookUpAll {codes : TypeCodes} (hc : Reached g codes)
    (calls : List (Option Signature)) : Reached g (g.lookUpAll codes calls) := by
  induction calls generalizing codes with
  | nil => exact hc
  | cons s calls ih => exact ih (hc.resolve s)

/-- The key of a call, recorded or not, is the same in every numbering that look-ups can have
come to. -/
lemma resolve_eq_resolve (hg : Built report table g) {codes : TypeCodes} (hc : Reached g codes)
    (recorded : Option Signature) :
    (g.resolve codes recorded).1 = (g.resolve g.codes recorded).1 := by
  cases recorded with
  | none => rfl
  | some s => exact hg.resolve_eq_callKey hc s

/-- The calls of a function are guarded as each of them alone. -/
lemma guardCalls_eq_mapM (hg : Built report table g) (global : Nat) (function : String)
    (calls : List IndirectCall) (recorded : List Signature) {codes : TypeCodes}
    (hc : Reached g codes) :
    (g.guardCalls global function calls recorded codes).map Prod.fst =
        (recordedSites calls recorded).mapM (fun c => g.checkAlone global function c.1 c.2) ∧
      ∀ edits codes', g.guardCalls global function calls recorded codes = .ok (edits, codes') →
        Reached g codes' := by
  induction calls generalizing recorded codes with
  | nil =>
      refine ⟨rfl, fun edits codes' h => ?_⟩
      obtain ⟨-, rfl⟩ := Prod.mk.inj (Except.ok.inj h)
      exact hc
  | cons call calls ih =>
      obtain ⟨heq, hreached⟩ := ih recorded.tail (hc.resolve recorded.head?)
      have hkey := hg.resolve_eq_resolve hc recorded.head?
      rw [recordedSites_cons, List.mapM_cons, guardCalls, checkAlone]
      cases hfolded : call.folded with
      | true => exact ⟨rfl, by simp⟩
      | false =>
          dsimp only
          rw [if_neg Bool.false_ne_true, if_neg Bool.false_ne_true, hkey]
          cases hset : g.sets.find? (g.resolve g.codes recorded.head?).1 with
          | none => exact ⟨rfl, by simp⟩
          | some set =>
              dsimp only
              rw [← heq]
              cases hlater : g.guardCalls global function calls recorded.tail
                  (g.resolve codes recorded.head?).2 with
              | error e => exact ⟨rfl, by simp [Except.map]⟩
              | ok later =>
                  refine ⟨rfl, fun edits codes' h => ?_⟩
                  obtain ⟨-, rfl⟩ := Prod.mk.inj (Except.ok.inj h)
                  exact hreached later.1 later.2 hlater


/-- The calls of all functions are guarded as each of them alone. -/
lemma guardFunctions_eq_mapM (hg : Built report table g) (global : Nat)
    (functions : List FunctionField) {codes : TypeCodes} (hc : Reached g codes) :
    g.guardFunctions global functions codes =
      (g.moduleSites functions).mapM fun c =>
        g.checkAlone global (functionLabel c.1) c.2.1 c.2.2 := by
  induction functions generalizing codes with
  | nil => rfl
  | cons f fs ih =>
      obtain ⟨heq, hreached⟩ := hg.guardCalls_eq_mapM global (functionLabel f.name) f.calls
        (g.recordedCalls f.name) hc
      rw [moduleSites, List.flatMap_cons, List.mapM_append, List.mapM_map, Function.comp_def]
      dsimp only
      rw [← heq, guardFunctions]
      cases hcalls : g.guardCalls global (functionLabel f.name) f.calls
          (g.recordedCalls f.name) codes with
      | error e => rfl
      | ok edits => rw [← moduleSites, ← ih (hreached edits.1 edits.2 hcalls)]; rfl

end Built

/-- **The key of a call does not depend on the calls before it.** Whatever was looked up before
in one numbering that grows, the key that is found for a signature is the one that is found in
the numbering of the table. So the edits of a module, or the error that ends guarding it, are
those of its indirect calls each by itself, where only the function and the recorded signature
of a call decide which set it is checked against. -/
theorem resolve_lookUpAll {report : Report} {table : List String} {g : Guard}
    (hg : Built report table g) :
    (∀ (earlier : List (Option Signature)) (s : Signature),
      (g.resolve (g.lookUpAll g.codes earlier) (some s)).1 = g.callKey s) ∧
    ∀ (global : Nat) (functions : List FunctionField),
      g.guardFunctions global functions g.codes =
        (g.moduleSites functions).mapM fun c =>
          g.checkAlone global (functionLabel c.1) c.2.1 c.2.2 :=
  ⟨fun earlier s => hg.resolve_eq_callKey (Built.reached_lookUpAll hg.reached_codes earlier) s,
    fun global functions => hg.guardFunctions_eq_mapM global functions hg.reached_codes⟩

/-- Two types that the table has not are seen before a call of a signature that it has. -/
theorem resolve_lookUpAll_unseen :
    ∃ g, g = ofTable (.ofList [("f", ⟨⟨"i32", ["ptr"]⟩, []⟩)]) ["$f", "$g"] ∧
      Built (.ofList [("f", ⟨⟨"i32", ["ptr"]⟩, []⟩)]) ["$f", "$g"] g ∧
      (g.resolve (g.lookUpAll g.codes [some ⟨"i64", ["double"]⟩, none]) (some ⟨"i32", ["ptr"]⟩)).1 =
        g.callKey ⟨"i32", ["ptr"]⟩ ∧
      g.callKey ⟨"i32", ["ptr"]⟩ = "4_9" := by
  have hg : Built (.ofList [("f", ⟨⟨"i32", ["ptr"]⟩, []⟩)]) ["$f", "$g"] _ := .sorted
  exact ⟨_, rfl, hg, (resolve_lookUpAll hg).1 _ _, by cbv⟩

end Guard

end CallGuard
