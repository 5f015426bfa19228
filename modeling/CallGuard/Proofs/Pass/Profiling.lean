import CallGuard.Proofs.Pass.Independence
import CallGuard.Proofs.Report.RoundTrip

/-!
The profiler in a pipeline. What it has written, its report and its counters say the same of
the functions that it has been shown, however many modules the pipeline is run over and
wherever a run ends.

* `Pass.noted`: a pass that also notes the functions that it is shown.
* `Pass.Moves`: what a pass may do in a run.
* `Pipeline.runAll_noted`: the notes do not change the runs.
* `Profiler.HasSeen`: the parts of a profiler agree with each other.
* `Pipeline.profiler_agrees`: they do so after every run.
-/

namespace CallGuard

/-! ### Notes -/

/-- A pass that also notes the functions that it is shown. -/
def PassBehaviour.noted {σ : Type} (b : PassBehaviour σ) :
    PassBehaviour (σ × List Ir.Function) where
  name s := b.name s.1
  visit s f m := (b.visit s.1 f m).mapState fun t => (t, s.2 ++ [f])
  finish s := (b.finish s.1).mapState fun t => (t, s.2)
  statistics s := b.statistics s.1

namespace Pass

variable {σ : Type}

/-- A pass with notes of the functions that it has been shown. -/
def noted (x : Pass σ × List Ir.Function) : Pass (σ × List Ir.Function) :=
  { behaviour := x.1.behaviour.noted
    state := (x.1.state, x.2)
    written := x.1.written
    outlet := x.1.outlet }

/-- A pass and what it has been shown, before and after some steps. -/
inductive Moves (x : Pass σ × List Ir.Function) : Pass σ × List Ir.Function → Prop
  | refl : Moves x x
  | see {p : Pass σ} {fs : List Ir.Function} (m : Ir.Module) (f : Ir.Function) :
      Moves x (p, fs) → Moves x (p.see m f, fs ++ [f])
  | finish {p : Pass σ} {fs : List Ir.Function} : Moves x (p, fs) → Moves x (p.finished, fs)

lemma Moves.trans {x y z : Pass σ × List Ir.Function} (h : Moves x y) (h' : Moves y z) :
    Moves x z := by
  induction h' with
  | refl => exact h
  | see m f _ ih => exact .see m f ih
  | finish _ ih => exact .finish ih

end Pass

namespace Pipeline

variable {σ : Type}

/-- The passes after runs over modules, one after the other. A run that fails does not keep the
next one from being made. -/
def runAll (ps : Pipeline σ) (ms : List Ir.Module) : Pipeline σ :=
  ms.foldl (fun ps m => (run ps m).passes) ps

/-- The functions that every pass has been shown in runs over modules, in order. -/
def shown (ps : Pipeline σ) (ms : List Ir.Module) : List (List Ir.Function) :=
  (runAll (ps.map fun p => .noted (p, [])) ms).map fun p => p.state.2

/-- A run with notes goes as the run without. -/
structure Notes {α : Type} (xs ys : List (Pass σ × List Ir.Function)) (r : Run σ α)
    (r' : Run (σ × List Ir.Function) α) : Prop where
  /-- The passes without notes. -/
  passes : r.passes = ys.map Prod.fst
  /-- The passes with notes. -/
  noted : r'.passes = ys.map .noted
  /-- The results are the same. -/
  result : r'.result = r.result
  /-- Every pass has made its steps. -/
  moves : List.Forall₂ Pass.Moves xs ys

/-- One turn. -/
lemma steps_noted {α : Type} {step : Pass σ → Step σ α}
    {step' : Pass (σ × List Ir.Function) → Step (σ × List Ir.Function) α}
    (hstep : ∀ x, ∃ y, Pass.Moves x y ∧ x.1.after (step x.1) = y.1 ∧
      (Pass.noted x).after (step' (.noted x)) = .noted y ∧
      (step' (.noted x)).result = (step x.1).result)
    (xs : List (Pass σ × List Ir.Function)) :
    ∃ ys, Notes xs ys (steps step (xs.map Prod.fst)) (steps step' (xs.map .noted)) := by
  induction xs with
  | nil => exact ⟨[], rfl, rfl, rfl, .nil⟩
  | cons x xs ih =>
      obtain ⟨y, hmoves, hafter, hnoted, hresult⟩ := hstep x
      obtain ⟨ys, hys⟩ := ih
      cases hx : (step x.1).result with
      | error e =>
          rw [hx] at hresult
          refine ⟨y :: xs, ?_, ?_, ?_, .cons hmoves (List.forall₂_same.mpr fun _ _ => .refl)⟩
          · simp [steps, hx, hafter]
          · simp [steps, hresult, hnoted]
          · simp [steps, hx, hresult]
      | ok a =>
          rw [hx] at hresult
          refine ⟨y :: ys, ?_, ?_, ?_, .cons hmoves hys.moves⟩
          · simp [steps, hx, hafter, hys.passes]
          · simp [steps, hresult, hnoted, hys.noted]
          · simp [steps, hx, hresult, hys.result]

lemma forall₂_moves_trans {xs ys zs : List (Pass σ × List Ir.Function)}
    (h : List.Forall₂ Pass.Moves xs ys) (h' : List.Forall₂ Pass.Moves ys zs) :
    List.Forall₂ Pass.Moves xs zs := by
  induction h generalizing zs with
  | nil => exact h'
  | cons hx _ ih =>
      cases h' with
      | cons hy h' => exact .cons (hx.trans hy) (ih h')

lemma visit_noted (m : Ir.Module) (f : Ir.Function) (xs : List (Pass σ × List Ir.Function)) :
    ∃ ys, Notes xs ys (visit m f (xs.map Prod.fst)) (visit m f (xs.map .noted)) := by
  refine steps_noted (fun x => ?_) xs
  exact ⟨(x.1.see m f, x.2 ++ [f]), .see m f .refl, rfl, rfl, rfl⟩

lemma finish_noted (xs : List (Pass σ × List Ir.Function)) :
    ∃ ys, Notes xs ys (finish (xs.map Prod.fst)) (finish (xs.map .noted)) := by
  refine steps_noted (fun x => ?_) xs
  exact ⟨(x.1.finished, x.2), .finish .refl, rfl, rfl, rfl⟩

/-- All turns. -/
lemma visitAll_noted (m : Ir.Module) (fs : List Ir.Function) (s : Summary)
    (xs : List (Pass σ × List Ir.Function)) :
    ∃ ys, Notes xs ys (visitAll m fs s (xs.map Prod.fst)) (visitAll m fs s (xs.map .noted)) := by
  induction fs generalizing s xs with
  | nil => exact ⟨xs, rfl, rfl, rfl, List.forall₂_same.mpr fun _ _ => .refl⟩
  | cons f fs ih =>
      cases hf : f.isDeclaration with
      | true =>
          simp only [visitAll, hf, if_true]
          exact ih _ xs
      | false =>
          obtain ⟨ys, hys⟩ := visit_noted m f xs
          have hresult := hys.result
          cases hv : (visit m f (xs.map Prod.fst)).result with
          | error e =>
              rw [hv] at hresult
              simp only [visitAll, hf, hv, hresult, Bool.false_eq_true, if_false]
              exact ⟨ys, hys.passes, hys.noted, rfl, hys.moves⟩
          | ok as =>
              rw [hv] at hresult
              simp only [visitAll, hf, hv, hresult, Bool.false_eq_true, if_false, hys.passes,
                hys.noted]
              obtain ⟨zs, hzs⟩ := ih { s with
                functions := s.functions + 1
                preserved := as.foldl Preserved.inter s.preserved } ys
              exact ⟨zs, hzs.passes, hzs.noted, hzs.result, forall₂_moves_trans hys.moves hzs.moves⟩

/-- A run. -/
lemma run_noted (m : Ir.Module) (xs : List (Pass σ × List Ir.Function)) :
    ∃ ys, Notes xs ys (run (xs.map Prod.fst) m) (run (xs.map .noted) m) := by
  obtain ⟨ys, hys⟩ := visitAll_noted m m.functions {} xs
  have hresult := hys.result
  cases hv : (visitAll m m.functions {} (xs.map Prod.fst)).result with
  | error e =>
      rw [hv] at hresult
      simp only [run, hv, hresult]
      exact ⟨ys, hys.passes, hys.noted, rfl, hys.moves⟩
  | ok s =>
      rw [hv] at hresult
      obtain ⟨zs, hzs⟩ := finish_noted ys
      simp only [run, hv, hresult, hys.passes, hys.noted]
      exact ⟨zs, hzs.passes, hzs.noted, by rw [hzs.result],
        forall₂_moves_trans hys.moves hzs.moves⟩

/-- Runs over modules, one after the other. -/
lemma runAll_noted (ms : List Ir.Module) (xs : List (Pass σ × List Ir.Function)) :
    ∃ ys, runAll (xs.map Prod.fst) ms = ys.map Prod.fst ∧
      runAll (xs.map .noted) ms = ys.map .noted ∧ List.Forall₂ Pass.Moves xs ys := by
  induction ms generalizing xs with
  | nil => exact ⟨xs, rfl, rfl, List.forall₂_same.mpr fun _ _ => .refl⟩
  | cons m ms ih =>
      obtain ⟨ys, hys⟩ := run_noted m xs
      obtain ⟨zs, hpasses, hnoted, hmoves⟩ := ih ys
      refine ⟨zs, ?_, ?_, forall₂_moves_trans hys.moves hmoves⟩
      · rw [← hpasses, ← hys.passes]
        rfl
      · rw [← hnoted, ← hys.noted]
        rfl

/-- Every pass makes steps over the functions that it is shown. -/
lemma exists_moves {ps : Pipeline σ} {j : Nat} {p : Pass σ} (hp : ps[j]? = some p)
    (ms : List Ir.Module) :
    ∃ q fs, (runAll ps ms)[j]? = some q ∧ (shown ps ms)[j]? = some fs ∧
      Pass.Moves (p, []) (q, fs) := by
  obtain ⟨ys, hpasses, hnoted, hmoves⟩ := runAll_noted ms (ps.map fun p => (p, []))
  have hps : (ps.map fun p => (p, ([] : List Ir.Function))).map Prod.fst = ps := by
    rw [List.map_map]
    exact List.map_id ps
  have hshown : shown ps ms = ys.map Prod.snd := by
    rw [shown]
    rw [List.map_map] at hnoted
    rw [show runAll (ps.map fun p => .noted (p, [])) ms = _ from hnoted, List.map_map]
    rfl
  have hlength : ps.length = ys.length := by simpa using hmoves.length_eq
  have hj : j < ps.length := (List.getElem?_eq_some_iff.mp hp).1
  obtain ⟨⟨q, fs⟩, hy⟩ : ∃ y, ys[j]? = some y := ⟨_, List.getElem?_eq_getElem (hlength ▸ hj)⟩
  have hmove := (List.forall₂_iff_get.mp hmoves).2 j (by simpa using hj) (hlength ▸ hj)
  refine ⟨q, fs, ?_, ?_, ?_⟩
  · rw [← hps, hpasses, List.getElem?_map, hy]
    rfl
  · rw [hshown, List.getElem?_map, hy]
    rfl
  · rw [List.getElem?_eq_some_iff] at hp hy
    obtain ⟨_, rfl⟩ := hp
    obtain ⟨_, hy⟩ := hy
    simpa [hy] using hmove

end Pipeline

/-! ### The profiler -/

namespace Profiler

/-- The records of functions, by name. -/
def records (fs : List Ir.Function) : List (String × Record) :=
  fs.map fun f => (f.name, Record.ofFunction f)

/-- The number of indirect calls in functions. -/
def callCount (fs : List Ir.Function) : Nat :=
  (fs.map (·.indirectCalls.length)).sum

/-- The counters after functions. -/
def counters (fs : List Ir.Function) : List Statistic :=
  [⟨"FuncProfile", "FuncProfilerCounter", "Counts number of functions greeted", fs.length⟩,
    ⟨"FuncProfile", "IndirectCallCounter", "Counts indirect call sites recorded", callCount fs⟩]

/-- The parts of a profiler that writes records as they come, after functions. -/
structure HasSeen (s : Profiler) (fs : List Ir.Function) (written : String) : Prop where
  /-- Records are written as they come. -/
  format : s.format = .fragment
  /-- The next record is the first if there was no function. -/
  first : s.first = fs.isEmpty
  /-- The report has the records in order. -/
  report : s.report = .ofList (records fs)
  /-- The counters have counted functions and calls. -/
  counters : behaviour.statistics s = counters fs
  /-- The records are written one after the other. -/
  written : written = String.ofList (Fragment.write true (records fs))

lemma hasSeen_ofConfig {config : ProfilerConfig} (h : config.format = .fragment) :
    HasSeen (ofConfig config) [] "" :=
  ⟨h, rfl, rfl, rfl, rfl⟩

lemma join_ofList (pieces : List (List Char)) :
    String.join (pieces.map String.ofList) = String.ofList pieces.flatten := by
  induction pieces with
  | nil => rfl
  | cons piece pieces ih => simp [ih]

variable {s : Profiler} {fs : List Ir.Function} {written : String}

/-- A step over a function keeps the parts in agreement. -/
lemma HasSeen.visit (h : HasSeen s fs written) (f : Ir.Function) (m : Ir.Module) :
    HasSeen (s.visit f m).state (fs ++ [f]) (written ++ (s.visit f m).written) := by
  have hvisit : s.visit f m =
      { state := { s with
          first := false
          report := s.report.insert f.name (Record.ofFunction f)
          functions := s.functions.inc
          indirectCalls := s.indirectCalls.add (Record.ofFunction f).calls.length }
        pieces := (Fragment.pieces s.first f.name (Record.ofFunction f)).map String.ofList
        result := .ok .all } := by
    simp only [Profiler.visit, h.format]
  have hcounters := h.counters
  simp only [behaviour, Profiler.counters, List.cons.injEq, and_true] at hcounters
  obtain ⟨hfunctions, hcalls⟩ := hcounters
  rw [hvisit]
  refine ⟨h.format, ?_, ?_, ?_, ?_⟩
  · simp
  · simp [h.report, records, OrderedMap.ofList]
  · simp [behaviour, Profiler.counters, hfunctions, hcalls, Statistic.inc, Statistic.add,
      callCount, Record.ofFunction]
  · have hrecords : records (fs ++ [f]) = records fs ++ [(f.name, Record.ofFunction f)] := by
      simp [records]
    have hfirst : (true && (records fs).isEmpty) = s.first := by simp [h.first, records]
    rw [hrecords, Fragment.write_append, hfirst, String.ofList_append, ← h.written, Step.written,
      join_ofList]
    simp [Fragment.write, Fragment.next]

/-- The last step writes nothing. -/
lemma HasSeen.finish (h : HasSeen s fs written) :
    HasSeen s.finish.state fs (written ++ s.finish.written) := by
  have hwritten : s.finish.written = "" := by
    simp only [Profiler.finish, h.format, Step.written]
    rfl
  rw [hwritten, String.append_empty]
  exact h

/-- The calls of the report are those of the functions, if no name comes twice. -/
lemma HasSeen.indirectCalls (h : HasSeen s fs written) (hnames : (fs.map (·.name)).Nodup) :
    s.report.indirectCalls = callCount fs := by
  have hentries : s.report.entries = records fs := by
    rw [h.report]
    refine OrderedMap.entries_ofList ?_
    rwa [records, List.map_map]
  rw [Report.indirectCalls, OrderedMap.values, hentries, records, List.map_map, List.foldr_map,
    callCount, List.sum, List.foldr_map]
  simp [Record.ofFunction]

end Profiler

/-! ### The profiler in a pipeline -/

/-- A behaviour that does in some states what a profiler does. -/
structure PassBehaviour.Hosts {σ : Type} (b : PassBehaviour σ) (inject : Profiler → σ) : Prop where
  /-- The step over a function. -/
  visit : ∀ s f m, b.visit (inject s) f m = (s.visit f m).mapState inject
  /-- The last step. -/
  finish : ∀ s, b.finish (inject s) = s.finish.mapState inject
  /-- The counters. -/
  statistics : ∀ s, b.statistics (inject s) = Profiler.behaviour.statistics s

/-- A standard pass that is a profiler does what a profiler does. -/
lemma StandardState.hosts_profiler : behaviour.Hosts profiler :=
  ⟨fun _ _ _ => rfl, fun _ => rfl, fun _ => rfl⟩

namespace Pass

variable {σ : Type} {b : PassBehaviour σ} {inject : Profiler → σ}

/-- Steps keep the parts of a profiler in agreement. -/
lemma Moves.exists_hasSeen (hb : b.Hosts inject) {x y : Pass σ × List Ir.Function}
    (hmoves : Moves x y) (hx : x.1.behaviour = b) {s : Profiler} (hs : x.1.state = inject s)
    (h : s.HasSeen x.2 x.1.written) :
    ∃ t, y.1.behaviour = b ∧ y.1.state = inject t ∧ Profiler.HasSeen t y.2 y.1.written := by
  induction hmoves with
  | refl => exact ⟨s, hx, hs, h⟩
  | @see p fs m f _ ih =>
      obtain ⟨t, hp, ht, hseen⟩ := ih
      have hstep : p.look m f = (t.visit f m).mapState inject := by
        rw [look, hp, ht]
        exact hb.visit t f m
      refine ⟨(t.visit f m).state, hp, ?_, ?_⟩
      · rw [Pass.see, hstep]
        rfl
      · rw [Pass.see, hstep]
        exact hseen.visit f m
  | @finish p fs _ ih =>
      obtain ⟨t, hp, ht, hseen⟩ := ih
      have hstep : p.close = t.finish.mapState inject := by
        rw [close, hp, ht]
        exact hb.finish t
      refine ⟨t.finish.state, hp, ?_, ?_⟩
      · rw [Pass.finished, hstep]
        rfl
      · rw [Pass.finished, hstep]
        exact hseen.finish

end Pass

namespace Pipeline

variable {σ : Type}

/-- **What a profiler has written, its report and its counters agree.** A profiler that writes
records as they come is run in a pipeline over modules, one after the other, where any run may
fail. Then what it has written is read as its report, this is the report of the functions that
it has been shown, in order, and its counters are the number of these functions and of their
indirect calls. If no two of the functions have one name, the report has as many. -/
theorem profiler_agrees {b : PassBehaviour σ} {inject : Profiler → σ} (hb : b.Hosts inject)
    {config : ProfilerConfig} (hformat : config.format = .fragment) {outlet : Outlet}
    {ps : Pipeline σ} {j : Nat}
    (hp : ps[j]? = some ⟨b, inject (.ofConfig config), "", outlet⟩) (ms : List Ir.Module) :
    ∃ q s fs, (runAll ps ms)[j]? = some q ∧ q.state = inject s ∧
      (shown ps ms)[j]? = some fs ∧
      Report.parse q.written.toList = .ok s.report ∧
      s.report = .ofList (fs.map fun f => (f.name, Record.ofFunction f)) ∧
      q.statistics =
        [⟨"FuncProfile", "FuncProfilerCounter", "Counts number of functions greeted", fs.length⟩,
          ⟨"FuncProfile", "IndirectCallCounter", "Counts indirect call sites recorded",
            (fs.map (·.indirectCalls.length)).sum⟩] ∧
      ((fs.map (·.name)).Nodup →
        (fs.map (·.indirectCalls.length)).sum = s.report.indirectCalls) := by
  obtain ⟨q, fs, hq, hfs, hmoves⟩ := exists_moves hp ms
  obtain ⟨s, hbehaviour, hstate, hseen⟩ :=
    hmoves.exists_hasSeen hb rfl rfl (Profiler.hasSeen_ofConfig hformat)
  refine ⟨q, s, fs, hq, hstate, hfs, ?_, hseen.report, ?_, fun h => (hseen.indirectCalls h).symm⟩
  · rw [hseen.written, String.toList_ofList, hseen.report]
    exact Report.parse_write _
  · rw [Pass.statistics, hbehaviour, hstate, hb.statistics, hseen.counters]
    rfl

/-- A profiler before two recorders, of which the second fails at the last function of a module,
is run twice over the module. -/
theorem profiler_agrees_turns :
    let ps := (StandardState.profiler (.ofConfig {})).pass :: turns (some "b")
    ∃ q s fs, (runAll ps [turnsModule, turnsModule])[0]? = some q ∧ q.state = .profiler s ∧
      (shown ps [turnsModule, turnsModule])[0]? = some fs ∧
      fs.map (·.name) = ["a", "b", "a", "b"] ∧
      Report.parse q.written.toList = .ok s.report ∧
      s.report = .ofList (fs.map fun f => (f.name, Record.ofFunction f)) ∧
      q.statistics.map (·.value) = [4, 2] := by
  intro ps
  obtain ⟨q, s, fs, hq, hs, hfs, hparse, hreport, hstatistics, -⟩ :=
    profiler_agrees StandardState.hosts_profiler rfl (show ps[0]? = _ from rfl)
      [turnsModule, turnsModule]
  have hshown : (shown ps [turnsModule, turnsModule])[0]? =
      some (turnsModule.definitions ++ turnsModule.definitions) := by decide
  obtain rfl := Option.some.inj (hshown.symm.trans hfs)
  exact ⟨q, s, _, hq, hs, hfs, by decide, hparse, hreport, by rw [hstatistics]; decide⟩

end Pipeline

end CallGuard
