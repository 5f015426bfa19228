import CallGuard.Pass.Standard
import Mathlib.Tactic

/-!
The passes of a pipeline do not see each other. They take turns at every function, but each of
them goes through the functions as it would on its own, up to the step that ends the run.

* `Pass.seeAll`, `Pass.finished`: a pass on its own, function by function and at its end.
* `Pipeline.steps_of_ok`, `Pipeline.steps_of_error`: one turn of all passes.
* `Pipeline.visitAll_of_ok`, `Pipeline.visitAll_of_error`: all turns.
* `Pipeline.Aborts`: where a run ends that fails, and what every pass has done by then.
* `Pipeline.run_independent`: a run is made of the runs of its passes.
-/

namespace CallGuard

/-! ### What steps leave together -/

namespace Preserved

lemma inter_eq_all_iff {a b : Preserved} : a.inter b = .all ↔ a = .all ∧ b = .all := by
  cases a <;> cases b <;> simp [inter]

lemma foldl_inter_eq_all_iff {a : Preserved} {as : List Preserved} :
    as.foldl inter a = .all ↔ a = .all ∧ ∀ b ∈ as, b = .all := by
  induction as generalizing a with
  | nil => simp
  | cons b as ih => simp [ih, inter_eq_all_iff, and_assoc]

end Preserved

/-! ### A pass on its own -/

namespace Pass

variable {σ : Type} (m : Ir.Module)

/-- The step of a pass over a function. -/
def look (p : Pass σ) (f : Ir.Function) : Step σ Preserved :=
  p.behaviour.visit p.state f m

/-- The last step of a pass. -/
def close (p : Pass σ) : Step σ Unit :=
  p.behaviour.finish p.state

/-- The pass after it has been shown a function. -/
def see (p : Pass σ) (f : Ir.Function) : Pass σ :=
  p.after (p.look m f)

/-- The pass after it has been shown functions, one after the other. -/
def seeAll (p : Pass σ) (fs : List Ir.Function) : Pass σ :=
  fs.foldl (see m) p

/-- The pass after its last step. -/
def finished (p : Pass σ) : Pass σ :=
  p.after p.close

/-- No step over the functions fails, and what the pass says at each satisfies `P`. -/
def Answers (P : Preserved → Prop) : Pass σ → List Ir.Function → Prop
  | _, [] => True
  | p, f :: fs => (∃ a, (p.look m f).result = .ok a ∧ P a) ∧ Answers P (p.see m f) fs

/-- No step over the functions fails. -/
def Accepts (p : Pass σ) (fs : List Ir.Function) : Prop :=
  p.Answers m (fun _ => True) fs

/-- No step over the functions fails, and after each all still holds. -/
def Keeps (p : Pass σ) (fs : List Ir.Function) : Prop :=
  p.Answers m (· = .all) fs

variable {m}

lemma answers_append {P : Preserved → Prop} {p : Pass σ} {fs gs : List Ir.Function} :
    p.Answers m P (fs ++ gs) ↔ p.Answers m P fs ∧ (p.seeAll m fs).Answers m P gs := by
  induction fs generalizing p with
  | nil => simp [Answers, seeAll]
  | cons f fs ih => simp only [List.cons_append, Answers, ih, seeAll, List.foldl_cons, and_assoc]

lemma answers_singleton {P : Preserved → Prop} {p : Pass σ} {f : Ir.Function} :
    p.Answers m P [f] ↔ ∃ a, (p.look m f).result = .ok a ∧ P a := by
  simp [Answers]

/-- A pass that fails at a function does not accept it. -/
lemma not_accepts_of_error {p : Pass σ} {before after : List Ir.Function} {f : Ir.Function}
    {e : PassError} (h : ((p.seeAll m before).look m f).result = .error e) :
    ¬p.Accepts m (before ++ f :: after) := by
  intro haccepts
  obtain ⟨-, ⟨a, ha, -⟩, -⟩ := answers_append.mp haccepts
  rw [h] at ha
  cases ha

end Pass

/-! ### One turn -/

namespace Pipeline

variable {σ α : Type} {step : Pass σ → Step σ α} {ps : Pipeline σ}

/-- If no pass fails, every pass has made its step. -/
lemma steps_of_ok {as : List α} (h : (steps step ps).result = .ok as) :
    (steps step ps).passes = ps.map (fun p => p.after (step p)) ∧
      List.Forall₂ (fun p a => (step p).result = .ok a) ps as := by
  induction ps generalizing as with
  | nil =>
      simp only [steps, Except.ok.injEq] at h
      subst h
      exact ⟨rfl, .nil⟩
  | cons p ps ih =>
      cases hp : (step p).result with
      | error e => simp [steps, hp] at h
      | ok a =>
          cases hr : (steps step ps).result with
          | error e => simp [steps, hp, hr, Except.map] at h
          | ok rest =>
              obtain ⟨hpasses, hall⟩ := ih hr
              simp only [steps, hp, hr, Except.map, Except.ok.injEq] at h
              subst h
              exact ⟨by simp [steps, hp, hpasses], .cons hp hall⟩

/-- Otherwise the passes before the first that fails have made their steps, and so has that
one, and the others are left as they are. -/
lemma steps_of_error {e : PassError} (h : (steps step ps).result = .error e) :
    ∃ qs q rest, ps = qs ++ q :: rest ∧ (∀ p ∈ qs, ∃ a, (step p).result = .ok a) ∧
      (step q).result = .error e ∧
      (steps step ps).passes = qs.map (fun p => p.after (step p)) ++ q.after (step q) :: rest := by
  induction ps with
  | nil => simp [steps] at h
  | cons p ps ih =>
      cases hp : (step p).result with
      | error e' =>
          obtain rfl : e' = e := by simpa [steps, hp] using h
          exact ⟨[], p, ps, rfl, by simp, hp, by simp [steps, hp]⟩
      | ok a =>
          have hr : (steps step ps).result = .error e := by
            cases hr : (steps step ps).result with
            | error e' => simpa [steps, hp, hr, Except.map] using h
            | ok rest => simp [steps, hp, hr, Except.map] at h
          obtain ⟨qs, q, rest, rfl, hqs, hq, hpasses⟩ := ih hr
          refine ⟨p :: qs, q, rest, rfl, ?_, hq, by simp [steps, hp, hpasses]⟩
          exact List.forall_mem_cons.mpr ⟨⟨a, hp⟩, hqs⟩

/-! ### All turns -/

variable {m : Ir.Module} {fs : List Ir.Function}

/-- A turn over a function in which no pass fails. -/
lemma visit_of_ok {f : Ir.Function} {as : List Preserved} (h : (visit m f ps).result = .ok as) :
    (visit m f ps).passes = ps.map (·.see m f) ∧ (∀ p ∈ ps, p.Accepts m [f]) ∧
      ((∀ a ∈ as, a = .all) ↔ ∀ p ∈ ps, p.Keeps m [f]) := by
  obtain ⟨hpasses, hall⟩ := steps_of_ok h
  refine ⟨hpasses, ?_⟩
  clear h hpasses
  simp only [Pass.Accepts, Pass.Keeps, Pass.answers_singleton, and_true, exists_eq_right]
  induction hall with
  | nil => simp
  | @cons p a ps as hp hall ih =>
      have hp : (p.look m f).result = .ok a := hp
      simp only [List.forall_mem_cons, hp, ih.2, Except.ok.injEq, exists_eq', true_and]
      exact ⟨ih.1, trivial⟩

/-- If no pass fails, every pass has been shown all functions that are not declarations. -/
lemma visitAll_of_ok {s s' : Summary} (h : (visitAll m fs s ps).result = .ok s') :
    let shown := fs.filter (!·.isDeclaration)
    (visitAll m fs s ps).passes = ps.map (·.seeAll m shown) ∧ (∀ p ∈ ps, p.Accepts m shown) ∧
      s'.functions = s.functions + shown.length ∧
      s'.declarations = s.declarations + (fs.filter (·.isDeclaration)).length ∧
      (s'.preserved = .all ↔ s.preserved = .all ∧ ∀ p ∈ ps, p.Keeps m shown) := by
  intro shown
  induction fs generalizing s ps with
  | nil =>
      simp only [visitAll, Except.ok.injEq] at h
      subst h
      simp [visitAll, shown, Pass.seeAll, Pass.Accepts, Pass.Keeps, Pass.Answers]
  | cons f fs ih =>
      cases hf : f.isDeclaration with
      | true =>
          simp only [visitAll, hf, if_true] at h
          obtain ⟨hpasses, haccepts, hfunctions, hdeclarations, hkeeps⟩ := ih h
          have hshown : shown = fs.filter (!·.isDeclaration) := by simp [shown, hf]
          simp only [visitAll, hf, if_true, hshown]
          refine ⟨hpasses, haccepts, hfunctions, ?_, hkeeps⟩
          simp only [hdeclarations, List.filter_cons, hf, if_true, List.length_cons]
          omega
      | false =>
          cases hv : (visit m f ps).result with
          | error e => simp [visitAll, hf, hv] at h
          | ok as =>
              obtain ⟨hturn, hok, hall⟩ := visit_of_ok hv
              simp only [visitAll, hf, hv, Bool.false_eq_true, if_false, hturn] at h
              obtain ⟨hpasses, haccepts, hfunctions, hdeclarations, hkeeps⟩ := ih h
              simp only [List.forall_mem_map] at haccepts hkeeps
              have hshown : shown = f :: fs.filter (!·.isDeclaration) := by simp [shown, hf]
              refine ⟨?_, ?_, ?_, ?_, ?_⟩
              · simp only [visitAll, hf, hv, Bool.false_eq_true, if_false, hturn, hpasses,
                  hshown, List.map_map]
                rfl
              · intro p hp
                rw [hshown]
                exact ⟨(hok p hp).1, haccepts p hp⟩
              · simp only [hfunctions, hshown, List.length_cons]
                omega
              · simp [hdeclarations, hf]
              · rw [hkeeps, Preserved.foldl_inter_eq_all_iff, hall, and_assoc, hshown]
                refine and_congr_right fun _ => ⟨fun ⟨hhead, htail⟩ p hp => ?_, fun hp => ⟨?_, ?_⟩⟩
                · exact ⟨(hhead p hp).1, htail p hp⟩
                · exact fun p hmem => ⟨(hp p hmem).1, trivial⟩
                · exact fun p hmem => (hp p hmem).2

/-- Otherwise there is a first step that fails, function by function and at each function in
the order of the passes. -/
lemma visitAll_of_error {s : Summary} {e : PassError}
    (h : (visitAll m fs s ps).result = .error e) :
    ∃ before f after qs q rest, fs.filter (!·.isDeclaration) = before ++ f :: after ∧
      ps = qs ++ q :: rest ∧ (∀ p ∈ ps, p.Accepts m before) ∧
      (∀ p ∈ qs, p.Accepts m (before ++ [f])) ∧
      ((q.seeAll m before).look m f).result = .error e ∧
      (visitAll m fs s ps).passes = qs.map (·.seeAll m (before ++ [f])) ++
        q.seeAll m (before ++ [f]) :: rest.map (·.seeAll m before) := by
  induction fs generalizing s ps with
  | nil => simp [visitAll] at h
  | cons f fs ih =>
      cases hf : f.isDeclaration with
      | true =>
          simp only [visitAll, hf, if_true] at h
          have hshown : (f :: fs).filter (!·.isDeclaration) = fs.filter (!·.isDeclaration) := by
            simp [hf]
          simpa only [visitAll, hf, if_true, hshown] using ih h
      | false =>
          have hshown : (f :: fs).filter (!·.isDeclaration) =
              f :: fs.filter (!·.isDeclaration) := by
            simp [hf]
          cases hv : (visit m f ps).result with
          | error e' =>
              obtain rfl : e' = e := by simpa [visitAll, hf, hv] using h
              obtain ⟨qs, q, rest, rfl, hqs, hq, hpasses⟩ := steps_of_error hv
              refine ⟨[], f, _, qs, q, rest, hshown, rfl, fun p _ => trivial, ?_, hq, ?_⟩
              · intro p hp
                obtain ⟨a, ha⟩ := hqs p hp
                exact Pass.answers_singleton.mpr ⟨a, ha, trivial⟩
              · simp only [visitAll, hf, hv, Bool.false_eq_true, if_false]
                rw [show (visit m f (qs ++ q :: rest)).passes = _ from hpasses]
                simp [Pass.seeAll, Pass.see, Pass.look]
          | ok as =>
              obtain ⟨hturn, hok, -⟩ := visit_of_ok hv
              simp only [visitAll, hf, hv, Bool.false_eq_true, if_false, hturn] at h
              obtain ⟨before, g, after, qs', q', rest', hfs, hps, hall, hqs, hq, hpasses⟩ := ih h
              obtain ⟨qs, more, rfl, rfl, hmore⟩ := List.map_eq_append_iff.mp hps
              obtain ⟨q, rest, rfl, rfl, rfl⟩ := List.map_eq_cons_iff.mp hmore
              simp only [List.forall_mem_map] at hall hqs
              refine ⟨f :: before, g, after, qs, q, rest, by rw [hshown, hfs]; rfl, rfl, ?_, ?_, hq,
                ?_⟩
              · exact fun p hp => ⟨(hok p hp).1, hall p hp⟩
              · exact fun p hp => ⟨(hok p (List.mem_append_left _ hp)).1, hqs p hp⟩
              · simp only [visitAll, hf, hv, Bool.false_eq_true, if_false, hturn, hpasses,
                  List.map_map]
                rfl

/-! ### Runs -/

/-- If no last step fails, every pass has made it. -/
lemma finish_of_ok {us : List Unit} (h : (finish ps).result = .ok us) :
    (finish ps).passes = ps.map (·.finished) ∧ ∀ p ∈ ps, p.close.result = .ok () := by
  obtain ⟨hpasses, hall⟩ := steps_of_ok h
  have hall : List.Forall₂ (fun p _ => p.close.result = .ok () ∧ True) ps us :=
    hall.imp fun p _ hp => ⟨hp, trivial⟩
  exact ⟨hpasses, ((List.forall₂_and_left _ _).mp hall).1⟩

/-- How a run over a module ends that fails: by the first step over a function that fails, or
by the first last step that fails, and with the passes as they are then. -/
inductive Aborts (m : Ir.Module) : Pipeline σ → PassError → Pipeline σ → Prop
  | visiting {before after : List Ir.Function} {f : Ir.Function} {qs rest : Pipeline σ}
      {q : Pass σ} {e : PassError} :
      m.definitions = before ++ f :: after →
      (∀ p ∈ qs ++ q :: rest, p.Accepts m before) →
      (∀ p ∈ qs, p.Accepts m (before ++ [f])) →
      ((q.seeAll m before).look m f).result = .error e →
      Aborts m (qs ++ q :: rest) e
        (qs.map (·.seeAll m (before ++ [f])) ++
          q.seeAll m (before ++ [f]) :: rest.map (·.seeAll m before))
  | finishing {qs rest : Pipeline σ} {q : Pass σ} {e : PassError} :
      (∀ p ∈ qs ++ q :: rest, p.Accepts m m.definitions) →
      (∀ p ∈ qs, (p.seeAll m m.definitions).close.result = .ok ()) →
      (q.seeAll m m.definitions).close.result = .error e →
      Aborts m (qs ++ q :: rest) e
        (qs.map (fun p => (p.seeAll m m.definitions).finished) ++
          (q.seeAll m m.definitions).finished :: rest.map (·.seeAll m m.definitions))

/-- A run that succeeds has shown all definitions to every pass and let it finish. -/
lemma run_of_ok {s : Summary} (h : (run ps m).result = .ok s) :
    (run ps m).passes = ps.map (fun p => (p.seeAll m m.definitions).finished) ∧
      (∀ p ∈ ps, p.Accepts m m.definitions ∧
        (p.seeAll m m.definitions).close.result = .ok ()) ∧
      s.functions = m.definitions.length ∧
      s.declarations = (m.functions.filter (·.isDeclaration)).length ∧
      (s.preserved = .all ↔ ∀ p ∈ ps, p.Keeps m m.definitions) := by
  cases hv : (visitAll m m.functions {} ps).result with
  | error e => simp [run, hv] at h
  | ok s' =>
      obtain ⟨hpasses, haccepts, hfunctions, hdeclarations, hkeeps⟩ := visitAll_of_ok hv
      cases hf : (finish (visitAll m m.functions {} ps).passes).result with
      | error e => simp [run, hv, hf, Except.map] at h
      | ok us =>
          obtain rfl : s' = s := by simpa [run, hv, hf, Except.map] using h
          obtain ⟨hfinished, hall⟩ := finish_of_ok hf
          rw [hpasses, List.forall_mem_map] at hall
          refine ⟨?_, fun p hp => ⟨haccepts p hp, hall p hp⟩, ?_, ?_, ?_⟩
          · rw [hpasses] at hfinished
            simp only [run, hv, hpasses]
            exact hfinished.trans (List.map_map)
          · simpa [Ir.Module.definitions] using hfunctions
          · simpa using hdeclarations
          · simpa [Ir.Module.definitions] using hkeeps

/-- A run that fails ends at its first step that fails. -/
lemma run_of_error {e : PassError} (h : (run ps m).result = .error e) :
    Aborts m ps e (run ps m).passes := by
  cases hv : (visitAll m m.functions {} ps).result with
  | error e' =>
      obtain rfl : e' = e := by simpa [run, hv] using h
      obtain ⟨before, f, after, qs, q, rest, hfs, rfl, hall, hqs, hq, hpasses⟩ :=
        visitAll_of_error hv
      simp only [run, hv, hpasses]
      exact .visiting hfs hall hqs hq
  | ok s =>
      obtain ⟨hpasses, haccepts, -⟩ := visitAll_of_ok hv
      cases hf : (finish (visitAll m m.functions {} ps).passes).result with
      | ok us => simp [run, hv, hf, Except.map] at h
      | error e' =>
          obtain rfl : e' = e := by simpa [run, hv, hf, Except.map] using h
          obtain ⟨qs', q', rest', hps, hqs, hq, hfinished⟩ := steps_of_error hf
          rw [hpasses] at hps
          obtain ⟨qs, more, rfl, rfl, hmore⟩ := List.map_eq_append_iff.mp hps
          obtain ⟨q, rest, rfl, rfl, rfl⟩ := List.map_eq_cons_iff.mp hmore
          rw [List.forall_mem_map] at hqs
          have hend := Aborts.finishing haccepts (fun p hp => (hqs p hp).choose_spec) hq
          simp only [run, hv]
          rw [show (finish _).passes = _ from hfinished, List.map_map]
          exact hend

/-- A run fails only if one of its passes fails on its own. -/
lemma Aborts.exists_mem {after : Pipeline σ} {e : PassError} (h : Aborts m ps e after) :
    ∃ p ∈ ps, ¬(p.Accepts m m.definitions ∧ (p.seeAll m m.definitions).close.result = .ok ()) := by
  cases h with
  | @visiting before after f qs rest q e hfs hall hqs hq =>
      refine ⟨q, by simp, fun hok => ?_⟩
      rw [hfs] at hok
      exact Pass.not_accepts_of_error hq hok.1
  | @finishing qs rest q e hall hqs hq =>
      refine ⟨q, by simp, fun hok => ?_⟩
      rw [hq] at hok
      cases hok.2

/-- A pass that accepts all definitions and whose last step succeeds is run on its own. -/
lemma run_singleton {p : Pass σ} (haccepts : p.Accepts m m.definitions)
    (hclose : (p.seeAll m m.definitions).close.result = .ok ()) :
    ∃ s, (run [p] m).result = .ok s ∧
      (run [p] m).passes = [(p.seeAll m m.definitions).finished] ∧
      (s.preserved = .all ↔ p.Keeps m m.definitions) := by
  cases h : (run [p] m).result with
  | ok s =>
      obtain ⟨hpasses, -, -, -, hkeeps⟩ := run_of_ok h
      exact ⟨s, rfl, hpasses, by simpa using hkeeps⟩
  | error e =>
      obtain ⟨q, hmem, hq⟩ := (run_of_error h).exists_mem
      obtain rfl := List.mem_singleton.mp hmem
      exact absurd ⟨haccepts, hclose⟩ hq

/-- **Passes of a pipeline do not disturb each other.** If a run succeeds, every pass also
succeeds when it is run alone, and ends as it does then; all still holds exactly if it does for
every pass alone, and the counts are those of the definitions and the declarations. If a run
fails, it ends at the first step that fails, function by function and at each function in the
order of the passes, and after the last function at the first pass that cannot finish: the
passes up to that one have made their step and the others have not. -/
theorem run_independent (ps : Pipeline σ) (m : Ir.Module) :
    (∀ s, (run ps m).result = .ok s →
      List.Forall₂ (fun p q => (run [p] m).passes = [q]) ps (run ps m).passes ∧
        (∀ p ∈ ps, ∃ alone, (run [p] m).result = .ok alone) ∧
        (s.preserved = .all ↔
          ∀ p ∈ ps, ∃ alone, (run [p] m).result = .ok alone ∧ alone.preserved = .all) ∧
        s.functions = m.definitions.length ∧
        s.declarations = (m.functions.filter (·.isDeclaration)).length) ∧
      ∀ e, (run ps m).result = .error e → Aborts m ps e (run ps m).passes := by
  refine ⟨fun s h => ?_, fun e h => run_of_error h⟩
  obtain ⟨hpasses, hall, hfunctions, hdeclarations, hkeeps⟩ := run_of_ok h
  have halone : ∀ p ∈ ps, ∃ alone, (run [p] m).result = .ok alone ∧
      (run [p] m).passes = [(p.seeAll m m.definitions).finished] ∧
      (alone.preserved = .all ↔ p.Keeps m m.definitions) := fun p hp =>
    run_singleton (hall p hp).1 (hall p hp).2
  refine ⟨?_, ?_, ?_, hfunctions, hdeclarations⟩
  · rw [hpasses, List.forall₂_map_right_iff, List.forall₂_same]
    intro p hp
    obtain ⟨-, -, hp, -⟩ := halone p hp
    exact hp
  · intro p hp
    obtain ⟨alone, hresult, -⟩ := halone p hp
    exact ⟨alone, hresult⟩
  · rw [hkeeps]
    refine forall₂_congr fun p hp => ?_
    obtain ⟨alone, hresult, -, hkeep⟩ := halone p hp
    refine ⟨fun h => ⟨alone, hresult, hkeep.mpr h⟩, ?_⟩
    rintro ⟨alone', hresult', h⟩
    obtain rfl := Except.ok.inj (hresult.symm.trans hresult')
    exact hkeep.mp h

/-- Two functions that are defined after one that is declared. The last one calls through a
pointer. -/
def turnsModule : Ir.Module :=
  let type : Ir.FunctionType := ⟨.void, [], false⟩
  let call : Ir.Instruction := ⟨6, "call", none, some ⟨.call, .none, .localValue "f", type⟩⟩
  { functions :=
      [⟨"ext", type, true, [], 1⟩, ⟨"a", type, false, [⟨none, []⟩], 2⟩,
        ⟨"b", type, false, [⟨none, [call]⟩], 5⟩] }

/-- Two recorders, of which the second may fail. -/
def turns (failOn : Option String) : Pipeline StandardState :=
  let seen : Statistic := ⟨"Recorder", "Seen", "Functions seen", 0⟩
  [(.recorder { tag := "x", seen }),
    (.recorder { tag := "y", preserves := .none, failOn, seen })].map StandardState.pass

/-- A run of two recorders that succeeds, and one that ends at the last function. -/
theorem run_independent_turns :
    ((run (turns none) turnsModule).result = .ok ⟨2, 1, .none⟩ ∧
      List.Forall₂ (fun p q => (run [p] turnsModule).passes = [q]) (turns none)
        (run (turns none) turnsModule).passes) ∧
      (run (turns (some "b")) turnsModule).result = .error (.unknownPass "y") ∧
      Aborts turnsModule (turns (some "b")) (.unknownPass "y")
        (run (turns (some "b")) turnsModule).passes := by
  have hok : (run (turns none) turnsModule).result = .ok ⟨2, 1, .none⟩ := by decide
  have herror : (run (turns (some "b")) turnsModule).result = .error (.unknownPass "y") := by
    decide
  exact ⟨⟨hok, ((run_independent _ _).1 _ hok).1⟩, herror, (run_independent _ _).2 _ herror⟩

end Pipeline

end CallGuard
