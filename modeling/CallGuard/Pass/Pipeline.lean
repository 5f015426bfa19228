import CallGuard.Pass.Basic

/-!
Pipelines. The functions that a module defines are shown to every pass, function
by function and at each function in the order of the pipeline; then every pass
finishes. The first step that fails ends the run.

* `Pipeline.run`: a run over a module. The passes are kept with what they did,
  also when the run fails.
* `Pipeline.statistics`: the counters of all passes.
-/

namespace CallGuard

/-- What a run that succeeds says. -/
structure Summary where
  /-- The number of functions shown to the passes. -/
  functions : Nat := 0
  /-- The number of declarations left out. -/
  declarations : Nat := 0
  /-- What all steps leave together. -/
  preserved : Preserved := .all
  deriving DecidableEq, Repr

/-- The passes of a pipeline, in order. -/
abbrev Pipeline (σ : Type) := List (Pass σ)

/-- What running passes leads to. -/
structure Run (σ α : Type) where
  /-- The passes after the run. -/
  passes : Pipeline σ
  /-- The texts that left them, in order. -/
  transcript : List String
  /-- The result. -/
  result : Except PassError α

namespace Pipeline

variable {σ : Type}

/-- Runs one step of every pass, in order, up to the first that fails. Passes after
that one are left as they are. -/
def steps {α : Type} (step : Pass σ → Step σ α) : Pipeline σ → Run σ (List α)
  | [] => ⟨[], [], .ok []⟩
  | p :: ps =>
    let s := step p
    match s.result with
    | .error e => ⟨p.after s :: ps, [p.emitted s], .error e⟩
    | .ok a =>
      let r := steps step ps
      ⟨p.after s :: r.passes, p.emitted s :: r.transcript, r.result.map (a :: ·)⟩

/-- Shows a function to every pass. -/
def visit (m : Ir.Module) (f : Ir.Function) : Pipeline σ → Run σ (List Preserved) :=
  steps fun p => p.behaviour.visit p.state f m

/-- Shows functions to the passes, one after the other, from a summary of earlier
ones on. Declarations are only counted. -/
def visitAll (m : Ir.Module) : List Ir.Function → Summary → Pipeline σ → Run σ Summary
  | [], summary, ps => ⟨ps, [], .ok summary⟩
  | f :: fs, summary, ps =>
    if f.isDeclaration then
      visitAll m fs { summary with declarations := summary.declarations + 1 } ps
    else
      let r := visit m f ps
      match r.result with
      | .error e => ⟨r.passes, r.transcript, .error e⟩
      | .ok preserved =>
        let summary := { summary with
          functions := summary.functions + 1
          preserved := preserved.foldl Preserved.inter summary.preserved }
        let r' := visitAll m fs summary r.passes
        ⟨r'.passes, r.transcript ++ r'.transcript, r'.result⟩

/-- Lets every pass finish. -/
def finish : Pipeline σ → Run σ (List Unit) :=
  steps fun p => p.behaviour.finish p.state

/-- Runs the passes over a module. -/
def run (ps : Pipeline σ) (m : Ir.Module) : Run σ Summary :=
  let r := visitAll m m.functions {} ps
  match r.result with
  | .error e => ⟨r.passes, r.transcript, .error e⟩
  | .ok summary =>
    let r' := finish r.passes
    ⟨r'.passes, r.transcript ++ r'.transcript, r'.result.map fun _ => summary⟩

/-- The names of the passes. -/
def names (ps : Pipeline σ) : List String :=
  ps.map (·.name)

/-- The counters of all passes. -/
def statistics (ps : Pipeline σ) : Statistics :=
  Statistics.collect (ps.flatMap (·.statistics))

end Pipeline

end CallGuard
