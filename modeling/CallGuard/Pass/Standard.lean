import CallGuard.Pass.Pipeline
import CallGuard.Pass.Profiler

/-!
The passes that pipelines are made of: the profiler, a pass that writes down what
it is shown, and a pass that does nothing.

* `Recorder`: writes its tag with the name of every function, and can be made to
  fail at one.
* `StandardState`, `StandardPass`: the three kinds of pass in one.
-/

namespace CallGuard

/-- The state of a pass that writes down what it is shown. -/
structure Recorder where
  /-- The name of the pass, which stands in all that it writes. -/
  tag : String
  /-- What it says about the module. -/
  preserves : Preserved := .all
  /-- The function at which it fails. -/
  failOn : Option String := none
  /-- Counts the functions at which it did not fail. -/
  seen : Statistic
  deriving DecidableEq

namespace Recorder

/-- The step over a function. -/
def visit (s : Recorder) (f : Ir.Function) (_ : Ir.Module) : Step Recorder Preserved :=
  let pieces := [s!"{s.tag}:{f.name}\n"]
  if s.failOn = some f.name then { state := s, pieces, result := .error (.unknownPass s.tag) }
  else { state := { s with seen := s.seen.inc }, pieces, result := .ok s.preserves }

/-- The step after the last function. -/
def finish (s : Recorder) : Step Recorder Unit :=
  { state := s, pieces := [s!"{s.tag}:finish\n"], result := .ok () }

end Recorder

/-- The state of a standard pass. -/
inductive StandardState where
  /-- A profiler. -/
  | profiler (state : Profiler)
  /-- A recorder. -/
  | recorder (state : Recorder)
  /-- A pass that does nothing, by its name. -/
  | quiet (tag : String)
  deriving DecidableEq

/-- A step with its state changed. -/
def Step.mapState {σ τ α : Type} (g : σ → τ) (step : Step σ α) : Step τ α :=
  { step with state := g step.state }

namespace StandardState

/-- The name of a standard pass. -/
def name : StandardState → String
  | profiler _ => Profiler.passName
  | recorder s => s.tag
  | quiet tag => tag

/-- The step over a function. -/
def visit (s : StandardState) (f : Ir.Function) (m : Ir.Module) : Step StandardState Preserved :=
  match s with
  | profiler s => (s.visit f m).mapState profiler
  | recorder s => (s.visit f m).mapState recorder
  | quiet tag => { state := quiet tag, result := .ok .all }

/-- The step after the last function. -/
def finish : StandardState → Step StandardState Unit
  | profiler s => s.finish.mapState profiler
  | recorder s => s.finish.mapState recorder
  | quiet tag => { state := quiet tag, result := .ok () }

/-- The counters of a standard pass. -/
def statistics : StandardState → List Statistic
  | profiler s => Profiler.behaviour.statistics s
  | recorder s => [s.seen]
  | quiet _ => []

/-- The behaviour of standard passes. -/
def behaviour : PassBehaviour StandardState :=
  ⟨name, visit, finish, statistics⟩

/-- The pass that starts in a state. -/
def pass (s : StandardState) : Pass StandardState :=
  { behaviour, state := s }

end StandardState

/-- A standard pass. -/
abbrev StandardPass := Pass StandardState

end CallGuard
