import CallGuard.Files
import CallGuard.Ir.Module
import CallGuard.Pass.Outlet
import CallGuard.Pass.Statistic

/-!
Passes over the functions of a module. A pass is a machine with a state of its
own: it is shown one function after the other, may write text, and says whether
it left the module as it was.

* `Preserved`: what a pass says about the module.
* `Step`: what one step of a pass leads to. Its state and text count also when
  the step fails.
* `Pass`: a machine with its state and the text that it has written, which leaves
  through an outlet.
-/

namespace CallGuard

/-- Whether what was known about a module still holds. -/
inductive Preserved where
  | all
  | none
  deriving DecidableEq, Repr

namespace Preserved

/-- What two steps leave together. -/
def inter : Preserved → Preserved → Preserved
  | all, all => all
  | _, _ => none

/-- Whether all still holds. -/
def isAll (p : Preserved) : Bool :=
  p == all

end Preserved

/-- Why passes could not be made or run. -/
inductive PassError where
  /-- There is no pass of this name. -/
  | unknownPass (name : String)
  /-- There is no pass to run. -/
  | emptyPipeline
  /-- A file could not be used. -/
  | io (error : IoError)
  deriving DecidableEq, Repr

/-- The wording of an error. -/
def PassError.message : PassError → String
  | unknownPass name => s!"unknown pass '{name}'"
  | emptyPipeline => "pass pipeline is empty"
  | io error => s!"I/O error: {error.message}"

/-- What one step of a pass leads to. -/
structure Step (σ α : Type) where
  /-- The state after the step. -/
  state : σ
  /-- The text written in the step, in pieces. -/
  pieces : List String := []
  /-- Whether all that was written leaves the outlet at the end of the step. -/
  flushed : Bool := false
  /-- The result of the step. -/
  result : Except PassError α

/-- The text written in a step. -/
def Step.written {σ α : Type} (step : Step σ α) : String :=
  String.join step.pieces

/-- How a pass with states in `σ` behaves. -/
structure PassBehaviour (σ : Type) where
  /-- The name in a state. -/
  name : σ → String
  /-- The step over a function of a module. -/
  visit : σ → Ir.Function → Ir.Module → Step σ Preserved
  /-- The step after the last function. -/
  finish : σ → Step σ Unit
  /-- The counters in a state. -/
  statistics : σ → List Statistic

/-- A pass in some state, with all the text that it has written. -/
structure Pass (σ : Type) where
  /-- The behaviour. -/
  behaviour : PassBehaviour σ
  /-- The state. -/
  state : σ
  /-- The text written so far. -/
  written : String := ""
  /-- What the text goes through. -/
  outlet : Outlet := {}

namespace Pass

variable {σ : Type}

/-- The name of a pass. -/
def name (p : Pass σ) : String :=
  p.behaviour.name p.state

/-- The counters of a pass. -/
def statistics (p : Pass σ) : List Statistic :=
  p.behaviour.statistics p.state

/-- The pass after a step. -/
def after {α : Type} (p : Pass σ) (step : Step σ α) : Pass σ :=
  { p with
    state := step.state
    written := p.written ++ step.written
    outlet := (p.outlet.writeAll step.flushed step.pieces).1 }

/-- What leaves the outlet of a pass in a step. -/
def emitted {α : Type} (p : Pass σ) (step : Step σ α) : String :=
  (p.outlet.writeAll step.flushed step.pieces).2

end Pass

end CallGuard
