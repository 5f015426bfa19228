import CallGuard.Pass.Basic
import CallGuard.Report.Writer

/-!
The profiler: a pass that keeps a report of the functions that it is shown. As a
fragment the records are written as they come; as an object the whole report is
written each time the functions end.

* `Profiler`: the state, with the report and two counters.
* `Profiler.behaviour`: the pass.
-/

namespace CallGuard

/-- How a profiler writes its report, and where. -/
structure ProfilerConfig where
  /-- The form of the report. -/
  format : ReportFormat := .fragment
  /-- Whether an object is written on more than one line. -/
  pretty : Bool := false
  /-- The file for the report; without one it goes to the error stream. -/
  output : Option String := none
  deriving DecidableEq, Repr

/-- The state of a profiler. -/
structure Profiler where
  /-- The form of the report. -/
  format : ReportFormat := .fragment
  /-- Whether an object is written on more than one line. -/
  pretty : Bool := false
  /-- Whether no record has been written. -/
  first : Bool := true
  /-- The report of the functions seen so far. -/
  report : Report := .empty
  /-- Counts the functions. -/
  functions : Statistic :=
    ⟨"FuncProfile", "FuncProfilerCounter", "Counts number of functions greeted", 0⟩
  /-- Counts the indirect calls. -/
  indirectCalls : Statistic :=
    ⟨"FuncProfile", "IndirectCallCounter", "Counts indirect call sites recorded", 0⟩
  deriving DecidableEq

namespace Profiler

/-- The name of the pass. -/
def passName : String := "funcprofiler"

/-- What the pass is called in lists. -/
def passDescription : String := "Function Profiler Pass"

/-- The step over a function. -/
def visit (s : Profiler) (f : Ir.Function) (_ : Ir.Module) : Step Profiler Preserved :=
  let record := Record.ofFunction f
  let s' := { s with
    report := s.report.insert f.name record
    functions := s.functions.inc
    indirectCalls := s.indirectCalls.add record.calls.length }
  match s.format with
  | .fragment =>
    { state := { s' with first := false }
      pieces := (Fragment.pieces s.first f.name record).map String.ofList
      result := .ok .all }
  | .json => { state := s', result := .ok .all }

/-- The step after the last function. All that was written leaves with it. -/
def finish (s : Profiler) : Step Profiler Unit :=
  let pieces := match s.format with
    | .fragment => []
    | .json => [String.ofList (s.report.render s.pretty)]
  { state := s, pieces, flushed := true, result := .ok () }

/-- The pass. -/
def behaviour : PassBehaviour Profiler where
  name _ := passName
  visit := visit
  finish := finish
  statistics s := [s.functions, s.indirectCalls]

/-- The state in which a profiler starts. -/
def ofConfig (config : ProfilerConfig) : Profiler :=
  { format := config.format, pretty := config.pretty }

end Profiler

end CallGuard
