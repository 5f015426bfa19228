import CallGuard.Ir.Module
import CallGuard.Ir.Ty.Printer
import CallGuard.OrderedMap

/-!
Reports: for every function its signature and the signatures of its indirect
calls, by name and in the order in which the functions were seen. Types are kept
as they are written.

* `Record.ofFunction`: what a report says about a function.
* `Report.ofModule`: the report of the functions that a module defines.
-/

namespace CallGuard

/-- Return type and parameter types, as written. Arguments beyond the fixed
parameters are not part of it. -/
structure Signature where
  /-- The return type. -/
  ret : String := ""
  /-- The types of the fixed parameters. -/
  args : List String := []
  deriving DecidableEq, Repr

/-- The signature of a function type. -/
def Signature.ofType (f : Ir.FunctionType) : Signature :=
  ⟨f.ret.text, f.params.map (·.text)⟩

/-- What a report says about a function. -/
structure Record where
  /-- The signature of the function. -/
  type : Signature := {}
  /-- The signatures of its indirect calls, in order. -/
  calls : List Signature := []
  deriving DecidableEq, Repr

namespace Record

/-- Whether the function makes an indirect call. -/
def hasCalls (r : Record) : Bool :=
  !r.calls.isEmpty

/-- The record of a function. -/
def ofFunction (f : Ir.Function) : Record :=
  ⟨.ofType f.type, f.indirectCalls.map fun c => .ofType c.type⟩

end Record

/-- A report: records by the name of their function, in the order in which the
names came. -/
abbrev Report := OrderedMap Record

namespace Report

/-- The number of indirect calls in all records. -/
def indirectCalls (r : Report) : Nat :=
  r.values.foldr (fun record n => record.calls.length + n) 0

/-- The report of the functions that a module defines. -/
def ofModule (m : Ir.Module) : Report :=
  OrderedMap.ofList (m.definitions.map fun f => (f.name, Record.ofFunction f))

end Report

end CallGuard
