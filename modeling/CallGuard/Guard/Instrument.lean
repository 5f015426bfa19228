import CallGuard.Guard
import CallGuard.Wat.Instruction
import CallGuard.Wat.Splice

/-!
Guarding a module. Every indirect call gets a check before it: the index is kept
in a global, its new index is loaded from memory, checked against the range of a
set and then used for the call. The new indices and the global are added at the
end of the module. A module that has been guarded before only gets its table and
its indices renewed.

* `Guard.checkSequence`: the instructions of a check, up to the call.
* `Guard.trailer`: what is added at the end.
* `Guard.instrument`: the guarded text.
-/

namespace CallGuard

/-- A guarded module. -/
structure Instrumented where
  /-- The text. -/
  text : List Char
  /-- Whether it had been guarded before. -/
  refreshed : Bool
  /-- The number of calls that got a check. -/
  checked : Nat
  deriving DecidableEq, Repr

namespace Guard

open Wat (Edit Instruction)

/-! ### What is added -/

/-- Replaces an index by its new index. -/
def remap (g : Guard) : List Instruction :=
  [.const 1, .sub, .const 4, .mul, .load g.offset]

/-- The instructions in place of an indirect call: the index is kept in a global,
its new index is checked, and then the call is made with the new index. -/
def checkSequence (g : Guard) (global : Nat) (set : SignatureSet) : List Instruction :=
  [.globalSet global, .const (.ofNat set.lower), .const (.ofNat set.upper), .globalGet global] ++
    g.remap ++ [.call g.checkFunction.toList, .globalGet global] ++ g.remap ++ [.callIndirect]

/-- The new indices as a string in quotes. -/
def dataText (g : Guard) : List Char :=
  '"' :: g.layout.dataString ++ ['"']

/-- The address after the new indices. -/
def dataEnd (g : Guard) : Nat :=
  g.offset.toNat + 4 * g.table.length

/-- The data segment with the new indices and the global, as new fields of a module. -/
def trailer (g : Guard) (global : Nat) : List Char :=
  "\n\t(data (i32.const ".toList ++ Text.decimal g.offset.toNat ++ ") ".toList ++ g.dataText ++
    ")\n\t(global (;".toList ++ Text.decimal global ++ ";) (mut i32) (i32.const ".toList ++
    Text.decimal g.dataEnd ++ "))".toList

/-! ### Calls -/

/-- The edits that guard the calls of a function, of which `recorded` are the
signatures that are still to be used. -/
def guardCalls (g : Guard) (global : Nat) (function : String) :
    List Wat.IndirectCall → List Signature → TypeCodes →
    Except GuardError (List Edit × TypeCodes)
  | [], _, codes => .ok ([], codes)
  | call :: calls, recorded, codes =>
    if call.folded then .error (.foldedCall function)
    else
      let (key, codes) := g.resolve codes recorded.head?
      match g.sets.find? key with
      | none => .error (.missingFallback function)
      | some set =>
        let check := Wat.sequenceText call.indent (g.checkSequence global set)
        (g.guardCalls global function calls recorded.tail codes).map fun (edits, codes) =>
          (⟨call.start, call.stop, check⟩ :: edits, codes)

/-- The signatures that the report has for the indirect calls of a function. -/
def recordedCalls (g : Guard) (name : Option (List Char)) : List Signature :=
  ((name.bind fun n => g.report.find? (String.ofList n)).map (·.calls)).getD []

/-- What a function is called in errors. -/
def functionLabel (name : Option (List Char)) : String :=
  (name.map String.ofList).getD "<unnamed>"

/-- The edits that guard the calls of functions, in order. -/
def guardFunctions (g : Guard) (global : Nat) :
    List Wat.FunctionField → TypeCodes → Except GuardError (List Edit)
  | [], _ => .ok []
  | f :: fs, codes => do
    let (edits, codes) ←
      g.guardCalls global (functionLabel f.name) f.calls (g.recordedCalls f.name) codes
    let more ← g.guardFunctions global fs codes
    return edits ++ more

/-! ### Modules -/

/-- The edit that brings the table into its new order. -/
def elemEdit (g : Guard) (elem : Wat.ElemSegment) : Edit :=
  ⟨elem.start, elem.stop, g.elemList.toList⟩

/-- Renews the table and the indices of a module that has been guarded before. -/
def refresh (g : Guard) (m : Wat.Module) (elem : Wat.ElemSegment) :
    Except GuardError Instrumented :=
  match m.lastData? with
  | none => .error .missingData
  | some data =>
    let text := Wat.splice m.text [g.elemEdit elem, ⟨data.start, data.stop, g.dataText⟩]
    .ok ⟨text, true, 0⟩

/-- Guards a module for the first time. -/
def guardFresh (g : Guard) (m : Wat.Module) (elem : Wat.ElemSegment) :
    Except GuardError Instrumented := do
  let global := m.globalCount
  let checks ← g.guardFunctions global m.functions g.codes
  let added : Edit := ⟨m.insertPoint, m.insertPoint, g.trailer global⟩
  return ⟨Wat.splice m.text (g.elemEdit elem :: (checks ++ [added])), false, checks.length⟩

/-- The guarded text of a module. -/
def instrument (g : Guard) (text : List Char) : Except GuardError Instrumented := do
  let (m, elem) ← tableOf text
  if Wat.isInstrumented text then g.refresh m elem else g.guardFresh m elem

end Guard

end CallGuard
