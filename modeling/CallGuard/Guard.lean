import CallGuard.Guard.Error
import CallGuard.Table.Layout
import CallGuard.Wat.Module

/-!
Guards: what is known about the table of a module, and how its indirect calls are
to be checked. A table is given by its references to functions; a report gives
the signatures of the functions.

* `Guard.ofTable`, `Guard.ofText`: the guard of a table, and of the module that a
  text spells.
* `Guard.randomize`: a guard with its functions shuffled inside their sets.
* `Guard.elemList`: the table in its new order.
* `Guard.callKey`: the key of the set that a call is checked against.
-/

namespace CallGuard

/-- Where the new indices lie in memory unless something else is asked for. -/
def Guard.defaultOffset : UInt32 := 65535

/-- The function that checks an index unless something else is asked for. -/
def Guard.defaultCheckFunction : String := "check_index_range"

/-- A table with its signature sets and layout, and how calls are checked. -/
structure Guard where
  /-- The signatures of functions and of the indirect calls in them. -/
  report : Report
  /-- The references of the table, in order. -/
  table : List String
  /-- The numbers of the types seen in the table. -/
  codes : TypeCodes
  /-- The signature sets of the table. -/
  sets : SignatureSets
  /-- The new indices. -/
  layout : Layout
  /-- The address of the new indices in memory. -/
  offset : UInt32 := Guard.defaultOffset
  /-- The function that checks an index. -/
  checkFunction : String := Guard.defaultCheckFunction

namespace Guard

/-- The name of the function that a reference stands for: the reference without its
sigil. -/
def referenceName (reference : String) : String :=
  match reference.toList with
  | '$' :: name => String.ofList name
  | _ => reference

/-- The signature that a report has for a function. A function that the report does
not know has the empty one. -/
def signatureOf (report : Report) (name : String) : Signature :=
  ((report.find? name).map (·.type)).getD {}

/-- The entries of references, of which the first has an index. Types get their
numbers in the order of the table. -/
def entriesFrom (report : Report) : Nat → TypeCodes → List String → List TableEntry × TypeCodes
  | _, codes, [] => ([], codes)
  | index, codes, reference :: references =>
    let name := referenceName reference
    let (code, codes) := codes.signature (signatureOf report name)
    let (entries, codes) := entriesFrom report (index + 1) codes references
    (⟨name, index, code⟩ :: entries, codes)

/-- The guard of a table, with the functions of each set in their order. -/
def ofTable (report : Report) (table : List String) : Guard :=
  let (entries, codes) := entriesFrom report 1 .initial table
  let sets := SignatureSets.build entries
  { report, table, codes, sets, layout := .sorted sets }

/-- The module that a text spells, and its table. -/
def tableOf (text : List Char) : Except GuardError (Wat.Module × Wat.ElemSegment) :=
  match Wat.Module.parse? text with
  | none => .error .unbalanced
  | some m =>
    match m.elemSegment? with
    | none => .error .missingElem
    | some elem => .ok (m, elem)

/-- The guard of the module that a text spells. -/
def ofText (report : Report) (text : List Char) : Except GuardError Guard :=
  (tableOf text).map fun (_, elem) => ofTable report (elem.functions.map String.ofList)

/-- The guard with its functions shuffled inside their sets. -/
def randomize (g : Guard) (words : List UInt32) : Guard :=
  { g with layout := .randomized g.sets words }

/-- The references in their new order, with blanks between them. -/
def elemList (g : Guard) : String :=
  " ".intercalate (g.layout.reorder g.table)

/-! ### Keys of calls -/

/-- The key of the set for a call with a signature, or of one without a recorded
signature: the key of the signature if there is a set for it, and else the key of
the fallback set. -/
def resolve (g : Guard) (codes : TypeCodes) : Option Signature → String × TypeCodes
  | none => (fallbackKey, codes)
  | some s =>
    let (code, codes) := codes.signature s
    (if g.sets.contains code.key then code.key else fallbackKey, codes)

/-- The key of the set that a call with a signature is checked against. -/
def callKey (g : Guard) (s : Signature) : String :=
  (g.resolve g.codes (some s)).1

end Guard

end CallGuard
