import CallGuard.OrderedMap
import CallGuard.Report

/-!
Numbers for types. Every type, as it is written in reports, has a number; some
have a fixed one, and any other gets the next free one when it is first seen.

* `TypeCodes`: the numbers handed out so far.
* `TypeCodes.code`: the number of a type, handed out if need be.
* `TypeCodes.signature`: the numbers of a signature.
-/

namespace CallGuard

/-- The numbers of types. -/
structure TypeCodes where
  /-- The numbers handed out so far. -/
  codes : OrderedMap Int
  /-- The number for the next type. -/
  next : Int

/-- The numbers of a signature. -/
structure SignatureCode where
  /-- The number of the return type. -/
  ret : Int
  /-- The numbers of the parameter types. -/
  params : List Int
  deriving DecidableEq, Repr

namespace TypeCodes

/-- The number that stands for a list without parameters. -/
def nil : Int := -1

/-- The number of `void`. -/
def void : Int := 0

/-- The types with a fixed number. -/
def fixed : List (String × Int) :=
  [("nil", nil), ("void", void), ("i1", 1), ("i8", 2), ("i16", 3), ("i32", 4), ("f16", 5),
    ("f32", 6), ("f64", 7), ("void*", 8)]

/-- The numbers before any type has been seen. -/
def initial : TypeCodes :=
  ⟨.ofList fixed, 9⟩

/-- The number of a type, if it has one. -/
def code? (t : TypeCodes) (type : String) : Option Int :=
  t.codes.find? type

/-- The number of a type, which is handed out if it has none. -/
def code (t : TypeCodes) (type : String) : Int × TypeCodes :=
  match t.code? type with
  | some n => (n, t)
  | none => (t.next, ⟨t.codes.insert type t.next, t.next + 1⟩)

/-- The number of a return type; an empty one is `void`. -/
def ret (t : TypeCodes) (type : String) : Int × TypeCodes :=
  if type = "" then (void, t) else t.code type

/-- The numbers of types, one after the other. -/
def codeAll (t : TypeCodes) : List String → List Int × TypeCodes
  | [] => ([], t)
  | type :: types =>
    let (n, t) := t.code type
    let (ns, t) := t.codeAll types
    (n :: ns, t)

/-- The numbers of parameter types; without parameters there is one number that
says so. -/
def params (t : TypeCodes) (types : List String) : List Int × TypeCodes :=
  if types.isEmpty then ([nil], t) else t.codeAll types

/-- The numbers of a signature. -/
def signature (t : TypeCodes) (s : Signature) : SignatureCode × TypeCodes :=
  let (ret, t) := t.ret s.ret
  let (params, t) := t.params s.args
  (⟨ret, params⟩, t)

end TypeCodes

end CallGuard
