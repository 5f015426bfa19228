import CallGuard.Text.Numeral

/-!
The types of the intermediate representation.

* `Ty`: the types. Widths, address spaces and lengths are machine words, so every
  value of `Ty` is a type that can be written.
* `FunctionType`: return type, parameter types and whether more arguments may
  follow.
* `Ty.ofKeyword?`: the type that a single keyword spells.
* `Ty.beq_iff_eq`: the equality test decides equality.
-/

namespace CallGuard.Ir

/-- The types that one fixed keyword spells. -/
inductive KeywordType where
  | void | label | metadata | token | x86Mmx | x86Amx
  | half | bfloat | float | double | x86Fp80 | fp128 | ppcFp128
  deriving DecidableEq, Repr

namespace KeywordType

/-- All of them, the floating-point types last. -/
def all : List KeywordType :=
  [.void, .label, .metadata, .token, .x86Mmx, .x86Amx,
    .half, .bfloat, .float, .double, .x86Fp80, .fp128, .ppcFp128]

/-- The keyword of a type. -/
def keyword : KeywordType → String
  | void => "void"
  | label => "label"
  | metadata => "metadata"
  | token => "token"
  | x86Mmx => "x86_mmx"
  | x86Amx => "x86_amx"
  | half => "half"
  | bfloat => "bfloat"
  | float => "float"
  | double => "double"
  | x86Fp80 => "x86_fp80"
  | fp128 => "fp128"
  | ppcFp128 => "ppc_fp128"

/-- Whether this is a floating-point type. -/
def isFloat : KeywordType → Bool
  | half | bfloat | float | double | x86Fp80 | fp128 | ppcFp128 => true
  | _ => false

/-- The type that a keyword spells. -/
def ofKeyword? (s : String) : Option KeywordType :=
  all.find? (·.keyword == s)

/-- Every keyword is read as its type. -/
theorem ofKeyword?_keyword (t : KeywordType) : ofKeyword? t.keyword = some t := by
  cases t <;> decide

end KeywordType

/-- A type of the intermediate representation. -/
inductive Ty where
  /-- A type that one fixed keyword spells. -/
  | keyword (kind : KeywordType)
  /-- An integer of the given width. -/
  | int (bits : UInt32)
  /-- A pointer that does not say what it points to. -/
  | ptr (space : UInt32)
  /-- A pointer to values of a type. -/
  | pointer (pointee : Ty) (space : UInt32)
  /-- An array. -/
  | array (length : UInt64) (element : Ty)
  /-- A vector, of a fixed length or of a multiple of it known only at run time. -/
  | vector (length : UInt64) (scalable : Bool) (element : Ty)
  /-- A structure without a name. -/
  | struct (packed : Bool) (fields : List Ty)
  /-- A structure referred to by name. -/
  | named (name : String)
  /-- A structure referred to by number. -/
  | numbered (number : UInt32)
  /-- The type of a function. -/
  | func (ret : Ty) (params : List Ty) (variadic : Bool)
  /-- A type that only the target knows. -/
  | target (name : String) (types : List Ty) (ints : List UInt32)

/-- The type of a function: return type, parameters, and whether more arguments
may follow them. -/
structure FunctionType where
  /-- The return type. -/
  ret : Ty
  /-- The types of the fixed parameters. -/
  params : List Ty
  /-- Whether more arguments may follow. -/
  variadic : Bool := false

namespace Ty

/-- The type `void`. -/
abbrev void : Ty := .keyword .void

/-- The type that a single keyword spells, an integer type included. -/
def ofKeyword? (s : String) : Option Ty :=
  if s = "ptr" then some (.ptr 0)
  else
    match KeywordType.ofKeyword? s with
    | some kind => some (.keyword kind)
    | none =>
      match s.toList with
      | 'i' :: digits =>
        ((Text.readDecimal? digits).filter (· < UInt32.size)).map fun bits => .int (.ofNat bits)
      | _ => none

/-- Whether the type is `void`. -/
def isVoid : Ty → Bool
  | .keyword .void => true
  | _ => false

/-- Whether the type is a pointer. -/
def isPointer : Ty → Bool
  | .ptr _ | .pointer _ _ => true
  | _ => false

/-- The function type, if the type is one. -/
def asFunction? : Ty → Option FunctionType
  | .func ret params variadic => some ⟨ret, params, variadic⟩
  | _ => none

/-- The function type that a pointer points to. -/
def pointeeFunction? : Ty → Option FunctionType
  | .pointer pointee _ => pointee.asFunction?
  | _ => none

end Ty

/-- The function type as a type. -/
def FunctionType.toTy (f : FunctionType) : Ty :=
  .func f.ret f.params f.variadic

/-! ### Equality of types -/

namespace Ty

mutual

/-- The equality test of types. -/
def beq : Ty → Ty → Bool
  | .keyword a, .keyword b => a == b
  | .int a, .int b => a == b
  | .ptr a, .ptr b => a == b
  | .pointer p a, .pointer q b => p.beq q && a == b
  | .array m s, .array n t => m == n && s.beq t
  | .vector m a s, .vector n b t => m == n && a == b && s.beq t
  | .struct a ss, .struct b ts => a == b && beqList ss ts
  | .named a, .named b => a == b
  | .numbered a, .numbered b => a == b
  | .func r ss a, .func s ts b => r.beq s && beqList ss ts && a == b
  | .target a ss ms, .target b ts ns => a == b && beqList ss ts && ms == ns
  | _, _ => false

/-- The equality test of lists of types. -/
def beqList : List Ty → List Ty → Bool
  | [], [] => true
  | s :: ss, t :: ts => s.beq t && beqList ss ts
  | _, _ => false

end

mutual

/-- The test holds of equal types only, and of all of them. -/
theorem beq_iff_eq (s t : Ty) : s.beq t = true ↔ s = t := by
  cases s <;> cases t <;>
    simp [beq, beq_iff_eq _ _, beqList_iff_eq _ _, and_assoc]

/-- The test holds of equal lists only, and of all of them. -/
theorem beqList_iff_eq (ss ts : List Ty) : beqList ss ts = true ↔ ss = ts := by
  cases ss with
  | nil => cases ts <;> simp [beqList]
  | cons s ss =>
    cases ts with
    | nil => simp [beqList]
    | cons t ts => simp [beqList, beq_iff_eq s t, beqList_iff_eq ss ts]

end

instance : DecidableEq Ty := fun s t => decidable_of_iff _ (beq_iff_eq s t)

end Ty

deriving instance DecidableEq for FunctionType

end CallGuard.Ir
