import CallGuard.Proofs.Ir.Ty.Tokens

/-!
Types that are written like other types. A name of digits is written like a quoted number,
and a pointer with an address space to an opaque pointer like a pointer to an opaque pointer
with this address space.

* `Ty.subterms`, `Ty.Everywhere`: the types that a type is made of.
* `Ty.IsDigitName`, `Ty.IsSpacedOpaque`: the types that are not read back.
* `Ty.straighten`: the type that is read instead.
-/

namespace CallGuard.Ir

namespace Ty

/-- Induction over types, with the types in lists. -/
@[elab_as_elim]
lemma induct {motive : Ty → Prop} (keyword : ∀ kind, motive (.keyword kind))
    (int : ∀ bits, motive (.int bits)) (ptr : ∀ space, motive (.ptr space))
    (pointer : ∀ pointee space, motive pointee → motive (.pointer pointee space))
    (array : ∀ length element, motive element → motive (.array length element))
    (vector : ∀ length scalable element, motive element → motive (.vector length scalable element))
    (struct : ∀ packed fields, (∀ t ∈ fields, motive t) → motive (.struct packed fields))
    (named : ∀ name, motive (.named name)) (numbered : ∀ number, motive (.numbered number))
    (func : ∀ ret params variadic, motive ret → (∀ t ∈ params, motive t) →
      motive (.func ret params variadic))
    (target : ∀ name types ints, (∀ t ∈ types, motive t) → motive (.target name types ints))
    (t : Ty) : motive t :=
  @Ty.rec motive (fun ts => ∀ t ∈ ts, motive t) keyword int ptr pointer array vector struct named
    numbered func target (by simp) (fun _ _ ht hts => List.forall_mem_cons.mpr ⟨ht, hts⟩) t

/-! ### Subterms -/

mutual

/-- A type and the types that it is made of. -/
@[simp] def subterms : Ty → List Ty
  | .pointer pointee space => .pointer pointee space :: pointee.subterms
  | .array length element => .array length element :: element.subterms
  | .vector length scalable element => .vector length scalable element :: element.subterms
  | .struct packed fields => .struct packed fields :: subtermsOf fields
  | .func ret params variadic => .func ret params variadic :: (ret.subterms ++ subtermsOf params)
  | .target name types ints => .target name types ints :: subtermsOf types
  | t => [t]

/-- The types that some types are made of. -/
@[simp] def subtermsOf : List Ty → List Ty
  | [] => []
  | t :: ts => t.subterms ++ subtermsOf ts

end

/-- All types that a type is made of have a property. -/
def Everywhere (P : Ty → Prop) (t : Ty) : Prop :=
  ∀ s ∈ t.subterms, P s

section Everywhere

variable {P : Ty → Prop}

lemma forall_mem_subtermsOf {ts : List Ty} :
    (∀ s ∈ subtermsOf ts, P s) ↔ ∀ t ∈ ts, t.Everywhere P := by
  induction ts with
  | nil => simp [subtermsOf]
  | cons t ts ih => rw [subtermsOf, List.forall_mem_append, ih, List.forall_mem_cons, Everywhere]

lemma mem_subterms_self (t : Ty) : t ∈ t.subterms := by
  cases t <;> simp [subterms]

lemma Everywhere.self {t : Ty} (h : t.Everywhere P) : P t :=
  h t t.mem_subterms_self

lemma everywhere_pointer {t : Ty} {space : UInt32} :
    (pointer t space).Everywhere P ↔ P (pointer t space) ∧ t.Everywhere P := by
  simp [Everywhere, subterms]

lemma everywhere_array {t : Ty} {length : UInt64} :
    (array length t).Everywhere P ↔ P (array length t) ∧ t.Everywhere P := by
  simp [Everywhere, subterms]

lemma everywhere_vector {t : Ty} {length : UInt64} {scalable : Bool} :
    (vector length scalable t).Everywhere P ↔ P (vector length scalable t) ∧ t.Everywhere P := by
  simp [Everywhere, subterms]

lemma everywhere_struct {ts : List Ty} {packed : Bool} :
    (struct packed ts).Everywhere P ↔ P (struct packed ts) ∧ ∀ t ∈ ts, t.Everywhere P := by
  rw [Everywhere, subterms, List.forall_mem_cons, forall_mem_subtermsOf]

lemma everywhere_func {t : Ty} {ts : List Ty} {variadic : Bool} :
    (func t ts variadic).Everywhere P ↔
      P (func t ts variadic) ∧ t.Everywhere P ∧ ∀ t ∈ ts, t.Everywhere P := by
  rw [Everywhere, subterms, List.forall_mem_cons, List.forall_mem_append, forall_mem_subtermsOf,
    Everywhere]

lemma everywhere_target {name : String} {ts : List Ty} {ints : List UInt32} :
    (target name ts ints).Everywhere P ↔ P (target name ts ints) ∧ ∀ t ∈ ts, t.Everywhere P := by
  rw [Everywhere, subterms, List.forall_mem_cons, forall_mem_subtermsOf]

end Everywhere

/-! ### Types that are not read back -/

/-- A structure with a name of digits. -/
def IsDigitName : Ty → Prop
  | .named name => name ≠ "" ∧ ∀ c ∈ name.toList, c.isDigit
  | _ => False

/-- A pointer with an address space to an opaque pointer without one. -/
def IsSpacedOpaque : Ty → Prop
  | .pointer pointee space => pointee = .ptr 0 ∧ space ≠ 0
  | _ => False

/-- No part of a type is written like another one. -/
def Readable : Ty → Prop :=
  Everywhere fun s => ¬ s.IsDigitName ∧ ¬ s.IsSpacedOpaque

mutual

/-- The type with the address spaces of pointers to opaque pointers moved to these. -/
@[simp] def straighten : Ty → Ty
  | .pointer pointee space =>
    if pointee = .ptr 0 then .pointer (.ptr space) 0 else .pointer pointee.straighten space
  | .array length element => .array length element.straighten
  | .vector length scalable element => .vector length scalable element.straighten
  | .struct packed fields => .struct packed (straightenAll fields)
  | .func ret params variadic => .func ret.straighten (straightenAll params) variadic
  | .target name types ints => .target name (straightenAll types) ints
  | t => t

/-- The same for some types. -/
@[simp] def straightenAll : List Ty → List Ty
  | [] => []
  | t :: ts => t.straighten :: straightenAll ts

end

mutual

/-- The straightened type is written like the type. -/
lemma print_straighten (t : Ty) : t.straighten.print = t.print := by
  cases t with
  | pointer pointee space =>
      rw [straighten]
      split
      · rename_i h
        have hzero : printSpace 0 = [] := rfl
        rw [h, print_pointer, print_pointer, print_ptr, print_ptr, hzero, List.nil_append,
          List.append_nil, List.append_assoc]
      · rw [print_pointer, print_pointer, print_straighten pointee]
  | array length element => rw [straighten, print_array, print_array, print_straighten element]
  | vector length scalable element =>
      rw [straighten, print_vector, print_vector, print_straighten element]
  | struct packed fields =>
      cases fields with
      | nil => rfl
      | cons t ts =>
          rw [straighten, straightenAll, print_struct_cons, print_struct_cons, print_straighten t,
            printAfterComma_straightenAll ts]
  | func ret params variadic =>
      cases params with
      | nil => rw [straighten, straightenAll, print_func, print_func, print_straighten ret]
      | cons t ts =>
          rw [straighten, straightenAll, print_func, print_func, print_straighten ret, printParams,
            printParams, print_straighten t, printAfterComma_straightenAll ts]
  | target name types ints =>
      rw [straighten, print_target, print_target, printAfterComma_straightenAll types]
  | _ => rfl

lemma printAfterComma_straightenAll (ts : List Ty) :
    printAfterComma (straightenAll ts) = printAfterComma ts := by
  cases ts with
  | nil => rfl
  | cons t ts =>
      rw [straightenAll, printAfterComma_cons, printAfterComma_cons, print_straighten t,
        printAfterComma_straightenAll ts]

end

/-- No other type becomes an opaque pointer. -/
lemma straighten_eq_ptr_iff {t : Ty} {space : UInt32} :
    t.straighten = .ptr space ↔ t = .ptr space := by
  cases t with
  | pointer pointee space' =>
      rw [straighten]
      split <;> simp
  | _ => simp [straighten]

mutual

/-- Without names of digits, the straightened type is not written like another one. -/
lemma readable_straighten (t : Ty) (h : t.Everywhere fun s => ¬ s.IsDigitName) :
    t.straighten.Readable := by
  cases t with
  | pointer pointee space =>
      have hpointee := readable_straighten pointee (everywhere_pointer.mp h).2
      rw [straighten]
      split
      · refine everywhere_pointer.mpr ⟨⟨id, fun hspaced => hspaced.2 rfl⟩, ?_⟩
        simp [Everywhere, subterms, IsDigitName, IsSpacedOpaque]
      · rename_i hne
        refine everywhere_pointer.mpr ⟨⟨id, fun hspaced => ?_⟩, hpointee⟩
        exact hne (straighten_eq_ptr_iff.mp hspaced.1)
  | array length element =>
      rw [straighten]
      exact everywhere_array.mpr ⟨⟨id, id⟩, readable_straighten element (everywhere_array.mp h).2⟩
  | vector length scalable element =>
      rw [straighten]
      exact everywhere_vector.mpr ⟨⟨id, id⟩, readable_straighten element (everywhere_vector.mp h).2⟩
  | struct packed fields =>
      rw [straighten]
      exact everywhere_struct.mpr ⟨⟨id, id⟩,
        readable_straightenAll fields (everywhere_struct.mp h).2⟩
  | func ret params variadic =>
      obtain ⟨-, hret, hparams⟩ := everywhere_func.mp h
      rw [straighten]
      exact everywhere_func.mpr ⟨⟨id, id⟩, readable_straighten ret hret,
        readable_straightenAll params hparams⟩
  | target name types ints =>
      rw [straighten]
      exact everywhere_target.mpr ⟨⟨id, id⟩,
        readable_straightenAll types (everywhere_target.mp h).2⟩
  | _ =>
      intro s hs
      have hdigits := h.self
      obtain rfl := List.mem_singleton.mp hs
      exact ⟨hdigits, id⟩

lemma readable_straightenAll (ts : List Ty)
    (h : ∀ t ∈ ts, t.Everywhere fun s => ¬ s.IsDigitName) : ∀ t ∈ straightenAll ts, t.Readable := by
  cases ts with
  | nil => simp [straightenAll]
  | cons t ts =>
      rw [List.forall_mem_cons] at h
      rw [straightenAll, List.forall_mem_cons]
      exact ⟨readable_straighten t h.1, readable_straightenAll ts h.2⟩

end

mutual

/-- A type that is straight has no address space to move. -/
lemma not_isSpacedOpaque_of_straighten_eq (t : Ty) (h : t.straighten = t) :
    t.Everywhere fun s => ¬ s.IsSpacedOpaque := by
  cases t with
  | pointer pointee space =>
      rw [straighten] at h
      split at h
      · rename_i hpointee
        have hspace : space = 0 := by
          rw [hpointee] at h
          simpa using (pointer.inj h).1
        rw [hpointee, hspace]
        simp [Everywhere, subterms, IsSpacedOpaque]
      · rename_i hne
        exact everywhere_pointer.mpr ⟨fun hspaced => hne hspaced.1,
          not_isSpacedOpaque_of_straighten_eq pointee (pointer.inj h).1⟩
  | array length element =>
      rw [straighten] at h
      exact everywhere_array.mpr ⟨id,
        not_isSpacedOpaque_of_straighten_eq element (array.inj h).2⟩
  | vector length scalable element =>
      rw [straighten] at h
      exact everywhere_vector.mpr ⟨id,
        not_isSpacedOpaque_of_straighten_eq element (vector.inj h).2.2⟩
  | struct packed fields =>
      rw [straighten] at h
      exact everywhere_struct.mpr ⟨id,
        not_isSpacedOpaque_of_straightenAll_eq fields (struct.inj h).2⟩
  | func ret params variadic =>
      rw [straighten] at h
      obtain ⟨hret, hparams, -⟩ := func.inj h
      exact everywhere_func.mpr ⟨id, not_isSpacedOpaque_of_straighten_eq ret hret,
        not_isSpacedOpaque_of_straightenAll_eq params hparams⟩
  | target name types ints =>
      rw [straighten] at h
      exact everywhere_target.mpr ⟨id,
        not_isSpacedOpaque_of_straightenAll_eq types (target.inj h).2.1⟩
  | _ =>
      intro s hs
      obtain rfl := List.mem_singleton.mp hs
      exact id

lemma not_isSpacedOpaque_of_straightenAll_eq (ts : List Ty) (h : straightenAll ts = ts) :
    ∀ t ∈ ts, t.Everywhere fun s => ¬ s.IsSpacedOpaque := by
  cases ts with
  | nil => simp
  | cons t ts =>
      rw [straightenAll, List.cons.injEq] at h
      exact List.forall_mem_cons.mpr ⟨not_isSpacedOpaque_of_straighten_eq t h.1,
        not_isSpacedOpaque_of_straightenAll_eq ts h.2⟩

end

end Ty

end CallGuard.Ir
