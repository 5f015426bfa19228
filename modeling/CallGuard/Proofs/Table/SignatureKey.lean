import CallGuard.Table.SignatureSet
import Mathlib

/-!
The numbers of types and the keys of signatures. Types are numbered as they are
seen, so a number says nothing by itself; two signatures that are numbered by one
table, at any two moments, have the same key only if they are the same.

* `TypeCodes.Sound`, `TypeCodes.Sound.signature`: what numbering keeps true.
* `TypeCodes.Encodes`, `encodes_signature`: what the numbers of a signature say.
* `SignatureCode.key_inj`: a key determines the numbers that it is made of.
* `TypeCodes.Encodes.key_eq_iff`: keys are equal exactly when the signatures are, up
  to how an empty part is written.
-/

namespace CallGuard

/-- The signature with its empty parts written out: `void` for no return type,
`nil` for no parameters. -/
def Signature.normal (s : Signature) : Signature :=
  ⟨if s.ret = "" then "void" else s.ret, if s.args.isEmpty then ["nil"] else s.args⟩

/-- A signature is its two parts. -/
lemma Signature.ext {s s' : Signature} (hr : s.ret = s'.ret) (ha : s.args = s'.args) : s = s' := by
  obtain ⟨r, as⟩ := s
  obtain ⟨r', as'⟩ := s'
  rw [Signature.mk.injEq]
  exact ⟨hr, ha⟩

/-- A look-up finds exactly the entries of the map. -/
lemma OrderedMap.find?_eq_some_iff {α : Type} {m : OrderedMap α} {key : String} {v : α} :
    m.find? key = some v ↔ (key, v) ∈ m.entries := by
  obtain ⟨es, hes⟩ := m
  rw [OrderedMap.find?]
  induction es with
  | nil => simp
  | cons e es ih =>
      obtain ⟨k, w⟩ := e
      rw [List.map_cons, List.nodup_cons] at hes
      have ih := ih hes.2
      rw [List.lookup_cons, List.mem_cons, Prod.mk.injEq]
      by_cases h : key = k
      · subst h
        have hnot : (key, v) ∉ es := fun hv => hes.1 (List.mem_map.mpr ⟨_, hv, rfl⟩)
        simp [hnot, eq_comm]
      · have hb : (key == k) = false := by simpa using h
        simp [hb, h, ih]

namespace TypeCodes

/-! ### Numbering -/

/-- What holds of every numbering: no number is handed out twice, the next one is
above all others, and `nil` and `void` have their fixed numbers. -/
structure Sound (t : TypeCodes) : Prop where
  inj : ∀ {a b n}, t.code? a = some n → t.code? b = some n → a = b
  lt_next : ∀ {a n}, t.code? a = some n → n < t.next
  code?_nil : t.code? "nil" = some nil
  code?_void : t.code? "void" = some void

/-- The second numbering has all numbers of the first. -/
def Keeps (t u : TypeCodes) : Prop :=
  ∀ a n, t.code? a = some n → u.code? a = some n

lemma Keeps.rfl {t : TypeCodes} : t.Keeps t := fun _ _ h => h

lemma Keeps.trans {t u v : TypeCodes} (h : t.Keeps u) (h' : u.Keeps v) : t.Keeps v :=
  fun a n ha => h' a n (h a n ha)

/-- The fixed numbers are all different and below nine. -/
lemma initial_sound : initial.Sound := by
  have hmem : ∀ {a n}, initial.code? a = some n → (a, n) ∈ fixed := fun h =>
    OrderedMap.find?_eq_some_iff.mp h
  refine ⟨fun {a b n} ha hb => ?_, fun {a n} ha => ?_, rfl, rfl⟩
  · have hinj : ∀ p ∈ fixed, ∀ q ∈ fixed, p.2 = q.2 → p.1 = q.1 := by decide
    exact hinj _ (hmem ha) _ (hmem hb) rfl
  · have hlt : ∀ p ∈ fixed, p.2 < 9 := by decide
    exact hlt _ (hmem ha)

lemma code_of_some {t : TypeCodes} {a : String} {n : Int} (h : t.code? a = some n) :
    t.code a = (n, t) := by
  simp [code, h]

lemma code_of_none {t : TypeCodes} {a : String} (h : t.code? a = none) :
    t.code a = (t.next, ⟨t.codes.insert a t.next, t.next + 1⟩) := by
  simp [code, h]

/-- The numbers after a new type has got the next one. -/
lemma code?_code_of_none {t : TypeCodes} {a : String} (h : t.code? a = none) (b : String) :
    (t.code a).2.code? b = if b = a then some t.next else t.code? b := by
  rw [code_of_none h]
  exact t.codes.find?_insert a t.next b

/-- A type that is looked up has its number from then on. -/
lemma code?_code (t : TypeCodes) (a : String) : (t.code a).2.code? a = some (t.code a).1 := by
  cases h : t.code? a with
  | some n => rw [code_of_some h, h]
  | none => rw [code?_code_of_none h, if_pos rfl, code_of_none h]

/-- Looking up a type takes no number away. -/
lemma keeps_code (t : TypeCodes) (a : String) : t.Keeps (t.code a).2 := by
  intro b n hb
  cases h : t.code? a with
  | some k => rw [code_of_some h, hb]
  | none =>
      have hne : b ≠ a := by
        rintro rfl
        rw [h] at hb
        exact absurd hb (by simp)
      rw [code?_code_of_none h, if_neg hne, hb]

/-- One step of numbering: a new type gets a number that no other type has. -/
lemma Sound.code {t : TypeCodes} (ht : t.Sound) (a : String) : (t.code a).2.Sound := by
  cases h : t.code? a with
  | some k =>
      rw [code_of_some h]
      exact ht
  | none =>
      have hk := t.keeps_code a
      have hfind := code?_code_of_none h
      have hnext : (t.code a).2.next = t.next + 1 := by rw [code_of_none h]
      refine ⟨fun {b c n} hb hc => ?_, fun {b n} hb => ?_, hk _ _ ht.code?_nil,
        hk _ _ ht.code?_void⟩
      · rw [hfind] at hb hc
        split_ifs at hb hc with h₁ h₂ h₂
        · rw [h₁, h₂]
        -- an old number is below the next one, so it is not the new one
        · have := ht.lt_next hc
          simp only [Option.some.injEq] at hb
          omega
        · have := ht.lt_next hb
          simp only [Option.some.injEq] at hc
          omega
        · exact ht.inj hb hc
      · rw [hfind] at hb
        rw [hnext]
        split_ifs at hb with h₁
        · simp only [Option.some.injEq] at hb
          omega
        · have := ht.lt_next hb
          omega

/-! ### Numbers of a signature -/

/-- The numbers `c` are those of the signature `s`. -/
def Encodes (t : TypeCodes) (s : Signature) (c : SignatureCode) : Prop :=
  t.code? s.normal.ret = some c.ret ∧ s.normal.args.map t.code? = c.params.map some

lemma map_code?_of_keeps {t u : TypeCodes} (h : t.Keeps u) {types : List String}
    {ns : List Int} (hn : types.map t.code? = ns.map some) :
    types.map u.code? = ns.map some := by
  induction types generalizing ns with
  | nil => simpa using hn
  | cons a types ih =>
      cases ns with
      | nil => simp at hn
      | cons n ns =>
          simp only [List.map_cons, List.cons.injEq] at hn ⊢
          exact ⟨h a n hn.1, ih hn.2⟩

/-- Numbers of a signature stay its numbers when more types are numbered. -/
lemma Encodes.mono {t u : TypeCodes} (h : t.Keeps u) {s : Signature} {c : SignatureCode}
    (hc : t.Encodes s c) : u.Encodes s c :=
  ⟨h _ _ hc.1, map_code?_of_keeps h hc.2⟩

lemma codeAll_spec {t : TypeCodes} (ht : t.Sound) (types : List String) :
    (t.codeAll types).2.Sound ∧ t.Keeps (t.codeAll types).2 ∧
      types.map (t.codeAll types).2.code? = (t.codeAll types).1.map some := by
  induction types generalizing t with
  | nil => exact ⟨ht, Keeps.rfl, rfl⟩
  | cons a types ih =>
      obtain ⟨hs, hk, hm⟩ := ih (ht.code a)
      refine ⟨hs, (t.keeps_code a).trans hk, ?_⟩
      simp only [codeAll, List.map_cons, List.cons.injEq]
      exact ⟨hk _ _ (t.code?_code a), hm⟩

lemma ret_spec {t : TypeCodes} (ht : t.Sound) (type : String) :
    (t.ret type).2.Sound ∧ t.Keeps (t.ret type).2 ∧
      (t.ret type).2.code? (if type = "" then "void" else type) = some (t.ret type).1 := by
  by_cases h : type = ""
  · simp only [ret, h, if_true]
    exact ⟨ht, Keeps.rfl, ht.code?_void⟩
  · simp only [ret, h, if_false]
    exact ⟨ht.code type, t.keeps_code type, t.code?_code type⟩

lemma params_spec {t : TypeCodes} (ht : t.Sound) (types : List String) :
    (t.params types).2.Sound ∧ t.Keeps (t.params types).2 ∧
      (if types.isEmpty then ["nil"] else types).map (t.params types).2.code? =
        (t.params types).1.map some := by
  cases types with
  | nil => exact ⟨ht, Keeps.rfl, by simpa [params] using ht.code?_nil⟩
  | cons a types => exact codeAll_spec ht (a :: types)

/-- Numbering a signature keeps the numbering sound. -/
lemma Sound.signature {t : TypeCodes} (ht : t.Sound) (s : Signature) :
    (t.signature s).2.Sound :=
  (params_spec (ret_spec ht s.ret).1 s.args).1

lemma keeps_signature {t : TypeCodes} (ht : t.Sound) (s : Signature) :
    t.Keeps (t.signature s).2 :=
  (ret_spec ht s.ret).2.1.trans (params_spec (ret_spec ht s.ret).1 s.args).2.1

/-- A signature that is numbered has these numbers from then on. -/
lemma encodes_signature {t : TypeCodes} (ht : t.Sound) (s : Signature) :
    (t.signature s).2.Encodes s (t.signature s).1 := by
  obtain ⟨hs, -, hr⟩ := ret_spec ht s.ret
  obtain ⟨-, hk, hp⟩ := params_spec hs s.args
  exact ⟨hk _ _ hr, hp⟩

lemma Encodes.params_ne_nil {t : TypeCodes} {s : Signature} {c : SignatureCode}
    (h : t.Encodes s c) : c.params ≠ [] := by
  intro hc
  have hs := h.2
  rw [hc, List.map_nil, List.map_eq_nil_iff] at hs
  cases ha : s.args <;> simp [Signature.normal, ha] at hs

/-- Lists of types with the same numbers are the same. -/
lemma Sound.map_inj {t : TypeCodes} (ht : t.Sound) {as bs : List String} {ns : List Int}
    (ha : as.map t.code? = ns.map some) (hb : bs.map t.code? = ns.map some) : as = bs := by
  induction ns generalizing as bs with
  | nil =>
      rw [List.map_nil, List.map_eq_nil_iff] at ha hb
      rw [ha, hb]
  | cons n ns ih =>
      cases as with
      | nil => simp at ha
      | cons a as =>
          cases bs with
          | nil => simp at hb
          | cons b bs =>
              simp only [List.map_cons, List.cons.injEq] at ha hb
              rw [ht.inj ha.1 hb.1, ih ha.2 hb.2]

/-- Signatures have the same numbers only if they are the same. -/
lemma Encodes.eq_iff {t : TypeCodes} (ht : t.Sound) {s s' : Signature} {c c' : SignatureCode}
    (h : t.Encodes s c) (h' : t.Encodes s' c') : c = c' ↔ s.normal = s'.normal := by
  constructor
  · rintro rfl
    exact Signature.ext (ht.inj h.1 h'.1) (ht.map_inj h.2 h'.2)
  · intro hs
    have hret : some c.ret = some c'.ret := h.1.symm.trans (hs ▸ h'.1)
    have hparams : c.params.map some = c'.params.map some := h.2.symm.trans (hs ▸ h'.2)
    have hinj : Function.Injective (some : Int → Option Int) := Option.some_injective _
    obtain ⟨r, ps⟩ := c
    obtain ⟨r', ps'⟩ := c'
    rw [SignatureCode.mk.injEq]
    exact ⟨hinj hret, hinj.list_map hparams⟩

end TypeCodes

/-! ### Keys -/

/-- Numerals, each after an underscore. -/
def numerals (ns : List Int) : List Char :=
  ns.flatMap fun n => '_' :: n.repr.toList

lemma numerals_cons (n : Int) (ns : List Int) :
    numerals (n :: ns) = '_' :: (n.repr.toList ++ numerals ns) := rfl

/-- A numeral has no underscore. -/
lemma underscore_notMem_repr (n : Int) : '_' ∉ n.repr.toList := by
  rw [Int.repr_eq_if]
  split <;> simp [Nat.toList_repr, Nat.underscore_not_in_toDigits]

/-- The first numeral reaches to the next underscore. -/
lemma takeWhile_repr_append_numerals (n : Int) (ns : List Int) :
    (n.repr.toList ++ numerals ns).takeWhile (· != '_') = n.repr.toList := by
  have hn : ∀ c ∈ n.repr.toList, (c != '_') = true := by
    intro c hc
    have : c ≠ '_' := fun h => underscore_notMem_repr n (h ▸ hc)
    simpa using this
  have hns : (numerals ns).takeWhile (· != '_') = [] := by
    cases ns with
    | nil => rfl
    | cons m ms => rw [numerals_cons]; simp
  rw [List.takeWhile_append_of_pos hn, hns, List.append_nil]

/-- Numerals after underscores can be read back. -/
lemma numerals_inj {ns ms : List Int} (h : numerals ns = numerals ms) : ns = ms := by
  induction ns generalizing ms with
  | nil =>
      cases ms with
      | nil => rfl
      | cons m ms => simp [numerals] at h
  | cons n ns ih =>
      cases ms with
      | nil => simp [numerals] at h
      | cons m ms =>
          rw [numerals_cons, numerals_cons, List.cons.injEq] at h
          have htake := congrArg (List.takeWhile (· != '_')) h.2
          rw [takeWhile_repr_append_numerals, takeWhile_repr_append_numerals] at htake
          have hrest : numerals ns = numerals ms := by
            have h₂ := h.2
            rw [htake] at h₂
            exact List.append_cancel_left h₂
          have hnm : n.repr = m.repr := String.toList_inj.mp htake
          rw [Int.repr_inj.mp hnm, ih hrest]

namespace SignatureCode

/-- A key is the numerals of its numbers. -/
lemma toList_key {c : SignatureCode} (hc : c.params ≠ []) :
    '_' :: c.key.toList = numerals (c.ret :: c.params) := by
  have hp : c.params.isEmpty = false := by simpa using hc
  rw [key, hp, numerals_cons, numerals]
  simp [List.flatMap_map]

/-- A key determines the numbers that it is made of. -/
lemma key_inj {c c' : SignatureCode} (hc : c.params ≠ []) (hc' : c'.params ≠ []) :
    c.key = c'.key ↔ c = c' := by
  refine ⟨fun h => ?_, fun h => by rw [h]⟩
  have hn : numerals (c.ret :: c.params) = numerals (c'.ret :: c'.params) := by
    rw [← toList_key hc, ← toList_key hc', h]
  obtain ⟨r, ps⟩ := c
  obtain ⟨r', ps'⟩ := c'
  have := numerals_inj hn
  rwa [List.cons.injEq, ← SignatureCode.mk.injEq] at this

end SignatureCode

namespace TypeCodes

/-- Keys are equal exactly when the signatures are, however types were numbered. -/
lemma Encodes.key_eq_iff {t : TypeCodes} (ht : t.Sound) {s s' : Signature}
    {c c' : SignatureCode} (h : t.Encodes s c) (h' : t.Encodes s' c') :
    c.key = c'.key ↔ s.normal = s'.normal := by
  rw [SignatureCode.key_inj h.params_ne_nil h'.params_ne_nil, h.eq_iff ht h']

/-- The signature of functions that return nothing and take nothing. -/
def plain : Signature := ⟨"void", ["nil"]⟩

/-- The fallback key is the key of the plain signature. -/
lemma Sound.encodes_plain {t : TypeCodes} (ht : t.Sound) :
    t.Encodes plain ⟨void, [nil]⟩ :=
  ⟨ht.code?_void, by simpa [plain, Signature.normal] using ht.code?_nil⟩

end TypeCodes

lemma key_plain : (⟨TypeCodes.void, [TypeCodes.nil]⟩ : SignatureCode).key = fallbackKey := by
  decide

end CallGuard
