import CallGuard.Guard
import CallGuard.Proofs.Table.Layout

/-!
The guards of a table. A guard is built from a table and may then be shuffled, any
number of times; whatever is done to it, its sets stay those of the table and its
layout fits them.

* `entriesFrom_spec`: the entries of a table are its references in order, each with
  the numbers of its signature.
* `Guard.Built`: the guards that can be made of a table.
* `Built.fits`: their layouts fit their sets.
* `Built.resolve_eq_callKey`: the key of a call depends on its signature alone.
-/

namespace CallGuard

namespace Guard

/-! ### The entries of a table -/

/-- The entries of a table. -/
def entriesOf (report : Report) (table : List String) : List TableEntry :=
  (entriesFrom report 1 .initial table).1

/-- The signature that a report has for a reference. -/
def signatureFor (report : Report) (reference : String) : Signature :=
  signatureOf report (referenceName reference)

/-- The entry `e` stands for a reference: it has its name and its numbers. -/
def StandsFor (report : Report) (codes : TypeCodes) (reference : String) (e : TableEntry) :
    Prop :=
  e.name = referenceName reference ∧ codes.Encodes (signatureFor report reference) e.code

/-- The entries are the references in order, and the numbering stays sound. -/
lemma entriesFrom_spec (report : Report) (index : Nat) {codes : TypeCodes} (hc : codes.Sound)
    (table : List String) :
    (entriesFrom report index codes table).2.Sound ∧
      codes.Keeps (entriesFrom report index codes table).2 ∧
      (entriesFrom report index codes table).1.map TableEntry.index =
        List.range' index table.length ∧
      List.Forall₂ (StandsFor report (entriesFrom report index codes table).2) table
        (entriesFrom report index codes table).1 := by
  induction table generalizing index codes with
  | nil => exact ⟨hc, TypeCodes.Keeps.rfl, rfl, List.Forall₂.nil⟩
  | cons reference table ih =>
      have hs := hc.signature (signatureFor report reference)
      have hk := TypeCodes.keeps_signature hc (signatureFor report reference)
      have he := TypeCodes.encodes_signature hc (signatureFor report reference)
      obtain ⟨hsound, hkeeps, hindex, hall⟩ := ih (index + 1) hs
      refine ⟨hsound, hk.trans hkeeps, ?_, List.Forall₂.cons ⟨rfl, he.mono hkeeps⟩ hall⟩
      rw [List.length_cons, List.range'_succ, ← hindex]
      rfl

lemma map_index_entriesOf (report : Report) (table : List String) :
    (entriesOf report table).map TableEntry.index = List.range' 1 table.length :=
  (entriesFrom_spec report 1 TypeCodes.initial_sound table).2.2.1

lemma length_entriesOf (report : Report) (table : List String) :
    (entriesOf report table).length = table.length := by
  have := congrArg List.length (map_index_entriesOf report table)
  simpa using this

/-! ### Guards that can be made of a table -/

/-- The guards of a table: the sorted one, and what shuffling it and changing its
options makes of it. -/
inductive Built (report : Report) (table : List String) : Guard → Prop where
  | sorted : Built report table (ofTable report table)
  | shuffled {g : Guard} (words : List UInt32) :
      Built report table g → Built report table (g.randomize words)
  | withOffset {g : Guard} (n : UInt32) :
      Built report table g → Built report table { g with offset := n }
  | withCheckFunction {g : Guard} (name : String) :
      Built report table g → Built report table { g with checkFunction := name }

namespace Built

variable {report : Report} {table : List String} {g : Guard}

/-- Nothing that is done to a guard changes what it knows of its table. -/
lemma eq_ofTable (hg : Built report table g) :
    g.report = report ∧ g.table = table ∧ g.codes = (ofTable report table).codes ∧
      g.sets = SignatureSets.build (entriesOf report table) := by
  induction hg with
  | sorted => exact ⟨rfl, rfl, rfl, rfl⟩
  | shuffled words _ ih => exact ih
  | withOffset n _ ih => exact ih
  | withCheckFunction name _ ih => exact ih

lemma table_eq (hg : Built report table g) : g.table = table := hg.eq_ofTable.2.1

lemma sets_eq (hg : Built report table g) :
    g.sets = SignatureSets.build (entriesOf report table) :=
  hg.eq_ofTable.2.2.2

/-- The layout fits the sets, whatever was drawn. -/
lemma fits (hg : Built report table g) : g.layout.Fits g.sets := by
  have hindex : (entriesOf report table).map TableEntry.index =
      List.range' 1 (entriesOf report table).length := by
    rw [length_entriesOf, map_index_entriesOf]
  induction hg with
  | sorted => exact Layout.fits_sorted hindex
  | @shuffled g words hg _ =>
      have hfits := Layout.fits_randomized hindex words
      rw [← hg.sets_eq] at hfits
      exact hfits
  | withOffset n _ ih => exact ih
  | withCheckFunction name _ ih => exact ih

lemma indices_perm (hg : Built report table g) :
    g.layout.indices.Perm (List.range' 1 table.length) := by
  have h := hg.fits.perm
  rw [hg.sets_eq] at h
  rwa [← length_entriesOf report table]

lemma bounds_of_mem_indices (hg : Built report table g) {j : Nat} (hj : j ∈ g.layout.indices) :
    1 ≤ j ∧ j ≤ table.length := by
  have := hg.indices_perm.mem_iff.mp hj
  rw [List.mem_range'_1] at this
  omega

/-- The data of a guard spells its indices. -/
lemma readData?_dataString (hg : Built report table g) (hn : table.length < 2 ^ 32) :
    Layout.readData? g.layout.dataString = some g.layout.indices := by
  refine Layout.readData?_dataString fun j hj => ?_
  have := hg.bounds_of_mem_indices hj
  omega

/-- Every entry has a new index, at which it is in the reordered table. -/
lemma exists_newIndex (hg : Built report table g) {i : Nat} (hi : 1 ≤ i) (hin : i ≤ table.length) :
    ∃ j, g.layout.indices[i - 1]? = some j ∧ 1 ≤ j ∧ j ≤ table.length ∧
      (g.layout.reorder table)[j - 1]? = table[i - 1]? := by
  have hlt : i - 1 < g.layout.indices.length := by
    rw [hg.indices_perm.length_eq, List.length_range']
    omega
  have hget := List.getElem?_eq_getElem hlt
  obtain ⟨h1, h2⟩ := hg.bounds_of_mem_indices (List.mem_of_getElem? hget)
  exact ⟨_, hget, h1, h2, Layout.getElem?_reorder hg.indices_perm hget⟩

lemma codes_sound (hg : Built report table g) : g.codes.Sound := by
  rw [hg.eq_ofTable.2.2.1]
  exact (entriesFrom_spec report 1 TypeCodes.initial_sound table).1

lemma forall₂_standsFor (hg : Built report table g) :
    List.Forall₂ (StandsFor report g.codes) table (entriesOf report table) := by
  rw [hg.eq_ofTable.2.2.1]
  exact (entriesFrom_spec report 1 TypeCodes.initial_sound table).2.2.2

/-- The entry of a reference is at its place. -/
lemma getElem?_entriesOf (hg : Built report table g) {i : Nat} {reference : String}
    (h : table[i]? = some reference) :
    ∃ e, (entriesOf report table)[i]? = some e ∧ e.index = i + 1 ∧
      g.codes.Encodes (signatureFor report reference) e.code := by
  obtain ⟨hi, rfl⟩ := List.getElem?_eq_some_iff.mp h
  have hi' : i < (entriesOf report table).length := by rwa [length_entriesOf]
  have hindex : ((entriesOf report table).map TableEntry.index)[i]? = some (i + 1) := by
    rw [map_index_entriesOf, List.getElem?_range' hi, Nat.one_mul, Nat.add_comm]
  rw [List.getElem?_map, List.getElem?_eq_getElem hi', Option.map_some, Option.some.injEq] at hindex
  have hstands := (List.forall₂_iff_get.mp hg.forall₂_standsFor).2 i hi hi'
  exact ⟨_, List.getElem?_eq_getElem hi', hindex, hstands.2⟩

/-- Every entry has its reference. -/
lemma exists_reference (hg : Built report table g) {e : TableEntry}
    (he : e ∈ entriesOf report table) :
    ∃ i reference, table[i]? = some reference ∧ e.index = i + 1 ∧
      g.codes.Encodes (signatureFor report reference) e.code := by
  obtain ⟨i, hi⟩ := List.mem_iff_getElem?.mp he
  have hi' : i < table.length := by
    have := (List.getElem?_eq_some_iff.mp hi).1
    rwa [length_entriesOf] at this
  obtain ⟨e', he', hindex, henc⟩ := hg.getElem?_entriesOf (List.getElem?_eq_getElem hi')
  obtain rfl : e = e' := Option.some.inj (hi.symm.trans he')
  exact ⟨i, _, List.getElem?_eq_getElem hi', hindex, henc⟩

/-! ### The keys of calls -/

/-- A numbering that a guard can have come to by looking up calls. -/
def Reached (g : Guard) (codes : TypeCodes) : Prop :=
  codes.Sound ∧ g.codes.Keeps codes

lemma reached_codes (hg : Built report table g) : Reached g g.codes :=
  ⟨hg.codes_sound, TypeCodes.Keeps.rfl⟩

/-- There is a set for the key of a signature exactly if the table has a function of
the signature. -/
lemma contains_key_iff (hg : Built report table g) {codes : TypeCodes} (hc : Reached g codes)
    {s : Signature} {c : SignatureCode} (hs : codes.Encodes s c) :
    g.sets.contains c.key ↔
      ∃ reference ∈ table, (signatureFor report reference).normal = s.normal := by
  rw [SignatureSets.contains, Option.isSome_iff_exists, hg.sets_eq]
  simp only [SignatureSets.find?_build_eq_some_iff]
  constructor
  · rintro ⟨set, hset, hkey⟩
    -- the set has a member, and the member is of the signature
    obtain ⟨m, hm⟩ := List.exists_mem_of_ne_nil _ (SignatureSets.members_of_mem_build hset).1
    obtain ⟨e, he, hek, -⟩ := (SignatureSets.mem_members_build hset m).mp hm
    obtain ⟨i, reference, href, -, henc⟩ := hg.exists_reference he
    refine ⟨reference, List.mem_of_getElem? href, ?_⟩
    rw [← (henc.mono hc.2).key_eq_iff hc.1 hs, hek, hkey]
  · rintro ⟨reference, href, hnormal⟩
    obtain ⟨i, hi⟩ := List.mem_iff_getElem?.mp href
    obtain ⟨e, he, -, henc⟩ := hg.getElem?_entriesOf hi
    obtain ⟨set, hset, hkey⟩ := SignatureSets.exists_set_of_mem (List.mem_of_getElem? he)
    refine ⟨set, hset, hkey.trans ?_⟩
    rw [(henc.mono hc.2).key_eq_iff hc.1 hs, hnormal]

/-- Looking up a call gives it a number at most. -/
lemma Reached.signature {codes : TypeCodes} (hc : Reached g codes) (s : Signature) :
    Reached g (codes.signature s).2 :=
  ⟨hc.1.signature s, hc.2.trans (TypeCodes.keeps_signature hc.1 s)⟩

lemma Reached.resolve {codes : TypeCodes} (hc : Reached g codes) (s : Option Signature) :
    Reached g (g.resolve codes s).2 := by
  cases s with
  | none => exact hc
  | some s => exact hc.signature s

/-- A call of a signature that the table has is checked against the set of the
functions that have it. -/
lemma resolve_of_normal_eq (hg : Built report table g) {codes : TypeCodes} (hc : Reached g codes)
    {i : Nat} {reference : String} (href : table[i]? = some reference) {s : Signature}
    (hs : (signatureFor report reference).normal = s.normal) {e : TableEntry}
    (henc : g.codes.Encodes (signatureFor report reference) e.code) :
    (g.resolve codes (some s)).1 = e.code.key := by
  have hc' := hc.signature s
  have hcode := TypeCodes.encodes_signature hc.1 s
  have hkey : (codes.signature s).1.key = e.code.key := by
    rw [hcode.key_eq_iff hc'.1 (henc.mono hc'.2), hs]
  have hcontains : g.sets.contains (codes.signature s).1.key :=
    (hg.contains_key_iff hc' hcode).mpr ⟨reference, List.mem_of_getElem? href, hs⟩
  exact (if_pos hcontains).trans hkey

/-- A call of a signature that the table has not is checked against the fallback
set. -/
lemma resolve_of_normal_ne (hg : Built report table g) {codes : TypeCodes} (hc : Reached g codes)
    {s : Signature} (hs : ∀ reference ∈ table, (signatureFor report reference).normal ≠ s.normal) :
    (g.resolve codes (some s)).1 = fallbackKey := by
  have hcontains : ¬ g.sets.contains (codes.signature s).1.key := by
    rw [hg.contains_key_iff (hc.signature s) (TypeCodes.encodes_signature hc.1 s)]
    rintro ⟨reference, href, h⟩
    exact hs reference href h
  exact if_neg hcontains

/-- The key of a call does not depend on the calls that were looked up before it. -/
lemma resolve_eq_callKey (hg : Built report table g) {codes : TypeCodes} (hc : Reached g codes)
    (s : Signature) : (g.resolve codes (some s)).1 = g.callKey s := by
  by_cases h : ∃ reference ∈ table, (signatureFor report reference).normal = s.normal
  · obtain ⟨reference, href, hs⟩ := h
    obtain ⟨i, hi⟩ := List.mem_iff_getElem?.mp href
    obtain ⟨e, -, -, henc⟩ := hg.getElem?_entriesOf hi
    rw [hg.resolve_of_normal_eq hc hi hs henc, Guard.callKey,
      hg.resolve_of_normal_eq hg.reached_codes hi hs henc]
  · have hs : ∀ reference ∈ table, (signatureFor report reference).normal ≠ s.normal :=
      fun reference href heq => h ⟨reference, href, heq⟩
    rw [hg.resolve_of_normal_ne hc hs, Guard.callKey, hg.resolve_of_normal_ne hg.reached_codes hs]

end Built

end Guard

end CallGuard
