import CallGuard.Proofs.Guard.Table
import CallGuard.Proofs.Table.Partition
import CallGuard.Proofs.Wat.Direct.Outline

/-!
The guard of a table in numbers of 32 bits. Indices and the bounds of ranges have 32 bits, and the
number of anything is cut to them before it is added. A sum that has no place in them wraps around
or crashes, as the program is built.

* `Overflow`, `sum32`: sums of 32 bits.
* `entriesFrom`, `build`, `sorted`, `ofTable`: the entries of a table, their sets, their layout, and
  the guard.
* `ofTable_eq`: the guard of a table with fewer than `2 ^ 32 - 1` references, which no sum spoils.
* `ofTable_crashes`: the crash of any other table.
* `exists_ofTable`: there is always a guard if sums wrap around.
-/

namespace CallGuard.Wat.Direct

open Guard

/-! ### Sums -/

/-- What becomes of a sum that has no place in 32 bits. -/
inductive Overflow where
  /-- It wraps around. -/
  | wraps
  /-- It crashes. -/
  | crashes

/-- A sum of 32 bits. -/
def sum32 (overflow : Overflow) (a b : Nat) : Checked Nat :=
  if a + b < 2 ^ 32 then .ok (a + b)
  else
    match overflow with
    | .wraps => .ok ((a + b) % 2 ^ 32)
    | .crashes => .error (.crashed .overflow)

lemma sum32_of_lt {overflow : Overflow} {a b : Nat} (h : a + b < 2 ^ 32) :
    sum32 overflow a b = .ok (a + b) :=
  if_pos h

lemma sum32_crashes {a b : Nat} (h : 2 ^ 32 ≤ a + b) :
    sum32 .crashes a b = .error (.crashed .overflow) :=
  if_neg (Nat.not_lt.mpr h)

lemma exists_sum32 (a b : Nat) : ∃ n, sum32 .wraps a b = .ok n := by
  rw [sum32]
  split
  · exact ⟨_, rfl⟩
  · exact ⟨_, rfl⟩

/-! ### Entries -/

/-- The entries of references, of which there are some others before. -/
def entriesFrom (overflow : Overflow) (report : Report) :
    Nat → TypeCodes → List String → Checked (List TableEntry × TypeCodes)
  | _, codes, [] => return ([], codes)
  | before, codes, reference :: references => do
    let name := referenceName reference
    let index ← sum32 overflow (before % 2 ^ 32) 1
    let (code, codes) := codes.signature (signatureOf report name)
    let (entries, codes) ← entriesFrom overflow report (before + 1) codes references
    return (⟨name, index, code⟩ :: entries, codes)

section Entries

variable {report : Report} {before : Nat} {table : List String}

lemma entriesFrom_eq (overflow : Overflow) (codes : TypeCodes)
    (h : before + table.length < 2 ^ 32) : entriesFrom overflow report before codes table =
      .ok (Guard.entriesFrom report (before + 1) codes table) := by
  induction table generalizing before codes with
  | nil => rfl
  | cons reference table ih =>
      rw [List.length_cons] at h
      rw [entriesFrom, Nat.mod_eq_of_lt (by omega), sum32_of_lt (by omega), ok_bind]
      dsimp only
      rw [ih _ (by omega)]
      rfl

/-- The index that has no place is the one of the reference at `2 ^ 32`. -/
lemma entriesFrom_crashes (codes : TypeCodes) (hbefore : before < 2 ^ 32)
    (h : 2 ^ 32 ≤ before + table.length) :
    entriesFrom .crashes report before codes table = .error (.crashed .overflow) := by
  induction table generalizing before codes with
  | nil =>
      rw [List.length_nil] at h
      omega
  | cons reference table ih =>
      rw [List.length_cons] at h
      rw [entriesFrom, Nat.mod_eq_of_lt hbefore]
      rcases Nat.lt_or_ge (before + 1) (2 ^ 32) with hlt | hge
      · rw [sum32_of_lt hlt, ok_bind]
        dsimp only
        rw [ih _ hlt (by omega)]
        rfl
      · rw [sum32_crashes hge]
        rfl

lemma exists_entriesFrom (report : Report) (before : Nat) (codes : TypeCodes)
    (table : List String) : ∃ found, entriesFrom .wraps report before codes table = .ok found := by
  induction table generalizing before codes with
  | nil => exact ⟨_, rfl⟩
  | cons reference table ih =>
      obtain ⟨index, hindex⟩ := exists_sum32 (before % 2 ^ 32) 1
      obtain ⟨found, hfound⟩ := ih (before + 1)
        (codes.signature (signatureOf report (referenceName reference))).2
      rw [entriesFrom, hindex, ok_bind]
      dsimp only
      rw [hfound]
      exact ⟨_, rfl⟩

end Entries

/-! ### Sets -/

/-- Gives ranges to groups, one after the other from `lower` on. -/
def assignRanges (overflow : Overflow) (lower : Nat) :
    List (String × List SetMember) → Checked (List SignatureSet)
  | [] => return []
  | (key, members) :: rest => do
    let upper ← sum32 overflow lower (members.length % 2 ^ 32)
    return ⟨key, members, lower, upper⟩ :: (← assignRanges overflow upper rest)

/-- The sets of a table. -/
def build (overflow : Overflow) (entries : List TableEntry) : Checked SignatureSets := do
  let groups := SignatureSets.group (entries.mergeSort TableEntry.le)
  return ⟨← assignRanges overflow 1 groups.entries, entries.length⟩

section Sets

variable {lower : Nat} {groups : List (String × List SetMember)} {entries : List TableEntry}

lemma assignRanges_eq (overflow : Overflow)
    (h : lower + (groups.flatMap Prod.snd).length < 2 ^ 32) :
    assignRanges overflow lower groups = .ok (SignatureSets.assignRanges lower groups) := by
  induction groups generalizing lower with
  | nil => rfl
  | cons group groups ih =>
      obtain ⟨key, members⟩ := group
      rw [List.flatMap_cons, List.length_append] at h
      dsimp only at h
      rw [assignRanges, Nat.mod_eq_of_lt (by omega), sum32_of_lt (by omega), ok_bind,
        ih (by omega)]
      rfl

/-- The bound that has no place is the first one that is not below `2 ^ 32`. -/
lemma assignRanges_crashes (hlower : lower < 2 ^ 32)
    (hgroups : (groups.flatMap Prod.snd).length < 2 ^ 32)
    (h : 2 ^ 32 ≤ lower + (groups.flatMap Prod.snd).length) :
    assignRanges .crashes lower groups = .error (.crashed .overflow) := by
  induction groups generalizing lower with
  | nil =>
      rw [List.flatMap_nil, List.length_nil] at h
      omega
  | cons group groups ih =>
      obtain ⟨key, members⟩ := group
      rw [List.flatMap_cons, List.length_append] at h hgroups
      dsimp only at h hgroups
      rw [assignRanges, Nat.mod_eq_of_lt (by omega)]
      rcases Nat.lt_or_ge (lower + members.length) (2 ^ 32) with hlt | hge
      · rw [sum32_of_lt hlt, ok_bind, ih hlt (by omega) (by omega)]
        rfl
      · rw [sum32_crashes hge]
        rfl

lemma exists_assignRanges (lower : Nat) (groups : List (String × List SetMember)) :
    ∃ sets, assignRanges .wraps lower groups = .ok sets := by
  induction groups generalizing lower with
  | nil => exact ⟨_, rfl⟩
  | cons group groups ih =>
      obtain ⟨upper, hupper⟩ := exists_sum32 lower (group.2.length % 2 ^ 32)
      obtain ⟨sets, hsets⟩ := ih upper
      rw [assignRanges, hupper, ok_bind, hsets]
      exact ⟨_, rfl⟩

/-- Every entry is in one group. -/
lemma length_flatMap_group (entries : List TableEntry) :
    ((SignatureSets.group (entries.mergeSort TableEntry.le)).entries.flatMap Prod.snd).length =
      entries.length := by
  rw [(SignatureSets.group_perm _).length_eq, List.length_map, List.length_mergeSort]

lemma build_eq (overflow : Overflow) (h : entries.length < 2 ^ 32 - 1) :
    build overflow entries = .ok (SignatureSets.build entries) := by
  rw [build, assignRanges_eq overflow (by rw [length_flatMap_group]; omega)]
  rfl

/-- As many entries as there are indices are too many for the bound after the last set. -/
lemma build_crashes (h : entries.length = 2 ^ 32 - 1) :
    build .crashes entries = .error (.crashed .overflow) := by
  rw [build, assignRanges_crashes (by omega) (by rw [length_flatMap_group]; omega)
    (by rw [length_flatMap_group]; omega)]
  rfl

lemma exists_build (entries : List TableEntry) : ∃ sets, build .wraps entries = .ok sets := by
  obtain ⟨sets, hsets⟩ := exists_assignRanges 1
    (SignatureSets.group (entries.mergeSort TableEntry.le)).entries
  rw [build, hsets]
  exact ⟨_, rfl⟩

end Sets

/-! ### Layouts -/

/-- Enters the new indices of functions, which are given by their slots behind `lower`. -/
def place (overflow : Overflow) (lower : Nat) :
    List (SetMember × Nat) → List Nat → Checked (List Nat)
  | [], indices => return indices
  | (member, slot) :: rest, indices => do
    if member.index = 0 ∨ indices.length < member.index then place overflow lower rest indices
    else
      let new ← sum32 overflow lower slot
      place overflow lower rest (indices.set (member.index - 1) new)

/-- Enters the new indices of sets, one after the other. -/
def placeAll (overflow : Overflow) : List SignatureSet → List Nat → Checked (List Nat)
  | [], indices => return indices
  | set :: sets, indices => do
    let slots := List.range (set.count % 2 ^ 32)
    placeAll overflow sets (← place overflow set.lower (set.members.zip slots) indices)

/-- The layout that keeps the functions of each set in their order. -/
def sorted (overflow : Overflow) (sets : SignatureSets) : Checked Layout := do
  return ⟨← placeAll overflow sets.sets (List.replicate sets.tableLength 0)⟩

section Layouts

variable {sets : SignatureSets}

lemma place_eq (overflow : Overflow) {lower : Nat} {items : List (SetMember × Nat)}
    (h : ∀ a ∈ items, lower + a.2 < 2 ^ 32) (indices : List Nat) :
    place overflow lower items indices =
      .ok ((items.map fun a => (a.1.index, lower + a.2)).foldl Layout.enter indices) := by
  induction items generalizing indices with
  | nil => rfl
  | cons a items ih =>
      obtain ⟨member, slot⟩ := a
      obtain ⟨hslot, hitems⟩ := List.forall_mem_cons.mp h
      rw [place, List.map_cons, List.foldl_cons, Layout.enter]
      dsimp only
      split
      · rename_i hout
        rw [ih hitems]
        rcases hout with hzero | hbehind
        · rw [if_pos hzero]
        · rw [if_neg (by omega), List.set_eq_of_length_le (by omega)]
      · rename_i hin
        rw [sum32_of_lt hslot, ok_bind, ih hitems, if_neg fun hzero => hin (Or.inl hzero)]

lemma placeAll_eq (overflow : Overflow) {sets : List SignatureSet}
    (h : ∀ s ∈ sets, s.lower + s.count < 2 ^ 32) (indices : List Nat) :
    placeAll overflow sets indices =
      .ok (Layout.placeAll (fun slots (_ : Unit) => (slots, ())) sets () indices) := by
  induction sets generalizing indices with
  | nil => rfl
  | cons set sets ih =>
      obtain ⟨hset, hsets⟩ := List.forall_mem_cons.mp h
      have hslots : ∀ a ∈ set.members.zip (List.range set.count), set.lower + a.2 < 2 ^ 32 := by
        rintro ⟨member, slot⟩ ha
        have hslot := List.mem_range.mp (List.of_mem_zip ha).2
        dsimp only
        omega
      rw [placeAll, Nat.mod_eq_of_lt (by omega), place_eq overflow hslots, ok_bind, ih hsets,
        List.foldl_map]
      rfl

lemma sorted_eq (overflow : Overflow) (h : ∀ s ∈ sets.sets, s.lower + s.count < 2 ^ 32) :
    sorted overflow sets = .ok (Layout.sorted sets) := by
  rw [sorted, placeAll_eq overflow h]
  rfl

lemma exists_place (lower : Nat) (items : List (SetMember × Nat)) (indices : List Nat) :
    ∃ placed, place .wraps lower items indices = .ok placed := by
  induction items generalizing indices with
  | nil => exact ⟨_, rfl⟩
  | cons a items ih =>
      rw [place]
      split
      · exact ih indices
      · obtain ⟨new, hnew⟩ := exists_sum32 lower a.2
        rw [hnew]
        exact ih _

lemma exists_placeAll (sets : List SignatureSet) (indices : List Nat) :
    ∃ placed, placeAll .wraps sets indices = .ok placed := by
  induction sets generalizing indices with
  | nil => exact ⟨_, rfl⟩
  | cons set sets ih =>
      obtain ⟨placed, hplaced⟩ := exists_place set.lower
        (set.members.zip (List.range (set.count % 2 ^ 32))) indices
      rw [placeAll, hplaced]
      exact ih placed

end Layouts

/-! ### Guards -/

/-- The guard of a table. -/
def ofTable (overflow : Overflow) (report : Report) (table : List String) : Checked Guard := do
  let (entries, codes) ← entriesFrom overflow report 0 .initial table
  let sets ← build overflow entries
  let layout ← sorted overflow sets
  return { report, table, codes, sets, layout }

section Guards

variable {report : Report} {table : List String}

/-- No range of a short table ends behind the numbers of 32 bits. -/
lemma lower_add_count_lt {entries : List TableEntry} (h : entries.length < 2 ^ 32 - 1) :
    ∀ s ∈ (SignatureSets.build entries).sets, s.lower + s.count < 2 ^ 32 := by
  intro s hs
  have htiles := SignatureSets.tiles_build entries
  have hupper := htiles.upper_eq hs
  have hle := htiles.upper_le hs
  omega

/-- A table with fewer than `2 ^ 32 - 1` references has its guard, as no sum is too large. -/
lemma ofTable_eq (overflow : Overflow) (h : table.length < 2 ^ 32 - 1) :
    ofTable overflow report table = .ok (Guard.ofTable report table) := by
  have hlength : (entriesOf report table).length < 2 ^ 32 - 1 := by rwa [length_entriesOf]
  rw [ofTable, entriesFrom_eq overflow _ (by omega), ok_bind]
  change (build overflow (entriesOf report table) >>= _) = _
  rw [build_eq overflow hlength, ok_bind, sorted_eq overflow (lower_add_count_lt hlength)]
  rfl

/-- A table with `2 ^ 32 - 1` references has a bound that is too large, and a longer one has an
index that is. -/
lemma ofTable_crashes (h : 2 ^ 32 - 1 ≤ table.length) :
    ofTable .crashes report table = .error (.crashed .overflow) := by
  rw [ofTable]
  rcases Nat.lt_or_ge table.length (2 ^ 32) with hlt | hge
  · have hlength : (entriesOf report table).length = 2 ^ 32 - 1 := by
      rw [length_entriesOf]
      omega
    rw [entriesFrom_eq .crashes _ (by omega), ok_bind]
    change (build .crashes (entriesOf report table) >>= _) = _
    rw [build_crashes hlength]
    rfl
  · rw [entriesFrom_crashes _ (by omega) (by omega)]
    rfl

lemma exists_ofTable (report : Report) (table : List String) :
    ∃ g, ofTable .wraps report table = .ok g := by
  obtain ⟨⟨entries, codes⟩, hentries⟩ := exists_entriesFrom report 0 .initial table
  obtain ⟨sets, hsets⟩ := exists_build entries
  obtain ⟨placed, hplaced⟩ := exists_placeAll sets.sets (List.replicate sets.tableLength 0)
  rw [ofTable, hentries, ok_bind]
  dsimp only
  rw [hsets, ok_bind, sorted, hplaced]
  exact ⟨_, rfl⟩

end Guards

end CallGuard.Wat.Direct
