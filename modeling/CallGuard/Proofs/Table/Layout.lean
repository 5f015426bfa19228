import CallGuard.Proofs.Table.SignatureSet
import CallGuard.Table.Layout

/-!
Layouts of signature sets. A layout, sorted or shuffled, brings every entry to an
index in the range of its set and uses every index once; so items can be reordered
by it without loss, and its indices can be read back from the data that they are
written as.

* `Random.shuffle_perm`: a shuffle is a permutation.
* `Layout.Fits`, `fits_sorted`, `fits_randomized`: where the entries come to.
* `Layout.getElem?_reorder`: where reordered items come to.
* `Layout.readData?_dataString`: the indices can be read back.
-/

namespace CallGuard

/-! ### Shuffles -/

namespace Random

variable {α : Type}

lemma swapIfInBounds_perm (xs : Array α) (i j : Nat) :
    (xs.swapIfInBounds i j).toList.Perm xs.toList := by
  rw [Array.swapIfInBounds_def]
  split
  · split
    · exact (Array.swap_perm _ _).toList
    · exact List.Perm.refl _
  · exact List.Perm.refl _

/-- The swaps of a shuffle move items only. -/
lemma shuffleFrom_perm (i : Nat) (xs : Array α) (ws : List UInt32) :
    (shuffleFrom i xs ws).1.toList.Perm xs.toList := by
  induction i generalizing xs ws with
  | zero => exact List.Perm.refl _
  | succ i ih => exact (ih _ _).trans (swapIfInBounds_perm _ _ _)

/-- A shuffle is a permutation, whatever words it draws. -/
lemma shuffle_perm (xs : List α) (ws : List UInt32) : (shuffle xs ws).1.Perm xs :=
  shuffleFrom_perm (xs.length - 1) xs.toArray ws

end Random

namespace Layout

/-! ### Entering items at places -/

variable {α : Type}

/-- Enters an item at a place, counted from one. -/
def enter (items : List α) (a : Nat × α) : List α :=
  if a.1 = 0 then items else items.set (a.1 - 1) a.2

@[simp] lemma length_enter (items : List α) (a : Nat × α) :
    (enter items a).length = items.length := by
  rw [enter]
  split <;> simp

@[simp] lemma length_foldl_enter (as : List (Nat × α)) (items : List α) :
    (as.foldl enter items).length = items.length := by
  induction as generalizing items with
  | nil => rfl
  | cons a as ih => rw [List.foldl_cons, ih, length_enter]

lemma getElem?_enter_of_ne {a : Nat × α} {i : Nat} (hne : a.1 ≠ i + 1) (items : List α) :
    (enter items a)[i]? = items[i]? := by
  rw [enter]
  split
  · rfl
  · rw [List.getElem?_set_ne (by omega)]

/-- A place where nothing is entered keeps its item. -/
lemma getElem?_foldl_enter_of_notMem {as : List (Nat × α)} {i : Nat}
    (hi : i + 1 ∉ as.map Prod.fst) (items : List α) :
    (as.foldl enter items)[i]? = items[i]? := by
  induction as generalizing items with
  | nil => rfl
  | cons a as ih =>
      rw [List.map_cons, List.mem_cons, not_or] at hi
      rw [List.foldl_cons, ih hi.2, getElem?_enter_of_ne (Ne.symm hi.1)]

/-- Items entered at different places are found there. -/
lemma getElem?_foldl_enter {as : List (Nat × α)} (hnodup : (as.map Prod.fst).Nodup) {i : Nat}
    {x : α} (hmem : (i + 1, x) ∈ as) {items : List α} (hi : i < items.length) :
    (as.foldl enter items)[i]? = some x := by
  induction as generalizing items with
  | nil => simp at hmem
  | cons a as ih =>
      rw [List.map_cons, List.nodup_cons] at hnodup
      rw [List.foldl_cons]
      rcases List.mem_cons.mp hmem with rfl | hmem
      · rw [getElem?_foldl_enter_of_notMem hnodup.1, enter, if_neg (by simp)]
        simp [hi]
      · exact ih hnodup.2 hmem (by simpa using hi)

/-- Every item was there or has been entered. -/
lemma mem_foldl_enter {as : List (Nat × α)} {items : List α} {x : α}
    (hx : x ∈ as.foldl enter items) : x ∈ items ∨ x ∈ as.map Prod.snd := by
  induction as generalizing items with
  | nil => exact Or.inl hx
  | cons a as ih =>
      rw [List.map_cons, List.mem_cons]
      rcases ih hx with hx | hx
      · rw [enter] at hx
        split at hx
        · exact Or.inl hx
        · rcases List.mem_or_eq_of_mem_set hx with hx | hx
          · exact Or.inl hx
          · exact Or.inr (Or.inl hx)
      · exact Or.inr (Or.inr hx)

/-! ### The places of the members of sets -/

variable {ρ : Type}

/-- The indices of the members of a set, with their new ones. -/
def assigned (set : SignatureSet) (slots : List Nat) : List (Nat × Nat) :=
  (set.members.zip slots).map fun (m, slot) => (m.index, set.lower + slot)

/-- The indices of the members of sets, with their new ones. -/
def assignedAll (permute : List Nat → ρ → List Nat × ρ) :
    List SignatureSet → ρ → List (Nat × Nat)
  | [], _ => []
  | set :: sets, r =>
    let (slots, r) := permute (List.range set.count) r
    assigned set slots ++ assignedAll permute sets r

lemma placeAll_eq_foldl (permute : List Nat → ρ → List Nat × ρ) (sets : List SignatureSet)
    (r : ρ) (indices : List Nat) :
    placeAll permute sets r indices = (assignedAll permute sets r).foldl enter indices := by
  induction sets generalizing r indices with
  | nil => rfl
  | cons set sets ih =>
      rw [assignedAll, List.foldl_append, assigned, List.foldl_map, ← ih]
      rfl

section Permuted

variable {permute : List Nat → ρ → List Nat × ρ}
  (hpermute : ∀ slots r, (permute slots r).1.Perm slots)

include hpermute

lemma length_slots (set : SignatureSet) (r : ρ) :
    (permute (List.range set.count) r).1.length = set.members.length := by
  rw [(hpermute _ _).length_eq, List.length_range, SignatureSet.count]

/-- Every member gets a new index. -/
lemma map_fst_assignedAll (sets : List SignatureSet) (r : ρ) :
    (assignedAll permute sets r).map Prod.fst =
      (sets.flatMap SignatureSet.members).map SetMember.index := by
  induction sets generalizing r with
  | nil => rfl
  | cons set sets ih =>
      have hzip : (set.members.zip (permute (List.range set.count) r).1).map Prod.fst =
          set.members := List.map_fst_zip (length_slots hpermute set r).ge
      rw [assignedAll, List.map_append, ih, List.flatMap_cons, List.map_append, assigned,
        List.map_map]
      congr 1
      rw [← congrArg (List.map SetMember.index) hzip, List.map_map]
      rfl

/-- The new indices are those of the ranges. -/
lemma map_snd_assignedAll_perm (sets : List SignatureSet) (r : ρ) :
    ((assignedAll permute sets r).map Prod.snd).Perm
      (sets.flatMap fun s => List.range' s.lower s.count) := by
  induction sets generalizing r with
  | nil => exact List.Perm.refl _
  | cons set sets ih =>
      have hzip : (set.members.zip (permute (List.range set.count) r).1).map Prod.snd =
          (permute (List.range set.count) r).1 :=
        List.map_snd_zip (length_slots hpermute set r).le
      have hset : (assigned set (permute (List.range set.count) r).1).map Prod.snd =
          (permute (List.range set.count) r).1.map (set.lower + ·) := by
        rw [← congrArg (List.map (set.lower + ·)) hzip, assigned, List.map_map, List.map_map]
        rfl
      rw [assignedAll, List.map_append, List.flatMap_cons, hset, List.range'_eq_map_range]
      exact ((hpermute _ _).map _).append (ih _)

/-- A member stays in the range of its set. -/
lemma exists_set_of_mem_assignedAll {sets : List SignatureSet} {r : ρ} {a : Nat × Nat}
    (ha : a ∈ assignedAll permute sets r) :
    ∃ s ∈ sets, a.1 ∈ s.members.map SetMember.index ∧ s.lower ≤ a.2 ∧
      a.2 < s.lower + s.count := by
  induction sets generalizing r with
  | nil => simp [assignedAll] at ha
  | cons set sets ih =>
      rw [assignedAll, List.mem_append] at ha
      rcases ha with ha | ha
      · obtain ⟨⟨m, slot⟩, hm, rfl⟩ := List.mem_map.mp ha
        have hslot : slot ∈ List.range set.count :=
          (hpermute _ r).mem_iff.mp (List.of_mem_zip hm).2
        rw [List.mem_range] at hslot
        exact ⟨set, by simp, List.mem_map_of_mem (List.of_mem_zip hm).1, by simp, by simpa⟩
      · obtain ⟨s, hs, hsa⟩ := ih ha
        exact ⟨s, List.mem_cons_of_mem _ hs, hsa⟩

end Permuted

/-! ### Layouts of the sets of a table -/

/-- A layout of sets: it uses every index once, and brings the members of a set into
the range of the set. -/
structure Fits (l : Layout) (s : SignatureSets) : Prop where
  perm : l.indices.Perm (List.range' 1 s.tableLength)
  newIndex? : ∀ set ∈ s.sets, ∀ m ∈ set.members,
    ∃ j, l.newIndex? m.index = some j ∧ set.containsIndex j

lemma newIndex?_succ (l : Layout) (i : Nat) : l.newIndex? (i + 1) = l.indices[i]? := by
  rw [Layout.newIndex?, if_neg (by simp), Nat.add_sub_cancel]

/-- Indices that are entered at the places one to `n`, each once, are a permutation of
what was entered. -/
lemma foldl_enter_perm {as : List (Nat × Nat)} {n : Nat}
    (hfst : (as.map Prod.fst).Perm (List.range' 1 n)) :
    (as.foldl enter (List.replicate n 0)).Perm (as.map Prod.snd) := by
  set items := as.foldl enter (List.replicate n 0) with hitems
  have hlen : items.length = n := by simp [hitems]
  have hnodup : (as.map Prod.fst).Nodup := hfst.nodup_iff.mpr (List.nodup_range' ..)
  have hget : ∀ a ∈ as, items.getD (a.1 - 1) 0 = a.2 := by
    rintro ⟨i, x⟩ ha
    have hi : i ∈ List.range' 1 n := hfst.mem_iff.mp (List.mem_map_of_mem ha)
    rw [List.mem_range'_1] at hi
    obtain ⟨k, rfl⟩ : ∃ k, i = k + 1 := ⟨i - 1, by omega⟩
    have hk : k < (List.replicate n 0).length := by
      rw [List.length_replicate]
      omega
    rw [Nat.add_sub_cancel, List.getD_eq_getElem?_getD, hitems, getElem?_foldl_enter hnodup ha hk,
      Option.getD_some]
  -- by the places, both sides list the same pairs
  have hall : items = (List.range' 1 n).map fun i => items.getD (i - 1) 0 := by
    refine List.ext_getElem (by simp [hlen]) fun k hk _ => ?_
    simp [List.getElem_range', List.getD_eq_getElem?_getD, List.getElem?_eq_getElem hk]
  rw [hall]
  refine (hfst.symm.map _).trans ?_
  rw [List.map_map]
  exact List.Perm.of_eq (List.map_congr_left hget)

/-- No two sets of a table have members of the same index. -/
lemma eq_of_mem_index {es : List TableEntry} (hnodup : (es.map TableEntry.index).Nodup)
    {s t : SignatureSet} (hs : s ∈ (SignatureSets.build es).sets)
    (ht : t ∈ (SignatureSets.build es).sets) {i : Nat}
    (hsi : i ∈ s.members.map SetMember.index) (hti : i ∈ t.members.map SetMember.index) :
    s = t := by
  obtain ⟨m, hm, rfl⟩ := List.mem_map.mp hsi
  obtain ⟨m', hm', heq⟩ := List.mem_map.mp hti
  obtain ⟨e, he, hek, rfl⟩ := (SignatureSets.mem_members_build hs m).mp hm
  obtain ⟨e', he', hek', rfl⟩ := (SignatureSets.mem_members_build ht m').mp hm'
  have hee : e' = e := List.inj_on_of_nodup_map hnodup he' he heq
  refine List.inj_on_of_nodup_map (SignatureSets.keys_build_nodup es) hs ht ?_
  rw [← hek, ← hek', hee]

/-- Whatever order the slots of each set are brought into, the layout fits the sets. -/
lemma fits_placeAll {permute : List Nat → ρ → List Nat × ρ}
    (hpermute : ∀ slots r, (permute slots r).1.Perm slots) (r : ρ) {es : List TableEntry}
    (hindex : es.map TableEntry.index = List.range' 1 es.length) :
    Fits ⟨placeAll permute (SignatureSets.build es).sets r (List.replicate es.length 0)⟩
      (SignatureSets.build es) := by
  have htiles := SignatureSets.tiles_build es
  have hmembers := (SignatureSets.members_build_perm es).map SetMember.index
  have hes : (es.map TableEntry.index).Nodup := hindex ▸ List.nodup_range' ..
  set sets := (SignatureSets.build es).sets with hsets
  have hfst : ((assignedAll permute sets r).map Prod.fst).Perm (List.range' 1 es.length) := by
    rw [map_fst_assignedAll hpermute, ← hindex]
    rwa [List.map_map] at hmembers
  have hsnd : ((assignedAll permute sets r).map Prod.snd).Perm (List.range' 1 es.length) := by
    have := map_snd_assignedAll_perm hpermute sets r
    rwa [htiles.flatMap_range'.1, Nat.add_sub_cancel_left] at this
  have hnodup : ((assignedAll permute sets r).map Prod.fst).Nodup :=
    hfst.nodup_iff.mpr (List.nodup_range' ..)
  rw [placeAll_eq_foldl]
  refine ⟨(foldl_enter_perm hfst).trans hsnd, fun set hset m hm => ?_⟩
  have hmem : m.index ∈ (assignedAll permute sets r).map Prod.fst := by
    rw [map_fst_assignedAll hpermute]
    exact List.mem_map_of_mem (List.mem_flatMap.mpr ⟨set, hset, hm⟩)
  have hrange := hfst.mem_iff.mp hmem
  rw [List.mem_range'_1] at hrange
  obtain ⟨⟨i, j⟩, ha, hi : i = m.index⟩ := List.mem_map.mp hmem
  obtain ⟨k, rfl⟩ : ∃ k, i = k + 1 := ⟨i - 1, by omega⟩
  refine ⟨j, ?_, ?_⟩
  · rw [← hi, newIndex?_succ]
    exact getElem?_foldl_enter hnodup ha (by rw [List.length_replicate]; omega)
  -- the set that entered the member is its own, as no other has a member of its index
  · obtain ⟨s, hs, hsm, hlo, hhi⟩ := exists_set_of_mem_assignedAll hpermute ha
    obtain rfl := eq_of_mem_index hes hs hset hsm (hi ▸ List.mem_map_of_mem hm)
    rw [SignatureSet.containsIndex, htiles.upper_eq hs]
    simp [hlo, hhi]

/-- The sorted layout fits its sets. -/
lemma fits_sorted {es : List TableEntry}
    (hindex : es.map TableEntry.index = List.range' 1 es.length) :
    (sorted (SignatureSets.build es)).Fits (SignatureSets.build es) :=
  fits_placeAll (fun _ _ => List.Perm.refl _) () hindex

/-- Every shuffled layout fits its sets. -/
lemma fits_randomized {es : List TableEntry}
    (hindex : es.map TableEntry.index = List.range' 1 es.length) (words : List UInt32) :
    (randomized (SignatureSets.build es) words).Fits (SignatureSets.build es) :=
  fits_placeAll Random.shuffle_perm words hindex

/-! ### Reordered items -/

/-- What is entered when items are brought to their places. -/
lemma fill_eq_foldl (l : Layout) (items : List α) :
    l.fill items = ((l.indices.zip items).map fun a => (a.1, some a.2)).foldl enter
      (List.replicate items.length none) := by
  rw [fill, ← List.zip_swap, List.foldl_map, List.foldl_map]
  rfl

lemma length_fill (l : Layout) (items : List α) : (l.fill items).length = items.length := by
  rw [fill_eq_foldl, length_foldl_enter, List.length_replicate]

lemma length_reorder (l : Layout) (items : List α) : (l.reorder items).length = items.length := by
  rw [reorder, List.length_map, List.length_zip, length_fill, Nat.min_self]

section Reorder

variable {l : Layout} {items : List α} (hl : l.indices.Perm (List.range' 1 items.length))

include hl

/-- Every item comes to its place. -/
lemma getElem?_fill {i j : Nat} (hj : l.indices[i]? = some j) {x : α} (hx : items[i]? = some x) :
    (l.fill items)[j - 1]? = some (some x) := by
  have hmem : j ∈ List.range' 1 items.length := hl.mem_iff.mp (List.mem_of_getElem? hj)
  rw [List.mem_range'_1] at hmem
  obtain ⟨k, rfl⟩ : ∃ k, j = k + 1 := ⟨j - 1, by omega⟩
  have hlen : l.indices.length ≤ items.length := by simp [hl.length_eq]
  have hzip : (l.indices.zip items)[i]? = some (k + 1, x) := by
    rw [List.getElem?_zip_eq_some]
    exact ⟨hj, hx⟩
  rw [fill_eq_foldl, Nat.add_sub_cancel]
  refine getElem?_foldl_enter ?_ ?_ (by simp; omega)
  · rw [List.map_map]
    have : (l.indices.zip items).map Prod.fst = l.indices := List.map_fst_zip hlen
    rw [← this] at hl
    exact hl.nodup_iff.mpr (List.nodup_range' ..)
  · exact List.mem_map.mpr ⟨_, List.mem_of_getElem? hzip, rfl⟩

/-- Every place gets an item. -/
lemma isSome_of_mem_fill {o : Option α} (ho : o ∈ l.fill items) : o.isSome := by
  have hlen := length_fill l items
  obtain ⟨k, hk, rfl⟩ := List.mem_iff_getElem.mp ho
  have hmem : k + 1 ∈ l.indices := hl.mem_iff.mpr (by rw [List.mem_range'_1]; omega)
  obtain ⟨i, hi⟩ := List.mem_iff_getElem?.mp hmem
  have hi' : i < items.length := by
    have := (List.getElem?_eq_some_iff.mp hi).1
    rwa [hl.length_eq, List.length_range'] at this
  have hfill := getElem?_fill hl hi (List.getElem?_eq_getElem hi')
  rw [Nat.add_sub_cancel, List.getElem?_eq_getElem hk, Option.some.injEq] at hfill
  simp [hfill]

/-- The item at a place comes to the new place. -/
lemma getElem?_reorder {i j : Nat} (hj : l.indices[i]? = some j) :
    (l.reorder items)[j - 1]? = items[i]? := by
  have hi : i < items.length := by
    have := (List.getElem?_eq_some_iff.mp hj).1
    rwa [hl.length_eq, List.length_range'] at this
  have hfill := getElem?_fill hl hj (List.getElem?_eq_getElem hi)
  have hmem : j ∈ List.range' 1 items.length := hl.mem_iff.mp (List.mem_of_getElem? hj)
  rw [List.mem_range'_1] at hmem
  have hold : (items)[j - 1]? = some (items.get ⟨j - 1, by omega⟩) :=
    List.getElem?_eq_getElem (by omega)
  have hzip : ((l.fill items).zip items)[j - 1]? =
      some (some (items.get ⟨i, hi⟩), items.get ⟨j - 1, by omega⟩) := by
    rw [List.getElem?_zip_eq_some]
    exact ⟨hfill, hold⟩
  rw [reorder, List.getElem?_map, hzip, List.getElem?_eq_getElem hi]
  rfl

/-- Reordering loses no items. -/
lemma reorder_perm : (l.reorder items).Perm items := by
  have hlength := length_reorder l items
  have hold : items.map some = l.indices.map fun j => (l.reorder items)[j - 1]? := by
    refine List.ext_getElem (by simp [hl.length_eq]) fun i hi hi' => ?_
    rw [List.length_map] at hi hi'
    rw [List.getElem_map, List.getElem_map,
      getElem?_reorder hl (List.getElem?_eq_getElem hi'), List.getElem?_eq_getElem hi]
  have hnew : (l.reorder items).map some =
      (List.range' 1 items.length).map fun j => (l.reorder items)[j - 1]? := by
    refine List.ext_getElem (by simp [hlength]) fun i hi hi' => ?_
    rw [List.length_map] at hi
    simp [List.getElem_range', List.getElem?_eq_getElem hi]
  rw [← List.map_perm_map_iff (Option.some_injective α), hold, hnew]
  exact hl.symm.map _

end Reorder

/-- Reordering makes no new items. -/
lemma mem_of_mem_reorder {l : Layout} {items : List α} {x : α} (hx : x ∈ l.reorder items) :
    x ∈ items := by
  obtain ⟨⟨new, old⟩, hmem, rfl⟩ := List.mem_map.mp hx
  obtain ⟨hnew, hold⟩ := List.of_mem_zip hmem
  cases new with
  | none => exact hold
  | some y =>
      rw [fill_eq_foldl] at hnew
      rcases mem_foldl_enter hnew with hnew | hnew
      · simp [List.mem_replicate] at hnew
      · obtain ⟨a, ha, hay⟩ := List.mem_map.mp hnew
        obtain ⟨⟨i, z⟩, hz, rfl⟩ := List.mem_map.mp ha
        obtain rfl : z = y := Option.some.inj hay
        exact (List.of_mem_zip hz).2

/-! ### The indices as data -/

/-- The bytes that a text of escapes spells, each escape a backslash and two
hexadecimal digits. -/
def readEscapes? : List Char → Option (List UInt8)
  | [] => some []
  | '\\' :: a :: b :: rest => do
    let high ← Text.hexValue? a
    let low ← Text.hexValue? b
    return UInt8.ofNat (16 * high + low) :: (← readEscapes? rest)
  | _ => none

/-- The words of bytes, four to a word and the lowest first. -/
def readWords? : List UInt8 → Option (List Nat)
  | [] => some []
  | a :: b :: c :: d :: rest => do
    let word := a.toNat + 2 ^ 8 * b.toNat + 2 ^ 16 * c.toNat + 2 ^ 24 * d.toNat
    return word :: (← readWords? rest)
  | _ => none

/-- The words that the text of a data segment spells. -/
def readData? (text : List Char) : Option (List Nat) :=
  (readEscapes? text).bind readWords?

/-- A byte that is written as an escape is read back. -/
lemma readEscapes?_lowerHex (b : UInt8) (rest : List Char) :
    readEscapes? ('\\' :: Text.lowerHex b ++ rest) = (readEscapes? rest).map (b :: ·) := by
  have hb : b.toNat < 256 := b.toNat_lt
  have hhigh := Text.hexValue?_lowerDigit (n := b.toNat / 16) (by omega)
  have hlow := Text.hexValue?_lowerDigit (n := b.toNat % 16) (by omega)
  have hbyte : UInt8.ofNat (16 * (b.toNat / 16) + b.toNat % 16) = b := by
    rw [Nat.div_add_mod, UInt8.ofNat_toNat]
  simp only [Text.lowerHex, List.cons_append, List.nil_append, readEscapes?, hhigh, hlow,
    Option.bind_eq_bind, Option.bind_some, hbyte]
  cases readEscapes? rest <;> rfl

/-- The bytes of a text of escapes are those that were written. -/
lemma readEscapes?_flatMap (bytes : List UInt8) :
    readEscapes? (bytes.flatMap fun b => '\\' :: Text.lowerHex b) = some bytes := by
  induction bytes with
  | nil => rfl
  | cons b bytes ih => rw [List.flatMap_cons, readEscapes?_lowerHex, ih, Option.map_some]

/-- A word is the sum of its bytes. -/
lemma readWords?_wordBytes {n : Nat} (hn : n < 2 ^ 32) (rest : List UInt8) :
    readWords? (wordBytes (UInt32.ofNat n) ++ rest) = (readWords? rest).map (n :: ·) := by
  have hword : (UInt32.ofNat n).toNat = n := UInt32.toNat_ofNat_of_lt' hn
  have hsum : n % 2 ^ 8 + 2 ^ 8 * (n / 2 ^ 8 % 2 ^ 8) + 2 ^ 16 * (n / 2 ^ 16 % 2 ^ 8) +
      2 ^ 24 * (n / 2 ^ 24 % 2 ^ 8) = n := by
    omega
  have hshift : ∀ k < 32,
      (UInt32.ofNat n >>> UInt32.ofNat k).toUInt8.toNat = n / 2 ^ k % 2 ^ 8 := by
    intro k hk
    have hk' : (UInt32.ofNat k).toNat = k := UInt32.toNat_ofNat_of_lt' (hk.trans (by decide))
    rw [UInt32.toNat_toUInt8, UInt32.toNat_shiftRight, hword, hk', Nat.mod_eq_of_lt hk,
      Nat.shiftRight_eq_div_pow]
  have h₀ : (UInt32.ofNat n).toUInt8.toNat = n % 2 ^ 8 := by rw [UInt32.toNat_toUInt8, hword]
  have h₁ : (UInt32.ofNat n >>> 8).toUInt8.toNat = _ := hshift 8 (by omega)
  have h₂ : (UInt32.ofNat n >>> 16).toUInt8.toNat = _ := hshift 16 (by omega)
  have h₃ : (UInt32.ofNat n >>> 24).toUInt8.toNat = _ := hshift 24 (by omega)
  rw [wordBytes, List.cons_append, List.cons_append, List.cons_append, List.cons_append,
    List.nil_append, readWords?, h₀, h₁, h₂, h₃, hsum]
  cases readWords? rest <;> rfl

/-- The bytes of words are read back as the words. -/
lemma readWords?_flatMap {is : List Nat} (his : ∀ i ∈ is, i < 2 ^ 32) :
    readWords? (is.flatMap fun i => wordBytes (UInt32.ofNat i)) = some is := by
  induction is with
  | nil => rfl
  | cons i is ih =>
      rw [List.flatMap_cons, readWords?_wordBytes (his i (by simp)),
        ih fun j hj => his j (List.mem_cons_of_mem _ hj), Option.map_some]

/-- The data of a layout is the bytes of its indices, as escapes. -/
lemma dataString_eq (l : Layout) :
    l.dataString = (l.indices.flatMap fun i => wordBytes (UInt32.ofNat i)).flatMap
      fun b => '\\' :: Text.lowerHex b := by
  rw [List.flatMap_assoc]
  rfl

/-- The data of a layout spells its indices. -/
lemma readData?_dataString {l : Layout} (hl : ∀ i ∈ l.indices, i < 2 ^ 32) :
    readData? l.dataString = some l.indices := by
  rw [readData?, dataString_eq, readEscapes?_flatMap, Option.bind_some, readWords?_flatMap hl]

end Layout

end CallGuard
