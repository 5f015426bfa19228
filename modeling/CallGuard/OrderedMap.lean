/-!
Maps from names to values that remember the order in which the names came.
Writing to a name that is present replaces its value and keeps its place.

* `keys_insert`: the names after a write are those before it, with a new name at
  the end.
* `find?_insert`: what a look-up finds after a write.
* `entries_ofList`, `ofList_entries`: a map is what writing its entries gives.
-/

namespace CallGuard

/-- The entries after the value of `key` has been written. -/
def putEntry {α : Type} (key : String) (value : α) : List (String × α) → List (String × α)
  | [] => [(key, value)]
  | (k, v) :: es => if k = key then (key, value) :: es else (k, v) :: putEntry key value es

/-- The names after a write. -/
theorem map_fst_putEntry {α : Type} (key : String) (value : α) (es : List (String × α)) :
    (putEntry key value es).map Prod.fst =
      if key ∈ es.map Prod.fst then es.map Prod.fst else es.map Prod.fst ++ [key] := by
  induction es with
  | nil => simp [putEntry]
  | cons e es ih =>
    obtain ⟨k, v⟩ := e
    by_cases hk : k = key
    · simp [putEntry, hk]
    · have hk' : ¬ key = k := fun h => hk h.symm
      by_cases hm : key ∈ es.map Prod.fst
      · simp only [putEntry, hk, if_false, List.map_cons, ih, hm, if_true, List.mem_cons,
          hk', false_or]
      · simp only [putEntry, hk, if_false, List.map_cons, ih, hm, List.mem_cons, hk', false_or,
          List.cons_append]

/-- A new name goes to the end. -/
theorem putEntry_of_notMem {α : Type} {key : String} (value : α) {es : List (String × α)}
    (h : key ∉ es.map Prod.fst) : putEntry key value es = es ++ [(key, value)] := by
  induction es with
  | nil => rfl
  | cons e es ih =>
    obtain ⟨k, v⟩ := e
    simp only [List.map_cons, List.mem_cons, not_or] at h
    have hk : ¬ k = key := fun e => h.1 e.symm
    rw [putEntry, if_neg hk, ih h.2, List.cons_append]

/-- A map from names to values with its entries in the order of first writing. -/
structure OrderedMap (α : Type) where
  /-- The entries, in the order of first writing. -/
  entries : List (String × α) := []
  /-- No name has two entries. -/
  nodup : (entries.map Prod.fst).Nodup := by simp

namespace OrderedMap

variable {α : Type}

/-- Maps with the same entries are equal. -/
@[ext] theorem ext {m m' : OrderedMap α} (h : m.entries = m'.entries) : m = m' := by
  cases m
  cases m'
  cases h
  rfl

instance [DecidableEq α] : DecidableEq (OrderedMap α) := fun m m' =>
  if h : m.entries = m'.entries then isTrue (ext h) else isFalse fun e => h (e ▸ rfl)

/-- The map without entries. -/
def empty : OrderedMap α := {}

/-- The names, in the order of first writing. -/
def keys (m : OrderedMap α) : List String :=
  m.entries.map Prod.fst

/-- The values, in the order of their names. -/
def values (m : OrderedMap α) : List α :=
  m.entries.map Prod.snd

/-- The number of entries. -/
def size (m : OrderedMap α) : Nat :=
  m.entries.length

/-- Whether there is no entry. -/
def isEmpty (m : OrderedMap α) : Bool :=
  m.entries.isEmpty

/-- The value of a name. -/
def find? (m : OrderedMap α) (key : String) : Option α :=
  m.entries.lookup key

/-- Whether a name has a value. -/
def contains (m : OrderedMap α) (key : String) : Bool :=
  (m.find? key).isSome

/-- Writes the value of a name. -/
def insert (m : OrderedMap α) (key : String) (value : α) : OrderedMap α where
  entries := putEntry key value m.entries
  nodup := by
    have h := m.nodup
    rw [map_fst_putEntry]
    split
    · exact h
    · rename_i hk
      exact List.nodup_append.mpr ⟨h, by simp, by
        intro a ha b hb
        simp only [List.mem_singleton] at hb
        exact fun e => hk (hb ▸ e ▸ ha)⟩

/-- The map that writing the pairs one after the other gives. -/
def ofList (pairs : List (String × α)) : OrderedMap α :=
  pairs.foldl (fun m p => m.insert p.1 p.2) empty

/-! ### What a write does -/

@[simp] theorem entries_empty : (empty : OrderedMap α).entries = [] := rfl

@[simp] theorem entries_insert (m : OrderedMap α) (key : String) (value : α) :
    (m.insert key value).entries = putEntry key value m.entries := rfl

/-- A new name goes to the end, and a present one stays where it is. -/
theorem keys_insert (m : OrderedMap α) (key : String) (value : α) :
    (m.insert key value).keys = if key ∈ m.keys then m.keys else m.keys ++ [key] :=
  map_fst_putEntry key value m.entries

/-- A look-up after a write finds the written value at its name and the earlier
value at every other name. -/
theorem find?_insert (m : OrderedMap α) (key : String) (value : α) (k : String) :
    (m.insert key value).find? k = if k = key then some value else m.find? k := by
  obtain ⟨es, h⟩ := m
  simp only [find?, entries_insert]
  clear h
  induction es with
  | nil =>
    by_cases hk : k = key
    · simp [putEntry, hk]
    · have hb : (k == key) = false := by simpa using hk
      simp [putEntry, hk, List.lookup_cons, hb]
  | cons e es ih =>
    obtain ⟨a, v⟩ := e
    by_cases ha : a = key
    · by_cases hk : k = key
      · simp [putEntry, ha, hk]
      · have hb : (k == key) = false := by simpa using hk
        simp [putEntry, ha, hk, List.lookup_cons, hb]
    · by_cases hk : k = a
      · have hkey : ¬ k = key := fun e => ha (hk ▸ e)
        simp [putEntry, ha, hk]
      · have hb : (k == a) = false := by simpa using hk
        simp [putEntry, ha, List.lookup_cons, hb, ih]

/-- Pairs with new names go to the end one after the other. -/
theorem entries_foldl_insert (m : OrderedMap α) (pairs : List (String × α))
    (h : ((m.entries ++ pairs).map Prod.fst).Nodup) :
    (pairs.foldl (fun m p => m.insert p.1 p.2) m).entries = m.entries ++ pairs := by
  induction pairs generalizing m with
  | nil => simp
  | cons p pairs ih =>
    obtain ⟨key, value⟩ := p
    have hnew : key ∉ m.entries.map Prod.fst := by
      intro hmem
      rw [List.map_append, List.nodup_append] at h
      exact h.2.2 key hmem key (by simp) rfl
    have hput : (m.insert key value).entries = m.entries ++ [(key, value)] :=
      putEntry_of_notMem value hnew
    rw [List.foldl_cons, ih, hput, List.append_assoc, List.singleton_append]
    rwa [hput, List.append_assoc, List.singleton_append]

/-- Pairs without a name twice are the entries of the map that they give. -/
theorem entries_ofList {pairs : List (String × α)} (h : (pairs.map Prod.fst).Nodup) :
    (ofList pairs).entries = pairs :=
  entries_foldl_insert empty pairs (by simpa using h)

/-- Writing the entries of a map one after the other gives the map. -/
theorem ofList_entries (m : OrderedMap α) : ofList m.entries = m :=
  ext (entries_ofList m.nodup)

end OrderedMap

end CallGuard
