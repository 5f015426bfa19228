import CallGuard.Proofs.Table.SignatureKey

/-!
Signature sets partition a table: every entry is in the set of its key and in no
other, and the ranges of the sets lie side by side from one to the length of the
table.

* `Collects`, `collects_group`: the groups of a table hold the entries of their
  keys, in order.
* `Tiles`, `tiles_build`: the ranges of the sets lie side by side.
* `mem_members_build`: the members of a set are the entries of its key.
* `members_build_perm`: together the members are all entries.
-/

namespace CallGuard

/-- What a set keeps of an entry. -/
def TableEntry.member (e : TableEntry) : SetMember :=
  ⟨e.name, e.index⟩

namespace SignatureSets

/-! ### Groups -/

/-- The members of a key among entries. -/
def membersOf (key : String) (es : List TableEntry) : List SetMember :=
  (es.filter (·.code.key = key)).map TableEntry.member

lemma membersOf_append_singleton (key : String) (es : List TableEntry) (e : TableEntry) :
    membersOf key (es ++ [e]) =
      if key = e.code.key then membersOf key es ++ [e.member] else membersOf key es := by
  by_cases h : e.code.key = key
  · simp [membersOf, List.filter_append, h]
  · simp [membersOf, List.filter_append, h, Ne.symm h]

/-- The groups hold exactly the members of each key that has one. -/
def Collects (groups : OrderedMap (List SetMember)) (es : List TableEntry) : Prop :=
  ∀ key members, groups.find? key = some members ↔ members ≠ [] ∧ members = membersOf key es

lemma Collects.getD {groups : OrderedMap (List SetMember)} {es : List TableEntry}
    (h : Collects groups es) (key : String) :
    (groups.find? key).getD [] = membersOf key es := by
  cases hf : groups.find? key with
  | some members => exact ((h key members).mp hf).2
  | none =>
      by_contra hne
      have := (h key (membersOf key es)).mpr ⟨fun h0 => hne h0.symm, rfl⟩
      rw [hf] at this
      exact absurd this (by simp)

/-- One entry goes to the end of its group. -/
lemma Collects.addEntry {groups : OrderedMap (List SetMember)} {es : List TableEntry}
    (h : Collects groups es) (e : TableEntry) : Collects (addEntry groups e) (es ++ [e]) := by
  intro key members
  rw [SignatureSets.addEntry, OrderedMap.find?_insert, membersOf_append_singleton]
  split_ifs with hk
  · subst hk
    rw [h.getD, Option.some.injEq]
    constructor
    · rintro rfl
      exact ⟨by simp, rfl⟩
    · exact fun hm => hm.2.symm
  · exact h key members

/-- The groups of entries, one after the other. -/
lemma Collects.foldl {groups : OrderedMap (List SetMember)} {done : List TableEntry}
    (h : Collects groups done) (es : List TableEntry) :
    Collects (es.foldl SignatureSets.addEntry groups) (done ++ es) := by
  induction es generalizing groups done with
  | nil => simpa using h
  | cons e es ih =>
      rw [List.foldl_cons, List.append_cons done e es]
      exact ih (h.addEntry e)

lemma collects_group (es : List TableEntry) : Collects (group es) es := by
  have h0 : Collects .empty [] := by
    intro key members
    constructor
    · intro h
      exact absurd h (by simp [OrderedMap.find?])
    · rintro ⟨hne, rfl⟩
      exact absurd rfl hne
  exact h0.foldl es

/-- Writing a longer list at a name adds what it is longer by. -/
lemma flatMap_putEntry_perm {key : String} {x : SetMember} (es : List (String × List SetMember)) :
    ((putEntry key ((es.lookup key).getD [] ++ [x]) es).flatMap Prod.snd).Perm
      (es.flatMap Prod.snd ++ [x]) := by
  induction es with
  | nil => simp [putEntry]
  | cons e es ih =>
      obtain ⟨k, members⟩ := e
      by_cases h : k = key
      · subst h
        simp only [putEntry, if_true, List.lookup_cons, beq_self_eq_true, Option.getD_some,
          List.flatMap_cons, List.append_assoc]
        exact List.Perm.append_left _ List.perm_append_comm
      · have hb : (key == k) = false := by simpa using Ne.symm h
        simp only [putEntry, if_neg h, List.lookup_cons, hb, List.flatMap_cons,
          List.append_assoc]
        exact List.Perm.append_left _ ih

/-- Together the groups hold every entry once. -/
lemma group_perm (es : List TableEntry) :
    ((group es).entries.flatMap Prod.snd).Perm (es.map TableEntry.member) := by
  have hrun : ∀ (es : List TableEntry) (groups : OrderedMap (List SetMember)),
      ((es.foldl SignatureSets.addEntry groups).entries.flatMap Prod.snd).Perm
        (groups.entries.flatMap Prod.snd ++ es.map TableEntry.member) := by
    intro es
    induction es with
    | nil => simp
    | cons e es ih =>
        intro groups
        rw [List.foldl_cons]
        refine (ih _).trans ?_
        rw [List.map_cons, List.append_cons]
        exact (flatMap_putEntry_perm groups.entries).append_right _
  simpa [group] using hrun es .empty

/-! ### Ranges -/

/-- The ranges of sets lie side by side from `lower` to before `upper`. -/
inductive Tiles : Nat → List SignatureSet → Nat → Prop where
  | nil (lower : Nat) : Tiles lower [] lower
  | cons {s : SignatureSet} {sets : List SignatureSet} {upper : Nat} :
      s.upper = s.lower + s.count → Tiles s.upper sets upper → Tiles s.lower (s :: sets) upper

lemma tiles_assignRanges (lower : Nat) (groups : List (String × List SetMember)) :
    Tiles lower (assignRanges lower groups) (lower + (groups.flatMap Prod.snd).length) := by
  induction groups generalizing lower with
  | nil => exact Tiles.nil lower
  | cons g groups ih =>
      obtain ⟨key, members⟩ := g
      rw [List.flatMap_cons, List.length_append, ← Nat.add_assoc]
      exact Tiles.cons (s := ⟨key, members, lower, lower + members.length⟩) rfl (ih _)

lemma map_assignRanges (lower : Nat) (groups : List (String × List SetMember)) :
    (assignRanges lower groups).map (fun s => (s.key, s.members)) = groups := by
  induction groups generalizing lower with
  | nil => rfl
  | cons g groups ih =>
      obtain ⟨key, members⟩ := g
      rw [assignRanges, List.map_cons, ih]

/-- The numbers of the ranges in order are all numbers. -/
lemma Tiles.flatMap_range' {lower upper : Nat} {sets : List SignatureSet}
    (h : Tiles lower sets upper) :
    sets.flatMap (fun s => List.range' s.lower s.count) = List.range' lower (upper - lower) ∧
      lower ≤ upper := by
  induction h with
  | nil => simp
  | @cons s sets upper hs _ ih =>
      obtain ⟨hr, hle⟩ := ih
      refine ⟨?_, by omega⟩
      rw [List.flatMap_cons, hr, show upper - s.lower = s.count + (upper - s.upper) by omega, hs,
        List.range'_append_1]

/-- A later range starts after an earlier one has ended. -/
lemma Tiles.pairwise {lower upper : Nat} {sets : List SignatureSet} (h : Tiles lower sets upper) :
    sets.Pairwise (fun s t => s.upper ≤ t.lower) ∧ ∀ s ∈ sets, lower ≤ s.lower := by
  induction h with
  | nil => simp
  | @cons s sets upper hs _ ih =>
      refine ⟨List.pairwise_cons.mpr ⟨ih.2, ih.1⟩, fun t ht => ?_⟩
      rcases List.mem_cons.mp ht with rfl | ht
      · exact le_rfl
      · have := ih.2 t ht
        omega

lemma Tiles.upper_eq {lower upper : Nat} {sets : List SignatureSet} (h : Tiles lower sets upper)
    {s : SignatureSet} (hs : s ∈ sets) : s.upper = s.lower + s.count := by
  induction h with
  | nil => simp at hs
  | cons hu _ ih =>
      rcases List.mem_cons.mp hs with rfl | hs
      · exact hu
      · exact ih hs

/-- No index lies in the ranges of two sets. -/
lemma Tiles.eq_of_containsIndex {lower upper : Nat} {sets : List SignatureSet}
    (h : Tiles lower sets upper) {s t : SignatureSet} (hs : s ∈ sets) (ht : t ∈ sets) {i : Nat}
    (hsi : s.containsIndex i) (hti : t.containsIndex i) : s = t := by
  by_contra hne
  simp only [SignatureSet.containsIndex, Bool.and_eq_true, decide_eq_true_eq] at hsi hti
  let apart := fun s t : SignatureSet => s.upper ≤ t.lower ∨ t.upper ≤ s.lower
  have : Std.Symm apart := ⟨fun _ _ => Or.symm⟩
  have hp : sets.Pairwise apart := h.pairwise.1.imp Or.inl
  rcases hp.forall hs ht hne with hst | hts <;> omega

/-! ### The sets of a table -/

/-- The ranges of the sets of a table lie side by side. -/
lemma tiles_build (es : List TableEntry) :
    Tiles 1 (build es).sets (1 + es.length) := by
  have h := tiles_assignRanges 1 (group (es.mergeSort TableEntry.le)).entries
  rwa [(group_perm _).length_eq, List.length_map, List.length_mergeSort] at h

lemma keys_build_nodup (es : List TableEntry) :
    ((build es).sets.map SignatureSet.key).Nodup := by
  have h := (group (es.mergeSort TableEntry.le)).nodup
  rw [← map_assignRanges 1 (group (es.mergeSort TableEntry.le)).entries, List.map_map] at h
  exact h

/-- The members of a set are the entries of its key, and there is one. -/
lemma members_of_mem_build {es : List TableEntry} {s : SignatureSet} (hs : s ∈ (build es).sets) :
    s.members ≠ [] ∧ s.members = membersOf s.key (es.mergeSort TableEntry.le) := by
  have hm : (s.key, s.members) ∈ (group (es.mergeSort TableEntry.le)).entries := by
    rw [← map_assignRanges 1 (group (es.mergeSort TableEntry.le)).entries]
    exact List.mem_map_of_mem hs
  exact (collects_group _ _ _).mp (OrderedMap.find?_eq_some_iff.mpr hm)

/-- A set has the entries of its key as members and no others. -/
lemma mem_members_build {es : List TableEntry} {s : SignatureSet} (hs : s ∈ (build es).sets)
    (x : SetMember) : x ∈ s.members ↔ ∃ e ∈ es, e.code.key = s.key ∧ e.member = x := by
  rw [(members_of_mem_build hs).2, membersOf, List.mem_map]
  simp only [List.mem_filter, List.mem_mergeSort, decide_eq_true_eq, and_assoc]

/-- Every entry has the set of its key. -/
lemma exists_set_of_mem {es : List TableEntry} {e : TableEntry} (he : e ∈ es) :
    ∃ s ∈ (build es).sets, s.key = e.code.key := by
  have hmem : e.member ∈ membersOf e.code.key (es.mergeSort TableEntry.le) :=
    List.mem_map_of_mem (List.mem_filter.mpr ⟨List.mem_mergeSort.mpr he, by simp⟩)
  have hfind := (collects_group (es.mergeSort TableEntry.le) e.code.key _).mpr
    ⟨List.ne_nil_of_mem hmem, rfl⟩
  have hentry := OrderedMap.find?_eq_some_iff.mp hfind
  rw [← map_assignRanges 1 (group (es.mergeSort TableEntry.le)).entries, List.mem_map] at hentry
  obtain ⟨s, hs, heq⟩ := hentry
  exact ⟨s, hs, congrArg Prod.fst heq⟩

/-- A look-up finds exactly the sets of the table. -/
lemma find?_build_eq_some_iff {es : List TableEntry} {key : String} {s : SignatureSet} :
    (build es).find? key = some s ↔ s ∈ (build es).sets ∧ s.key = key := by
  have hnodup := keys_build_nodup es
  constructor
  · intro h
    exact ⟨List.mem_of_find?_eq_some h, by simpa using List.find?_some h⟩
  · rintro ⟨hs, rfl⟩
    cases hf : (build es).find? s.key with
    | none =>
        have := List.find?_eq_none.mp hf s hs
        exact absurd this (by simp)
    | some t =>
        have ht : t ∈ (build es).sets := List.mem_of_find?_eq_some hf
        have hk : t.key = s.key := by simpa using List.find?_some hf
        rw [List.inj_on_of_nodup_map hnodup ht hs hk]

/-- Together the sets of a table have every entry once. -/
lemma members_build_perm (es : List TableEntry) :
    ((build es).sets.flatMap SignatureSet.members).Perm (es.map TableEntry.member) := by
  have h := (group_perm (es.mergeSort TableEntry.le)).trans
    ((List.mergeSort_perm es TableEntry.le).map TableEntry.member)
  rw [← map_assignRanges 1 (group (es.mergeSort TableEntry.le)).entries, List.flatMap_map] at h
  exact h

end SignatureSets

end CallGuard
