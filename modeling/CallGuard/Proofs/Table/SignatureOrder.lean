import CallGuard.Proofs.Table.Padding
import CallGuard.Proofs.Table.SignatureSet

/-!
The order of signature sets. Entries are sorted by the numbers of their signatures, where
lists of parameters are compared as if zeros followed them; so entries that are sorted
need not be of one signature for being neither before nor after each other. The sets come
in the order of their first entries.

* `TableEntry.le_trans`, `TableEntry.le_total`: the order of entries.
* `SignatureSets.pairwise_build`: the sets come in this order.
* `SignatureSets.flatMap_members_build`: the sets have the entries as they are, if these are
  sorted and those of a signature stand together.
-/

namespace CallGuard

/-! ### The order of entries -/

namespace TableEntry

lemma le_trans {e e' e'' : TableEntry} (h : e.le e') (h' : e'.le e'') : e.le e'' := by
  rw [le_iff_rank_le] at h h' ⊢
  exact h.trans h'

lemma le_total (e e' : TableEntry) : e.le e' ∨ e'.le e := by
  rw [le_iff_rank_le, le_iff_rank_le]
  exact LinearOrder.le_total e.code.rank e'.code.rank

/-- Only the signatures of entries count. -/
lemma le_congr {e₁ e₂ e₁' e₂' : TableEntry} (h : e₁.code = e₂.code) (h' : e₁'.code = e₂'.code) :
    e₁.le e₁' = e₂.le e₂' := by
  rw [le, le, h, h']

lemma le_of_code_eq {e e' : TableEntry} (h : e.code = e'.code) : e.le e' :=
  (le_total e e').elim id fun h' => le_congr h h.symm ▸ h'

lemma pairwise_mergeSort (es : List TableEntry) :
    (es.mergeSort TableEntry.le).Pairwise fun e e' => e.le e' := by
  apply List.pairwise_mergeSort
  · intro e e' e'' h h'
    exact le_trans h h'
  · intro e e'
    rw [Bool.or_eq_true]
    exact le_total e e'

end TableEntry

/-! ### The order of sets -/

/-- Between two items that are the same there is no other. -/
def InRuns {α : Type} (items : List α) : Prop :=
  ∀ (i j k : Nat) (a b : α), i < j → j < k → items[i]? = some a → items[j]? = some b →
    items[k]? = some a → b = a

lemma InRuns.of_append {α : Type} {items : List α} {a : α} (h : InRuns (items ++ [a])) :
    InRuns items ∧ (a ∈ items → items.getLast? = some a) := by
  have hget {i : Nat} {x : α} (hi : items[i]? = some x) : (items ++ [a])[i]? = some x := by
    rw [List.getElem?_append_left (List.getElem?_eq_some_iff.mp hi).1, hi]
  refine ⟨fun i j k x y hij hjk hi hj hk => h i j k x y hij hjk (hget hi) (hget hj) (hget hk),
    fun ha => ?_⟩
  obtain ⟨i, hi⟩ := List.mem_iff_getElem?.mp ha
  have hlt := (List.getElem?_eq_some_iff.mp hi).1
  rw [List.getLast?_eq_getElem?]
  rcases Nat.lt_or_ge i (items.length - 1) with hlast | hlast
  · have hj := List.getElem?_eq_getElem (show items.length - 1 < items.length by omega)
    rw [hj, h i _ items.length a _ hlast (by omega) (hget hi) (hget hj) (by simp)]
  · rw [show items.length - 1 = i by omega, hi]

/-- A name that is not among the first entries is looked for after them. -/
lemma putEntry_append {α : Type} {key : String} {es : List (String × α)}
    (h : key ∉ es.map Prod.fst) (value : α) (es' : List (String × α)) :
    putEntry key value (es ++ es') = es ++ putEntry key value es' := by
  induction es with
  | nil => rfl
  | cons e es ih =>
      rw [List.map_cons, List.mem_cons, not_or] at h
      rw [List.cons_append, putEntry, if_neg (Ne.symm h.1), ih h.2, List.cons_append]

namespace SignatureSets

lemma group_append (es : List TableEntry) (e : TableEntry) :
    group (es ++ [e]) = addEntry (group es) e := by
  rw [group, group, List.foldl_append, List.foldl_cons, List.foldl_nil]

/-- The keys come in the order of their first entries. -/
lemma keys_group_sublist (es : List TableEntry) :
    (group es).keys.Sublist (es.map (·.code.key)) := by
  induction es using List.reverseRecOn with
  | nil => exact List.Sublist.refl _
  | append_singleton es e ih =>
      rw [group_append, addEntry, OrderedMap.keys_insert, List.map_append]
      split
      · exact ih.trans (List.sublist_append_left _ _)
      · exact ih.append (List.Sublist.refl _)

/-- If the entries of a key stand together, the groups have the entries as they are. -/
lemma flatMap_group {es : List TableEntry} (h : InRuns (es.map (·.code.key))) :
    (group es).entries.flatMap Prod.snd = es.map TableEntry.member ∧
      (group es).keys.getLast? = (es.map (·.code.key)).getLast? := by
  induction es using List.reverseRecOn with
  | nil => exact ⟨rfl, rfl⟩
  | append_singleton es e ih =>
      rw [List.map_append, List.map_singleton] at h
      obtain ⟨hruns, hlast⟩ := h.of_append
      obtain ⟨hmembers, hkeys⟩ := ih hruns
      -- the key of the entry is new, or the last one
      obtain ⟨front, back, hsplit, hfront, hback⟩ : ∃ front back,
          (group es).entries = front ++ back ∧ e.code.key ∉ front.map Prod.fst ∧
            (back = [] ∨ ∃ ms, back = [(e.code.key, ms)]) := by
        by_cases hmem : e.code.key ∈ es.map (·.code.key)
        · rw [hlast hmem, OrderedMap.keys, List.getLast?_map] at hkeys
          obtain ⟨⟨k, ms⟩, hget, rfl⟩ := Option.map_eq_some_iff.mp hkeys
          have hentries := List.dropLast_append_getLast? _ hget
          have hnodup := (group es).nodup
          rw [← hentries, List.map_append, List.map_singleton] at hnodup
          exact ⟨_, _, hentries.symm,
            fun hk => (List.nodup_append.mp hnodup).2.2 _ hk _ (by simp) rfl, Or.inr ⟨ms, rfl⟩⟩
        · exact ⟨_, [], (List.append_nil _).symm,
            fun hk => hmem ((keys_group_sublist es).subset hk), Or.inl rfl⟩
      have hput : (addEntry (group es) e).entries =
          front ++ [(e.code.key, back.flatMap Prod.snd ++ [e.member])] := by
        have hlookup : (group es).find? e.code.key = back.lookup e.code.key := by
          have hnone : front.lookup e.code.key = none := by
            rw [List.lookup_eq_none_iff]
            intro p hp
            have : e.code.key ≠ p.1 := fun hk => hfront (hk ▸ List.mem_map_of_mem hp)
            simpa using this
          rw [OrderedMap.find?, hsplit, List.lookup_append, hnone, Option.none_or]
        rw [addEntry, OrderedMap.entries_insert, hlookup, hsplit, putEntry_append hfront]
        rcases hback with rfl | ⟨ms, rfl⟩
        · rfl
        · simp [putEntry, TableEntry.member]
      rw [group_append, OrderedMap.keys, hput]
      rw [hsplit, List.flatMap_append] at hmembers
      constructor
      · rw [List.map_append, ← hmembers]
        simp
      · simp

/-- The sets of a table come in the order of their signatures. -/
lemma pairwise_build {es : List TableEntry} (hes : ∀ e ∈ es, e.code.params ≠ []) :
    (build es).sets.Pairwise fun s s' => ∀ e ∈ es, ∀ e' ∈ es,
      e.code.key = s.key → e'.code.key = s'.key → e.le e' := by
  have hkeys : (build es).sets.map SignatureSet.key =
      (group (es.mergeSort TableEntry.le)).keys := by
    rw [OrderedMap.keys, ← map_assignRanges 1 (group (es.mergeSort TableEntry.le)).entries,
      List.map_map]
    rfl
  obtain ⟨firsts, hsub, hfirsts⟩ :=
    List.sublist_map_iff.mp (keys_group_sublist (es.mergeSort TableEntry.le))
  have hpair := (TableEntry.pairwise_mergeSort es).sublist hsub
  have hmem {e : TableEntry} (he : e ∈ firsts) : e ∈ es :=
    List.mem_mergeSort.mp (hsub.subset he)
  have hcodes : (firsts.map (·.code.key)).Pairwise fun k k' => ∀ e ∈ es, ∀ e' ∈ es,
      e.code.key = k → e'.code.key = k' → e.le e' := by
    refine List.pairwise_map.mpr (hpair.imp_of_mem fun {a b} ha hb hle e he e' he' hk hk' => ?_)
    rw [SignatureCode.key_inj (hes e he) (hes a (hmem ha))] at hk
    rw [SignatureCode.key_inj (hes e' he') (hes b (hmem hb))] at hk'
    rwa [TableEntry.le_congr hk hk']
  rw [← hfirsts, ← hkeys] at hcodes
  exact List.pairwise_map.mp hcodes

/-- If entries are sorted and those of a key stand together, the sets have them as they
are. -/
lemma flatMap_members_build {es : List TableEntry} (hsorted : es.Pairwise fun e e' => e.le e')
    (hruns : InRuns (es.map (·.code.key))) :
    (build es).sets.flatMap SignatureSet.members = es.map TableEntry.member := by
  have hgroup := (flatMap_group hruns).1
  rw [← List.mergeSort_of_pairwise hsorted, ← map_assignRanges 1 (group _).entries,
    List.flatMap_map, List.mergeSort_of_pairwise hsorted] at hgroup
  rw [build, List.mergeSort_of_pairwise hsorted]
  exact hgroup

/-- The sets of ranges that lie side by side have their members in this order. -/
lemma Tiles.exists_of_getElem? {lower upper : Nat} {sets : List SignatureSet}
    (h : Tiles lower sets upper) {k : Nat} {x : SetMember}
    (hx : (sets.flatMap SignatureSet.members)[k]? = some x) :
    ∃ s ∈ sets, s.containsIndex (lower + k) ∧ x ∈ s.members := by
  induction h generalizing k with
  | nil => simp at hx
  | @cons s sets upper hs _ ih =>
      rw [List.flatMap_cons] at hx
      rcases Nat.lt_or_ge k s.members.length with hk | hk
      · rw [List.getElem?_append_left hk] at hx
        refine ⟨s, List.mem_cons_self, ?_, List.mem_of_getElem? hx⟩
        simp only [SignatureSet.containsIndex, hs, SignatureSet.count, Bool.and_eq_true,
          decide_eq_true_eq]
        omega
      · rw [List.getElem?_append_right hk] at hx
        obtain ⟨t, ht, hin, hmem⟩ := ih hx
        refine ⟨t, List.mem_cons_of_mem _ ht, ?_, hmem⟩
        rwa [hs, SignatureSet.count, Nat.add_assoc, Nat.add_sub_cancel' hk] at hin

end SignatureSets

end CallGuard
