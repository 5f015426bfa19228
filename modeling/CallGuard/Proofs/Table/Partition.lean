import CallGuard.Proofs.Table.SignatureOrder

/-!
Signature sets of any table. The numbers of its entries may be any numbers here, and lists of
parameters may be empty; so entries that stand together after sorting need not have one key,
and those of one key need not stand together.

* `TableEntry.IsStableSort`: entries in their order, where those that are neither before nor
  after each other have kept theirs.
* `SignatureSets.exists_firsts`: the keys of groups come with their first entries.
* `SignatureSets.build_partitions`: the sets of a table partition it.
-/

namespace CallGuard

namespace TableEntry

/-- Neither of two entries has to stand before the other. -/
def level (e e' : TableEntry) : Bool :=
  e.le e' && e'.le e

/-- The entries `sorted` are the entries `es` in the order of their signatures, and entries
that are level stand as in `es`. -/
structure IsStableSort (es sorted : List TableEntry) : Prop where
  perm : sorted.Perm es
  ordered : sorted.Pairwise fun e e' => e.le e'
  stable : ∀ e : TableEntry, sorted.filter e.level = es.filter e.level

/-- Entries that are level with one entry are level with each other. -/
lemma pairwise_filter_level (e : TableEntry) (es : List TableEntry) :
    (es.filter e.level).Pairwise fun a b => a.le b := by
  refine List.pairwise_of_forall_mem_list fun a ha b hb => ?_
  have ha := (List.mem_filter.mp ha).2
  have hb := (List.mem_filter.mp hb).2
  rw [level, Bool.and_eq_true] at ha hb
  exact le_trans ha.2 hb.1

lemma isStableSort_mergeSort (es : List TableEntry) : IsStableSort es (es.mergeSort le) := by
  refine ⟨List.mergeSort_perm es le, pairwise_mergeSort es, fun e => ?_⟩
  have htrans : ∀ a b c : TableEntry, a.le b → b.le c → a.le c := fun _ _ _ => le_trans
  have htotal : ∀ a b : TableEntry, a.le b || b.le a := fun a b => by
    simpa using le_total a b
  have hsub : (es.filter e.level).Sublist (es.mergeSort le) :=
    List.sublist_mergeSort htrans htotal (pairwise_filter_level e es) List.filter_sublist
  -- the level entries are in the sorted list as they were, and there are no others
  have hlevel := hsub.filter e.level
  simp only [List.filter_filter, Bool.and_self] at hlevel
  exact (hlevel.eq_of_length ((List.mergeSort_perm es le).symm.filter _).length_eq).symm

end TableEntry

namespace SignatureSets

/-- The first entry of a key. -/
def firstOf? (key : String) (es : List TableEntry) : Option TableEntry :=
  es.find? (·.code.key = key)

lemma firstOf?_eq_none_iff {key : String} {es : List TableEntry} :
    firstOf? key es = none ↔ key ∉ (group es).keys := by
  have hcollects := collects_group es key
  have hkeys : key ∈ (group es).keys ↔ membersOf key es ≠ [] := by
    rw [OrderedMap.keys, List.mem_map]
    constructor
    · rintro ⟨⟨k, members⟩, hmem, rfl⟩
      obtain ⟨hne, heq⟩ := (hcollects members).mp (OrderedMap.find?_eq_some_iff.mpr hmem)
      exact heq ▸ hne
    · intro hne
      have hfind := (hcollects _).mpr ⟨hne, rfl⟩
      exact ⟨(key, membersOf key es), OrderedMap.find?_eq_some_iff.mp hfind, rfl⟩
  rw [hkeys, not_not, membersOf, List.map_eq_nil_iff, ← List.head?_eq_none_iff, List.head?_filter]
  rfl

/-- The keys of groups come in the order of their first entries. -/
lemma exists_firsts (es : List TableEntry) :
    ∃ firsts : List TableEntry, firsts.Sublist es ∧
      List.Forall₂ (fun key e => firstOf? key es = some e) (group es).keys firsts := by
  induction es using List.reverseRecOn with
  | nil => exact ⟨[], List.Sublist.refl _, List.Forall₂.nil⟩
  | append_singleton es e ih =>
      obtain ⟨firsts, hsub, hfirsts⟩ := ih
      have hold : List.Forall₂ (fun key a => firstOf? key (es ++ [e]) = some a) (group es).keys
          firsts := hfirsts.imp fun key a ha => by
        rw [firstOf?] at ha ⊢
        rw [List.find?_append, ha, Option.some_or]
      rw [group_append, addEntry, OrderedMap.keys_insert]
      split
      · exact ⟨firsts, hsub.trans (List.sublist_append_left _ _), hold⟩
      · rename_i hnew
        refine ⟨firsts ++ [e], hsub.append (List.Sublist.refl _),
          List.rel_append hold (List.Forall₂.cons ?_ List.Forall₂.nil)⟩
        have hnone := firstOf?_eq_none_iff.mpr hnew
        rw [firstOf?] at hnone ⊢
        rw [List.find?_append, hnone, Option.none_or]
        simp

lemma keys_build (es : List TableEntry) :
    (build es).sets.map SignatureSet.key = (group (es.mergeSort TableEntry.le)).keys := by
  rw [OrderedMap.keys, ← map_assignRanges 1 (group (es.mergeSort TableEntry.le)).entries,
    List.map_map]
  rfl

/-- The first member of a set is the first entry of its key. -/
lemma head?_members {es : List TableEntry} {s : SignatureSet} (hs : s ∈ (build es).sets) :
    s.members.head? = (firstOf? s.key (es.mergeSort TableEntry.le)).map TableEntry.member := by
  rw [(members_of_mem_build hs).2, membersOf, List.head?_map, List.head?_filter]
  rfl

/-- No range ends after the last index. -/
lemma Tiles.upper_le {lower upper : Nat} {sets : List SignatureSet} (h : Tiles lower sets upper)
    {s : SignatureSet} (hs : s ∈ sets) : s.upper ≤ upper := by
  induction h with
  | nil => simp at hs
  | cons _ hlater ih =>
      rcases List.mem_cons.mp hs with rfl | hs
      · exact hlater.flatMap_range'.2
      · exact ih hs

/-- **Signature sets partition any table.** The sets have different keys and none is empty.
Their ranges lie side by side from one to the length of the table, each as long as its set, and
all bounds are 32-bit numbers. Every entry has the set of its key, and a set has the entries of
its key, in the order in which a stable sort by signature leaves them. The sets come in the
order of their first members. -/
theorem build_partitions (es : List TableEntry) (hn : es.length < 2 ^ 32 - 1) :
    ((build es).sets.map SignatureSet.key).Nodup ∧
    Tiles 1 (build es).sets (es.length + 1) ∧
    (∀ s ∈ (build es).sets, s.lower < s.upper ∧ s.upper < 2 ^ 32) ∧
    (∀ key s, (build es).find? key = some s ↔ s ∈ (build es).sets ∧ s.key = key) ∧
    (∀ e ∈ es, ∃ s, (build es).find? e.code.key = some s) ∧
    ∃ sorted, TableEntry.IsStableSort es sorted ∧
      (∀ s ∈ (build es).sets, s.members ≠ [] ∧
        s.members = (sorted.filter (·.code.key = s.key)).map TableEntry.member) ∧
      ∃ firsts : List TableEntry, firsts.Pairwise (fun e e' => e.le e') ∧
        List.Forall₂ (fun s e => firstOf? s.key sorted = some e ∧ s.members.head? = some e.member)
          (build es).sets firsts := by
  have htiles := tiles_build es
  rw [Nat.add_comm] at htiles
  have hsorted := TableEntry.isStableSort_mergeSort es
  refine ⟨keys_build_nodup es, htiles, fun s hs => ?_, fun _ _ => find?_build_eq_some_iff,
    fun e he => ?_, _, hsorted, fun s hs => members_of_mem_build hs, ?_⟩
  · have hupper := htiles.upper_eq hs
    have hle := htiles.upper_le hs
    have hpos := List.length_pos_of_ne_nil (members_of_mem_build hs).1
    rw [SignatureSet.count] at hupper
    omega
  · obtain ⟨s, hs, hkey⟩ := exists_set_of_mem he
    exact ⟨s, find?_build_eq_some_iff.mpr ⟨hs, hkey⟩⟩
  · obtain ⟨firsts, hsub, hfirsts⟩ := exists_firsts (es.mergeSort TableEntry.le)
    rw [← keys_build, List.forall₂_map_left_iff] at hfirsts
    refine ⟨firsts, hsorted.ordered.sublist hsub, ?_⟩
    refine (List.forall₂_and_left _ _).mpr ⟨fun s hs => hs, hfirsts⟩ |>.imp ?_
    rintro s e ⟨hs, hfirst⟩
    exact ⟨hfirst, by rw [head?_members hs, hfirst, Option.map_some]⟩

/-- Two keys that are level, `4_4` and `4_4_0`, with their entries mixed, and one key that two
codes have, with another one between them in the order. -/
def mixedEntries : List TableEntry :=
  [⟨"a", 1, ⟨4, [4]⟩⟩, ⟨"b", 2, ⟨4, [4, 0]⟩⟩, ⟨"c", 3, ⟨4, [4]⟩⟩, ⟨"d", 4, ⟨0, []⟩⟩,
    ⟨"e", 5, ⟨0, [-1, 3]⟩⟩, ⟨"f", 6, ⟨0, [-1]⟩⟩]

/-- The entries `d` and `f` are one set, though `e` stands between them. -/
theorem build_partitions_mixed :
    mixedEntries.length < 2 ^ 32 - 1 ∧ Tiles 1 (build mixedEntries).sets 7 ∧
      (build mixedEntries).sets.map (fun s => (s.key, s.members.map SetMember.name)) =
        [("0_-1", ["f", "d"]), ("0_-1_3", ["e"]), ("4_4", ["a", "c"]), ("4_4_0", ["b"])] := by
  have hn : mixedEntries.length < 2 ^ 32 - 1 := by decide
  exact ⟨hn, (build_partitions mixedEntries hn).2.1, by cbv⟩

end SignatureSets

end CallGuard
