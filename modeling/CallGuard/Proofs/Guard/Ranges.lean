import CallGuard.Proofs.Guard.Rerun
import CallGuard.Proofs.Table.SignatureOrder

/-!
Ranges after a second run. The checks of a module hold the ranges of the sets of its first
run, and a second run leaves them as they are while it brings the table into the order of
its own sets. Types get their numbers in the order of the table, which the first run has
changed; so the second run may number them in another way and sort the sets in another
order.

* `SignatureSet.slice`: what a table has in the range of a set.
* `Built.exists_entry`: what is in the ranges of a guard's sets.
* `Built.slices_perm_iff`: the ranges of sets keep their functions if signatures are not moved.
* `Built.signatures_eq_iff`: signatures are not moved if the table is sorted.
* `Guard.rerun_keeps_ranges_iff`: when the ranges keep their functions.
-/

namespace CallGuard

/-- Every type of a signature has a fixed number. -/
def Signature.Fixed (s : Signature) : Prop :=
  ∀ type ∈ s.normal.ret :: s.normal.args, (TypeCodes.initial.code? type).isSome

/-! ### Items in a range -/

namespace SignatureSet

variable {α : Type} {s : SignatureSet}

/-- The items of a table in the range of a set. -/
def slice (s : SignatureSet) (items : List α) : List α :=
  (items.take (s.upper - 1)).drop (s.lower - 1)

lemma getElem?_slice (hs : 1 ≤ s.lower) (items : List α) (k : Nat) :
    (s.slice items)[k]? =
      if s.containsIndex (s.lower + k) then items[s.lower + k - 1]? else none := by
  rw [slice, List.getElem?_drop, List.getElem?_take, containsIndex]
  simp only [Bool.and_eq_true, decide_eq_true_eq]
  rw [show s.lower - 1 + k = s.lower + k - 1 by omega]
  refine if_congr ?_ rfl rfl
  omega

/-- An item in the range of a set is at an index of the range. -/
lemma mem_slice_iff (hs : 1 ≤ s.lower) {items : List α} {x : α} :
    x ∈ s.slice items ↔ ∃ j, items[j]? = some x ∧ s.containsIndex (j + 1) := by
  rw [List.mem_iff_getElem?]
  constructor
  · rintro ⟨k, hk⟩
    rw [getElem?_slice hs, ite_eq_iff] at hk
    obtain ⟨hin, hk⟩ | ⟨-, hk⟩ := hk
    · refine ⟨s.lower + k - 1, hk, ?_⟩
      rwa [show s.lower + k - 1 + 1 = s.lower + k by omega]
    · simp at hk
  · rintro ⟨j, hj, hin⟩
    have hle : s.lower ≤ j + 1 := by
      simp only [containsIndex, Bool.and_eq_true, decide_eq_true_eq] at hin
      exact hin.1
    refine ⟨j + 1 - s.lower, ?_⟩
    rw [getElem?_slice hs, Nat.add_sub_cancel' hle, if_pos hin, Nat.add_sub_cancel, hj]

/-- If a property holds of exactly the items in the range of a set, these are all items that
have it. -/
lemma slice_eq_filter (hs : 1 ≤ s.lower) (hle : s.lower ≤ s.upper) {items : List α} {p : α → Bool}
    (h : ∀ j x, items[j]? = some x → (s.containsIndex (j + 1) ↔ p x)) :
    s.slice items = items.filter p := by
  have hparts : items =
      items.take (s.lower - 1) ++ (s.slice items ++ items.drop (s.upper - 1)) := by
    have hfront : (items.take (s.upper - 1)).take (s.lower - 1) = items.take (s.lower - 1) := by
      rw [List.take_take, Nat.min_eq_left (by omega)]
    rw [← List.append_assoc, slice, ← hfront, List.take_append_drop, List.take_append_drop]
  have hfront : (items.take (s.lower - 1)).filter p = [] := by
    rw [List.filter_eq_nil_iff]
    intro x hx
    obtain ⟨j, hj⟩ := List.mem_iff_getElem?.mp hx
    rw [List.getElem?_take, ite_eq_iff] at hj
    obtain ⟨hlt, hj⟩ | ⟨-, hj⟩ := hj
    · rw [← h j x hj, containsIndex, Bool.and_eq_true, decide_eq_true_eq]
      omega
    · simp at hj
  have hback : (items.drop (s.upper - 1)).filter p = [] := by
    rw [List.filter_eq_nil_iff]
    intro x hx
    obtain ⟨j, hj⟩ := List.mem_iff_getElem?.mp hx
    rw [List.getElem?_drop] at hj
    rw [← h _ x hj, containsIndex, Bool.and_eq_true, decide_eq_true_eq, decide_eq_true_eq]
    omega
  have hslice : (s.slice items).filter p = s.slice items := by
    rw [List.filter_eq_self]
    intro x hx
    obtain ⟨j, hj, hin⟩ := (mem_slice_iff hs).mp hx
    exact (h j x hj).mp hin
  conv_rhs => rw [hparts, List.filter_append, List.filter_append, hfront, hback, hslice]
  simp

lemma slice_map {β : Type} (f : α → β) (items : List α) :
    s.slice (items.map f) = (s.slice items).map f := by
  rw [slice, slice, List.map_drop, List.map_take]

end SignatureSet

namespace Guard

open Wat

namespace Built

variable {report : Report} {table : List String} {g : Guard}

/-! ### What is in the ranges -/

lemma tiles (hg : Built report table g) : SignatureSets.Tiles 1 g.sets.sets (1 + table.length) := by
  rw [hg.sets_eq, ← length_entriesOf report table]
  exact SignatureSets.tiles_build _

/-- A reference that has been brought to a place is that of an entry, and the place is in
the range of the entry's set. -/
lemma exists_entry (hg : Built report table g) {j : Nat} {r : String}
    (hr : (g.layout.reorder table)[j]? = some r) :
    ∃ e ∈ entriesOf report table, g.codes.Encodes (signatureFor report r) e.code ∧
      ∃ set ∈ g.sets.sets, set.containsIndex (j + 1) ∧ set.key = e.code.key := by
  have hj : j < table.length := by
    rw [← Layout.length_reorder g.layout]
    exact (List.getElem?_eq_some_iff.mp hr).1
  have hmem : j + 1 ∈ g.layout.indices := by
    rw [hg.indices_perm.mem_iff, List.mem_range'_1]
    omega
  obtain ⟨i, hi⟩ := List.mem_iff_getElem?.mp hmem
  have href := Layout.getElem?_reorder hg.indices_perm hi
  rw [Nat.add_sub_cancel, hr] at href
  obtain ⟨e, he, hindex, henc⟩ := hg.getElem?_entriesOf href.symm
  have he := List.mem_of_getElem? he
  obtain ⟨set, hset, hkey⟩ := SignatureSets.exists_set_of_mem he
  have hfits := hg.fits
  rw [hg.sets_eq] at hfits ⊢
  obtain ⟨j', hj', hin⟩ := hfits.newIndex? set hset e.member
    ((SignatureSets.mem_members_build hset _).mpr ⟨e, he, hkey.symm, rfl⟩)
  have hnew : g.layout.newIndex? e.member.index = some (j + 1) := by
    rw [show e.member.index = i + 1 from hindex, Layout.newIndex?_succ, hi]
  obtain rfl := Option.some.inj (hj'.symm.trans hnew)
  exact ⟨e, he, henc, set, hset, hin, hkey⟩

/-- The range of a set has the references of one signature, and all of them. -/
lemma exists_signature (hg : Built report table g) {set : SignatureSet}
    (hset : set ∈ g.sets.sets) :
    ∃ s : Signature, ∀ j r, (g.layout.reorder table)[j]? = some r →
      (set.containsIndex (j + 1) ↔ (signatureFor report r).normal = s) := by
  have hset' := hset
  rw [hg.sets_eq] at hset'
  obtain ⟨x, hx⟩ := List.exists_mem_of_ne_nil _ (SignatureSets.members_of_mem_build hset').1
  obtain ⟨e, he, hkey, -⟩ := (SignatureSets.mem_members_build hset' x).mp hx
  obtain ⟨i, reference, -, -, henc⟩ := hg.exists_reference he
  refine ⟨(signatureFor report reference).normal, fun j r hr => ?_⟩
  obtain ⟨e', -, henc', set', hmem, hin, hkey'⟩ := hg.exists_entry hr
  rw [← henc'.key_eq_iff hg.codes_sound henc, hkey, ← hkey']
  constructor
  · intro h
    rw [hg.tiles.eq_of_containsIndex hset hmem h hin]
  · intro h
    rw [hg.sets_eq] at hset hmem
    rwa [List.inj_on_of_nodup_map (SignatureSets.keys_build_nodup _) hset hmem h.symm]

/-- References of one signature are brought together. -/
lemma inRuns_signatures (hg : Built report table g) :
    InRuns ((g.layout.reorder table).map fun r => (signatureFor report r).normal) := by
  intro i j k s t hij hjk hi hj hk
  rw [List.getElem?_map] at hi hj hk
  obtain ⟨a, ha, rfl⟩ := Option.map_eq_some_iff.mp hi
  obtain ⟨b, hb, rfl⟩ := Option.map_eq_some_iff.mp hj
  obtain ⟨c, hc, hsame⟩ := Option.map_eq_some_iff.mp hk
  obtain ⟨-, -, -, set, hset, hin, -⟩ := hg.exists_entry ha
  obtain ⟨s, hs⟩ := hg.exists_signature hset
  have hsa := (hs i a ha).mp hin
  have hin' := (hs k c hc).mpr (hsame.trans hsa)
  rw [hsa, (hs j b hb).mp]
  simp only [SignatureSet.containsIndex, Bool.and_eq_true, decide_eq_true_eq] at hin hin' ⊢
  omega

/-- References are brought into the order of their signatures. -/
lemma le_of_reorder (hg : Built report table g) {i j : Nat} {a b : String}
    (ha : (g.layout.reorder table)[i]? = some a) (hb : (g.layout.reorder table)[j]? = some b)
    (hij : i < j) :
    ∃ e e' : TableEntry, g.codes.Encodes (signatureFor report a) e.code ∧
      g.codes.Encodes (signatureFor report b) e'.code ∧ e.le e' := by
  obtain ⟨e, he, henc, set, hset, hin, hkey⟩ := hg.exists_entry ha
  obtain ⟨e', he', henc', set', hset', hin', hkey'⟩ := hg.exists_entry hb
  refine ⟨e, e', henc, henc', ?_⟩
  have hparams : ∀ e ∈ entriesOf report table, e.code.params ≠ [] := by
    intro e he
    obtain ⟨i, r, -, -, h⟩ := hg.exists_reference he
    exact h.params_ne_nil
  simp only [SignatureSet.containsIndex, Bool.and_eq_true, decide_eq_true_eq] at hin hin'
  have hpair := hg.tiles.pairwise.1
  rw [hg.sets_eq] at hset hset' hpair
  have hpair := hpair.and (SignatureSets.pairwise_build hparams)
  -- the sets are the same or one comes first, which the places tell
  have hcases : set = set' ∨ (set.upper ≤ set'.lower ∧ e.le e') ∨ set'.upper ≤ set.lower := by
    let R := fun s s' : SignatureSet =>
      s.key = e.code.key → s'.key = e'.code.key → s = s' ∨ (s.upper ≤ s'.lower ∧ e.le e') ∨
        s'.upper ≤ s.lower
    refine List.Pairwise.forall_of_forall_of_flip (R := R) (fun _ _ _ _ => Or.inl rfl) ?_ ?_ hset
      hset' hkey hkey'
    · exact hpair.imp fun {s s'} h hs hs' =>
        Or.inr (Or.inl ⟨h.1, h.2 e he e' he' hs.symm hs'.symm⟩)
    · exact hpair.imp fun {s s'} h _ _ => Or.inr (Or.inr h.1)
  rcases hcases with rfl | ⟨-, hle⟩ | hlt
  · refine TableEntry.le_of_code_eq ?_
    rw [← SignatureCode.key_inj henc.params_ne_nil henc'.params_ne_nil, ← hkey, ← hkey']
  · exact hle
  · omega

/-! ### When ranges keep their references -/

/-- If references are moved, the ranges of the sets keep theirs exactly if no place gets a
reference of another signature. -/
lemma slices_perm_iff (hg : Built report table g) {table' : List String}
    (hperm : table'.Perm (g.layout.reorder table)) :
    (∀ set ∈ g.sets.sets, (set.slice table').Perm (set.slice (g.layout.reorder table))) ↔
      table'.map (fun r => (signatureFor report r).normal) =
        (g.layout.reorder table).map fun r => (signatureFor report r).normal := by
  have hlower {set : SignatureSet} (hset : set ∈ g.sets.sets) : 1 ≤ set.lower :=
    hg.tiles.pairwise.2 set hset
  constructor
  · intro h
    refine List.ext_getElem (by simp [hperm.length_eq]) fun j hj hj' => ?_
    rw [List.length_map] at hj hj'
    rw [List.getElem_map, List.getElem_map]
    obtain ⟨-, -, -, set, hset, hin, -⟩ := hg.exists_entry (List.getElem?_eq_getElem hj')
    obtain ⟨s, hs⟩ := hg.exists_signature hset
    have hmem := (h set hset).mem_iff.mp ((SignatureSet.mem_slice_iff (hlower hset)).mpr
      ⟨j, List.getElem?_eq_getElem hj, hin⟩)
    obtain ⟨k, hk, hink⟩ := (SignatureSet.mem_slice_iff (hlower hset)).mp hmem
    rw [(hs k _ hk).mp hink, (hs j _ (List.getElem?_eq_getElem hj')).mp hin]
  · intro h set hset
    obtain ⟨s, hs⟩ := hg.exists_signature hset
    have hle : set.lower ≤ set.upper := by
      rw [hg.tiles.upper_eq hset]
      omega
    have hs' (j : Nat) (r : String) (hr : table'[j]? = some r) :
        set.containsIndex (j + 1) ↔ (signatureFor report r).normal = s := by
      have hsame := congrArg (·[j]?) h
      simp only [List.getElem?_map, hr, Option.map_some] at hsame
      obtain ⟨r', hr', hnormal⟩ := Option.map_eq_some_iff.mp hsame.symm
      rw [← hnormal, hs j r' hr']
    have hsame (items : List String) (hitems : ∀ (j : Nat) (r : String), items[j]? = some r →
        (set.containsIndex (j + 1) ↔ (signatureFor report r).normal = s)) :
        set.slice items = items.filter fun r => (signatureFor report r).normal = s :=
      SignatureSet.slice_eq_filter (hlower hset) hle (by simpa using hitems)
    rw [hsame _ hs, hsame _ hs']
    exact hperm.filter _

/-- The entry at a place is that of the reference there. -/
lemma encodes_of_getElem? (hg : Built report table g) {k : Nat} {e : TableEntry}
    (he : (entriesOf report table)[k]? = some e) :
    ∃ r, table[k]? = some r ∧ g.codes.Encodes (signatureFor report r) e.code := by
  have hk : k < table.length := by
    rw [← length_entriesOf report table]
    exact (List.getElem?_eq_some_iff.mp he).1
  obtain ⟨e', he', -, henc⟩ := hg.getElem?_entriesOf (List.getElem?_eq_getElem hk)
  obtain rfl := Option.some.inj (he.symm.trans he')
  exact ⟨_, List.getElem?_eq_getElem hk, henc⟩

/-- If the references of each signature stand together, so do the entries of each key. -/
lemma inRuns_keys (hg : Built report table g)
    (h : InRuns (table.map fun r => (signatureFor report r).normal)) :
    InRuns ((entriesOf report table).map (·.code.key)) := by
  intro i j k a b hij hjk hi hj hk
  rw [List.getElem?_map] at hi hj hk
  obtain ⟨ei, hei, rfl⟩ := Option.map_eq_some_iff.mp hi
  obtain ⟨ej, hej, rfl⟩ := Option.map_eq_some_iff.mp hj
  obtain ⟨ek, hek, hsame⟩ := Option.map_eq_some_iff.mp hk
  obtain ⟨ri, hri, henci⟩ := hg.encodes_of_getElem? hei
  obtain ⟨rj, hrj, hencj⟩ := hg.encodes_of_getElem? hej
  obtain ⟨rk, hrk, henck⟩ := hg.encodes_of_getElem? hek
  rw [henck.key_eq_iff hg.codes_sound henci] at hsame
  rw [hencj.key_eq_iff hg.codes_sound henci]
  refine h i j k _ _ hij hjk ?_ ?_ ?_
  · rw [List.getElem?_map, hri, Option.map_some]
  · rw [List.getElem?_map, hrj, Option.map_some]
  · rw [List.getElem?_map, hrk, Option.map_some, hsame]

/-- If the entries are sorted and those of each key stand together, a place is in the range
of the set of the entry there. -/
lemma key_eq_of_containsIndex (hg : Built report table g)
    (hsorted : (entriesOf report table).Pairwise fun e e' => e.le e')
    (hruns : InRuns ((entriesOf report table).map (·.code.key))) {j : Nat} {e : TableEntry}
    (he : (entriesOf report table)[j]? = some e) {set : SignatureSet} (hset : set ∈ g.sets.sets)
    (hin : set.containsIndex (j + 1)) : set.key = e.code.key := by
  have htiles := SignatureSets.tiles_build (entriesOf report table)
  have hmember : ((SignatureSets.build (entriesOf report table)).sets.flatMap
      SignatureSet.members)[j]? = some e.member := by
    rw [SignatureSets.flatMap_members_build hsorted hruns, List.getElem?_map, he, Option.map_some]
  obtain ⟨own, hown, hin', hmem⟩ := htiles.exists_of_getElem? hmember
  rw [hg.sets_eq] at hset
  rw [Nat.add_comm] at hin'
  obtain rfl := htiles.eq_of_containsIndex hset hown hin hin'
  obtain ⟨e', he', hkey, hmember'⟩ := (SignatureSets.mem_members_build hset _).mp hmem
  have hnodup : ((entriesOf report table).map TableEntry.index).Nodup := by
    rw [map_index_entriesOf]
    exact List.nodup_range' ..
  obtain rfl := List.inj_on_of_nodup_map hnodup he' (List.mem_of_getElem? he)
    (congrArg SetMember.index hmember')
  exact hkey.symm

/-- Entries are sorted if each has the numbers of the reference that comes to its place. -/
lemma pairwise_of_code_eq (hg : Built report table g) {es : List TableEntry}
    (hlength : es.length = table.length)
    (hcode : ∀ {k : Nat} {r : String} {e e' : TableEntry},
      (g.layout.reorder table)[k]? = some r → es[k]? = some e →
        g.codes.Encodes (signatureFor report r) e'.code → e.code = e'.code) :
    es.Pairwise fun e e' => e.le e' := by
  refine List.pairwise_iff_getElem.mpr fun i j hi hj hij => ?_
  have hget {k : Nat} (hk : k < es.length) :=
    List.getElem?_eq_getElem (show k < (g.layout.reorder table).length by
      rwa [Layout.length_reorder, ← hlength])
  obtain ⟨e, e', henc, henc', hle⟩ := hg.le_of_reorder (hget hi) (hget hj) hij
  rwa [TableEntry.le_congr (hcode (hget hi) (List.getElem?_eq_getElem hi) henc)
    (hcode (hget hj) (List.getElem?_eq_getElem hj) henc')]

/-- Sorting a table in which the references of each signature stand together moves no
signatures exactly if the table is sorted by the numbers that types get in it. -/
lemma signatures_eq_iff (hg : Built report table g)
    (hruns : InRuns (table.map fun r => (signatureFor report r).normal)) :
    (g.layout.reorder table).map (fun r => (signatureFor report r).normal) =
        table.map (fun r => (signatureFor report r).normal) ↔
      (entriesOf report table).Pairwise fun e e' => e.le e' := by
  have hlength : (g.layout.reorder table).length = table.length := Layout.length_reorder _ _
  constructor
  · intro h
    refine hg.pairwise_of_code_eq (length_entriesOf report table) fun {k r e e'} hr he he' => ?_
    obtain ⟨r', hr', henc⟩ := hg.encodes_of_getElem? he
    have hsame := congrArg (·[k]?) h
    simp only [List.getElem?_map, hr, hr', Option.map_some, Option.some.injEq] at hsame
    rw [henc.eq_iff hg.codes_sound he', hsame]
  · intro hsorted
    refine List.ext_getElem (by simp [hlength]) fun j hj hj' => ?_
    rw [List.length_map] at hj hj'
    rw [List.getElem_map, List.getElem_map]
    obtain ⟨e, he, -, henc⟩ := hg.getElem?_entriesOf (List.getElem?_eq_getElem hj')
    obtain ⟨e', -, henc', set, hset, hin, hkey⟩ := hg.exists_entry (List.getElem?_eq_getElem hj)
    rw [← henc'.key_eq_iff hg.codes_sound henc, ← hkey]
    exact hg.key_eq_of_containsIndex hsorted (hg.inRuns_keys hruns) he hset hin

/-! ### Types with fixed numbers -/

/-- A signature of types with fixed numbers has the same numbers in every guard. -/
lemma exists_fixed_code {s : Signature} (hs : s.Fixed) :
    ∃ c, ∀ {table g}, Built report table g → g.codes.Encodes s c := by
  have hcode : TypeCodes.initial.Encodes s ⟨(TypeCodes.initial.code? s.normal.ret).getD 0,
      s.normal.args.map fun type => (TypeCodes.initial.code? type).getD 0⟩ := by
    have hget {type : String} (htype : type ∈ s.normal.ret :: s.normal.args) :
        TypeCodes.initial.code? type = some ((TypeCodes.initial.code? type).getD 0) := by
      obtain ⟨n, hn⟩ := Option.isSome_iff_exists.mp (hs type htype)
      rw [hn, Option.getD_some]
    refine ⟨hget List.mem_cons_self, ?_⟩
    rw [List.map_map]
    exact List.map_congr_left fun type htype => hget (List.mem_cons_of_mem _ htype)
  refine ⟨_, fun {table g} hg => hcode.mono ?_⟩
  rw [hg.eq_ofTable.2.2.1]
  exact (entriesFrom_spec report 1 TypeCodes.initial_sound table).2.1

/-- If all types have fixed numbers, a table that has been sorted stays sorted. -/
lemma pairwise_of_fixed (hg : Built report table g)
    (hfixed : ∀ r ∈ table, (signatureFor report r).Fixed) :
    (entriesOf report (g.layout.reorder table)).Pairwise fun e e' => e.le e' := by
  have hg' : Built report (g.layout.reorder table) _ := .sorted
  refine hg.pairwise_of_code_eq
    ((length_entriesOf report _).trans (Layout.length_reorder _ _)) fun {k r e e'} hr he he' => ?_
  obtain ⟨r', hr', henc⟩ := hg'.encodes_of_getElem? he
  obtain rfl := Option.some.inj (hr.symm.trans hr')
  obtain ⟨c, hc⟩ := @exists_fixed_code report _
    (hfixed r (Layout.mem_of_mem_reorder (List.mem_of_getElem? hr)))
  rw [(henc.eq_iff hg'.codes_sound (hc hg')).mpr rfl,
    (he'.eq_iff hg.codes_sound (hc hg)).mpr rfl]

end Built

/-! ### Two runs -/

section Rerun

variable {report : Report} {text : List Char} {m : Wat.Module} {elem : ElemSegment} {g : Guard}
  {out : Instrumented}

/-- **A second run keeps the ranges of the first exactly if the table that the first left is
sorted by the numbers that types get in it.** The ranges that the first run has written into
its checks are those of its sets. The second run makes its guard of the table that is now in
the module and succeeds, whatever its shuffle and options are. After it every range has the
functions that it had before exactly if the entries of that table, numbered in its order, are
sorted. If every type of the functions in the table has a fixed number, they are. -/
theorem rerun_keeps_ranges_iff (htable : tableOf text = .ok (m, elem))
    (hg : Built report (elem.functions.map String.ofList) g) (hterm : Terminated text)
    (hrefs : ∀ r ∈ elem.functions, r.head? ≠ some ';')
    (hname : ∀ c ∈ g.checkFunction.toList, isAtomChar c)
    (hinside : m.DataInside) (hout : g.instrument text = .ok out)
    (hfresh : out.refreshed = false) (hinst : isInstrumented out.text) :
    ∃ m' elem', tableOf out.text = .ok (m', elem') ∧
      ∀ g', Built report (elem'.functions.map String.ofList) g' →
        ∃ out' m'' elem'', g'.instrument out.text = .ok out' ∧ out'.refreshed = true ∧
          tableOf out'.text = .ok (m'', elem'') ∧
          ((∀ set ∈ g.sets.sets,
              (set.slice elem''.functions).Perm (set.slice elem'.functions)) ↔
            (entriesOf report (elem'.functions.map String.ofList)).Pairwise
              fun e e' => e.le e') ∧
          ((∀ r ∈ elem.functions, (signatureFor report (String.ofList r)).Fixed) →
            ∀ set ∈ g.sets.sets,
              (set.slice elem''.functions).Perm (set.slice elem'.functions)) := by
  obtain ⟨-, m', elem', htable', hfunctions, -, hrerun⟩ :=
    exists_rerun_reads htable hg hterm hrefs hname hinside hout hfresh hinst
  refine ⟨m', elem', htable', fun g' hg' => ?_⟩
  obtain ⟨out', hout', hrefreshed, m'', elem'', -, hparse, helem, hfunctions', -⟩ := hrerun g' hg'
  have htable₁ : elem'.functions.map String.ofList =
      g.layout.reorder (elem.functions.map String.ofList) := by
    rw [hfunctions, referenceWords, hg.table_eq, List.map_map]
    simp [Function.comp_def]
  rw [htable₁] at hg' ⊢
  have hslices : (∀ set ∈ g.sets.sets,
      (set.slice elem''.functions).Perm (set.slice elem'.functions)) ↔
        (entriesOf report (g.layout.reorder (elem.functions.map String.ofList))).Pairwise
          fun e e' => e.le e' := by
    have hinj : Function.Injective String.toList := fun _ _ => String.toList_injective
    rw [← hg'.signatures_eq_iff hg.inRuns_signatures,
      ← hg.slices_perm_iff (Layout.reorder_perm hg'.indices_perm), hfunctions, hfunctions',
      referenceWords, referenceWords, hg.table_eq, hg'.table_eq]
    simp only [SignatureSet.slice_map, List.map_perm_map_iff hinj]
  refine ⟨out', m'', elem'', hout', hrefreshed, tableOf_eq_ok_iff.mpr ⟨hparse, helem⟩, hslices,
    fun hfixed => hslices.mpr (hg.pairwise_of_fixed ?_)⟩
  intro r hr
  obtain ⟨w, hw, rfl⟩ := List.mem_map.mp hr
  exact hfixed w hw

end Rerun

/-- A report on three functions, with two types that have no fixed numbers. -/
def tripleReport : Report :=
  .ofList [("a", ⟨⟨"void", ["X"]⟩, []⟩), ("b", ⟨⟨"void", ["i32", "Y"]⟩, []⟩),
    ("c", ⟨⟨"void", ["Y"]⟩, []⟩)]

/-- A module with the three in its table. -/
def tripleText : List Char :=
  "(module (elem func $a $b $c))".toList

/-- What it spells. -/
def tripleModule : Wat.Module :=
  ⟨tripleText, tokens tripleText, [⟨2, 8, 1⟩], some 28⟩

/-- Its table. -/
def tripleElem : ElemSegment :=
  ⟨["$a".toList, "$b".toList, "$c".toList], 19, 27⟩

/-- Its guard, shuffled. -/
def tripleGuard : Guard :=
  (ofTable tripleReport ["$a", "$b", "$c"]).randomize [1, 2, 3]

/-- What is added to it. -/
def tripleTrailer : List Char :=
  ("\n\t(data (i32.const 65535) \"\\02\\00\\00\\00\\01\\00\\00\\00\\03\\00\\00\\00\")" ++
    "\n\t(global (;0;) (mut i32) (i32.const 65547))").toList

/-- The guarded module: the second function comes first. -/
def tripleOnce : List Char :=
  "(module (elem func $b $a $c)".toList ++ tripleTrailer ++ ")".toList

lemma tableOf_tripleText : tableOf tripleText = .ok (tripleModule, tripleElem) := by
  have hforms : forms? (tokens tripleText) = some [⟨0, 9, 0⟩, ⟨2, 8, 1⟩] := by cbv
  refine tableOf_eq_ok_iff.mpr ⟨?_, by cbv⟩
  rw [Module.parse?]
  simp only [hforms]
  cbv

lemma trailer_tripleGuard : tripleGuard.trailer 0 = tripleTrailer := by
  have hdata : tripleGuard.dataText =
      "\"\\02\\00\\00\\00\\01\\00\\00\\00\\03\\00\\00\\00\"".toList := by cbv
  have hend : tripleGuard.dataEnd = 65547 := by cbv
  have hoffset : tripleGuard.offset.toNat = 65535 := by cbv
  delta trailer
  simp only [hdata, hend, hoffset]
  cbv

lemma instrument_tripleText : tripleGuard.instrument tripleText = .ok ⟨tripleOnce, false, 0⟩ := by
  have hnot : isInstrumented tripleText = false := by cbv
  have hfunctions : tripleModule.functions = [] := by cbv
  have hglobal : tripleModule.globalCount = 0 := by cbv
  have helem : tripleGuard.elemList.toList = "$b $a $c".toList := by cbv
  have hsplice : splice tripleText [⟨tripleElem.start, tripleElem.stop, "$b $a $c".toList⟩,
      ⟨28, 28, tripleTrailer⟩] = tripleOnce := by cbv
  have hfresh : tripleGuard.guardFresh tripleModule tripleElem =
      .ok ⟨splice tripleText [tripleGuard.elemEdit tripleElem,
        ⟨28, 28, tripleGuard.trailer 0⟩], false, 0⟩ := by
    rw [guardFresh, hfunctions, hglobal]
    rfl
  rw [instrument, tableOf_tripleText]
  simp only [bind, Except.bind, hnot, Bool.false_eq_true, if_false]
  rw [hfresh, trailer_tripleGuard, elemEdit, helem, hsplice]

lemma built_tripleGuard :
    Built tripleReport (tripleElem.functions.map String.ofList) tripleGuard :=
  .shuffled [1, 2, 3] .sorted

lemma terminated_tripleText : Terminated tripleText := by
  have : (pieces tripleText).all Piece.Terminated = true := by cbv
  simpa [Terminated] using this

lemma head?_ne_of_mem_tripleElem : ∀ r ∈ tripleElem.functions, r.head? ≠ some ';' := by
  decide

lemma isAtomChar_of_mem_tripleGuard : ∀ c ∈ tripleGuard.checkFunction.toList, isAtomChar c :=
  List.all_eq_true.mp rfl

lemma dataInside_tripleModule : tripleModule.DataInside := by
  have hnone : tripleModule.fieldsNamed "data" = [] := by cbv
  simp [Module.DataInside, hnone]

lemma isInstrumented_tripleOnce : isInstrumented tripleOnce := by
  cbv

/-- The table that the first run leaves is not sorted by its own numbers. -/
theorem rerun_keeps_ranges_iff_tripleText :
    Built tripleReport (tripleElem.functions.map String.ofList) tripleGuard ∧
      Terminated tripleText ∧ tripleModule.DataInside ∧
      tableOf tripleText = .ok (tripleModule, tripleElem) ∧
      tripleGuard.instrument tripleText = .ok ⟨tripleOnce, false, 0⟩ ∧
      isInstrumented tripleOnce ∧
      ∃ m' elem', tableOf tripleOnce = .ok (m', elem') ∧
        ∀ g', Built tripleReport (elem'.functions.map String.ofList) g' →
          ∃ out' m'' elem'', g'.instrument tripleOnce = .ok out' ∧ out'.refreshed = true ∧
            tableOf out'.text = .ok (m'', elem'') ∧
            ((∀ set ∈ tripleGuard.sets.sets,
                (set.slice elem''.functions).Perm (set.slice elem'.functions)) ↔
              (entriesOf tripleReport (elem'.functions.map String.ofList)).Pairwise
                fun e e' => e.le e') ∧
            ((∀ r ∈ tripleElem.functions,
                (signatureFor tripleReport (String.ofList r)).Fixed) →
              ∀ set ∈ tripleGuard.sets.sets,
                (set.slice elem''.functions).Perm (set.slice elem'.functions)) :=
  ⟨built_tripleGuard, terminated_tripleText, dataInside_tripleModule, tableOf_tripleText,
    instrument_tripleText, isInstrumented_tripleOnce,
    rerun_keeps_ranges_iff tableOf_tripleText built_tripleGuard terminated_tripleText
      head?_ne_of_mem_tripleElem isAtomChar_of_mem_tripleGuard dataInside_tripleModule
      instrument_tripleText rfl isInstrumented_tripleOnce⟩

/-- A second run of the same report brings a function of another signature into the range of
a set. -/
theorem rerun_moves_range :
    ∃ g out g' out' m' elem' m'' elem'' set, ofText tripleReport tripleText = .ok g ∧
      (g.randomize [1, 2, 3]).instrument tripleText = .ok out ∧ out.refreshed = false ∧
      isInstrumented out.text ∧ tableOf out.text = .ok (m', elem') ∧
      ofText tripleReport out.text = .ok g' ∧
      (g'.randomize [1, 2, 3]).instrument out.text = .ok out' ∧
      tableOf out'.text = .ok (m'', elem'') ∧ set ∈ g.sets.sets ∧
      set.slice elem'.functions = ["$a".toList] ∧ set.slice elem''.functions = ["$c".toList] := by
  obtain ⟨-, m', elem', htable', hfunctions, -, hrerun⟩ :=
    exists_rerun_reads tableOf_tripleText built_tripleGuard terminated_tripleText
      head?_ne_of_mem_tripleElem isAtomChar_of_mem_tripleGuard dataInside_tripleModule
      instrument_tripleText rfl isInstrumented_tripleOnce
  have hwords : tripleGuard.referenceWords = ["$b".toList, "$a".toList, "$c".toList] := by cbv
  rw [hwords] at hfunctions
  rw [hfunctions] at hrerun
  have hg' : Built tripleReport (["$b".toList, "$a".toList, "$c".toList].map String.ofList) _ :=
    .shuffled [1, 2, 3] .sorted
  obtain ⟨out', hout', -, m'', elem'', -, hparse, helem, hfunctions', -⟩ := hrerun _ hg'
  have hwords' : ((ofTable tripleReport (["$b".toList, "$a".toList, "$c".toList].map
      String.ofList)).randomize [1, 2, 3]).referenceWords =
        ["$b".toList, "$c".toList, "$a".toList] := by cbv
  rw [hwords'] at hfunctions'
  refine ⟨ofTable tripleReport ["$a", "$b", "$c"], ⟨tripleOnce, false, 0⟩, _, out', m', elem', m'',
    elem'', ⟨"0_9", [⟨"a", 1⟩], 2, 3⟩, ?_, instrument_tripleText, rfl, isInstrumented_tripleOnce,
    htable', ?_, hout', tableOf_eq_ok_iff.mpr ⟨hparse, helem⟩, ?_, ?_, ?_⟩
  · rw [ofText, tableOf_tripleText]
    rfl
  · rw [ofText, htable']
    simp only [Except.map, hfunctions]
  · have hsets : (ofTable tripleReport ["$a", "$b", "$c"]).sets.sets =
        [⟨"0_4_10", [⟨"b", 2⟩], 1, 2⟩, ⟨"0_9", [⟨"a", 1⟩], 2, 3⟩, ⟨"0_10", [⟨"c", 3⟩], 3, 4⟩] := by
      cbv
    rw [hsets]
    simp
  · rw [hfunctions]
    rfl
  · rw [hfunctions']
    rfl

end Guard

end CallGuard
