import CallGuard.Proofs.Guard.Table

/-!
What a guard promises. A call of a signature is let through to exactly the functions
of the table that have the signature, and the data that maps indices to new ones
agrees with the reordered table.

* `callKey_admits`: whom a call reaches.
* `dataString_remaps`: where an index leads.
-/

namespace CallGuard

namespace Guard

/-- The function at an index of a table, counted from one, has the signature `s`
according to the report. -/
def HasSignature (report : Report) (table : List String) (i : Nat) (s : Signature) : Prop :=
  ∃ reference, 1 ≤ i ∧ table[i - 1]? = some reference ∧
    (signatureFor report reference).normal = s.normal

namespace Built

variable {report : Report} {table : List String} {g : Guard}

/-- The set of a key lets through exactly the functions of the signature that the key
belongs to. -/
lemma admits_iff (hg : Built report table g) {s : Signature} {c : SignatureCode}
    (hs : g.codes.Encodes s c) {set : SignatureSet} (hset : g.sets.find? c.key = some set)
    {i : Nat} (hi : 1 ≤ i) (hn : i ≤ table.length) :
    ∃ j, g.layout.newIndex? i = some j ∧
      (set.containsIndex j ↔ HasSignature report table i s) := by
  obtain ⟨k, rfl⟩ : ∃ k, i = k + 1 := ⟨i - 1, by omega⟩
  have href : table[k]? = some (table.get ⟨k, by omega⟩) := List.getElem?_eq_getElem (by omega)
  obtain ⟨e, he, hindex, henc⟩ := hg.getElem?_entriesOf href
  obtain ⟨own, hown, hkey⟩ := SignatureSets.exists_set_of_mem (List.mem_of_getElem? he)
  have hmem : e.member ∈ own.members :=
    (SignatureSets.mem_members_build hown _).mpr ⟨e, List.mem_of_getElem? he, hkey.symm, rfl⟩
  rw [hg.sets_eq, SignatureSets.find?_build_eq_some_iff] at hset
  have hfits := hg.fits
  rw [hg.sets_eq] at hfits
  obtain ⟨j, hj, hin⟩ := hfits.newIndex? own hown e.member hmem
  have hj' : g.layout.newIndex? (k + 1) = some j := by rw [← hindex]; exact hj
  have hiff : e.code.key = c.key ↔
      (signatureFor report (table.get ⟨k, by omega⟩)).normal = s.normal :=
    henc.key_eq_iff hg.codes_sound hs
  refine ⟨j, hj', fun h => ?_, fun h => ?_⟩
  · obtain rfl := (SignatureSets.tiles_build _).eq_of_containsIndex hset.1 hown h hin
    exact ⟨_, hi, href, hiff.mp (hkey.symm.trans hset.2)⟩
  · obtain ⟨reference, -, href', hnormal⟩ := h
    obtain rfl := Option.some.inj (href.symm.trans href')
    have hsame : own = set := List.inj_on_of_nodup_map (SignatureSets.keys_build_nodup _) hown
      hset.1 (hkey.trans ((hiff.mpr hnormal).trans hset.2.symm))
    exact hsame ▸ hin

end Built

/-- **The policy of a guard.** If the table has a function of a call's signature, the
call is checked against a set whose range holds the new indices of exactly the
functions of that signature. Otherwise it is checked against the fallback set, whose
range holds those of exactly the functions that return nothing and take nothing; the
set exists if there is such a function. -/
theorem callKey_admits {report : Report} {table : List String} {g : Guard}
    (hg : Built report table g) (s : Signature) :
    ((∃ i, HasSignature report table i s) →
      ∃ set, g.sets.find? (g.callKey s) = some set ∧
        ∀ i, 1 ≤ i → i ≤ table.length → ∃ j, g.layout.newIndex? i = some j ∧
          (set.containsIndex j ↔ HasSignature report table i s)) ∧
    ((¬ ∃ i, HasSignature report table i s) →
      g.callKey s = "0_-1" ∧
      ((g.sets.find? "0_-1").isSome ↔ ∃ i, HasSignature report table i ⟨"void", ["nil"]⟩) ∧
      ∀ set, g.sets.find? "0_-1" = some set →
        ∀ i, 1 ≤ i → i ≤ table.length → ∃ j, g.layout.newIndex? i = some j ∧
          (set.containsIndex j ↔ HasSignature report table i ⟨"void", ["nil"]⟩)) := by
  have hreached := hg.reached_codes
  have hplain := hg.codes_sound.encodes_plain
  constructor
  · rintro ⟨i, reference, hi, href, hs⟩
    obtain ⟨e, he, -, henc⟩ := hg.getElem?_entriesOf href
    obtain ⟨set, hset, hkey⟩ := SignatureSets.exists_set_of_mem (List.mem_of_getElem? he)
    have hcall : g.callKey s = e.code.key := hg.resolve_of_normal_eq hreached href hs henc
    have hfind : g.sets.find? e.code.key = some set := by
      rw [hg.sets_eq]
      exact SignatureSets.find?_build_eq_some_iff.mpr ⟨hset, hkey⟩
    rw [hcall]
    refine ⟨set, hfind, fun k hk hn => ?_⟩
    obtain ⟨j, hj, hiff⟩ := hg.admits_iff henc hfind hk hn
    refine ⟨j, hj, hiff.trans ?_⟩
    simp only [HasSignature, hs]
  · intro hnone
    have hne : ∀ reference ∈ table, (signatureFor report reference).normal ≠ s.normal := by
      intro reference href heq
      obtain ⟨i, hi⟩ := List.mem_iff_getElem?.mp href
      exact hnone ⟨i + 1, reference, by omega, hi, heq⟩
    refine ⟨hg.resolve_of_normal_ne hreached hne, ?_, fun set hset i hi hn => ?_⟩
    · rw [← SignatureSets.contains]
      refine (hg.contains_key_iff hreached hplain).trans ?_
      constructor
      · rintro ⟨reference, href, heq⟩
        obtain ⟨i, hi⟩ := List.mem_iff_getElem?.mp href
        exact ⟨i + 1, reference, by omega, hi, heq⟩
      · rintro ⟨i, reference, -, href, heq⟩
        exact ⟨reference, List.mem_of_getElem? href, heq⟩
    · exact hg.admits_iff hplain (key_plain ▸ hset) hi hn

/-- Two functions of one signature and one that the report does not know, shuffled. -/
theorem callKey_admits_shuffled :
    let report : Report := .ofList [("add", ⟨⟨"i32", ["i32", "ptr"]⟩, []⟩)]
    let table := ["$add", "$tick", "$add"]
    let g := (ofTable report table).randomize [5, 4000000000]
    let s : Signature := ⟨"i32", ["i32", "ptr"]⟩
    HasSignature report table 1 s ∧
      ∃ set, g.sets.find? (g.callKey s) = some set ∧
        ∀ i, 1 ≤ i → i ≤ table.length → ∃ j, g.layout.newIndex? i = some j ∧
          (set.containsIndex j ↔ HasSignature report table i s) := by
  intro report table g s
  have hs : HasSignature report table 1 s := ⟨"$add", by decide, rfl, by decide⟩
  exact ⟨hs, (callKey_admits (.shuffled [5, 4000000000] .sorted) s).1 ⟨1, hs⟩⟩

/-- **The data of a guard agrees with its table.** The data spells one word for every
entry of the table, the words are the indices of the layout and use each of the numbers
up to the length of the table once, and the word at an index says where in the reordered
table the entry of that index is. No place of the reordered table keeps its old item. -/
theorem dataString_remaps {report : Report} {table : List String} {g : Guard}
    (hg : Built report table g) (hn : table.length < 2 ^ 32 - 1) :
    ∃ words, Layout.readData? g.layout.dataString = some words ∧
      words = g.layout.indices ∧
      words.Perm (List.range' 1 table.length) ∧
      (∀ i, 1 ≤ i → i ≤ table.length →
        ∃ j, words[i - 1]? = some j ∧ 1 ≤ j ∧ j ≤ table.length ∧
          (g.layout.reorder table)[j - 1]? = table[i - 1]?) ∧
      ∀ o ∈ g.layout.fill table, o.isSome := by
  refine ⟨g.layout.indices, hg.readData?_dataString (by omega), rfl, hg.indices_perm,
    fun i => hg.exists_newIndex, fun o => ?_⟩
  exact Layout.isSome_of_mem_fill hg.indices_perm

/-- A table with a function in it twice, shuffled. -/
theorem dataString_remaps_twice :
    ∃ g, g = (ofTable .empty ["$f", "$g", "$f"]).randomize [7, 3000000000] ∧
      Built .empty ["$f", "$g", "$f"] g ∧ ["$f", "$g", "$f"].length < 2 ^ 32 - 1 ∧
      ∃ words, Layout.readData? g.layout.dataString = some words ∧
        words = g.layout.indices ∧
        words.Perm (List.range' 1 ["$f", "$g", "$f"].length) ∧
        (∀ i, 1 ≤ i → i ≤ ["$f", "$g", "$f"].length →
          ∃ j, words[i - 1]? = some j ∧ 1 ≤ j ∧ j ≤ ["$f", "$g", "$f"].length ∧
            (g.layout.reorder ["$f", "$g", "$f"])[j - 1]? = ["$f", "$g", "$f"][i - 1]?) ∧
        ∀ o ∈ g.layout.fill ["$f", "$g", "$f"], o.isSome := by
  have hg : Built .empty ["$f", "$g", "$f"] _ := .shuffled [7, 3000000000] .sorted
  have hn : ["$f", "$g", "$f"].length < 2 ^ 32 - 1 := by decide
  exact ⟨_, rfl, hg, hn, dataString_remaps hg hn⟩

end Guard

end CallGuard
