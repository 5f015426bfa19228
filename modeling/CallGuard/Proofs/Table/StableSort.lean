import CallGuard.Proofs.Table.Padding
import CallGuard.Proofs.Table.Partition

/-!
Sorting entries. Entries can be level without being the same, and a stable sort keeps the order
of those. Sorted lists that have the same level entries in the same order are the same, so a
stable sort has one result.

* `TableEntry.eq_of_filter_level`: sorted lists with the same level entries.
* `TableEntry.isStableSort_iff`: there is one stable sort of entries.
* `compareParams_padded`: the order of parameters and of entries, and what sorting by it gives.
-/

namespace CallGuard

namespace TableEntry

lemma le_refl (e : TableEntry) : e.le e :=
  le_of_code_eq rfl

lemma level_iff {e e' : TableEntry} : e.level e' ↔ e.le e' ∧ e'.le e := by
  rw [level, Bool.and_eq_true]

lemma level_self (e : TableEntry) : e.level e :=
  level_iff.mpr ⟨le_refl e, le_refl e⟩

/-- Nothing in a sorted list is before its first entry. -/
lemma le_of_mem_of_pairwise {e e' : TableEntry} {es : List TableEntry}
    (h : (e :: es).Pairwise fun a b => a.le b) (hmem : e' ∈ e :: es) : e.le e' := by
  rcases List.mem_cons.mp hmem with rfl | hmem
  · exact le_refl e'
  · exact (List.pairwise_cons.mp h).1 e' hmem

/-- Every entry of a list is among those that are level with it. -/
lemma mem_iff_of_filter_level {es es' : List TableEntry}
    (hlevel : ∀ e : TableEntry, es.filter e.level = es'.filter e.level) (e : TableEntry) :
    e ∈ es ↔ e ∈ es' := by
  have hself (l : List TableEntry) : e ∈ l ↔ e ∈ l.filter e.level := by
    rw [List.mem_filter, and_iff_left (level_self e)]
  rw [hself es, hlevel e, ← hself es']

/-- Sorted lists are the same if they have the same level entries in the same order. -/
lemma eq_of_filter_level {es es' : List TableEntry} (h : es.Pairwise fun a b => a.le b)
    (h' : es'.Pairwise fun a b => a.le b)
    (hlevel : ∀ e : TableEntry, es.filter e.level = es'.filter e.level) : es = es' := by
  have hmem := mem_iff_of_filter_level hlevel
  induction es generalizing es' with
  | nil =>
      symm
      rw [List.eq_nil_iff_forall_not_mem]
      intro e he
      exact List.not_mem_nil ((hmem e).mpr he)
  | cons e es ih =>
      cases es' with
      | nil => exact absurd ((hmem e).mp List.mem_cons_self) List.not_mem_nil
      | cons e' es' =>
          have hle : e.le e' := le_of_mem_of_pairwise h ((hmem e').mpr List.mem_cons_self)
          have hle' : e'.le e := le_of_mem_of_pairwise h' ((hmem e).mp List.mem_cons_self)
          -- the first entries are level, and so each is the first of those level with `e`
          have hfirst := hlevel e
          rw [List.filter_cons_of_pos (level_self e),
            List.filter_cons_of_pos (level_iff.mpr ⟨hle, hle'⟩)] at hfirst
          obtain rfl : e = e' := (List.cons.inj hfirst).1
          have htail (a : TableEntry) : es.filter a.level = es'.filter a.level := by
            have hall := hlevel a
            by_cases ha : a.level e
            · rw [List.filter_cons_of_pos ha, List.filter_cons_of_pos ha] at hall
              exact (List.cons.inj hall).2
            · rwa [List.filter_cons_of_neg ha, List.filter_cons_of_neg ha] at hall
          rw [ih (List.pairwise_cons.mp h).2 (List.pairwise_cons.mp h').2 htail
            (mem_iff_of_filter_level htail)]

/-- There is one stable sort of entries. -/
lemma isStableSort_iff {es sorted : List TableEntry} :
    IsStableSort es sorted ↔ sorted = es.mergeSort le := by
  have hsort := isStableSort_mergeSort es
  constructor
  · intro h
    exact eq_of_filter_level h.ordered hsort.ordered
      fun e => (h.stable e).trans (hsort.stable e).symm
  · rintro rfl
    exact hsort

end TableEntry

/-- **Parameters are in a total preorder, and so are entries.** Lists of parameters are compared
lexicographically, with zeros after them for ever. So they are level exactly if they are the same
with these zeros, the other way round the result is the opposite one, and not to come after is
transitive. Entries are compared by their return types and then by their parameters, which makes
a total preorder too. Sorting entries has one stable result, and the sets of a table are made
from it. -/
theorem compareParams_padded :
    (∀ a b : List Int,
      compareParams a b = compare (toLex (padded a)) (toLex (padded b)) ∧
      (compareParams a b = .eq ↔ padded a = padded b) ∧
      compareParams b a = (compareParams a b).swap) ∧
    (∀ a b c : List Int, (compareParams a b).isLE → (compareParams b c).isLE →
      (compareParams a c).isLE) ∧
    (∀ e e' : TableEntry,
      e.code.compare e'.code = compare e.code.rank e'.code.rank ∧
      e'.code.compare e.code = (e.code.compare e'.code).swap ∧
      e.le e ∧ (e.le e' ∨ e'.le e)) ∧
    (∀ e e' e'' : TableEntry, e.le e' → e'.le e'' → e.le e'') ∧
    ∀ es : List TableEntry, ∃ sorted,
      (∀ es', TableEntry.IsStableSort es es' ↔ es' = sorted) ∧
      SignatureSets.build es =
        ⟨SignatureSets.assignRanges 1 (SignatureSets.group sorted).entries, es.length⟩ := by
  refine ⟨fun a b => ?_, fun a b c => compareParams_isLE_trans, fun e e' => ?_,
    fun e e' e'' => TableEntry.le_trans, fun es => ?_⟩
  · exact ⟨compareParams_eq_compare a b, compareParams_eq_iff a b, compareParams_swap a b⟩
  · exact ⟨e.code.compare_eq_compare e'.code, e.code.compare_swap e'.code, e.le_refl,
      e.le_total e'⟩
  · exact ⟨es.mergeSort TableEntry.le, fun _ => TableEntry.isStableSort_iff, rfl⟩

/-- Three lists of different lengths: `-1` comes before nothing at all, and a zero after a list
makes no difference. -/
theorem compareParams_padded_lengths :
    (compareParams [-1] []).isLE ∧ (compareParams [] [0, 0, 1]).isLE ∧
      (compareParams [-1] [0, 0, 1]).isLE ∧ compareParams [4] [4, 0] = .eq := by
  have hfirst : (compareParams [-1] []).isLE := by decide
  have hsecond : (compareParams [] [0, 0, 1]).isLE := by decide
  have hsame : padded [4] = padded [4, 0] := by
    funext i
    match i with
    | 0 => rfl
    | 1 => rfl
    | _ + 2 => rfl
  exact ⟨hfirst, hsecond, compareParams_padded.2.1 _ _ _ hfirst hsecond,
    (compareParams_padded.1 [4] [4, 0]).2.1.mpr hsame⟩

end CallGuard
