import CallGuard.Proofs.Wat.Direct.Outline
import CallGuard.Proofs.Wat.Sites
import CallGuard.Proofs.Wat.Splice
import Mathlib.Data.List.ReduceOption

/-!
What is found in the fields of a module, without a look first: the table, the indirect calls, the
globals, the functions of a name and the data.

* `elemSegment`, `functions`, `globalCount`, `hasFunction`, `lastData`: what is found.
* `elemSegment_eq`, `functions_eq`, `globalCount_eq`, `hasFunction_eq`, `lastData_eq`: in the
  module that a text spells it is found without a crash.
-/

namespace CallGuard.Wat.Direct

open Forest
open Text (byteLength)

/-! ### The table -/

/-- The indices of the items for which a program says so. -/
def positions {α : Type} (p : α → Checked Bool) (l : List α) : Checked (List Nat) := do
  return (← select (fun a => p a.1) l.zipIdx).map Prod.snd

/-- What is left of a list after some items. -/
def behind {α : Type} (l : List α) (n : Nat) : Checked (List α) :=
  if n ≤ l.length then .ok (l.drop n) else .error (.crashed (.index n))

/-- Whether the token at an index is an atom with a word. -/
def isAtomAt (o : Outline) (word : List Char) (i : Nat) : Checked Bool := do
  return (← atomAt o.text o.spans i) == some word

/-- Whether the token at an index is an opening parenthesis. -/
def isOpeningAt (o : Outline) (i : Nat) : Checked Bool := do
  return (← item o.spans i).kind == .opening

/-- The offset after the form or token at an index. -/
def stopAt (o : Outline) (i : Nat) : Checked Nat := do
  let t ← item o.spans i
  if t.kind = .opening then return (← item o.spans (← matchingClose o i)).stop else return t.stop

/-- The function list behind the token with a number among those directly inside a field. -/
def listBehind (o : Outline) (inside : List Nat) (k : Nat) : Checked ElemSegment := do
  let ts ← (← behind inside (k + 1)).mapM (item o.spans)
  let refs := ts.takeWhile (·.kind == .atom)
  let functions ← refs.mapM fun t => slice o.text t.start t.stop
  match refs.head?, refs.getLast? with
  | some first, some last => return ⟨functions, first.start, last.stop⟩
  | _, _ =>
    let stop ← stopAt o (← item inside k)
    return ⟨functions, stop, stop⟩

/-- The number of the token directly inside a field that introduces the function list: the word
for functions, or else the start of the last form. -/
def listStart (o : Outline) (inside : List Nat) : Checked (Option Nat) := do
  let words ← positions (isAtomAt o "func".toList) inside
  let openings ← positions (isOpeningAt o) inside
  return words.head?.or openings.getLast?

/-- The function list of the first element segment. -/
def elemSegment (o : Outline) : Checked (Option ElemSegment) := do
  match (← fieldsNamed o "elem").head? with
  | none => return none
  | some elem =>
    let inside ← children o elem
    (← listStart o inside).mapM (listBehind o inside)

section Positions

variable {α β : Type} {q : α → Bool} {l : List α}

lemma positions_map_eq {p : β → Checked Bool} {k : α → β} (h : ∀ a ∈ l, p (k a) = .ok (q a)) :
    positions p (l.map k) = .ok ((l.zipIdx.filter fun a => q a.1).map Prod.snd) := by
  have hselect : select (fun a => p a.1) (l.zipIdx.map (Prod.map k id)) =
      .ok ((l.zipIdx.filter fun a => q a.1).map (Prod.map k id)) :=
    select_map_eq fun a ha => h a.1 (List.fst_mem_of_mem_zipIdx ha)
  rw [positions, List.zipIdx_map, hselect, ok_bind, List.map_map]
  rfl

lemma filter_zipIdx_eq_nil (h : ∀ a ∈ l, ¬ q a) (n : Nat) :
    (l.zipIdx n).filter (fun a => q a.1) = [] :=
  List.filter_eq_nil_iff.mpr fun a ha => h a.1 (List.fst_mem_of_mem_zipIdx ha)

lemma head?_filter_zipIdx {before after : List α} {a : α} (hbefore : ∀ b ∈ before, ¬ q b)
    (ha : q a) :
    (((before ++ a :: after).zipIdx.filter fun a => q a.1).map Prod.snd).head? =
      some before.length := by
  rw [List.zipIdx_append, List.zipIdx_cons, List.filter_append, filter_zipIdx_eq_nil hbefore,
    List.filter_cons, if_pos ha]
  simp

lemma getLast?_filter_zipIdx {before after : List α} {a : α} (hafter : ∀ b ∈ after, ¬ q b)
    (ha : q a) :
    (((before ++ a :: after).zipIdx.filter fun a => q a.1).map Prod.snd).getLast? =
      some before.length := by
  rw [List.zipIdx_append, List.zipIdx_cons, List.filter_append, List.filter_cons, if_pos ha,
    filter_zipIdx_eq_nil hafter]
  simp

end Positions

section Table

variable {F : Forest Token} {text : List Char} (hF : F.Sound Token.kind)
  (hflat : F.flatten = tokens text)

lemma isOpeningAt_eq {i : Nat} {t : Token} (ht : F.flatten[i]? = some t) :
    isOpeningAt (outlineOf (F.toModule text)) i = .ok (t.kind == .opening) := by
  change (item (F.flatten.map spanOf) i >>= _) = _
  rw [item_map_spanOf ht]
  rfl

lemma stopAt_eq {i : Nat} {t : Token} (ht : F.flatten[i]? = some t) :
    stopAt (outlineOf (F.toModule text)) i = .ok
      (if t.kind = .opening then
        (F.flatten[(F.toModule text).closeOf i]?.map (·.stop)).getD t.stop else t.stop) := by
  change (item (F.flatten.map spanOf) i >>= _) = _
  rw [item_map_spanOf ht, ok_bind]
  by_cases hkind : t.kind = .opening
  · have hlt := @closeOf_lt (F.toModule text) i (List.getElem?_eq_some_iff.mp ht).1
    have hd := List.getElem?_eq_getElem hlt
    change F.flatten[(F.toModule text).closeOf i]? = some _ at hd
    rw [if_pos (show (spanOf t).kind = .opening from hkind), if_pos hkind,
      matchingClose_eq ht hkind, ok_bind, hd]
    change (item (F.flatten.map spanOf) _ >>= _) = _
    rw [item_map_spanOf hd]
    rfl
  · rw [if_neg (show (spanOf t).kind ≠ .opening from hkind), if_neg hkind]
    rfl

include hflat

lemma isAtomAt_eq {i : Nat} {t : Token} (ht : F.flatten[i]? = some t) (word : List Char) :
    isAtomAt (outlineOf (F.toModule text)) word i =
      .ok (t.kind == .atom && t.text == word) := by
  rw [isAtomAt, ← beq_atomAt? ht]
  change (atomAt text (F.flatten.map spanOf) i >>= _) = _
  rw [atomAt_eq hflat (List.getElem?_eq_some_iff.mp ht).1]
  rfl

lemma isAtomAt_toList {i : Nat} {t : Token} (ht : F.flatten[i]? = some t) (name : String) :
    isAtomAt (outlineOf (F.toModule text)) name.toList i = .ok (t.isAtom name) :=
  isAtomAt_eq hflat ht name.toList

/-- The token that introduces the function list is the same, or there is none. -/
lemma listStart_eq {cs : List (Token × Nat)} (hget : ∀ c ∈ cs, F.flatten[c.2]? = some c.1) :
    listStart (outlineOf (F.toModule text)) (cs.map Prod.snd) = .ok none ∧
        Module.listStart? cs = none ∨
      ∃ before start after, cs = before ++ start :: after ∧
        Module.listStart? cs = some (start, after) ∧
        listStart (outlineOf (F.toModule text)) (cs.map Prod.snd) = .ok (some before.length) := by
  have hwords : positions (isAtomAt (outlineOf (F.toModule text)) "func".toList)
      (cs.map Prod.snd) = .ok ((cs.zipIdx.filter (·.1.1.isAtom "func")).map Prod.snd) :=
    positions_map_eq fun c hc => isAtomAt_toList hflat (hget c hc) "func"
  have hopenings : positions (isOpeningAt (outlineOf (F.toModule text))) (cs.map Prod.snd) =
      .ok ((cs.zipIdx.filter (·.1.1.kind == .opening)).map Prod.snd) :=
    positions_map_eq fun c hc => isOpeningAt_eq (hget c hc)
  rw [listStart, hwords, ok_bind, hopenings, ok_bind]
  cases hstart : Module.listStart? cs with
  | none =>
      have hneither := listStart?_eq_none_iff.mp hstart
      have hopening : ∀ c ∈ cs, ¬ c.1.kind == .opening := fun c hc => by
        simpa using (hneither c hc).2
      refine Or.inl ⟨?_, rfl⟩
      rw [filter_zipIdx_eq_nil fun c hc => (hneither c hc).1, filter_zipIdx_eq_nil hopening]
      rfl
  | some found =>
      obtain ⟨start, after⟩ := found
      obtain ⟨before, rfl, hintro⟩ := listStart?_eq_some_iff.mp hstart
      refine Or.inr ⟨before, start, after, rfl, rfl, ?_⟩
      rcases hintro with ⟨hword, hbefore⟩ | ⟨hkind, hlast, hword⟩
      · rw [head?_filter_zipIdx hbefore hword]
        rfl
      · have hopening : start.1.kind == .opening := beq_iff_eq.mpr hkind
        have hafter : ∀ c ∈ after, ¬ c.1.kind == .opening := fun c hc => by simpa using hlast c hc
        rw [filter_zipIdx_eq_nil hword, getLast?_filter_zipIdx hafter hopening]
        rfl

/-- The function list is the one behind the token that introduces it. -/
lemma listBehind_eq {before after : List (Token × Nat)} {start : Token × Nat}
    (hget : ∀ c ∈ before ++ start :: after, F.flatten[c.2]? = some c.1) :
    listBehind (outlineOf (F.toModule text)) ((before ++ start :: after).map Prod.snd)
        before.length =
      .ok (let refs := (after.map Prod.fst).takeWhile (·.kind == .atom)
        match refs.head?, refs.getLast? with
        | some first, some last => ⟨refs.map (·.text), first.start, last.stop⟩
        | _, _ =>
          let stop := if start.1.kind = .opening then
              (F.flatten[(F.toModule text).closeOf start.2]?.map (·.stop)).getD start.1.stop
            else start.1.stop
          ⟨[], stop, stop⟩) := by
  have hsplit : (before ++ start :: after).map Prod.snd =
      before.map Prod.snd ++ start.2 :: after.map Prod.snd := by
    rw [List.map_append, List.map_cons]
  have hlength : (before.map Prod.snd).length = before.length := List.length_map _
  have hbehind : behind ((before ++ start :: after).map Prod.snd) (before.length + 1) =
      .ok (after.map Prod.snd) := by
    rw [behind, if_pos (by simp), hsplit, ← hlength, ← List.drop_drop, List.drop_left]
    rfl
  have hitem : item ((before ++ start :: after).map Prod.snd) before.length = .ok start.2 := by
    rw [hsplit, ← hlength, item_append_cons]
  have hitems : (after.map Prod.snd).mapM (item (F.flatten.map spanOf)) =
      .ok ((after.map Prod.fst).map spanOf) := by
    rw [List.mapM_map, List.map_map]
    exact mapM_eq fun c hc => item_map_spanOf (hget c (by simp [hc]))
  have hatoms : ((after.map Prod.fst).map spanOf).takeWhile (·.kind == .atom) =
      ((after.map Prod.fst).takeWhile (·.kind == .atom)).map spanOf := List.takeWhile_map
  have hrefs : ∀ t ∈ (after.map Prod.fst).takeWhile (·.kind == .atom), t ∈ tokens text := by
    intro t ht
    obtain ⟨c, hc, rfl⟩ := List.mem_map.mp ((List.takeWhile_prefix _).subset ht)
    rw [← hflat]
    exact List.mem_of_getElem? (hget c (by simp [hc]))
  rw [listBehind, hbehind, ok_bind]
  change ((after.map Prod.snd).mapM (item (F.flatten.map spanOf)) >>= _) = _
  rw [hitems, ok_bind]
  dsimp only
  rw [hatoms]
  generalize (after.map Prod.fst).takeWhile (·.kind == .atom) = refs at hrefs
  have hfunctions : (refs.map spanOf).mapM (fun t => slice text t.start t.stop) =
      .ok (refs.map (·.text)) := by
    rw [List.mapM_map]
    exact mapM_eq fun t ht => slice_token (hrefs t ht)
  change ((refs.map spanOf).mapM (fun t => slice text t.start t.stop) >>= _) = _
  rw [hfunctions, ok_bind, List.head?_map, List.getLast?_map]
  cases refs with
  | nil =>
      change (item _ _ >>= fun i => stopAt _ i >>= _) = _
      rw [hitem, ok_bind, stopAt_eq (hget start (by simp))]
      rfl
  | cons first refs =>
      rw [List.getLast?_eq_some_getLast (List.cons_ne_nil first refs)]
      rfl

include hF

/-- The table of the module is found without a crash. -/
lemma elemSegment_eq :
    elemSegment (outlineOf (F.toModule text)) = .ok (F.toModule text).elemSegment? := by
  rw [elemSegment, fieldsNamed_eq hflat, ok_bind, Module.elemSegment?]
  cases hhead : ((F.toModule text).fieldsNamed "elem").head? with
  | none => rfl
  | some f =>
      have hf : f ∈ (F.toModule text).fields :=
        List.mem_of_mem_filter (List.mem_of_mem_head? hhead)
      have hget : ∀ c ∈ (F.toModule text).children f, F.flatten[c.2]? = some c.1 :=
        fun c hc => (getElem?_of_mem_children hF hf hc).1
      change (children (outlineOf (F.toModule text)) f >>= _) = _
      rw [children_eq hF hf, ok_bind, Option.bind_eq_bind, Option.bind_some]
      rcases @listStart_eq F text hflat _ hget with
        ⟨hdirect, hstart⟩ | ⟨before, start, after, hchildren, hstart, hdirect⟩
      · rw [hdirect, hstart]
        rfl
      · rw [hchildren] at hget
        rw [hdirect, hstart, ok_bind, Option.mapM_some, hchildren, listBehind_eq hflat hget]
        change Except.ok (some _) = Except.ok _
        dsimp only [Option.bind_eq_bind, Option.bind_some]
        cases (after.map Prod.fst).takeWhile (·.kind == .atom) with
        | nil => rfl
        | cons first refs =>
            rw [List.getLast?_eq_some_getLast (List.cons_ne_nil first refs)]
            rfl

end Table

/-! ### Indirect calls -/

/-- The blanks at the start of the line of an offset, as far as they lie before it. -/
def indentAt (text : List Char) (offset : Nat) : Checked (List Char) := do
  let before ← slice text 0 offset
  let lineStart := byteLength (before.reverse.dropWhile (· != '\n')).reverse
  let line ← slice text lineStart offset
  let trimmed := line.dropWhile fun c => c == ' ' || c == '\t'
  slice line 0 (← difference (byteLength line) (byteLength trimmed))

/-- The indirect call at an index. -/
def callAt (o : Outline) (i : Nat) : Checked IndirectCall := do
  let t ← item o.spans i
  let previous ← item o.spans (← difference i 1)
  return ⟨t.start, t.stop, previous.kind == .opening, ← indentAt o.text t.start⟩

/-- The indirect calls among the next `n` tokens. -/
def callsFrom (o : Outline) : Nat → Nat → Checked (List IndirectCall)
  | 0, _ => .ok []
  | n + 1, i => do
    if ← isAtomAt o "call_indirect".toList i then
      return (← callAt o i) :: (← callsFrom o n (i + 1))
    else callsFrom o n (i + 1)

/-- The name of a function, if it has one. -/
def functionName (o : Outline) (form : Form) : Checked (Option (List Char)) := do
  match ← atomAt o.text o.spans (form.opening + 2) with
  | some ('$' :: name) => return some name
  | _ => return none

/-- The functions with their indirect calls, in order. -/
def functions (o : Outline) : Checked (List FunctionField) := do
  (← fieldsNamed o "func").mapM fun form => do
    let name ← functionName o form
    let calls ← callsFrom o (form.closing - (form.opening + 2)) (form.opening + 2)
    return ⟨name, calls⟩

/-- The blanks before the start of a token are found without a crash. -/
lemma indentAt_eq {m : Module} {t : Token} (ht : t ∈ tokens m.text) :
    indentAt m.text t.start = .ok (m.indentAt t.start) := by
  obtain ⟨front, back, hsplit⟩ := List.append_of_mem ht
  obtain ⟨ks, rest, hpieces, hstart, -, -, -⟩ := exists_pieces hsplit
  rw [Nat.zero_add] at hstart
  have htext : m.text = flat ks ++ flat (⟨some t.kind, t.text⟩ :: rest) := by
    rw [← flat_pieces m.text, hpieces, flat_append]
  have hbefore : Text.takeBytes t.start m.text = flat ks := by
    rw [hstart, htext, Text.takeBytes_left]
  have hslice : slice m.text 0 t.start = .ok (flat ks) := by
    rw [htext, hstart, slice_zero_append]
  have hline : slice m.text (byteLength ((flat ks).reverse.dropWhile (· != '\n')).reverse) t.start =
      .ok ((flat ks).reverse.takeWhile (· != '\n')).reverse := by
    have hparts : ((flat ks).reverse.dropWhile (· != '\n')).reverse ++
        ((flat ks).reverse.takeWhile (· != '\n')).reverse = flat ks := by
      rw [← List.reverse_append, List.takeWhile_append_dropWhile, List.reverse_reverse]
    rw [htext]
    nth_rewrite 1 [← hparts]
    refine slice_append _ _ _ rfl ?_
    rw [hstart, ← Text.byteLength_append, hparts]
  rw [indentAt, Module.indentAt, hslice, hbefore, ok_bind]
  dsimp only
  rw [hline, ok_bind]
  generalize ((flat ks).reverse.takeWhile (· != '\n')).reverse = line
  have hparts := @List.takeWhile_append_dropWhile _ (fun c => c == ' ' || c == '\t') line
  have hlength := congrArg byteLength hparts
  rw [Text.byteLength_append] at hlength
  have hdifference : difference (byteLength line)
      (byteLength (line.dropWhile fun c => c == ' ' || c == '\t')) =
        .ok (byteLength (line.takeWhile fun c => c == ' ' || c == '\t')) := by
    rw [difference, if_pos (by omega), ← hlength, Nat.add_sub_cancel]
  rw [hdifference, ok_bind]
  nth_rewrite 1 [← hparts]
  exact slice_zero_append _ _

section Calls

variable {F : Forest Token} {text : List Char} (hF : F.Sound Token.kind)
  (hflat : F.flatten = tokens text)
include hflat

/-- An indirect call has a token before it. -/
lemma callAt_eq {i : Nat} {previous t : Token} (hprevious : F.flatten[i]? = some previous)
    (ht : F.flatten[i + 1]? = some t) :
    callAt (outlineOf (F.toModule text)) (i + 1) =
      .ok ⟨t.start, t.stop, previous.kind == .opening, (F.toModule text).indentAt t.start⟩ := by
  have hmem : t ∈ tokens text := hflat ▸ List.mem_of_getElem? ht
  change (item (F.flatten.map spanOf) (i + 1) >>= _) = _
  rw [item_map_spanOf ht, ok_bind, difference_succ, ok_bind]
  change (item (F.flatten.map spanOf) i >>= _) = _
  rw [item_map_spanOf hprevious, ok_bind]
  change (indentAt (F.toModule text).text t.start >>= _) = _
  rw [indentAt_eq hmem]
  rfl

lemma callsFrom_eq {previous : Token} {ts rest : List Token} {i : Nat}
    (h : F.flatten.drop i = previous :: (ts ++ rest)) :
    callsFrom (outlineOf (F.toModule text)) ts.length (i + 1) =
      .ok ((F.toModule text).indirectCalls previous ts) := by
  induction ts generalizing previous i with
  | nil => rfl
  | cons t ts ih =>
      obtain ⟨hprevious, hdrop⟩ := getElem?_of_drop_eq h
      have ht := (getElem?_of_drop_eq hdrop).1
      rw [List.length_cons, callsFrom, isAtomAt_toList hflat ht, ok_bind, ih hdrop,
        Module.indirectCalls, callAt_eq hflat hprevious ht]
      split <;> rfl

omit hflat in
include hF in
/-- Behind the name of a field there is a token at its end or before. -/
lemma opening_add_two_le {f : Form} {name : String}
    (hf : f ∈ (F.toModule text).fieldsNamed name) : f.opening + 2 ≤ f.closing := by
  have hfields : f ∈ (F.toModule text).fields := List.mem_of_mem_filter hf
  obtain ⟨inner, c, hnode⟩ := exists_node hfields
  obtain ⟨-, -, -, -, -, hclosing, -, hc, -⟩ := flatten_of_mem_nodes hF hnode
  obtain ⟨t, ht, hkind, -⟩ := exists_head hf
  by_contra hlt
  -- the name would be the parenthesis that closes the field
  have hend := getElem?_closing_of_mem_nodes hF hnode
  rw [show f.closing = f.opening + 1 by omega] at hend
  obtain rfl := Option.some.inj (ht.symm.trans hend)
  exact absurd (hkind.symm.trans hc) (by decide)

include hF

lemma functionName_eq {f : Form} {name : String} (hf : f ∈ (F.toModule text).fieldsNamed name) :
    functionName (outlineOf (F.toModule text)) f = .ok ((F.toModule text).functionName? f) := by
  have hlt := (opening_lt_of_mem_fields (List.mem_of_mem_filter hf)).2
  have hle := opening_add_two_le hF hf
  have hitem := List.getElem?_eq_getElem (show f.opening + 2 < F.flatten.length by omega)
  change (atomAt text (F.flatten.map spanOf) (f.opening + 2) >>= _) = _
  rw [atomAt_eq hflat (by omega), ok_bind, Module.functionName?, atomAt?]
  change _ = Except.ok (F.flatten[f.opening + 2]? >>= _)
  rw [hitem, Option.filter_some]
  generalize F.flatten[f.opening + 2] = t
  obtain ⟨kind, word, start, stop⟩ := t
  cases kind with
  | atom =>
      rw [if_pos (beq_iff_eq.mpr rfl), Option.map_some, Option.bind_eq_bind, Option.bind_some]
      split <;> split <;> simp_all
  | opening => rfl
  | closing => rfl
  | string => rfl

/-- The functions of the module are found without a crash. -/
lemma functions_eq :
    functions (outlineOf (F.toModule text)) = .ok (F.toModule text).functions := by
  rw [functions, fieldsNamed_eq hflat, ok_bind, Wat.functions_eq]
  refine mapM_eq fun f hf => ?_
  obtain ⟨inner, c, hnode⟩ := exists_node (List.mem_of_mem_filter hf)
  obtain ⟨-, -, -, -, -, hclosing, -⟩ := flatten_of_mem_nodes hF hnode
  obtain ⟨back, hdrop⟩ := drop_of_mem_nodes hF hnode
  have hinside : ((F.toModule text).inside f).map (·.1) = inner.flatten := by
    rw [← body_of_mem_nodes hF hnode, ← map_fst_inside]
  have hcalls : callsFrom (outlineOf (F.toModule text)) (f.closing - (f.opening + 2))
      (f.opening + 2) = .ok (callsOf (F.toModule text) f) := by
    rw [callsOf, hinside]
    have hrounds : f.closing - (f.opening + 2) = inner.flatten.length - 1 := by
      rw [hclosing, size]
      omega
    rw [hrounds]
    cases hinner : inner.flatten with
    | nil => rfl
    | cons word ts =>
        rw [hinner] at hdrop
        exact callsFrom_eq hflat hdrop
  rw [functionName_eq hF hflat hf, ok_bind, hcalls]
  rfl

end Calls

/-! ### Globals, functions and data -/

/-- The positions of the forms directly inside a form. -/
def nested (o : Outline) (form : Form) : Checked (List Nat) := do
  select (isOpeningAt o) (← children o form)

/-- The names of the forms directly inside a form. -/
def childHeads (o : Outline) (form : Form) : Checked (List (List Char)) := do
  return (← (← nested o form).mapM fun i => atomAt o.text o.spans (i + 1)).reduceOption

/-- The number of globals, imported ones included. -/
def globalCount (o : Outline) : Checked Nat := do
  let defined ← fieldsNamed o "global"
  let imported ← select (fun f => do return (← childHeads o f).contains "global".toList)
    (← fieldsNamed o "import")
  return defined.length + imported.length

/-- The characters of the token at an index. -/
def textAt (o : Outline) (i : Nat) : Checked (List Char) := do
  let t ← item o.spans i
  slice o.text t.start t.stop

/-- Whether a function of a name is defined or imported. -/
def hasFunction (o : Outline) (name : String) : Checked Bool := do
  let sigil := '$' :: name.toList
  let defined ← select (fun f => isAtomAt o sigil (f.opening + 2)) (← fieldsNamed o "func")
  let imported ← select (fun f => do
    let named ← select (fun i => do
      return (← textAt o (i + 1)) == "func".toList && (← textAt o (i + 2)) == sigil) (← nested o f)
    return !named.isEmpty) (← fieldsNamed o "import")
  return !defined.isEmpty || !imported.isEmpty

/-- The first string of the last data segment. -/
def lastData (o : Outline) : Checked (Option Span) := do
  match (← fieldsNamed o "data").getLast? with
  | none => return none
  | some data =>
    let ts ← (← children o data).mapM (item o.spans)
    return ts.find? (·.kind == .string)

lemma not_isEmpty_filter {α : Type} (p : α → Bool) (l : List α) :
    (!(l.filter p).isEmpty) = l.any p := by
  rw [Bool.eq_iff_iff]
  simp [List.filter_eq_nil_iff]

section Rest

variable {F : Forest Token} {text : List Char} (hF : F.Sound Token.kind)
  (hflat : F.flatten = tokens text)
include hF hflat

omit hflat in
lemma nested_eq {f : Form} (hf : f ∈ (F.toModule text).fields) :
    nested (outlineOf (F.toModule text)) f =
      .ok ((((F.toModule text).children f).filter (·.1.kind == .opening)).map Prod.snd) := by
  rw [nested, children_eq hF hf, ok_bind]
  exact select_map_eq fun c hc => isOpeningAt_eq (getElem?_of_mem_children hF hf hc).1

omit hflat in
/-- Behind the start of a form directly inside a field there are two more tokens. -/
lemma nested_lt {f : Form} (hf : f ∈ (F.toModule text).fields) {c : Token × Nat}
    (hc : c ∈ ((F.toModule text).children f).filter (·.1.kind == .opening)) :
    c.2 + 2 < F.flatten.length := by
  obtain ⟨hmem, hkind⟩ := List.mem_filter.mp hc
  have hlt := (opening_lt_of_mem_fields hf).2
  have hle := (getElem?_of_mem_children hF hf hmem).2 (by simpa using hkind)
  omega

/-- The names of the forms directly inside a field. -/
lemma childHeads_eq {f : Form} (hf : f ∈ (F.toModule text).fields) :
    childHeads (outlineOf (F.toModule text)) f =
      .ok ((((F.toModule text).children f).filter (·.1.kind == .opening)).map
        fun c => atomAt? F.flatten (c.2 + 1)).reduceOption := by
  rw [childHeads, nested_eq hF hf, ok_bind, List.mapM_map, mapM_eq fun c hc => ?_]
  · rfl
  · have hlt := nested_lt hF hf hc
    exact atomAt_eq hflat (by omega)

lemma globalCount_eq :
    globalCount (outlineOf (F.toModule text)) = .ok (F.toModule text).globalCount := by
  have himported : select (fun f => do
      return (← childHeads (outlineOf (F.toModule text)) f).contains "global".toList)
      ((F.toModule text).fieldsNamed "import") =
        .ok (((F.toModule text).fieldsNamed "import").filter fun f =>
          ((F.toModule text).nestedForms f).any fun ts =>
            (ts[1]?.map (·.isAtom "global")).getD false) := by
    refine select_eq fun f hf => ?_
    have hf : f ∈ (F.toModule text).fields := List.mem_of_mem_filter hf
    have hword : ∀ c ∈ ((F.toModule text).children f).filter (·.1.kind == .opening),
        (((F.toModule text).tokens.drop c.2)[1]?.map (·.isAtom "global")).getD false =
          (atomAt? F.flatten (c.2 + 1) == some "global".toList) := by
      intro c hc
      have hlt := nested_lt hF hf hc
      have hitem := List.getElem?_eq_getElem (show c.2 + 1 < F.flatten.length by omega)
      rw [beq_atomAt? hitem, List.getElem?_drop]
      change (F.flatten[c.2 + 1]?.map (·.isAtom "global")).getD false = _
      rw [hitem]
      rfl
    rw [childHeads_eq hF hflat hf, ok_bind, pure_eq_ok, Module.nestedForms, List.any_map]
    congr 1
    rw [Bool.eq_iff_iff, List.contains_iff_mem, List.reduceOption_mem_iff, List.mem_map,
      List.any_eq_true]
    refine exists_congr fun c => and_congr_right fun hc => ?_
    rw [Function.comp_apply, hword c hc, beq_iff_eq]
  rw [globalCount, fieldsNamed_eq hflat, ok_bind, fieldsNamed_eq hflat, ok_bind, himported]
  rfl

omit hF in
lemma textAt_eq {i : Nat} {t : Token} (ht : F.flatten[i]? = some t) :
    textAt (outlineOf (F.toModule text)) i = .ok t.text := by
  have hmem : t ∈ tokens text := hflat ▸ List.mem_of_getElem? ht
  change (item (F.flatten.map spanOf) i >>= _) = _
  rw [item_map_spanOf ht, ok_bind]
  exact slice_token hmem

lemma isAtomAt_name {f : Form} (name : String) (hf : f ∈ (F.toModule text).fieldsNamed "func") :
    isAtomAt (outlineOf (F.toModule text)) ('$' :: name.toList) (f.opening + 2) =
      .ok ((F.flatten[f.opening + 2]?.map fun t =>
        t.kind == .atom && t.text == '$' :: name.toList).getD false) := by
  have hlt := (opening_lt_of_mem_fields (List.mem_of_mem_filter hf)).2
  have hle := opening_add_two_le hF hf
  have hitem := List.getElem?_eq_getElem (show f.opening + 2 < F.flatten.length by omega)
  rw [isAtomAt_eq hflat hitem, hitem]
  rfl

/-- Whether one of the forms in a field is of a function with the name. -/
lemma nested_name {f : Form} (name : String) (hf : f ∈ (F.toModule text).fields) :
    (do
      let named ← select (fun i => do
        return (← textAt (outlineOf (F.toModule text)) (i + 1)) == "func".toList &&
          (← textAt (outlineOf (F.toModule text)) (i + 2)) == '$' :: name.toList)
        (← nested (outlineOf (F.toModule text)) f)
      return !named.isEmpty) =
      Except.ok (((F.toModule text).nestedForms f).any fun ts =>
        (ts[1]?.map (·.text)) == some "func".toList &&
          (ts[2]?.map (·.text)) == some ('$' :: name.toList)) := by
  have hnamed := @select_map_eq _ _ (fun i => do
      return (← textAt (outlineOf (F.toModule text)) (i + 1)) == "func".toList &&
        (← textAt (outlineOf (F.toModule text)) (i + 2)) == '$' :: name.toList) Prod.snd
    ((fun ts : List Token => (ts[1]?.map (·.text)) == some "func".toList &&
      (ts[2]?.map (·.text)) == some ('$' :: name.toList)) ∘ fun c : Token × Nat =>
        (F.toModule text).tokens.drop c.2)
    (((F.toModule text).children f).filter (·.1.kind == .opening)) fun c hc => ?_
  · rw [nested_eq hF hf, ok_bind, hnamed, ok_bind, Module.nestedForms, List.any_map,
      List.isEmpty_map, not_isEmpty_filter]
    rfl
  · have hlt := nested_lt hF hf hc
    have hword := List.getElem?_eq_getElem (show c.2 + 1 < F.flatten.length by omega)
    have hname := List.getElem?_eq_getElem (show c.2 + 2 < F.flatten.length by omega)
    rw [textAt_eq hflat hword, ok_bind, textAt_eq hflat hname, ok_bind, Function.comp_apply,
      List.getElem?_drop, List.getElem?_drop]
    change _ = Except.ok ((F.flatten[c.2 + 1]?.map _) == _ && (F.flatten[c.2 + 2]?.map _) == _)
    rw [hword, hname]
    rfl

lemma hasFunction_eq (name : String) :
    hasFunction (outlineOf (F.toModule text)) name = .ok ((F.toModule text).hasFunction name) := by
  have hdefined := select_eq fun f (hf : f ∈ (F.toModule text).fieldsNamed "func") =>
    isAtomAt_name hF hflat name hf
  have himported := select_eq fun f (hf : f ∈ (F.toModule text).fieldsNamed "import") =>
    nested_name hF hflat name (List.mem_of_mem_filter hf)
  rw [hasFunction, fieldsNamed_eq hflat, ok_bind, hdefined, ok_bind, fieldsNamed_eq hflat, ok_bind,
    himported, ok_bind, not_isEmpty_filter, not_isEmpty_filter]
  rfl

lemma lastData_eq :
    lastData (outlineOf (F.toModule text)) = .ok ((F.toModule text).lastData?.map spanOf) := by
  rw [lastData, fieldsNamed_eq hflat, ok_bind, Module.lastData?]
  cases hlast : ((F.toModule text).fieldsNamed "data").getLast? with
  | none => rfl
  | some f =>
      have hf : f ∈ (F.toModule text).fields :=
        List.mem_of_mem_filter (List.mem_of_getLast? hlast)
      have hitems : (((F.toModule text).children f).map Prod.snd).mapM
          (item (F.flatten.map spanOf)) =
            .ok ((((F.toModule text).children f).map Prod.fst).map spanOf) := by
        rw [List.mapM_map, List.map_map]
        exact mapM_eq fun c hc => item_map_spanOf (getElem?_of_mem_children hF hf hc).1
      change (children (outlineOf (F.toModule text)) f >>= _) = _
      rw [children_eq hF hf, ok_bind]
      change (List.mapM (item (F.flatten.map spanOf)) _ >>= _) = _
      rw [hitems, ok_bind, List.find?_map]
      rfl

end Rest

end CallGuard.Wat.Direct
