import CallGuard.Proofs.Wat.Direct.Bytes
import CallGuard.Proofs.Wat.Module

/-!
The fields of a module and the tokens directly inside a form, without a look first: the text is
cut at any byte offsets, tokens are taken at any index, and depths count down from any number.

* `slice`: the text between two byte offsets.
* `Outline`, `parse`: the fields of a module, and the tokens by their bytes.
* `children`, `matchingClose`: the tokens directly inside a form, and the end of one.
* `parse_eq`: the fields of the module that a text spells, without a crash.
* `childrenFrom_flatten`, `closeFrom_succ`: why no depth is below zero.
-/

namespace CallGuard.Wat.Direct

open Forest
open Text (byteLength)
open Ir.Direct (splitAt? splitAt?_append)

/-! ### Programs over lists -/

/-- A value, or the error of the text that says that there is none. -/
def demand {α : Type} (e : GuardError) : Option α → Checked α
  | some a => .ok a
  | none => .error (.refused e)

/-- The items of a list for which a program says so. -/
def select {α : Type} (p : α → Checked Bool) : List α → Checked (List α)
  | [] => .ok []
  | a :: l => do
    let keep ← p a
    let rest ← select p l
    return if keep then a :: rest else rest

section Lists

variable {α β : Type}

@[simp] lemma ok_bind (a : α) (f : α → Checked β) : (Except.ok a >>= f) = f a := rfl

@[simp] lemma pure_eq_ok (a : α) : (pure a : Checked α) = .ok a := rfl

lemma select_map_eq {p : α → Checked Bool} {k : β → α} {q : β → Bool} {l : List β}
    (h : ∀ b ∈ l, p (k b) = .ok (q b)) : select p (l.map k) = .ok ((l.filter q).map k) := by
  induction l with
  | nil => rfl
  | cons b l ih =>
      obtain ⟨hb, hl⟩ := List.forall_mem_cons.mp h
      rw [List.map_cons, select, hb, ih hl, ok_bind, ok_bind, List.filter_cons]
      cases q b <;> rfl

lemma select_eq {p : α → Checked Bool} {q : α → Bool} {l : List α}
    (h : ∀ a ∈ l, p a = .ok (q a)) : select p l = .ok (l.filter q) := by
  have hselect := @select_map_eq _ _ p id q l h
  rwa [List.map_id, List.map_id] at hselect

lemma mapM_eq {f : α → Checked β} {g : α → β} {l : List α} (h : ∀ a ∈ l, f a = .ok (g a)) :
    l.mapM f = .ok (l.map g) := by
  induction l with
  | nil => rfl
  | cons a l ih =>
      obtain ⟨ha, hl⟩ := List.forall_mem_cons.mp h
      rw [List.mapM_cons, ha, ih hl]
      rfl

end Lists

/-! ### Cutting a text -/

/-- The text between two byte offsets. -/
def slice (text : List Char) (start stop : Nat) : Checked (List Char) :=
  match splitAt? text stop with
  | some (front, _) =>
    match splitAt? front start with
    | some (_, part) => .ok part
    | none => .error (.crashed (.cut start stop))
  | none => .error (.crashed (.cut start stop))

/-- A part of a text is what is between its ends. -/
lemma slice_append (before part after : List Char) {start stop : Nat}
    (hstart : start = byteLength before) (hstop : stop = start + byteLength part) :
    slice (before ++ part ++ after) start stop = .ok part := by
  obtain rfl : stop = byteLength (before ++ part) := by
    rw [hstop, hstart, Text.byteLength_append]
  subst hstart
  rw [slice, splitAt?_append]
  dsimp only
  rw [splitAt?_append]

lemma slice_zero_append (part after : List Char) :
    slice (part ++ after) 0 (byteLength part) = .ok part :=
  slice_append [] part after rfl (Nat.zero_add _).symm

/-- The characters of a token are the text between its ends. -/
lemma slice_token {text : List Char} {t : Token} (ht : t ∈ tokens text) :
    slice text (spanOf t).start (spanOf t).stop = .ok t.text := by
  obtain ⟨front, back, hsplit⟩ := List.append_of_mem ht
  obtain ⟨ks, rest, hpieces, hstart, hstop, -, -⟩ := exists_pieces hsplit
  have htext : text = flat ks ++ t.text ++ flat rest := by
    rw [← flat_pieces text, hpieces]
    simp
  have hslice := slice_append (flat ks) t.text (flat rest) (hstart.trans (Nat.zero_add _)) hstop
  rwa [← htext] at hslice

/-! ### Modules -/

/-- A module, with its tokens by their bytes. -/
structure Outline where
  /-- The text. -/
  text : List Char
  /-- The tokens. -/
  spans : List Span
  /-- The fields, in order. -/
  fields : List Form
  /-- The offset of the parenthesis that closes the module, if one is written around the fields. -/
  close : Option Nat

/-- The forms that end among tokens, of which the first has a position. -/
def formsFrom : Nat → List Nat → List Span → Checked (List Form)
  | _, [], [] => .ok []
  | _, _ :: _, [] => .error (.refused .unbalanced)
  | position, stack, t :: ts =>
    match t.kind, stack with
    | .opening, stack => formsFrom (position + 1) (position :: stack) ts
    | .closing, [] => .error (.refused .unbalanced)
    | .closing, opening :: stack => do
      return ⟨opening, position, stack.length⟩ :: (← formsFrom (position + 1) stack ts)
    | _, stack => formsFrom (position + 1) stack ts

/-- The forms of tokens in the order of their starts. -/
def forms (spans : List Span) : Checked (List Form) := do
  return (← formsFrom 0 [] spans).mergeSort fun a b => a.opening ≤ b.opening

/-- The characters of the token at an index, if it is an atom. -/
def atomAt (text : List Char) (spans : List Span) (i : Nat) : Checked (Option (List Char)) := do
  let t ← item spans i
  if t.kind = .atom then return some (← slice text t.start t.stop) else return none

/-- The name of a form. -/
def head (text : List Char) (spans : List Span) (form : Form) : Checked (Option (List Char)) :=
  atomAt text spans (form.opening + 1)

/-- Whether a form is an outermost one that is named as a module. -/
def isWrapper (text : List Char) (spans : List Span) (form : Form) : Checked Bool := do
  return form.depth == 0 && (← head text spans form) == some "module".toList

/-- The module that a text spells. -/
def parse (text : List Char) : Checked Outline := do
  let spans ← tokenize text
  let forms ← forms spans
  let wrapper := (← select (isWrapper text spans) forms).head?
  let close ← wrapper.mapM fun f => do return (← item spans f.closing).start
  let depth := if wrapper.isSome then 1 else 0
  return ⟨text, spans, forms.filter (·.depth == depth), close⟩

/-- The fields of a name. -/
def fieldsNamed (o : Outline) (name : String) : Checked (List Form) :=
  select (fun f => do return (← head o.text o.spans f) == some name.toList) o.fields

/-- A module, with its tokens by their bytes. -/
def outlineOf (m : Module) : Outline :=
  ⟨m.text, m.tokens.map spanOf, m.fields, m.close⟩

lemma item_map_spanOf {ts : List Token} {i : Nat} {t : Token} (h : ts[i]? = some t) :
    item (ts.map spanOf) i = .ok (spanOf t) :=
  item_of_getElem? (by rw [List.getElem?_map, h, Option.map_some])

lemma formsFrom_eq (position : Nat) (stack : List Nat) (ts : List Token) :
    formsFrom position stack (ts.map spanOf) =
      demand .unbalanced (Wat.formsFrom position stack ts) := by
  induction ts generalizing position stack with
  | nil => cases stack <;> rfl
  | cons t ts ih =>
      obtain ⟨kind, text, start, stop⟩ := t
      cases kind with
      | opening => cases stack <;> exact ih _ _
      | closing =>
          cases stack with
          | nil => rfl
          | cons opening stack =>
              change (formsFrom (position + 1) stack (ts.map spanOf) >>= _) = _
              rw [ih, formsFrom_cons_of_closing rfl]
              cases Wat.formsFrom (position + 1) stack ts <;> rfl
      | atom => cases stack <;> exact ih _ _
      | string => cases stack <;> exact ih _ _

lemma forms_eq (ts : List Token) : forms (ts.map spanOf) = demand .unbalanced (forms? ts) := by
  rw [forms, formsFrom_eq, forms?]
  cases Wat.formsFrom 0 [] ts <;> rfl

/-- The characters of a token among others, if it is an atom. -/
def atomAt? (ts : List Token) (i : Nat) : Option (List Char) :=
  (ts[i]?.filter (·.kind == .atom)).map (·.text)

/-- An atom with a given word. -/
lemma beq_atomAt? {ts : List Token} {i : Nat} {t : Token} (h : ts[i]? = some t)
    (word : List Char) : (atomAt? ts i == some word) = (t.kind == .atom && t.text == word) := by
  rw [atomAt?, h, Option.filter_some]
  cases t.kind == .atom
  · rfl
  · rw [if_pos rfl, Option.map_some, Bool.true_and, Bool.eq_iff_iff]
    simp

section Modules

variable {F : Forest Token} {text : List Char} (hF : F.Sound Token.kind)
  (hflat : F.flatten = tokens text)
include hflat

lemma atomAt_eq {i : Nat} (hi : i < F.flatten.length) :
    atomAt text (F.flatten.map spanOf) i = .ok (atomAt? F.flatten i) := by
  have hitem := List.getElem?_eq_getElem hi
  have hmem : F.flatten[i] ∈ tokens text := hflat ▸ List.getElem_mem hi
  rw [atomAt, item_map_spanOf hitem, ok_bind, slice_token hmem, atomAt?, hitem,
    Option.filter_some]
  by_cases hkind : F.flatten[i].kind = .atom
  · rw [if_pos (show (spanOf _).kind = .atom from hkind), if_pos (beq_iff_eq.mpr hkind)]
    rfl
  · rw [if_neg (show (spanOf _).kind ≠ .atom from hkind), if_neg (by simpa using hkind)]
    rfl

/-- There is a token after the one that opens a form. -/
lemma head_eq {f : Form} (hf : f ∈ F.forms 0 0) :
    head text (F.flatten.map spanOf) f = .ok (head? F.flatten f) := by
  have hbounds := bounds_of_mem_forms hf
  rw [size] at hbounds
  exact atomAt_eq hflat (by omega)

/-- A field has a name, or none, without a crash. -/
lemma fieldsNamed_eq (name : String) :
    fieldsNamed (outlineOf (F.toModule text)) name = .ok ((F.toModule text).fieldsNamed name) := by
  rw [fieldsNamed, Module.fieldsNamed]
  refine select_eq fun f hf => ?_
  have hf : f ∈ (F.toModule text).fields := hf
  change (head text (F.flatten.map spanOf) f >>= _) = _
  rw [head_eq hflat (mem_forms_of_mem_fields hf)]
  rfl

include hF

lemma parse_toModule : parse text = .ok (outlineOf (F.toModule text)) := by
  have hforms : forms (F.flatten.map spanOf) = .ok (F.forms 0 0) := by
    rw [forms_eq, forms?_eq hF]
    rfl
  have hwrapper : select (isWrapper text (F.flatten.map spanOf)) (F.forms 0 0) =
      .ok ((F.forms 0 0).filter fun f =>
        f.depth == 0 && head? F.flatten f == some "module".toList) :=
    select_eq fun f hf => by rw [isWrapper, head_eq hflat hf]; rfl
  have hclose : (F.wrapper?.mapM fun f => do
      return (← item (F.flatten.map spanOf) f.closing).start) =
        .ok (F.toModule text).close := by
    rw [toModule]
    cases hfind : F.wrapper? with
    | none => rfl
    | some w =>
        obtain ⟨⟨w, inner, c⟩, hnode, rfl⟩ := List.mem_map.mp (List.mem_of_find?_eq_some hfind)
        have hitem := getElem?_closing_of_mem_nodes hF hnode
        rw [Option.bind_some, hitem, Option.mapM_some, item_map_spanOf hitem]
        rfl
  rw [parse, tokenize_eq, ← hflat, ok_bind, hforms, ok_bind, hwrapper, ok_bind, List.head?_filter]
  change (F.wrapper?.mapM _ >>= _) = _
  rw [hclose]
  rfl

end Modules

/-- The fields of the module that a text spells are found without a crash. -/
lemma parse_eq (text : List Char) :
    parse text = (demand .unbalanced (Module.parse? text)).map outlineOf := by
  cases hparse : Module.parse? text with
  | none =>
      have hforms : forms? (tokens text) = none := by
        cases hforms : forms? (tokens text) with
        | none => rfl
        | some fs =>
            rw [Module.parse?, hforms] at hparse
            cases hparse
      rw [parse, tokenize_eq, ok_bind, forms_eq, hforms]
      rfl
  | some m =>
      obtain ⟨F, hF, hflat, rfl⟩ := exists_forest_of_parse? hparse
      exact parse_toModule hF hflat

/-! ### Inside a form -/

/-- The positions of the tokens outside all forms among the next `n` ones; of a form only its
opening parenthesis is kept. The depth is the number of open forms. -/
def childrenFrom (spans : List Span) : Nat → Nat → Nat → Checked (List Nat)
  | 0, _, _ => .ok []
  | n + 1, position, depth => do
    let t ← item spans position
    match t.kind with
    | .opening =>
      let more ← childrenFrom spans n (position + 1) (depth + 1)
      return if depth = 0 then position :: more else more
    | .closing => childrenFrom spans n (position + 1) (← difference depth 1)
    | _ =>
      let more ← childrenFrom spans n (position + 1) depth
      return if depth = 0 then position :: more else more

/-- The positions of the tokens directly inside a form. -/
def children (o : Outline) (form : Form) : Checked (List Nat) :=
  childrenFrom o.spans (form.closing - (form.opening + 1)) (form.opening + 1) 0

/-- The position of the parenthesis that closes the given number of open ones. -/
def closeFrom : Nat → Nat → List Span → Checked (Option Nat)
  | _, _, [] => .ok none
  | position, depth, t :: ts =>
    match t.kind with
    | .opening => closeFrom (position + 1) (depth + 1) ts
    | .closing => do
      let depth ← difference depth 1
      if depth = 0 then return some position else closeFrom (position + 1) depth ts
    | _ => closeFrom (position + 1) depth ts

/-- The position of the parenthesis that closes the one at a position. -/
def matchingClose (o : Outline) (opening : Nat) : Checked Nat := do
  return (← closeFrom opening 0 (o.spans.drop opening)).getD opening

lemma difference_succ (n : Nat) : difference (n + 1) 1 = .ok n :=
  if_pos (Nat.le_add_left 1 n)

lemma getElem?_of_drop_eq {α : Type} {l rest : List α} {i : Nat} {a : α}
    (h : l.drop i = a :: rest) : l[i]? = some a ∧ l.drop (i + 1) = rest := by
  refine ⟨?_, ?_⟩
  · rw [← Nat.add_zero i, ← List.getElem?_drop, h]
    rfl
  · rw [← List.drop_drop, h]
    rfl

section Steps

variable {ts more : List Token} {position : Nat} {t : Token}
  (h : ts.drop position = t :: more) (n depth : Nat)
include h

lemma childrenFrom_of_opening (hkind : t.kind = .opening) :
    childrenFrom (ts.map spanOf) (n + 1) position depth =
      (childrenFrom (ts.map spanOf) n (position + 1) (depth + 1)).map
        fun l => if depth = 0 then position :: l else l := by
  rw [childrenFrom, item_map_spanOf (getElem?_of_drop_eq h).1, ok_bind, spanOf, hkind]
  rfl

lemma childrenFrom_of_closing (hkind : t.kind = .closing) :
    childrenFrom (ts.map spanOf) (n + 1) position (depth + 1) =
      childrenFrom (ts.map spanOf) n (position + 1) depth := by
  rw [childrenFrom, item_map_spanOf (getElem?_of_drop_eq h).1, ok_bind, spanOf, hkind]
  dsimp only
  rw [difference_succ, ok_bind]

lemma childrenFrom_of_leaf (ho : t.kind ≠ .opening) (hc : t.kind ≠ .closing) :
    childrenFrom (ts.map spanOf) (n + 1) position depth =
      (childrenFrom (ts.map spanOf) n (position + 1) depth).map
        fun l => if depth = 0 then position :: l else l := by
  rw [childrenFrom, item_map_spanOf (getElem?_of_drop_eq h).1, ok_bind, spanOf]
  cases hkind : t.kind with
  | opening => exact absurd hkind ho
  | closing => exact absurd hkind hc
  | atom => rfl
  | string => rfl

end Steps

/-- Going over a forest does not go below the depth before it. -/
lemma childrenFrom_flatten {F : Forest Token} (hF : F.Sound Token.kind) {ts rest : List Token}
    {position : Nat} (h : ts.drop position = F.flatten ++ rest) (n depth : Nat) :
    childrenFrom (ts.map spanOf) (F.size + n) position 0 =
        (childrenFrom (ts.map spanOf) n (position + F.size) 0).map
          ((F.roots position).map Prod.snd ++ ·) ∧
      childrenFrom (ts.map spanOf) (F.size + n) position (depth + 1) =
        childrenFrom (ts.map spanOf) n (position + F.size) (depth + 1) := by
  induction F generalizing position depth rest n with
  | nil =>
      rw [size_nil, Nat.zero_add, Nat.add_zero]
      refine ⟨?_, rfl⟩
      cases childrenFrom (ts.map spanOf) n position 0 <;> rfl
  | leaf a tail ih =>
      obtain ⟨ho, hc, htail⟩ := hF
      have hdrop := getElem?_of_drop_eq h
      have hsize : (leaf a tail).size + n = tail.size + n + 1 := by rw [size_leaf]; omega
      have hnext : position + (leaf a tail).size = position + 1 + tail.size := by
        rw [size_leaf]; omega
      obtain ⟨hzero, hsucc⟩ := ih htail hdrop.2 n depth
      rw [hsize, hnext, childrenFrom_of_leaf h _ _ ho hc, childrenFrom_of_leaf h _ _ ho hc, hzero,
        hsucc]
      constructor <;> cases childrenFrom (ts.map spanOf) n (position + 1 + tail.size) _ <;> rfl
  | node o inner c tail ih ihtail =>
      obtain ⟨ho, hc, hinner, htail⟩ := hF
      rw [flatten, List.cons_append, List.append_assoc, List.cons_append] at h
      have hfront := (getElem?_of_drop_eq h).2
      have hend : ts.drop (position + 1 + inner.size) = c :: (tail.flatten ++ rest) := by
        rw [← List.drop_drop, hfront, size, List.drop_left]
      have hback := (getElem?_of_drop_eq hend).2
      have hsize : (node o inner c tail).size + n = inner.size + (tail.size + n + 1) + 1 := by
        rw [size_node]; omega
      have hnext : position + (node o inner c tail).size =
          position + 1 + inner.size + 1 + tail.size := by
        rw [size_node]; omega
      have hroots : (node o inner c tail).roots position =
          (o, position) :: tail.roots (position + 1 + inner.size + 1) := by
        rw [roots, show position + 1 + inner.size + 1 = position + 2 + inner.size by omega]
      obtain ⟨hzero, hsucc⟩ := ihtail htail hback n depth
      rw [hsize, hnext]
      constructor
      · calc childrenFrom (ts.map spanOf) (inner.size + (tail.size + n + 1) + 1) position 0
            = (childrenFrom (ts.map spanOf) (inner.size + (tail.size + n + 1)) (position + 1) 1).map
                (position :: ·) := childrenFrom_of_opening h _ _ ho
          _ = (childrenFrom (ts.map spanOf) (tail.size + n + 1) (position + 1 + inner.size) 1).map
                (position :: ·) := by rw [(ih hinner hfront _ 0).2]
          _ = (childrenFrom (ts.map spanOf) (tail.size + n) (position + 1 + inner.size + 1) 0).map
                (position :: ·) := by rw [childrenFrom_of_closing hend _ _ hc]
          _ = _ := by
              rw [hzero, hroots]
              cases childrenFrom (ts.map spanOf) n _ _ <;> rfl
      · calc childrenFrom (ts.map spanOf) (inner.size + (tail.size + n + 1) + 1) position
              (depth + 1)
            = (childrenFrom (ts.map spanOf) (inner.size + (tail.size + n + 1)) (position + 1)
                (depth + 2)).map id := childrenFrom_of_opening h _ _ ho
          _ = (childrenFrom (ts.map spanOf) (tail.size + n + 1) (position + 1 + inner.size)
                (depth + 2)).map id := by rw [(ih hinner hfront _ (depth + 1)).2]
          _ = (childrenFrom (ts.map spanOf) (tail.size + n) (position + 1 + inner.size + 1)
                (depth + 1)).map id := by rw [childrenFrom_of_closing hend _ _ hc]
          _ = _ := by
              rw [hsucc]
              cases childrenFrom (ts.map spanOf) n _ _ <;> rfl

/-- The loop that starts inside of a form does not go below the depth of the form. -/
lemma closeFrom_succ (position depth : Nat) (ts : List Token) :
    closeFrom position (depth + 1) (ts.map spanOf) =
      .ok (Wat.closeFrom position (depth + 1) ts) := by
  induction ts generalizing position depth with
  | nil => rfl
  | cons t ts ih =>
      obtain ⟨kind, text, start, stop⟩ := t
      cases kind with
      | opening => exact ih _ _
      | closing =>
          change (difference (depth + 1) 1 >>= _) = _
          rw [difference_succ, ok_bind]
          cases depth with
          | zero => rfl
          | succ depth => exact ih _ _
      | atom => exact ih _ _
      | string => exact ih _ _

/-- The end of a form is sought behind its start. -/
lemma matchingClose_eq {m : Module} {i : Nat} {t : Token} (ht : m.tokens[i]? = some t)
    (hkind : t.kind = .opening) : matchingClose (outlineOf m) i = .ok (m.closeOf i) := by
  obtain ⟨ts, hdrop⟩ : ∃ ts, m.tokens.drop i = t :: ts := by
    obtain ⟨hlt, rfl⟩ := List.getElem?_eq_some_iff.mp ht
    exact ⟨_, List.drop_eq_getElem_cons hlt⟩
  obtain ⟨kind, text, start, stop⟩ := t
  obtain rfl : kind = .opening := hkind
  have hclose : closeFrom i 0 ((outlineOf m).spans.drop i) =
      .ok (Wat.closeFrom i 0 (m.tokens.drop i)) := by
    rw [outlineOf, ← List.map_drop, hdrop]
    exact closeFrom_succ (i + 1) 0 ts
  rw [matchingClose, hclose]
  rfl

lemma closeFrom_lt {position depth j : Nat} {ts : List Token}
    (h : Wat.closeFrom position depth ts = some j) : j < position + ts.length := by
  fun_induction Wat.closeFrom position depth ts <;> simp_all <;> omega

/-- The end of a form is one of the tokens. -/
lemma closeOf_lt {m : Module} {i : Nat} (hi : i < m.tokens.length) :
    m.closeOf i < m.tokens.length := by
  rw [Module.closeOf]
  cases hclose : Wat.closeFrom i 0 (m.tokens.drop i) with
  | none => exact hi
  | some j =>
      have hlt := closeFrom_lt hclose
      rw [List.length_drop] at hlt
      rw [Option.getD_some]
      omega

section Inside

variable {F : Forest Token} {text : List Char} (hF : F.Sound Token.kind)
include hF

/-- The tokens behind the one that opens a node. -/
lemma drop_of_mem_nodes {f : Form} {inner : Forest Token} {c : Token}
    (h : (f, inner, c) ∈ F.nodes 0 0) :
    ∃ back, F.flatten.drop (f.opening + 1) = inner.flatten ++ c :: back := by
  obtain ⟨front, o, back, hsplit, hopening, -⟩ := flatten_of_mem_nodes hF h
  refine ⟨back, ?_⟩
  rw [hsplit, hopening, Nat.zero_add, ← List.drop_drop, List.drop_left]
  rfl

/-- The tokens directly inside a field are found without a crash. -/
lemma children_eq {f : Form} (hf : f ∈ (F.toModule text).fields) :
    children (outlineOf (F.toModule text)) f =
      .ok (((F.toModule text).children f).map Prod.snd) := by
  obtain ⟨inner, c, hnode⟩ := exists_node hf
  obtain ⟨-, -, -, -, -, hclosing, -, -, hinner⟩ := flatten_of_mem_nodes hF hnode
  obtain ⟨back, hdrop⟩ := drop_of_mem_nodes hF hnode
  have hrounds : f.closing - (f.opening + 1) = inner.size + 0 := by omega
  rw [children_of_mem_nodes hF hnode, children, hrounds]
  refine (childrenFrom_flatten hinner hdrop 0 0).1.trans ?_
  rw [childrenFrom]
  exact congrArg Except.ok (List.append_nil _)

/-- What is directly inside a field is a token before the end of the field. Behind an opening
parenthesis there is one more token before this end. -/
lemma getElem?_of_mem_children {f : Form} (hf : f ∈ (F.toModule text).fields) {c : Token × Nat}
    (hc : c ∈ (F.toModule text).children f) :
    F.flatten[c.2]? = some c.1 ∧ (c.1.kind = .opening → c.2 + 2 ≤ f.closing) := by
  obtain ⟨inner, d, hnode⟩ := exists_node hf
  obtain ⟨-, -, -, -, -, hclosing, -, -, hinner⟩ := flatten_of_mem_nodes hF hnode
  rw [children_of_mem_nodes hF hnode] at hc
  obtain ⟨before, after, hroots⟩ := List.append_of_mem hc
  obtain ⟨t, position⟩ := c
  obtain ⟨front, own, G, hsplit, rfl, -, -, hown⟩ := exists_of_roots_eq hinner hroots
  have hsize : inner.size = front.length + (own.length + G.flatten.length) := by
    rw [size, hsplit, List.length_append, List.length_append]
  have hget := @getElem?_of_mem_nodes _ _ _ _ hF _ _ hnode front.length (by omega)
  rw [hsplit] at hget
  rcases hown with ⟨hkind, rfl⟩ | ⟨-, inside, e, -, -, rfl⟩
  · exact ⟨by rw [hget]; simp, fun ho => absurd ho hkind⟩
  · refine ⟨by rw [hget]; simp, fun _ => ?_⟩
    simp only [List.length_cons, List.length_append] at hsize
    omega

end Inside

end CallGuard.Wat.Direct
