import CallGuard.Wat.Module
import Mathlib.Data.List.Sort
import Mathlib.Tactic

/-!
Tokens whose parentheses match, as forests. The search for forms keeps a stack of open
parentheses; what it finds are the nodes of a forest, and so forms lie beside each other
or inside each other.

* `Forest`, `Forest.flatten`: forests and the items that they are written with.
* `Forest.Sound`: the items around a node are parentheses, and leaves are not.
* `exists_forest`, `forms?_eq`: the forms that are found are the nodes of a forest.
* `Forest.pairwise_forms`: how forms lie to each other.
* `closeFrom_node`: the end of a node is found from its start.
* `outermost_flatten`: what is directly inside of a node.
-/

namespace CallGuard.Wat

/-- A sequence of leaves and nodes. A node has an item that opens it and one that closes
it, and a forest between them. -/
inductive Forest (α : Type) where
  /-- Nothing. -/
  | nil
  /-- A leaf and what follows it. -/
  | leaf (a : α) (rest : Forest α)
  /-- A node and what follows it. -/
  | node (o : α) (inner : Forest α) (c : α) (rest : Forest α)

namespace Forest

variable {α : Type}

/-- The items of a forest, in order. -/
def flatten : Forest α → List α
  | nil => []
  | leaf a rest => a :: rest.flatten
  | node o inner c rest => o :: (inner.flatten ++ c :: rest.flatten)

/-- The number of items. -/
def size (F : Forest α) : Nat :=
  F.flatten.length

@[simp] lemma size_nil : (nil : Forest α).size = 0 := rfl

@[simp] lemma size_leaf (a : α) (rest : Forest α) : (leaf a rest).size = rest.size + 1 := rfl

@[simp] lemma size_node (o c : α) (inner rest : Forest α) :
    (node o inner c rest).size = inner.size + rest.size + 2 := by
  simp [size, flatten]
  omega

/-- Nodes stand between parentheses, and no leaf is one. -/
def Sound (kind : α → TokenKind) : Forest α → Prop
  | nil => True
  | leaf a rest => kind a ≠ .opening ∧ kind a ≠ .closing ∧ rest.Sound kind
  | node o inner c rest =>
      kind o = .opening ∧ kind c = .closing ∧ inner.Sound kind ∧ rest.Sound kind

/-- The nodes as forms, in the order of their ends. The first item has a position, and a
number of forms is around it. -/
def ends : Nat → Nat → Forest α → List Form
  | _, _, nil => []
  | position, depth, leaf _ rest => rest.ends (position + 1) depth
  | position, depth, node _ inner _ rest =>
      inner.ends (position + 1) (depth + 1) ++ ⟨position, position + 1 + inner.size, depth⟩ ::
        rest.ends (position + 2 + inner.size) depth

/-- The nodes as forms with what is inside them and the items that close them, in the
order of their starts. -/
def nodes : Nat → Nat → Forest α → List (Form × Forest α × α)
  | _, _, nil => []
  | position, depth, leaf _ rest => rest.nodes (position + 1) depth
  | position, depth, node _ inner c rest =>
      (⟨position, position + 1 + inner.size, depth⟩, inner, c) ::
        (inner.nodes (position + 1) (depth + 1) ++ rest.nodes (position + 2 + inner.size) depth)

/-- The nodes as forms, in the order of their starts. -/
def forms (position depth : Nat) (F : Forest α) : List Form :=
  (F.nodes position depth).map Prod.fst

/-! ### Where nodes are -/

/-- A node is found among the items by the positions of its form. -/
lemma flatten_of_mem_nodes {kind : α → TokenKind} {F inner : Forest α} (hF : F.Sound kind)
    {position depth : Nat} {f : Form} {c : α} (h : (f, inner, c) ∈ F.nodes position depth) :
    ∃ front o back, F.flatten = front ++ o :: (inner.flatten ++ c :: back) ∧
      f.opening = position + front.length ∧ f.closing = f.opening + 1 + inner.size ∧
      kind o = .opening ∧ kind c = .closing ∧ inner.Sound kind := by
  induction F generalizing position depth with
  | nil => simp [nodes] at h
  | leaf a rest ih =>
      obtain ⟨front, o, back, hflat, hopen, hrest⟩ := ih hF.2.2 h
      refine ⟨a :: front, o, back, by simp [flatten, hflat], ?_, hrest⟩
      rw [hopen, List.length_cons]
      omega
  | node o' inner' c' rest ih ihrest =>
      obtain ⟨ho, hc, hinner, hsound⟩ := hF
      rw [nodes, List.mem_cons, List.mem_append] at h
      rcases h with h | h | h
      · obtain ⟨rfl, hx⟩ := Prod.mk.inj h
        obtain ⟨rfl, rfl⟩ := Prod.mk.inj hx
        exact ⟨[], o', rest.flatten, rfl, rfl, rfl, ho, hc, hinner⟩
      · obtain ⟨front, o, back, hflat, hopen, hrest⟩ := ih hinner h
        refine ⟨o' :: front, o, back ++ c' :: rest.flatten, by simp [flatten, hflat], ?_, hrest⟩
        rw [hopen, List.length_cons]
        omega
      · obtain ⟨front, o, back, hflat, hopen, hrest⟩ := ihrest hsound h
        refine ⟨o' :: (inner'.flatten ++ c' :: front), o, back, by simp [flatten, hflat], ?_,
          hrest⟩
        rw [hopen]
        simp only [List.length_cons, List.length_append, size]
        omega

/-- The items after the one that opens a node are those inside it and the one that closes
it. -/
lemma getElem?_of_mem_nodes {kind : α → TokenKind} {F inner : Forest α} (hF : F.Sound kind)
    {f : Form} {c : α} (h : (f, inner, c) ∈ F.nodes 0 0) {k : Nat} (hk : k ≤ inner.size) :
    F.flatten[f.opening + 1 + k]? = (inner.flatten ++ [c])[k]? := by
  obtain ⟨front, o, back, hflat, hopen, -⟩ := flatten_of_mem_nodes hF h
  have hsplit : F.flatten = (front ++ [o]) ++ ((inner.flatten ++ [c]) ++ back) := by
    rw [hflat]
    simp
  have hlen : f.opening + 1 + k = (front ++ [o]).length + k := by
    rw [hopen, List.length_append, List.length_singleton, Nat.zero_add]
  rw [hsplit, hlen, List.getElem?_append_right (by omega), Nat.add_sub_cancel_left,
    List.getElem?_append_left
      (by rw [List.length_append, List.length_singleton]; exact Nat.lt_succ_of_le hk)]

/-- The item that closes a node is found by the position of its form. -/
lemma getElem?_closing_of_mem_nodes {kind : α → TokenKind} {F inner : Forest α}
    (hF : F.Sound kind) {f : Form} {c : α} (h : (f, inner, c) ∈ F.nodes 0 0) :
    F.flatten[f.closing]? = some c := by
  obtain ⟨-, -, -, -, -, hclose, -⟩ := flatten_of_mem_nodes hF h
  rw [hclose, getElem?_of_mem_nodes hF h le_rfl, size, List.getElem?_concat_length]

lemma bounds_of_mem_forms {F : Forest α} {position depth : Nat} {f : Form}
    (h : f ∈ F.forms position depth) :
    position ≤ f.opening ∧ f.opening < f.closing ∧ f.closing < position + F.size ∧
      depth ≤ f.depth := by
  induction F generalizing position depth with
  | nil => simp [forms, nodes] at h
  | leaf a rest ih =>
      have := ih h
      rw [size_leaf]
      omega
  | node o inner c rest ih ihrest =>
      rw [size_node]
      simp only [forms, nodes, List.map_cons, List.map_append, List.mem_cons, List.mem_append] at h
      rcases h with rfl | h | h
      · simp only
        omega
      · have := ih h
        omega
      · have := ihrest h
        omega

/-- How a form lies to one that starts later: it ends before that, or is around it. -/
def Precedes (f f' : Form) : Prop :=
  f.closing < f'.opening ∨ f.opening < f'.opening ∧ f'.closing < f.closing ∧ f.depth < f'.depth

/-- Forms lie beside each other or inside each other. -/
lemma pairwise_forms (F : Forest α) (position depth : Nat) :
    (F.forms position depth).Pairwise Precedes := by
  induction F generalizing position depth with
  | nil => exact List.Pairwise.nil
  | leaf a rest ih => exact ih _ _
  | node o inner c rest ih ihrest =>
      rw [forms, nodes, List.map_cons, List.map_append]
      refine List.pairwise_cons.mpr
        ⟨fun f hf => ?_, List.pairwise_append.mpr ⟨ih _ _, ihrest _ _, ?_⟩⟩
      · rcases List.mem_append.mp hf with hf | hf
        · have := bounds_of_mem_forms hf
          refine Or.inr ⟨?_, ?_, ?_⟩ <;> simp only <;> omega
        · have := bounds_of_mem_forms hf
          refine Or.inl ?_
          simp only
          omega
      · intro f hf f' hf'
        have h := bounds_of_mem_forms hf
        have h' := bounds_of_mem_forms hf'
        exact Or.inl (by omega)

/-- Of two forms one starts later. -/
lemma eq_or_precedes {F : Forest α} {position depth : Nat} {f f' : Form}
    (hf : f ∈ F.forms position depth) (hf' : f' ∈ F.forms position depth) :
    f = f' ∨ Precedes f f' ∨ Precedes f' f := by
  have hpair := F.pairwise_forms position depth
  exact List.Pairwise.forall_of_forall_of_flip
    (R := fun f f' => f = f' ∨ Precedes f f' ∨ Precedes f' f) (fun _ _ => Or.inl rfl)
    (hpair.imp fun h => Or.inr (Or.inl h)) (hpair.imp fun h => Or.inr (Or.inr h)) hf hf'

lemma pairwise_opening (F : Forest α) (position depth : Nat) :
    (F.forms position depth).Pairwise fun f f' => f.opening < f'.opening := by
  refine (F.pairwise_forms position depth).imp_of_mem fun {f f'} hf _ h => ?_
  have := bounds_of_mem_forms hf
  rcases h with h | h <;> omega

/-- No two forms start at the same position. -/
lemma eq_of_opening_eq {F : Forest α} {position depth : Nat} {f f' : Form}
    (hf : f ∈ F.forms position depth) (hf' : f' ∈ F.forms position depth)
    (h : f.opening = f'.opening) : f = f' := by
  have hnodup : ((F.forms position depth).map Form.opening).Nodup := by
    rw [List.Nodup, List.pairwise_map]
    exact (F.pairwise_opening position depth).imp fun hlt => hlt.ne
  exact List.inj_on_of_nodup_map hnodup hf hf' h

/-! ### The items directly inside a node -/

/-- The leaves and the items that open nodes, less those inside nodes, with their
positions. -/
def roots : Nat → Forest α → List (α × Nat)
  | _, nil => []
  | position, leaf a rest => (a, position) :: rest.roots (position + 1)
  | position, node o inner _ rest => (o, position) :: rest.roots (position + 2 + inner.size)

/-- What a root stands for, and what follows it. -/
lemma exists_of_roots_eq {kind : α → TokenKind} {F : Forest α} (hF : F.Sound kind)
    {position p : Nat} {before after : List (α × Nat)} {a : α}
    (h : F.roots position = before ++ (a, p) :: after) :
    ∃ (front item : List α) (G : Forest α), F.flatten = front ++ (item ++ G.flatten) ∧
      p = position + front.length ∧ after = G.roots (p + item.length) ∧ G.Sound kind ∧
      (kind a ≠ .opening ∧ item = [a] ∨
        kind a = .opening ∧ ∃ (inner : Forest α) (c : α), inner.Sound kind ∧ kind c = .closing ∧
          item = a :: (inner.flatten ++ [c])) := by
  induction F generalizing position before with
  | nil => simp [roots] at h
  | leaf b rest ih =>
      obtain ⟨ho, hc, hrest⟩ := hF
      cases before with
      | nil =>
          obtain ⟨hb, rfl⟩ := List.cons.inj h
          obtain ⟨rfl, rfl⟩ := Prod.mk.inj hb
          exact ⟨[], [b], rest, rfl, rfl, rfl, hrest, Or.inl ⟨ho, rfl⟩⟩
      | cons b' before =>
          obtain ⟨front, item, G, hflat, hp, hafter⟩ := ih hrest (List.cons.inj h).2
          refine ⟨b :: front, item, G, by simp [flatten, hflat], ?_, hafter⟩
          rw [hp, List.length_cons]
          omega
  | node o inner c rest _ ih =>
      obtain ⟨ho, hc, hinner, hrest⟩ := hF
      cases before with
      | nil =>
          obtain ⟨hb, rfl⟩ := List.cons.inj h
          obtain ⟨rfl, rfl⟩ := Prod.mk.inj hb
          refine ⟨[], o :: (inner.flatten ++ [c]), rest, by simp [flatten], rfl, ?_, hrest,
            Or.inr ⟨ho, inner, c, hinner, hc, rfl⟩⟩
          rw [List.length_cons, List.length_append, List.length_singleton, size]
          congr 1
          omega
      | cons b' before =>
          obtain ⟨front, item, G, hflat, hp, hafter⟩ := ih hrest (List.cons.inj h).2
          refine ⟨o :: (inner.flatten ++ c :: front), item, G, by simp [flatten, hflat], ?_, hafter⟩
          rw [hp, List.length_cons, List.length_append, List.length_cons, size]
          omega

/-- Items that are no parentheses follow each other among the roots as among all. -/
lemma takeWhile_roots {kind : α → TokenKind} {F : Forest α} (hF : F.Sound kind)
    {q : α → Bool} (hq : ∀ a, q a → kind a ≠ .opening) (position : Nat) :
    ((F.roots position).map Prod.fst).takeWhile q = F.flatten.takeWhile q := by
  induction F generalizing position with
  | nil => rfl
  | leaf a rest ih =>
      rw [roots, flatten, List.map_cons, List.takeWhile_cons, List.takeWhile_cons, ih hF.2.2]
  | node o inner c rest _ ih =>
      have ho : ¬ q o := fun h => hq o h hF.1
      rw [roots, flatten, List.map_cons, List.takeWhile_cons, List.takeWhile_cons, if_neg ho,
        if_neg ho]

/-! ### The search for forms -/

lemma ends_perm_forms (F : Forest α) (position depth : Nat) :
    (F.ends position depth).Perm (F.forms position depth) := by
  induction F generalizing position depth with
  | nil => exact List.Perm.refl _
  | leaf a rest ih => exact ih _ _
  | node o inner c rest ih ihrest =>
      rw [ends, forms, nodes, List.map_cons, List.map_append]
      exact List.perm_middle.trans (((ih _ _).append (ihrest _ _)).cons _)

end Forest

open Forest

section Steps

variable {position : Nat} {stack : List Nat} {t : Token} {ts : List Token}

lemma formsFrom_of_opening (h : t.kind = .opening) :
    formsFrom position stack (t :: ts) = formsFrom (position + 1) (position :: stack) ts := by
  cases stack <;> simp [formsFrom, h]

lemma formsFrom_nil_of_closing (h : t.kind = .closing) :
    formsFrom position [] (t :: ts) = none := by
  simp [formsFrom, h]

lemma formsFrom_cons_of_closing (h : t.kind = .closing) (opening : Nat) :
    formsFrom position (opening :: stack) (t :: ts) =
      (formsFrom (position + 1) stack ts).map (⟨opening, position, stack.length⟩ :: ·) := by
  simp [formsFrom, h]

lemma formsFrom_of_leaf (ho : t.kind ≠ .opening) (hc : t.kind ≠ .closing) :
    formsFrom position stack (t :: ts) = formsFrom (position + 1) stack ts := by
  cases hkind : t.kind <;> cases stack <;> simp_all [formsFrom]

end Steps

/-- The search goes through a forest and finds its nodes, whatever is open around it. -/
lemma formsFrom_flatten {F : Forest Token} (hF : F.Sound Token.kind) (position : Nat)
    (stack : List Nat) (rest : List Token) :
    formsFrom position stack (F.flatten ++ rest) =
      (formsFrom (position + F.size) stack rest).map (F.ends position stack.length ++ ·) := by
  induction F generalizing position stack rest with
  | nil => simp [flatten, ends]
  | leaf a tail ih =>
      obtain ⟨ho, hc, htail⟩ := hF
      rw [flatten, List.cons_append, formsFrom_of_leaf ho hc, ih htail, ends, size_leaf,
        Nat.add_right_comm, Nat.add_assoc]
  | node o inner c tail ih ihtail =>
      obtain ⟨ho, hc, hinner, htail⟩ := hF
      rw [flatten, List.cons_append, List.append_assoc, List.cons_append, formsFrom_of_opening ho,
        ih hinner, formsFrom_cons_of_closing hc, ihtail htail, ends, size_node, List.length_cons,
        Option.map_map, Option.map_map,
        show position + 1 + inner.size + 1 = position + 2 + inner.size by omega,
        show position + 2 + inner.size + tail.size =
          position + (inner.size + tail.size + 2) by omega]
      congr 1
      funext fs
      simp

/-- Tokens that close a number of parentheses, with forests between the ends. -/
def Closes : Nat → List Token → Prop
  | 0, ts => ∃ F : Forest Token, F.Sound Token.kind ∧ F.flatten = ts
  | n + 1, ts => ∃ (F : Forest Token) (c : Token) (rest : List Token), F.Sound Token.kind ∧
      c.kind = .closing ∧ ts = F.flatten ++ c :: rest ∧ Closes n rest

lemma Closes.leaf {n : Nat} {t : Token} {ts : List Token} (ho : t.kind ≠ .opening)
    (hc : t.kind ≠ .closing) (h : Closes n ts) : Closes n (t :: ts) := by
  cases n with
  | zero =>
      obtain ⟨F, hF, rfl⟩ := h
      exact ⟨.leaf t F, ⟨ho, hc, hF⟩, rfl⟩
  | succ n =>
      obtain ⟨F, c, rest, hF, hkind, rfl, h⟩ := h
      exact ⟨.leaf t F, c, rest, ⟨ho, hc, hF⟩, hkind, rfl, h⟩

/-- One more end closes a parenthesis before the tokens. -/
lemma Closes.node {n : Nat} {t : Token} {ts : List Token} (ho : t.kind = .opening)
    (h : Closes (n + 1) ts) : Closes n (t :: ts) := by
  obtain ⟨inner, c, rest, hinner, hc, rfl, h⟩ := h
  cases n with
  | zero =>
      obtain ⟨F, hF, rfl⟩ := h
      exact ⟨.node t inner c F, ⟨ho, hc, hinner, hF⟩, rfl⟩
  | succ n =>
      obtain ⟨F, d, rest', hF, hd, rfl, h⟩ := h
      refine ⟨.node t inner c F, d, rest', ⟨ho, hc, hinner, hF⟩, hd, ?_, h⟩
      simp [flatten]

/-- Where the search ends, the tokens close what is open. -/
lemma closes_of_formsFrom {position : Nat} {stack : List Nat} {ts : List Token} {fs : List Form}
    (h : formsFrom position stack ts = some fs) : Closes stack.length ts := by
  induction ts generalizing position stack fs with
  | nil =>
      cases stack with
      | nil => exact ⟨.nil, trivial, rfl⟩
      | cons s stack => simp [formsFrom] at h
  | cons t ts ih =>
      by_cases ho : t.kind = .opening
      · rw [formsFrom_of_opening ho] at h
        exact (ih h).node ho
      by_cases hc : t.kind = .closing
      · cases stack with
        | nil => simp [formsFrom_nil_of_closing hc] at h
        | cons s stack =>
            rw [formsFrom_cons_of_closing hc] at h
            obtain ⟨fs', h, -⟩ := Option.map_eq_some_iff.mp h
            exact ⟨.nil, t, ts, trivial, hc, rfl, ih h⟩
      · rw [formsFrom_of_leaf ho hc] at h
        exact (ih h).leaf ho hc

/-- Tokens with forms are those of a forest. -/
lemma exists_forest {ts : List Token} {fs : List Form} (h : forms? ts = some fs) :
    ∃ F : Forest Token, F.Sound Token.kind ∧ F.flatten = ts := by
  obtain ⟨fs', h, -⟩ := Option.map_eq_some_iff.mp h
  exact closes_of_formsFrom h

/-- The forms of the tokens of a forest are its nodes. -/
lemma forms?_eq {F : Forest Token} (hF : F.Sound Token.kind) :
    forms? F.flatten = some (F.forms 0 0) := by
  have hends : formsFrom 0 [] F.flatten = some (F.ends 0 0) := by
    have := formsFrom_flatten hF 0 [] []
    rwa [List.append_nil, formsFrom, Option.map_some, List.append_nil] at this
  rw [forms?, hends, Option.map_some]
  have hperm := (List.mergeSort_perm (F.ends 0 0) fun a b => decide (a.opening ≤ b.opening)).trans
    (F.ends_perm_forms 0 0)
  have hsorted := @List.pairwise_mergeSort Form (fun a b => decide (a.opening ≤ b.opening))
    (fun a b c hab hbc => by simp only [decide_eq_true_eq] at *; omega)
    (fun a b => by simp only [Bool.or_eq_true, decide_eq_true_eq]; omega) (F.ends 0 0)
  refine congrArg some (List.Perm.eq_of_pairwise ?_ hsorted ?_ hperm)
  · intro f f' hf hf' hle hle'
    simp only [decide_eq_true_eq] at hle hle'
    exact eq_of_opening_eq (hperm.mem_iff.mp hf) hf' (by omega)
  · refine (F.pairwise_opening 0 0).imp fun h => ?_
    simp only [decide_eq_true_eq]
    omega

/-! ### Going through a forest -/

/-- The search for an end passes over a forest. -/
lemma closeFrom_flatten {F : Forest Token} (hF : F.Sound Token.kind) (position depth : Nat)
    (rest : List Token) :
    closeFrom position (depth + 1) (F.flatten ++ rest) =
      closeFrom (position + F.size) (depth + 1) rest := by
  induction F generalizing position depth rest with
  | nil => rfl
  | leaf a tail ih =>
      obtain ⟨ho, hc, htail⟩ := hF
      have hstep : closeFrom position (depth + 1) (a :: (tail.flatten ++ rest)) =
          closeFrom (position + 1) (depth + 1) (tail.flatten ++ rest) := by
        cases hkind : a.kind <;> simp_all [closeFrom]
      rw [flatten, List.cons_append, hstep, ih htail, size_leaf, Nat.add_right_comm, Nat.add_assoc]
  | node o inner c tail ih ihtail =>
      obtain ⟨ho, hc, hinner, htail⟩ := hF
      have hopen (ts : List Token) : closeFrom position (depth + 1) (o :: ts) =
          closeFrom (position + 1) (depth + 2) ts := by
        simp [closeFrom, ho]
      have hclose (p : Nat) (ts : List Token) : closeFrom p (depth + 2) (c :: ts) =
          closeFrom (p + 1) (depth + 1) ts := by
        simp [closeFrom, hc]
      rw [flatten, List.cons_append, List.append_assoc, List.cons_append, hopen, ih hinner, hclose,
        ihtail htail, size_node]
      congr 1
      omega

/-- The end of a node is found from its start. -/
lemma closeFrom_node {inner : Forest Token} (hinner : inner.Sound Token.kind) {o c : Token}
    (ho : o.kind = .opening) (hc : c.kind = .closing) (position : Nat) (rest : List Token) :
    closeFrom position 0 (o :: (inner.flatten ++ c :: rest)) =
      some (position + 1 + inner.size) := by
  have hopen (ts : List Token) : closeFrom position 0 (o :: ts) =
      closeFrom (position + 1) 1 ts := by
    simp [closeFrom, ho]
  rw [hopen, closeFrom_flatten hinner]
  simp [closeFrom, hc]

/-- Of a forest, what is directly inside is kept, and nothing if it is itself inside
something. -/
lemma outermost_flatten {F : Forest Token} (hF : F.Sound Token.kind) (position depth : Nat)
    (rest : List (Token × Nat)) :
    outermost 0 (F.flatten.zipIdx position ++ rest) = F.roots position ++ outermost 0 rest ∧
      outermost (depth + 1) (F.flatten.zipIdx position ++ rest) = outermost (depth + 1) rest := by
  induction F generalizing position depth rest with
  | nil => exact ⟨rfl, rfl⟩
  | leaf a tail ih =>
      obtain ⟨ho, hc, htail⟩ := hF
      have ih := ih htail (position + 1) depth rest
      constructor
      · cases hkind : a.kind <;> simp_all [flatten, roots, outermost]
      · cases hkind : a.kind <;> simp_all [flatten, outermost]
  | node o inner c tail ih ihtail =>
      obtain ⟨ho, hc, hinner, htail⟩ := hF
      have hzip : (node o inner c tail).flatten.zipIdx position ++ rest = (o, position) ::
          (inner.flatten.zipIdx (position + 1) ++ (c, position + 1 + inner.size) ::
            (tail.flatten.zipIdx (position + 2 + inner.size) ++ rest)) := by
        rw [flatten, List.zipIdx_cons, List.zipIdx_append, List.zipIdx_cons, List.cons_append,
          List.append_assoc, List.cons_append]
        rw [size, show position + 1 + inner.flatten.length + 1 =
          position + 2 + inner.flatten.length by omega]
      have htail := ihtail htail (position + 2 + inner.size) depth rest
      rw [hzip]
      constructor
      · have hin := fun ts => (ih hinner (position + 1) 0 ts).2
        simp [outermost, ho, hin, hc, htail.1, roots]
      · have hin := fun ts => (ih hinner (position + 1) (depth + 1) ts).2
        simp [outermost, ho, hin, hc, htail.2]

end CallGuard.Wat
