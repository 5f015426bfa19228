import CallGuard.Proofs.Wat.Replace

/-!
Where things are in a changed text. If every item of a list becomes a run of items, then
the run of an item starts after the runs of the items before it; so the places of nodes, of
what is directly inside them and of the table follow from those in the old text.

* `Forest.Moves`: a map of places.
* `Forest.nodes_rewrite`, `Forest.roots_rewrite`: where nodes and what is directly inside
  them go.
* `Replacing.fieldNodes_named`: where the fields of a name go.
* `Replacing.exists_elemSegment`: where the table goes.
-/

namespace CallGuard.Wat

namespace Forest

variable {α β : Type}

/-! ### Small facts -/

@[simp] lemma size_append (F G : Forest α) : (F.append G).size = F.size + G.size := by
  rw [size, flatten_append, List.length_append, size, size]

@[simp] lemma size_map (f : α → β) (F : Forest α) : (F.map f).size = F.size := by
  rw [size, flatten_map, List.length_map, size]

lemma nodes_map (f : α → β) (F : Forest α) (position depth : Nat) :
    (F.map f).nodes position depth =
      (F.nodes position depth).map fun n => (n.1, n.2.1.map f, f n.2.2) := by
  induction F generalizing position depth with
  | nil => rfl
  | leaf a rest ih => exact ih _ _
  | node o inner c rest ih ihrest =>
      rw [map, nodes, size_map, ih, ihrest, nodes, List.map_cons, List.map_append]

lemma roots_map (f : α → β) (F : Forest α) (position : Nat) :
    (F.map f).roots position = (F.roots position).map fun a => (f a.1, a.2) := by
  induction F generalizing position with
  | nil => rfl
  | leaf a rest ih => rw [map, roots, ih, roots, List.map_cons]
  | node o inner c rest _ ih => rw [map, roots, size_map, ih, roots, List.map_cons]

lemma roots_append (F G : Forest α) (position : Nat) :
    (F.append G).roots position = F.roots position ++ G.roots (position + F.size) := by
  induction F generalizing position with
  | nil => rfl
  | leaf a rest ih => rw [append, roots, ih, roots, size_leaf, Nat.add_assoc, Nat.add_comm 1,
      List.cons_append]
  | node o inner c rest _ ih =>
      rw [append, roots, ih, roots, size_node, List.cons_append,
        show position + 2 + inner.size + rest.size =
          position + (inner.size + rest.size + 2) by omega]

lemma roots_ofList (as : List α) (position : Nat) :
    (ofList as).roots position = as.zipIdx position := by
  induction as generalizing position with
  | nil => rfl
  | cons a as ih => rw [ofList, roots, ih, List.zipIdx_cons]

/-- What is directly inside is found by its position. -/
lemma getElem?_of_mem_roots {F : Forest α} {position : Nat} {a : α} {i : Nat}
    (h : (a, i) ∈ F.roots position) : ∃ k, i = position + k ∧ F.flatten[k]? = some a := by
  induction F generalizing position with
  | nil => simp [roots] at h
  | leaf b rest ih =>
      rcases List.mem_cons.mp h with heq | h
      · obtain ⟨rfl, rfl⟩ := Prod.mk.inj heq
        exact ⟨0, rfl, rfl⟩
      · obtain ⟨k, rfl, hk⟩ := ih h
        exact ⟨k + 1, by omega, hk⟩
  | node o inner c rest _ ih =>
      rcases List.mem_cons.mp h with heq | h
      · obtain ⟨rfl, rfl⟩ := Prod.mk.inj heq
        exact ⟨0, rfl, rfl⟩
      · obtain ⟨k, rfl, hk⟩ := ih h
        refine ⟨inner.size + k + 2, by omega, ?_⟩
        rw [flatten, List.getElem?_cons_succ, List.getElem?_append_right (by rw [← size]; omega),
          ← size, show inner.size + k + 1 - inner.size = k + 1 by omega,
          List.getElem?_cons_succ, hk]

/-- What is directly inside a field is found by its position among all items. -/
lemma getElem?_of_mem_children {F : Forest Token} {text : List Char} (hF : F.Sound Token.kind)
    {n : Form × Forest Token × Token} (hn : n ∈ F.nodes 0 0) {a : Token × Nat}
    (ha : a ∈ (F.toModule text).children n.1) :
    F.flatten[a.2]? = some a.1 ∧ n.1.opening < a.2 ∧ a.2 < n.1.closing := by
  obtain ⟨f, inner, c⟩ := n
  rw [children_of_mem_nodes hF hn] at ha
  obtain ⟨k, hi, hk⟩ := getElem?_of_mem_roots ha
  obtain ⟨-, -, -, -, -, hclose, -⟩ := flatten_of_mem_nodes hF hn
  have hlt : k < inner.size := (List.getElem?_eq_some_iff.mp hk).1
  refine ⟨?_, by simp only; omega, by simp only; omega⟩
  rw [hi, getElem?_of_mem_nodes hF hn hlt.le, List.getElem?_append_left hlt, hk]

/-- The string of the last data is one of the tokens. -/
lemma mem_flatten_of_lastData? {F : Forest Token} {text : List Char} (hF : F.Sound Token.kind)
    {d : Token} (hd : (F.toModule text).lastData? = some d) : d ∈ F.flatten := by
  obtain ⟨f, hf, hfind⟩ := Option.bind_eq_some_iff.mp hd
  obtain ⟨a, ha, rfl⟩ := List.mem_map.mp (List.mem_of_find?_eq_some hfind)
  obtain ⟨inner, c, hnode⟩ := exists_node (List.mem_of_mem_filter (List.mem_of_getLast? hf))
  exact List.mem_of_getElem? (getElem?_of_mem_children hF hnode ha).1

/-! ### Maps of places -/

/-- The map `p` gives for the place of an item the place of the first item that it becomes.
The first of the items has the place `position`, and what becomes of it starts at the place
`position'`. -/
def Moves (ε : α → List β) (as : List α) (position position' : Nat) (p : Nat → Nat) : Prop :=
  ∀ k ≤ as.length, p (position + k) = position' + ((as.take k).flatMap ε).length

namespace Moves

variable {ε : α → List β} {as bs : List α} {position position' : Nat} {p : Nat → Nat}

lemma start (h : Moves ε as position position' p) : p position = position' :=
  h 0 (Nat.zero_le _)

lemma append_left (h : Moves ε (as ++ bs) position position' p) :
    Moves ε as position position' p := by
  intro k hk
  rw [h k (by rw [List.length_append]; omega), List.take_append_of_le_length hk]

lemma append_right (h : Moves ε (as ++ bs) position position' p) :
    Moves ε bs (position + as.length) (position' + (as.flatMap ε).length) p := by
  intro k hk
  rw [Nat.add_assoc, h (as.length + k) (by rw [List.length_append]; omega),
    List.take_length_add_append, List.flatMap_append, List.length_append, Nat.add_assoc]

lemma tail {a : α} (h : Moves ε (a :: as) position position' p) :
    Moves ε as (position + 1) (position' + (ε a).length) p := by
  have h : Moves ε ([a] ++ as) position position' p := h
  have := h.append_right
  rwa [List.flatMap_singleton] at this

/-- Moving depends on what becomes of the items only. -/
lemma congr {ε' : α → List β} (h : Moves ε as position position' p)
    (heq : ∀ a ∈ as, ε' a = ε a) : Moves ε' as position position' p := by
  intro k hk
  rw [h k hk, List.flatMap_congr fun a ha => heq a (List.mem_of_mem_take ha)]

/-- The items that items become, with their places. -/
lemma flatMap_zipIdx (h : Moves ε as position position' p) :
    (as.zipIdx position).flatMap (fun a => (ε a.1).zipIdx (p a.2)) =
      (as.flatMap ε).zipIdx position' := by
  induction as generalizing position position' with
  | nil => rfl
  | cons a as ih =>
      rw [List.zipIdx_cons, List.flatMap_cons, ih h.tail, h.start, List.flatMap_cons,
        List.zipIdx_append]

end Moves

section Rewrite

variable {kind : α → TokenKind} {κ : α → β} {σ : α → Forest β} {F : Forest α}
  (hF : F.Sound kind) {position position' : Nat} {p : Nat → Nat}
  (hp : Moves (rewritten kind κ σ) F.flatten position position' p)
include hF hp

/-- The nodes of a forest are among those of the forest that it becomes. -/
lemma nodes_rewrite (depth : Nat) :
    ((F.nodes position depth).map fun n =>
        (p n.1.opening, n.1.depth, (n.2.1.rewrite κ σ).append (σ n.2.2), κ n.2.2)).Sublist
      (((F.rewrite κ σ).nodes position' depth).map fun n => (n.1.opening, n.1.depth, n.2)) := by
  induction F generalizing position position' depth with
  | nil => exact List.Sublist.refl _
  | leaf a rest ih =>
      have hrest := hp.tail
      rw [rewritten_of_leaf hF.1 hF.2.1] at hrest
      rw [rewrite, nodes_append, List.map_append, size]
      exact (ih hF.2.2 hrest depth).trans (List.sublist_append_right _ _)
  | node o inner c rest ih ihrest =>
      obtain ⟨ho, hc, hinner, hsound⟩ := hF
      rw [flatten] at hp
      have hin := hp.tail.append_left
      have hrest := hp.tail.append_right.tail
      have hlen : ((inner.rewrite κ σ).append (σ c)).size =
          (inner.flatten.flatMap (rewritten kind κ σ)).length + (σ c).flatten.length := by
        rw [size_append, size, flatten_rewrite hinner, size]
      rw [rewritten_of_opening ho, List.length_singleton] at hin hrest
      rw [rewritten_of_closing hc, List.length_append, List.length_singleton] at hrest
      rw [nodes, List.map_cons, List.map_append, rewrite, nodes, List.map_cons, List.map_append,
        hp.start, nodes_append, List.map_append]
      refine List.Sublist.cons_cons _ (List.Sublist.append ?_ ?_)
      · exact (ih hinner hin (depth + 1)).trans (List.sublist_append_left _ _)
      · have := ihrest hsound hrest depth
        rw [hlen]
        rwa [show position + 1 + inner.flatten.length + 1 = position + 2 + inner.size by
            rw [size]; omega,
          show position' + 1 + (inner.flatten.flatMap (rewritten kind κ σ)).length +
              ((σ c).flatten.length + 1) =
            position' + 2 + ((inner.flatten.flatMap (rewritten kind κ σ)).length +
              (σ c).flatten.length) by omega] at this

/-- What is directly inside a forest becomes what is directly inside the forest that it
becomes, if leaves become leaves. -/
lemma roots_rewrite (hσ : ∀ a, kind a ≠ .closing → ∃ as, σ a = ofList as) :
    (F.rewrite κ σ).roots position' =
      (F.roots position).flatMap fun a => (rewritten kind κ σ a.1).zipIdx (p a.2) := by
  induction F generalizing position position' with
  | nil => rfl
  | leaf a rest ih =>
      have hrest := hp.tail
      have ha := @rewritten_of_leaf α β kind κ σ a hF.1 hF.2.1
      obtain ⟨as, has⟩ := hσ a hF.2.1
      rw [ha] at hrest
      rw [rewrite, roots_append, size, ih hF.2.2 hrest, roots, List.flatMap_cons, ha, hp.start, has,
        roots_ofList, flatten_ofList]
  | node o inner c rest _ ih =>
      obtain ⟨ho, hc, hinner, hsound⟩ := hF
      rw [flatten] at hp
      have hrest := hp.tail.append_right.tail
      rw [rewritten_of_opening ho, List.length_singleton, rewritten_of_closing hc,
        List.length_append, List.length_singleton] at hrest
      have hstart : position + 1 + inner.flatten.length + 1 = position + 2 + inner.size := by
        rw [size]
        omega
      have hstart' : position' + 1 + (inner.flatten.flatMap (rewritten kind κ σ)).length +
          ((σ c).flatten.length + 1) = position' + 2 + ((inner.rewrite κ σ).append (σ c)).size := by
        rw [size_append, size, flatten_rewrite hinner, size]
        omega
      rw [hstart, hstart'] at hrest
      rw [rewrite, roots, ih hsound hrest, roots, List.flatMap_cons, rewritten_of_opening ho,
        hp.start]
      rfl

end Rewrite

end Forest

open Forest

/-- References are among the items that they are found among. -/
lemma Lists.subset {α : Type} {κ : α → Lexeme} {items refs : List α} (h : Lists κ items refs) :
    refs ⊆ items := by
  obtain ⟨before, start, after, rfl, -⟩ := h
  intro a ha
  simp [ha]

namespace Replacing

variable {text : List Char} {F : Forest Token} {ε : Token → List Lexeme} {X : Forest Lexeme}

/-! ### Fields -/

lemma isSome_wrapper?_forest (h : Replacing text F ε X) {F' : Forest Token}
    (hF' : F'.Sound Token.kind) (hmap : F'.map Token.lexeme = forest text F ε X) :
    F'.wrapper?.isSome = F.wrapper?.isSome := by
  have hX : (if (F.toModule text).close = none then X.tops else []).any
      (fun x => x.1.named id "module") = false := by
    rw [List.any_eq_false]
    intro x hx
    split at hx
    · rw [(h.added_fields x hx).1]
      decide
    · cases hx
  have htops : (F'.map Token.lexeme).tops.any (fun x => x.1.named id "module") =
      F'.wrapper?.isSome := by
    rw [isSome_wrapper? hF', tops_map, List.any_map]
    simp only [Function.comp_def, named_map]
    rfl
  rw [← htops, hmap, h.tops_forest, List.any_append, h.any_tops_turn, hX, Bool.or_false]

/-- The nodes go where the places of their opening parentheses go, and none goes away. -/
lemma nodes_forest (h : Replacing text F ε X) {F' : Forest Token}
    (hmap : F'.map Token.lexeme = forest text F ε X) {p : Nat → Nat}
    (hp : Moves ε F.flatten 0 0 p) :
    ((F.nodes 0 0).map fun n =>
        (p n.1.opening, n.1.depth, turn (F.toModule text) ε X n.2)).Sublist
      ((F'.nodes 0 0).map fun n =>
        (n.1.opening, n.1.depth, n.2.1.map Token.lexeme, n.2.2.lexeme)) := by
  have hnodes := nodes_map Token.lexeme F' 0 0
  rw [hmap, forest, nodes_append] at hnodes
  have hparts := congrArg (List.map fun n : Form × Forest Lexeme × Lexeme =>
    (n.1.opening, n.1.depth, n.2)) hnodes
  rw [List.map_append, List.map_map] at hparts
  have hmoved := nodes_rewrite h.sound (hp.congr fun t ht => h.rewritten_eq ht) 0
  exact hmoved.trans (List.IsPrefix.sublist ⟨_, hparts⟩)

/-- The fields of a name go where the places of their parentheses go, if none is added. -/
lemma fieldNodes_named (h : Replacing text F ε X) {F' : Forest Token}
    (hF' : F'.Sound Token.kind) (hmap : F'.map Token.lexeme = forest text F ε X) {p : Nat → Nat}
    (hp : Moves ε F.flatten 0 0 p) {name : String} (hX : ∀ x ∈ X.tops, x.1.named id name = false) :
    (F.fieldNodes.filter fun n => n.2.1.named Token.lexeme name).map
        (fun n => (p n.1.opening, n.1.depth, turn (F.toModule text) ε X n.2)) =
      (F'.fieldNodes.filter fun n => n.2.1.named Token.lexeme name).map
        fun n => (n.1.opening, n.1.depth, n.2.1.map Token.lexeme, n.2.2.lexeme) := by
  -- the fields of the name are the nodes of their depth with this name
  have hfilter := (h.nodes_forest hmap hp).filter fun x =>
    x.2.1 == (if F.wrapper?.isSome then 1 else 0) && x.2.2.1.named id name
  rw [List.filter_map, List.filter_map] at hfilter
  have hold : (F.nodes 0 0).filter ((fun x : Nat × Nat × Forest Lexeme × Lexeme =>
        x.2.1 == (if F.wrapper?.isSome then 1 else 0) && x.2.2.1.named id name) ∘ fun n =>
        (p n.1.opening, n.1.depth, turn (F.toModule text) ε X n.2)) =
      F.fieldNodes.filter fun n => n.2.1.named Token.lexeme name := by
    rw [fieldNodes, List.filter_filter]
    refine List.filter_congr fun n hn => ?_
    by_cases hd : (n.1.depth == if F.wrapper?.isSome then 1 else 0) = true
    · have hfield : n ∈ F.fieldNodes := List.mem_filter.mpr ⟨hn, hd⟩
      simp only [Function.comp_apply, h.named_turn hn (Or.inr hfield), Bool.and_comm]
    · simp only [Function.comp_apply, Bool.not_eq_true] at hd ⊢
      rw [hd, Bool.false_and, Bool.and_false]
  have hnew : (F'.nodes 0 0).filter ((fun x : Nat × Nat × Forest Lexeme × Lexeme =>
        x.2.1 == (if F.wrapper?.isSome then 1 else 0) && x.2.2.1.named id name) ∘ fun n =>
        (n.1.opening, n.1.depth, n.2.1.map Token.lexeme, n.2.2.lexeme)) =
      F'.fieldNodes.filter fun n => n.2.1.named Token.lexeme name := by
    rw [fieldNodes, List.filter_filter, h.isSome_wrapper?_forest hF' hmap]
    refine List.filter_congr fun n _ => ?_
    simp only [Function.comp_apply, named_map, Bool.and_comm]
    rfl
  have hlength : (F.fieldNodes.filter fun n => n.2.1.named Token.lexeme name).length =
      (F'.fieldNodes.filter fun n => n.2.1.named Token.lexeme name).length := by
    have hnamed := h.fieldsNamed_forest_of_not_added hX
    rw [← hmap, fieldsNamed_map, Function.id_comp, ← map_snd_fieldNodes_named hF'] at hnamed
    simpa using (congrArg List.length hnamed).symm
  refine List.Sublist.eq_of_length ?_ (by rw [List.length_map, List.length_map, hlength])
  rwa [hnew, hold] at hfilter

/-- What is directly inside a field is what becomes of what was directly inside it, and its
places are those that it goes to. -/
lemma map_children (h : Replacing text F ε X) {F' : Forest Token} (hF' : F'.Sound Token.kind)
    {p : Nat → Nat} (hp : Moves ε F.flatten 0 0 p) {n n' : Form × Forest Token × Token}
    (hn : n ∈ F.fieldNodes) (hn' : n' ∈ F'.nodes 0 0) (hopening : n'.1.opening = p n.1.opening)
    (hinner : n'.2.1.map Token.lexeme = (turn (F.toModule text) ε X n.2).1) {text' : List Char} :
    ((F'.toModule text').children n'.1).map (fun a => (a.1.lexeme, a.2)) =
      ((F.toModule text).children n.1).flatMap fun a => (ε a.1).zipIdx (p a.2) := by
  have hnode := List.mem_of_mem_filter hn
  obtain ⟨front, o, back, hflat, hplace, -, ho, -, hsound⟩ := flatten_of_mem_nodes h.sound hnode
  rw [Nat.zero_add] at hplace
  have hmoves : Moves (rewritten Token.kind Token.lexeme (put (F.toModule text) ε X))
      n.2.1.flatten (n.1.opening + 1) (n'.1.opening + 1) p := by
    rw [hflat] at hp
    have hin := hp.append_right
    have hfront := hin.start
    rw [Nat.zero_add, ← hplace] at hin hfront
    have hin := hin.tail.append_left
    rw [h.opening o (by rw [hflat]; simp) ho, List.length_singleton, ← hfront, ← hopening] at hin
    exact hin.congr fun t ht => h.rewritten_eq (mem_flatten_of_mem_nodes h.sound hnode ht)
  have hσ (t : Token) (ht : t.kind ≠ .closing) : ∃ ls, put (F.toModule text) ε X t = ofList ls :=
    ⟨ε t, by rw [put, if_neg ht]⟩
  rw [children_of_mem_nodes hF' hn', children_of_mem_nodes h.sound hnode, ← roots_map, hinner, turn,
    h.put_eq_nil_of_mem_fieldNodes hn, append_nil, roots_rewrite hsound hmoves hσ]
  refine List.flatMap_congr fun a ha => ?_
  obtain ⟨k, -, hk⟩ := getElem?_of_mem_roots ha
  rw [h.rewritten_eq (mem_flatten_of_mem_nodes h.sound hnode (List.mem_of_getElem? hk))]

/-! ### The table -/

/-- A reference lies at its place, and nothing else is one. -/
lemma mem_zipIdx_iff (h : Replacing text F ε X) {elem : ElemSegment} {f : Form}
    {front refs back : List Token} (hrefs : ReferencesAt (F.toModule text) elem f front refs back)
    {a : Token × Nat} (ha : F.flatten[a.2]? = some a.1) :
    a ∈ refs.zipIdx front.length ↔ a.1 ∈ refs := by
  constructor
  · intro hmem
    exact List.fst_mem_of_mem_zipIdx hmem
  · intro hmem
    obtain ⟨k, hk⟩ := List.mem_iff_getElem?.mp hmem
    have hget : F.flatten[front.length + k]? = some a.1 :=
      (hrefs.getElem?_add (List.getElem?_eq_some_iff.mp hk).1).trans hk
    rw [h.flatten_eq] at ha hget
    have hplace := index_eq_of_start_eq ha hget rfl
    rw [List.mem_zipIdx_iff_le_and_getElem?_sub, hplace, Nat.add_sub_cancel_left]
    exact ⟨by omega, hk⟩

/-- The references of a table are found directly inside its field with their places. -/
lemma lists_zipIdx (h : Replacing text F ε X) {elem : ElemSegment} {front refs back : List Token}
    {n : Form × Forest Token × Token} (hn : n ∈ F.nodes 0 0)
    (hrefs : ReferencesAt (F.toModule text) elem n.1 front refs back) :
    Lists (fun a => a.1.lexeme) ((F.toModule text).children n.1) (refs.zipIdx front.length) := by
  obtain ⟨rs, hmap, hlists⟩ := hrefs.listed.exists_of_map
  suffices hrs : rs = refs.zipIdx front.length from hrs ▸ hlists
  refine List.ext_getElem? fun k => ?_
  rw [List.getElem?_zipIdx, hmap, List.getElem?_map]
  cases hk : rs[k]? with
  | none => rfl
  | some a =>
      -- tokens at different places are different
      have ha := (getElem?_of_mem_children h.sound hn (hlists.subset (List.mem_of_getElem? hk))).1
      have hget : refs[k]? = some a.1 := by rw [hmap, List.getElem?_map, hk, Option.map_some]
      have hat : F.flatten[front.length + k]? = some a.1 :=
        (hrefs.getElem?_add (List.getElem?_eq_some_iff.mp hget).1).trans hget
      rw [h.flatten_eq] at ha hat
      rw [Option.map_some, Option.map_some, ← index_eq_of_start_eq ha hat rfl]

/-- What the references become is found directly inside the field that theirs becomes. The
places of the new references follow each other. -/
lemma lists_moved (h : Replacing text F ε X) {p : Nat → Nat} (hp : Moves ε F.flatten 0 0 p)
    {elem : ElemSegment} {front refs back : List Token} {n : Form × Forest Token × Token}
    (hn : n ∈ F.nodes 0 0) (hrefs : ReferencesAt (F.toModule text) elem n.1 front refs back)
    {words : List (List Char)} (hwords : refs.flatMap ε = words.map fun w => (.atom, w))
    (hmem : ∀ w ∈ words, w ∈ refs.map Token.text)
    (hkept : ∀ i t, F.flatten[i]? = some t → n.1.opening < i → i < n.1.closing → t ∉ refs →
      ε t = [t.lexeme]) :
    Lists Prod.fst (((F.toModule text).children n.1).flatMap fun a => (ε a.1).zipIdx (p a.2))
      ((words.map fun w => (TokenKind.atom, w)).zipIdx (front.flatMap ε).length) := by
  have hrun : (refs.zipIdx front.length).flatMap (fun a => (ε a.1).zipIdx (p a.2)) =
      (words.map fun w => (TokenKind.atom, w)).zipIdx (front.flatMap ε).length := by
    rw [show F.flatten = _ from hrefs.tokens_eq] at hp
    have hmoves := hp.append_right.append_left
    rw [Nat.zero_add, Nat.zero_add] at hmoves
    rw [hmoves.flatMap_zipIdx, hwords]
  rw [← hrun]
  refine (h.lists_zipIdx hn hrefs).flatMap ?_ (fun a ha hnot => ?_) fun b hb => ?_
  · have hnodup := h.nodup_items hn
    rw [children_of_mem_nodes h.sound hn]
    rw [← map_fst_roots n.2.1 (n.1.opening + 1)] at hnodup
    exact hnodup.of_map
  · obtain ⟨hget, hlt, hlt'⟩ := getElem?_of_mem_children h.sound hn ha
    rw [h.mem_zipIdx_iff hrefs hget] at hnot
    rw [List.zipIdx_map_fst, hkept a.2 a.1 hget hlt hlt' hnot]
  · rw [hrun] at hb
    obtain ⟨w, hw, hb⟩ := List.mem_map.mp (List.fst_mem_of_mem_zipIdx hb)
    obtain ⟨t, ht, rfl⟩ := List.mem_map.mp (hmem w hw)
    rw [← List.zipIdx_map_fst front.length refs] at ht
    obtain ⟨a, ha, rfl⟩ := List.mem_map.mp ht
    refine ⟨a, ha, hb ▸ Prod.ext (hrefs.atoms a.1 ?_).symm rfl⟩
    exact List.fst_mem_of_mem_zipIdx ha

/-- Tokens that are found at places that follow each other follow each other. -/
lemma map_fst_eq {ts front ws back : List Token} {rs : List (Token × Nat)} {ls : List Lexeme}
    (htokens : ts = front ++ (ws ++ back)) (hlength : ws.length = ls.length)
    (hrs : ls.zipIdx front.length = rs.map fun a => (a.1.lexeme, a.2))
    (hget : ∀ a ∈ rs, ts[a.2]? = some a.1) : rs.map Prod.fst = ws := by
  have hlen : rs.length = ws.length := by
    have := congrArg List.length hrs
    rw [List.length_zipIdx, List.length_map] at this
    omega
  refine List.ext_getElem? fun k => ?_
  rw [List.getElem?_map]
  cases hk : rs[k]? with
  | none =>
      rw [List.getElem?_eq_none_iff] at hk
      rw [List.getElem?_eq_none (by omega), Option.map_none]
  | some a =>
      have hplace := congrArg (·[k]?) hrs
      simp only [List.getElem?_map, hk, Option.map_some, List.getElem?_zipIdx] at hplace
      obtain ⟨l, -, hl⟩ := Option.map_eq_some_iff.mp hplace
      have hlt : k < ws.length := hlen ▸ (List.getElem?_eq_some_iff.mp hk).1
      have ha := hget a (List.mem_of_getElem? hk)
      rw [htokens, ← congrArg Prod.snd hl, List.getElem?_append_right (by simp only; omega),
        List.getElem?_append_left (by simp only; omega)] at ha
      simp only [Nat.add_sub_cancel_left] at ha
      rw [ha, Option.map_some]

/-- If in the field of the table only the references are replaced, then the table of the new
text is what the references become: it spans the tokens `ws` that come after what becomes of
the tokens before the references. -/
lemma exists_elemSegment (h : Replacing text F ε X) {text' : List Char}
    (htext : (forest text F ε X).flatten = lexemes text') {elem : ElemSegment} {f : Form}
    {front refs back : List Token} (hrefs : ReferencesAt (F.toModule text) elem f front refs back)
    {words : List (List Char)} (hwords : refs.flatMap ε = words.map fun w => (.atom, w))
    (hmem : ∀ w ∈ words, w ∈ refs.map Token.text)
    (hkept : ∀ i t, F.flatten[i]? = some t → f.opening < i → i < f.closing → t ∉ refs →
      ε t = [t.lexeme]) {front' ws back' : List Token}
    (htokens : tokens text' = front' ++ (ws ++ back'))
    (hfront : front'.length = (front.flatMap ε).length) (hlength : ws.length = words.length) :
    ∃ m' elem', Module.parse? text' = some m' ∧ m'.elemSegment? = some elem' ∧
      ∀ first last, ws.head? = some first → ws.getLast? = some last →
        elem'.start = first.start ∧ elem'.stop = last.stop := by
  obtain ⟨F', hmap, hflat'⟩ := exists_map_eq htext
  have hsound := sound_map.mp (hmap ▸ h.sound_forest)
  have hF' : F'.Sound Token.kind := hsound
  obtain ⟨p, hp⟩ : ∃ p, Moves ε F.flatten 0 0 p :=
    ⟨fun k => ((F.flatten.take k).flatMap ε).length, fun k _ => by simp only [Nat.zero_add]⟩
  -- the field of the table
  have hfield := hrefs.field
  rw [fieldsNamed_toModule h.sound, List.head?_map] at hfield
  obtain ⟨n, hn, rfl⟩ := Option.map_eq_some_iff.mp hfield
  have hnamed := congrArg List.head?
    (h.fieldNodes_named hF' hmap hp fun x hx => (h.added_fields x hx).2)
  rw [List.head?_map, hn, Option.map_some, List.head?_map] at hnamed
  obtain ⟨n', hn', heq⟩ := Option.map_eq_some_iff.mp hnamed.symm
  obtain ⟨hopening, heq⟩ := Prod.mk.inj heq
  have hfieldn := List.mem_of_mem_filter (List.mem_of_mem_head? hn)
  have hnode := List.mem_of_mem_filter hfieldn
  have hnode' := List.mem_of_mem_filter (List.mem_of_mem_filter (List.mem_of_mem_head? hn'))
  have hchildren := @map_children _ _ _ _ h F' hF' p hp n n' hfieldn hnode' hopening
    (congrArg (fun x => x.2.1) heq) text'
  -- what becomes of the references
  have hmoved := h.lists_moved hp hnode hrefs hwords hmem hkept
  rw [← hchildren, ← hfront] at hmoved
  obtain ⟨rs, hrs, hlists⟩ := hmoved.exists_of_map
  have hws : rs.map Prod.fst = ws := map_fst_eq (hflat'.trans htokens) (by simpa using hlength) hrs
    fun a ha => (getElem?_of_mem_children hF' hnode' (hlists.subset ha)).1
  have hlisted : Lists Token.lexeme (((F'.toModule text').children n'.1).map Prod.fst) ws :=
    hws ▸ Lists.map hlists
  have hfield' : ((F'.toModule text').fieldsNamed "elem").head? = some n'.1 := by
    rw [fieldsNamed_toModule hF', List.head?_map, hn', Option.map_some]
  obtain ⟨elem', helem', -, hspan⟩ := elemSegment?_of_lists hfield' hlisted
  exact ⟨F'.toModule text', elem', parse?_eq hF' hflat', helem', hspan⟩

end Replacing

end CallGuard.Wat
