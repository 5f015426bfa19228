import CallGuard.Proofs.Wat.Forest

/-!
Forests whose leaves are replaced. If every leaf becomes a run of leaves, and new nodes are
put before the ends of nodes, then the nodes stay where they are; so the structure of a
changed text is that of the text.

* `Forest.map`, `Forest.append`, `Forest.ofList`: making forests.
* `Forest.items`, `Forest.tops`: what is outermost in a forest.
* `Forest.rewrite`: a forest with its leaves replaced.
* `Forest.flatten_rewrite`, `Forest.items_rewrite`, `Forest.tops_rewrite`: what becomes
  of the items and of what is outermost.
-/

namespace CallGuard.Wat.Forest

variable {α β : Type}

/-! ### Making forests -/

/-- A forest with another item for every item. -/
def map (f : α → β) : Forest α → Forest β
  | nil => nil
  | leaf a rest => leaf (f a) (rest.map f)
  | node o inner c rest => node (f o) (inner.map f) (f c) (rest.map f)

@[simp] lemma flatten_map (f : α → β) (F : Forest α) : (F.map f).flatten = F.flatten.map f := by
  induction F with
  | nil => rfl
  | leaf a rest ih => simp [map, flatten, ih]
  | node o inner c rest ih ihrest => simp [map, flatten, ih, ihrest]

lemma sound_map {kind : β → TokenKind} {f : α → β} {F : Forest α} :
    (F.map f).Sound kind ↔ F.Sound (kind ∘ f) := by
  induction F with
  | nil => exact Iff.rfl
  | leaf a rest ih => simp [map, Sound, ih]
  | node o inner c rest ih ihrest => simp [map, Sound, ih, ihrest]

/-- Items that the items of a forest come from make a forest. -/
lemma exists_map_eq {f : α → β} {G : Forest β} {ts : List α} (h : G.flatten = ts.map f) :
    ∃ F : Forest α, F.map f = G ∧ F.flatten = ts := by
  induction G generalizing ts with
  | nil =>
      obtain rfl : ts = [] := by simpa [flatten] using h
      exact ⟨nil, rfl, rfl⟩
  | leaf b rest ih =>
      obtain ⟨a, ts, rfl, rfl, hrest⟩ := List.map_eq_cons_iff.mp h.symm
      obtain ⟨F, rfl, rfl⟩ := ih hrest.symm
      exact ⟨leaf a F, rfl, rfl⟩
  | node o inner c rest ih ihrest =>
      obtain ⟨a, ts, rfl, rfl, hts⟩ := List.map_eq_cons_iff.mp h.symm
      obtain ⟨us, vs, rfl, hus, hvs⟩ := List.map_eq_append_iff.mp hts
      obtain ⟨d, vs, rfl, rfl, hws⟩ := List.map_eq_cons_iff.mp hvs
      obtain ⟨F, rfl, rfl⟩ := ih hus.symm
      obtain ⟨F', rfl, rfl⟩ := ihrest hws.symm
      exact ⟨node a F d F', rfl, rfl⟩

/-- A forest and another after it. -/
def append : Forest α → Forest α → Forest α
  | nil, G => G
  | leaf a rest, G => leaf a (rest.append G)
  | node o inner c rest, G => node o inner c (rest.append G)

@[simp] lemma append_nil (F : Forest α) : F.append nil = F := by
  induction F with
  | nil => rfl
  | leaf a rest ih => rw [append, ih]
  | node o inner c rest _ ih => rw [append, ih]

@[simp] lemma flatten_append (F G : Forest α) : (F.append G).flatten = F.flatten ++ G.flatten := by
  induction F with
  | nil => rfl
  | leaf a rest ih => simp [append, flatten, ih]
  | node o inner c rest _ ih => simp [append, flatten, ih]

lemma sound_append {kind : α → TokenKind} {F G : Forest α} (hF : F.Sound kind)
    (hG : G.Sound kind) : (F.append G).Sound kind := by
  induction F with
  | nil => exact hG
  | leaf a rest ih => exact ⟨hF.1, hF.2.1, ih hF.2.2⟩
  | node o inner c rest _ ih => exact ⟨hF.1, hF.2.1, hF.2.2.1, ih hF.2.2.2⟩

/-- Leaves. -/
def ofList : List α → Forest α
  | [] => nil
  | a :: as => leaf a (ofList as)

@[simp] lemma flatten_ofList (as : List α) : (ofList as).flatten = as := by
  induction as with
  | nil => rfl
  | cons a as ih => rw [ofList, flatten, ih]

lemma sound_ofList {kind : α → TokenKind} {as : List α}
    (h : ∀ a ∈ as, kind a ≠ .opening ∧ kind a ≠ .closing) : (ofList as).Sound kind := by
  induction as with
  | nil => trivial
  | cons a as ih =>
      have ha := h a (by simp)
      exact ⟨ha.1, ha.2, ih fun b hb => h b (List.mem_cons_of_mem _ hb)⟩

/-! ### What is outermost -/

/-- The leaves and the items that open nodes, less those inside nodes. -/
def items : Forest α → List α
  | nil => []
  | leaf a rest => a :: rest.items
  | node o _ _ rest => o :: rest.items

/-- What is inside the outermost nodes, with the items that close them. -/
def tops : Forest α → List (Forest α × α)
  | nil => []
  | leaf _ rest => rest.tops
  | node _ inner c rest => (inner, c) :: rest.tops

lemma map_fst_roots (F : Forest α) (position : Nat) :
    (F.roots position).map Prod.fst = F.items := by
  induction F generalizing position with
  | nil => rfl
  | leaf a rest ih => rw [roots, List.map_cons, ih, items]
  | node o inner c rest _ ih => rw [roots, List.map_cons, ih, items]

@[simp] lemma items_append (F G : Forest α) : (F.append G).items = F.items ++ G.items := by
  induction F with
  | nil => rfl
  | leaf a rest ih => rw [append, items, ih, items, List.cons_append]
  | node o inner c rest _ ih => rw [append, items, ih, items, List.cons_append]

@[simp] lemma items_ofList (as : List α) : (ofList as).items = as := by
  induction as with
  | nil => rfl
  | cons a as ih => rw [ofList, items, ih]

lemma items_map (f : α → β) (F : Forest α) : (F.map f).items = F.items.map f := by
  induction F with
  | nil => rfl
  | leaf a rest ih => rw [map, items, ih, items, List.map_cons]
  | node o inner c rest _ ih => rw [map, items, ih, items, List.map_cons]

@[simp] lemma tops_append (F G : Forest α) : (F.append G).tops = F.tops ++ G.tops := by
  induction F with
  | nil => rfl
  | leaf a rest ih => rw [append, tops, ih, tops]
  | node o inner c rest _ ih => rw [append, tops, ih, tops, List.cons_append]

@[simp] lemma tops_ofList (as : List α) : (ofList as).tops = [] := by
  induction as with
  | nil => rfl
  | cons a as ih => rw [ofList, tops, ih]

lemma tops_map (f : α → β) (F : Forest α) :
    (F.map f).tops = F.tops.map fun x => (x.1.map f, f x.2) := by
  induction F with
  | nil => rfl
  | leaf a rest ih => rw [map, tops, ih, tops]
  | node o inner c rest _ ih => rw [map, tops, ih, tops, List.map_cons]

/-- What is before an outermost node and what is after it. -/
lemma exists_append_of_mem_tops {F : Forest α} {x : Forest α × α} (hx : x ∈ F.tops) :
    ∃ F₁ o F₂, F = append F₁ (node o x.1 x.2 F₂) := by
  induction F with
  | nil => simp [tops] at hx
  | leaf a rest ih =>
      obtain ⟨F₁, o, F₂, rfl⟩ := ih hx
      exact ⟨leaf a F₁, o, F₂, rfl⟩
  | node o inner c rest _ ih =>
      rcases List.mem_cons.mp hx with rfl | hx
      · exact ⟨nil, o, rest, rfl⟩
      · obtain ⟨F₁, o', F₂, rfl⟩ := ih hx
        exact ⟨node o inner c F₁, o', F₂, rfl⟩

lemma mem_flatten_of_mem_tops {F : Forest α} {x : Forest α × α} (hx : x ∈ F.tops) :
    x.2 ∈ F.flatten := by
  obtain ⟨F₁, o, F₂, rfl⟩ := exists_append_of_mem_tops hx
  simp [flatten]

lemma sound_of_mem_tops {kind : α → TokenKind} {F : Forest α} (hF : F.Sound kind)
    {x : Forest α × α} (hx : x ∈ F.tops) : x.1.Sound kind ∧ kind x.2 = .closing := by
  induction F with
  | nil => simp [tops] at hx
  | leaf a rest ih => exact ih hF.2.2 hx
  | node o inner c rest _ ih =>
      rcases List.mem_cons.mp hx with rfl | hx
      · exact ⟨hF.2.2.1, hF.2.1⟩
      · exact ih hF.2.2.2 hx

lemma items_sublist (F : Forest α) : F.items.Sublist F.flatten := by
  induction F with
  | nil => exact List.Sublist.refl _
  | leaf a rest ih => exact ih.cons_cons a
  | node o inner c rest _ ih =>
      exact ((ih.cons c).trans (List.sublist_append_right _ _)).cons_cons o

/-- No forest starts with an end. -/
lemma kind_ne_closing_of_head? {kind : α → TokenKind} {F : Forest α} (hF : F.Sound kind) {a : α}
    (h : F.flatten.head? = some a) : kind a ≠ .closing := by
  cases F with
  | nil => simp [flatten] at h
  | leaf b rest =>
      obtain rfl : b = a := by simpa [flatten] using h
      exact hF.2.1
  | node o inner c rest =>
      obtain rfl : o = a := by simpa [flatten] using h
      rw [hF.1]
      decide

lemma nodes_append (F G : Forest α) (position depth : Nat) :
    (F.append G).nodes position depth =
      F.nodes position depth ++ G.nodes (position + F.size) depth := by
  induction F generalizing position with
  | nil => rfl
  | leaf a rest ih =>
      rw [append, nodes, nodes, ih, size_leaf, Nat.add_assoc, Nat.add_comm 1]
  | node o inner c rest _ ih =>
      rw [append, nodes, nodes, ih, size_node, List.cons_append, List.append_assoc,
        show position + 2 + inner.size + rest.size =
          position + (inner.size + rest.size + 2) by omega]

/-- The nodes that nothing is around are the outermost ones. -/
lemma map_snd_nodes (F : Forest α) (position depth : Nat) :
    ((F.nodes position depth).filter (·.1.depth == depth)).map Prod.snd = F.tops := by
  induction F generalizing position with
  | nil => rfl
  | leaf a rest ih => exact ih _
  | node o inner c rest _ ih =>
      have hinner : (inner.nodes (position + 1) (depth + 1)).filter (·.1.depth == depth) = [] := by
        rw [List.filter_eq_nil_iff]
        intro n hn
        have := bounds_of_mem_forms (List.mem_map_of_mem hn)
        rw [beq_iff_eq]
        omega
      rw [nodes, List.filter_cons_of_pos (by simp), List.filter_append, hinner, List.nil_append,
        List.map_cons, ih, tops]

/-- The nodes that one node is around are the outermost ones inside the outermost. -/
lemma map_snd_nodes_succ (F : Forest α) (position depth : Nat) :
    ((F.nodes position depth).filter (·.1.depth == depth + 1)).map Prod.snd =
      F.tops.flatMap fun x => x.1.tops := by
  induction F generalizing position with
  | nil => rfl
  | leaf a rest ih => exact ih _
  | node o inner c rest _ ih =>
      rw [nodes, List.filter_cons_of_neg (by simp), List.filter_append, List.map_append,
        map_snd_nodes, ih, tops, List.flatMap_cons]

/-! ### Replacing leaves -/

/-- A forest with every leaf replaced by what `σ` gives for it, and what `σ` gives for the
end of a node put before it. -/
def rewrite (κ : α → β) (σ : α → Forest β) : Forest α → Forest β
  | nil => nil
  | leaf a rest => (σ a).append (rest.rewrite κ σ)
  | node o inner c rest => node (κ o) ((inner.rewrite κ σ).append (σ c)) (κ c) (rest.rewrite κ σ)

/-- What an item becomes. -/
def rewritten (kind : α → TokenKind) (κ : α → β) (σ : α → Forest β) (a : α) : List β :=
  match kind a with
  | .opening => [κ a]
  | .closing => (σ a).flatten ++ [κ a]
  | _ => (σ a).flatten

section Rewritten

variable {kind : α → TokenKind} {κ : α → β} {σ : α → Forest β} {a : α}

lemma rewritten_of_opening (h : kind a = .opening) : rewritten kind κ σ a = [κ a] := by
  simp only [rewritten, h]

lemma rewritten_of_closing (h : kind a = .closing) :
    rewritten kind κ σ a = (σ a).flatten ++ [κ a] := by
  simp only [rewritten, h]

lemma rewritten_of_leaf (ho : kind a ≠ .opening) (hc : kind a ≠ .closing) :
    rewritten kind κ σ a = (σ a).flatten := by
  rw [rewritten]
  split <;> simp_all

end Rewritten

section Rewrite

variable {kind : α → TokenKind} {kind' : β → TokenKind} {κ : α → β} {σ : α → Forest β}
  {F : Forest α} (hF : F.Sound kind)
include hF

lemma flatten_rewrite : (F.rewrite κ σ).flatten = F.flatten.flatMap (rewritten kind κ σ) := by
  induction F with
  | nil => rfl
  | leaf a rest ih =>
      rw [rewrite, flatten_append, ih hF.2.2, flatten, List.flatMap_cons,
        rewritten_of_leaf hF.1 hF.2.1]
  | node o inner c rest ih ihrest =>
      rw [rewrite, flatten, flatten_append, ih hF.2.2.1, ihrest hF.2.2.2, flatten,
        List.flatMap_cons, List.flatMap_append, List.flatMap_cons, rewritten_of_opening hF.1,
        rewritten_of_closing hF.2.1]
      simp

/-- Rewriting keeps parentheses matched, if kinds are kept. -/
lemma sound_rewrite (hκ : ∀ a, kind' (κ a) = kind a)
    (hσ : ∀ a ∈ F.flatten, kind a ≠ .opening → (σ a).Sound kind') :
    (F.rewrite κ σ).Sound kind' := by
  induction F with
  | nil => trivial
  | leaf a rest ih =>
      exact sound_append (hσ a (by simp [flatten]) hF.1)
        (ih hF.2.2 fun b hb => hσ b (by simp [flatten, hb]))
  | node o inner c rest ih ihrest =>
      have hc : kind c ≠ .opening := by
        rw [hF.2.1]
        decide
      exact ⟨(hκ o).trans hF.1, (hκ c).trans hF.2.1,
        sound_append (ih hF.2.2.1 fun b hb => hσ b (by simp [flatten, hb]))
          (hσ c (by simp [flatten]) hc),
        ihrest hF.2.2.2 fun b hb => hσ b (by simp [flatten, hb])⟩

/-- Nodes stay nodes, if leaves become leaves. -/
lemma tops_rewrite (hσ : ∀ a, kind a ≠ .closing → (σ a).tops = []) :
    (F.rewrite κ σ).tops = F.tops.map fun x => ((x.1.rewrite κ σ).append (σ x.2), κ x.2) := by
  induction F with
  | nil => rfl
  | leaf a rest ih => rw [rewrite, tops_append, hσ a hF.2.1, ih hF.2.2, tops, List.nil_append]
  | node o inner c rest _ ih => rw [rewrite, tops, ih hF.2.2.2, tops, List.map_cons]

/-- What is outermost becomes what it becomes elsewhere, if leaves become leaves. -/
lemma items_rewrite (hσ : ∀ a, kind a ≠ .closing → (σ a).items = (σ a).flatten) :
    (F.rewrite κ σ).items = F.items.flatMap (rewritten kind κ σ) := by
  induction F with
  | nil => rfl
  | leaf a rest ih =>
      rw [rewrite, items_append, ih hF.2.2, items, List.flatMap_cons, hσ a hF.2.1,
        rewritten_of_leaf hF.1 hF.2.1]
  | node o inner c rest _ ih =>
      rw [rewrite, items, ih hF.2.2.2, items, List.flatMap_cons, rewritten_of_opening hF.1]
      rfl

end Rewrite

end CallGuard.Wat.Forest
