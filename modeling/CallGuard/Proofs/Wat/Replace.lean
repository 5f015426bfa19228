import CallGuard.Proofs.Wat.Reading

/-!
Texts whose tokens are replaced. If parentheses stay, other tokens become tokens that are
no parentheses, and the names of fields are kept, then the fields of the new text are
those of the old one with their tokens replaced, and the fields that are added come after
those in the module.

* `Replacing`: what replacing tokens may do.
* `Replacing.forest`: the forest of the new text.
* `Replacing.fieldsNamed_forest`, `Replacing.fieldsNamed_forest_of_not_added`,
  `Replacing.exists_module`: its fields, and those of the module that the new text spells.
* `Replacing.lists_forest`: where the new references are found.
* `Replacing.getLast?_data_of_added`, `Replacing.exists_getLast?_data`: the last data of the new
  text.
-/

namespace CallGuard.Wat

open Forest

/-- All data starts before the parenthesis that closes the module, if there is one. -/
def Module.DataInside (m : Module) : Prop :=
  ∀ f ∈ m.fieldsNamed "data", ∀ t offset, m.tokens[f.opening]? = some t →
    m.close = some offset → t.start < offset

/-- Every token of a text may be replaced by what `ε` gives for it. Parentheses stay, and
before the one that closes the module `X` is added. Other tokens become tokens that are no
parentheses, and only those inside a field and after its name are not kept. -/
structure Replacing (text : List Char) (F : Forest Token) (ε : Token → List Lexeme)
    (X : Forest Lexeme) : Prop where
  sound : F.Sound Token.kind
  flatten_eq : F.flatten = tokens text
  opening : ∀ t ∈ F.flatten, t.kind = .opening → ε t = [t.lexeme]
  closing : ∀ t ∈ F.flatten, t.kind = .closing →
    ε t = (if (F.toModule text).close = some t.start then X.flatten else []) ++ [t.lexeme]
  leaf : ∀ t ∈ F.flatten, t.kind ≠ .opening → t.kind ≠ .closing →
    ∀ l ∈ ε t, l.1 ≠ .opening ∧ l.1 ≠ .closing
  inside : ∀ i t, F.flatten[i]? = some t → t.kind ≠ .opening → t.kind ≠ .closing →
    ε t = [t.lexeme] ∨ ∃ f ∈ (F.toModule text).fields, f.opening + 1 < i ∧ i < f.closing
  added_sound : X.Sound Prod.fst
  added_head : ∀ l, X.flatten.head? = some l → l.1 ≠ .atom
  added_fields : ∀ x ∈ X.tops, x.1.named id "module" = false ∧ x.1.named id "elem" = false

/-- If only the references among items are replaced, and by such references, then what they
become is found where they were. -/
lemma Lists.flatMap {α β : Type} {κ : α → Lexeme} {κ' : β → Lexeme} {items refs : List α}
    (h : Lists κ items refs) (hnodup : items.Nodup) {ε : α → List β}
    (hkept : ∀ a ∈ items, a ∉ refs → (ε a).map κ' = [κ a])
    (hmem : ∀ b ∈ refs.flatMap ε, ∃ a ∈ refs, κ' b = κ a) :
    Lists κ' (items.flatMap ε) (refs.flatMap ε) := by
  obtain ⟨before, start, after, rfl, hatoms, hafter, hintro⟩ := h
  rw [List.nodup_append, List.nodup_cons, List.nodup_append] at hnodup
  obtain ⟨-, ⟨hstart, -, -, hlater⟩, hbefore⟩ := hnodup
  have hkeep {as : List α} (has : ∀ a ∈ as, a ∈ before ++ start :: (refs ++ after) ∧ a ∉ refs) :
      (as.flatMap ε).map κ' = as.map κ := by
    rw [List.map_flatMap, List.map_eq_flatMap]
    exact List.flatMap_congr fun a ha => hkept a (has a ha).1 (has a ha).2
  have hb := @hkeep before fun a ha => ⟨by simp [ha], fun hr => hbefore a ha a (by simp [hr]) rfl⟩
  have ha := @hkeep after fun a ha => ⟨by simp [ha], fun hr => hlater a hr a ha rfl⟩
  obtain ⟨s, hs, hκ⟩ := List.map_eq_singleton_iff.mp
    (hkept start (by simp) fun hr => hstart (List.mem_append_left _ hr))
  -- what is kept stands for what it stood for
  have hold {as : List α} {bs : List β} (hmap : bs.map κ' = as.map κ) {b : β} (hb : b ∈ bs) :
      ∃ a ∈ as, κ' b = κ a := by
    obtain ⟨a, ha, heq⟩ := List.mem_map.mp (hmap ▸ List.mem_map_of_mem hb)
    exact ⟨a, ha, heq.symm⟩
  rw [List.flatMap_append, List.flatMap_cons, List.flatMap_append, hs, List.singleton_append]
  refine ⟨_, s, _, rfl, fun b hb => ?_, fun b hb' => ?_, hintro.imp ?_ ?_⟩
  · obtain ⟨a, har, heq⟩ := hmem b hb
    rw [heq]
    exact hatoms a har
  · have hhead := congrArg List.head? ha
    rw [List.head?_map, hb', List.head?_map, Option.map_some] at hhead
    obtain ⟨a, hhead, heq⟩ := Option.map_eq_some_iff.mp hhead.symm
    rw [← heq]
    exact hafter a hhead
  · rintro ⟨hword, hnone⟩
    refine ⟨hκ.trans hword, fun b hb' => ?_⟩
    obtain ⟨a, ha, heq⟩ := hold hb hb'
    rw [heq]
    exact hnone a ha
  · rintro ⟨hopen, hno, hnone⟩
    refine ⟨by rw [hκ, hopen], fun b hb' => ?_, fun b hb' => ?_⟩
    · obtain ⟨a, ha, heq⟩ := hold ha hb'
      rw [heq]
      exact hno a ha
    · -- a new reference is an old one, and none of these is the word for functions
      have hold : ∃ a ∈ before ++ start :: (refs ++ after), κ' b = κ a := by
        simp only [List.mem_append, List.mem_cons] at hb'
        rcases hb' with hb' | rfl | hb' | hb'
        · obtain ⟨a, ha, heq⟩ := hold hb hb'
          exact ⟨a, by simp [ha], heq⟩
        · exact ⟨start, by simp, hκ⟩
        · obtain ⟨a, ha, heq⟩ := hmem b hb'
          exact ⟨a, by simp [ha], heq⟩
        · obtain ⟨a, ha, heq⟩ := hold ha hb'
          exact ⟨a, by simp [ha], heq⟩
      obtain ⟨a, ha, heq⟩ := hold
      rw [heq]
      exact hnone a ha

namespace Replacing

/-- What is put in the place of a token, or before it if it is a parenthesis. -/
def put (m : Module) (ε : Token → List Lexeme) (X : Forest Lexeme) (t : Token) : Forest Lexeme :=
  if t.kind = .closing then if m.close = some t.start then X else nil else ofList (ε t)

/-- The forest of the new text. -/
def forest (text : List Char) (F : Forest Token) (ε : Token → List Lexeme) (X : Forest Lexeme) :
    Forest Lexeme :=
  (F.rewrite Token.lexeme (put (F.toModule text) ε X)).append
    (if (F.toModule text).close = none then X else nil)

/-- A node with its tokens replaced. -/
def turn (m : Module) (ε : Token → List Lexeme) (X : Forest Lexeme) (x : Forest Token × Token) :
    Forest Lexeme × Lexeme :=
  ((x.1.rewrite Token.lexeme (put m ε X)).append (put m ε X x.2), x.2.lexeme)

lemma tops_put {m : Module} {ε : Token → List Lexeme} {X : Forest Lexeme} (t : Token)
    (ht : t.kind ≠ .closing) : (put m ε X t).tops = [] := by
  rw [put, if_neg ht, tops_ofList]

lemma items_put {m : Module} {ε : Token → List Lexeme} {X : Forest Lexeme} (t : Token)
    (ht : t.kind ≠ .closing) : (put m ε X t).items = (put m ε X t).flatten := by
  rw [put, if_neg ht, items_ofList, flatten_ofList]

variable {text : List Char} {F : Forest Token} {ε : Token → List Lexeme} {X : Forest Lexeme}

lemma rewritten_eq (h : Replacing text F ε X) {t : Token} (ht : t ∈ F.flatten) :
    rewritten Token.kind Token.lexeme (put (F.toModule text) ε X) t = ε t := by
  by_cases ho : t.kind = .opening
  · rw [rewritten_of_opening ho, h.opening t ht ho]
  by_cases hc : t.kind = .closing
  · rw [rewritten_of_closing hc, h.closing t ht hc, put, if_pos hc]
    split <;> rfl
  · rw [rewritten_of_leaf ho hc, put, if_neg hc, flatten_ofList]

/-- The tokens of the new text. -/
lemma flatten_forest (h : Replacing text F ε X) :
    (forest text F ε X).flatten = (tokens text).flatMap ε ++
      if (F.toModule text).close = none then X.flatten else [] := by
  rw [forest, flatten_append, flatten_rewrite h.sound, ← h.flatten_eq,
    List.flatMap_congr fun t ht => h.rewritten_eq ht]
  split <;> rfl

lemma sound_forest (h : Replacing text F ε X) : (forest text F ε X).Sound Prod.fst := by
  refine sound_append (sound_rewrite h.sound (fun _ => rfl) fun t ht ho => ?_) ?_
  · rw [put]
    split_ifs with hc hclose
    · exact h.added_sound
    · trivial
    · exact sound_ofList (h.leaf t ht ho hc)
  · split
    · exact h.added_sound
    · trivial

/-! ### Fields -/

/-- Nothing is replaced in the place of the name of a field, or of a form around fields. -/
lemma eq_of_name (h : Replacing text F ε X) {f : Form} (hf : f ∈ F.forms 0 0)
    (hd : f.depth = 0 ∨ f ∈ (F.toModule text).fields) {t : Token}
    (ht : F.flatten[f.opening + 1]? = some t) (hc : t.kind ≠ .closing) : ε t = [t.lexeme] := by
  by_cases ho : t.kind = .opening
  · exact h.opening t (List.mem_of_getElem? ht) ho
  rcases h.inside _ t ht ho hc with heq | ⟨f', hf', hlt, hlt'⟩
  · exact heq
  · have hbounds := bounds_of_mem_forms hf
    have hdepth := (List.mem_filter.mp hf').2
    rw [beq_iff_eq] at hdepth
    rcases eq_or_precedes hf (mem_forms_of_mem_fields hf') with
      rfl | (hp | ⟨hp, -⟩) | hp | ⟨-, -, hp⟩
    · omega
    · omega
    · omega
    · omega
    · rcases hd with hd | hd
      · omega
      · have := (List.mem_filter.mp hd).2
        rw [beq_iff_eq] at this
        omega

/-- Names are kept. -/
lemma named_turn (h : Replacing text F ε X) {n : Form × Forest Token × Token}
    (hn : n ∈ F.nodes 0 0) (hd : n.1.depth = 0 ∨ n ∈ F.fieldNodes) (name : String) :
    (turn (F.toModule text) ε X n.2).1.named id name = n.2.1.named Token.lexeme name := by
  obtain ⟨f, inner, c⟩ := n
  obtain ⟨-, -, -, -, -, -, -, hc, hinner⟩ := flatten_of_mem_nodes h.sound hn
  have hget := getElem?_of_mem_nodes h.sound hn (Nat.zero_le _)
  have hfields : f.depth = 0 ∨ f ∈ (F.toModule text).fields := by
    rw [fields_toModule]
    exact hd.imp_right (List.mem_map_of_mem (f := Prod.fst))
  dsimp only
  rw [Nat.add_zero] at hget
  rw [named, named, turn, flatten_append, flatten_rewrite hinner]
  cases hflat : inner.flatten with
  | nil =>
      -- nothing that is added starts with an atom
      rw [List.flatMap_nil, List.nil_append, put, if_pos hc]
      have hX : (X.flatten.head?.map id == some (TokenKind.atom, name.toList)) = false := by
        rw [Option.map_id_apply, beq_eq_false_iff_ne]
        exact fun heq => h.added_head _ heq rfl
      split
      · exact hX
      · rfl
  | cons t ts =>
      rw [hflat] at hget
      have ht := kind_ne_closing_of_head? hinner (by rw [hflat]; rfl : inner.flatten.head? = some t)
      have heq := h.eq_of_name (List.mem_map_of_mem (f := Prod.fst) hn) hfields hget ht
      rw [List.flatMap_cons, h.rewritten_eq (List.mem_of_getElem? hget), heq]
      rfl

lemma tops_turn (h : Replacing text F ε X) {x : Forest Token × Token} (hx : x ∈ F.tops) :
    (turn (F.toModule text) ε X x).1.tops =
      x.1.tops.map (turn (F.toModule text) ε X) ++ (put (F.toModule text) ε X x.2).tops := by
  rw [turn, tops_append, tops_rewrite (sound_of_mem_tops h.sound hx).1 tops_put]
  rfl

lemma tops_forest (h : Replacing text F ε X) :
    (forest text F ε X).tops = F.tops.map (turn (F.toModule text) ε X) ++
      if (F.toModule text).close = none then X.tops else [] := by
  rw [forest, tops_append, tops_rewrite h.sound tops_put]
  split <;> rfl

lemma any_tops_turn (h : Replacing text F ε X) :
    (F.tops.map (turn (F.toModule text) ε X)).any (fun x => x.1.named id "module") =
      F.wrapper?.isSome := by
  rw [isSome_wrapper? h.sound, ← map_snd_nodes F 0 0, List.map_map, List.any_map, List.any_map,
    Bool.eq_iff_iff, List.any_eq_true, List.any_eq_true]
  refine exists_congr fun n => and_congr_right fun hn => ?_
  rw [List.mem_filter, beq_iff_eq] at hn
  simp only [Function.comp_apply, h.named_turn hn.1 (Or.inl hn.2)]

/-- The end of a module that is written around its fields is that of an outermost node. -/
lemma exists_tops_of_wrapper? (hF : F.Sound Token.kind) (hw : F.wrapper?.isSome) :
    ∃ x ∈ F.tops, (F.toModule text).close = some x.2.start := by
  obtain ⟨w, hw⟩ := Option.isSome_iff_exists.mp hw
  obtain ⟨⟨w, x⟩, hn, rfl⟩ := List.mem_map.mp (List.mem_of_find?_eq_some hw)
  have hdepth := List.find?_some hw
  simp only [Bool.and_eq_true] at hdepth
  refine ⟨x, ?_, ?_⟩
  · rw [← map_snd_nodes F 0 0]
    exact List.mem_map_of_mem (f := Prod.snd) (List.mem_filter.mpr ⟨hn, hdepth.1⟩)
  · rw [toModule, hw, Option.bind_some, getElem?_closing_of_mem_nodes hF hn, Option.map_some]

/-- Nothing is added in an outermost node that does not end where the module does. -/
lemma put_eq_nil_of_ne (h : Replacing text F ε X) {x y : Forest Token × Token}
    (hclose : (F.toModule text).close = some x.2.start) (hy : y ∈ F.tops)
    (hne : x.2.start ≠ y.2.start) : put (F.toModule text) ε X y.2 = nil := by
  rw [put, if_pos (sound_of_mem_tops h.sound hy).2, if_neg]
  rw [hclose]
  exact fun heq => hne (Option.some.inj heq)

/-- The forms inside such nodes are those of the old text. -/
lemma flatMap_tops_turn (h : Replacing text F ε X) {x : Forest Token × Token}
    (hclose : (F.toModule text).close = some x.2.start) {l : List (Forest Token × Token)}
    (hl : ∀ y ∈ l, y ∈ F.tops ∧ x.2.start ≠ y.2.start) :
    l.flatMap (fun y => (turn (F.toModule text) ε X y).1.tops) =
      (l.flatMap fun y => y.1.tops).map (turn (F.toModule text) ε X) := by
  rw [List.map_flatMap]
  refine List.flatMap_congr fun y hy => ?_
  rw [h.tops_turn (hl y hy).1, h.put_eq_nil_of_ne hclose (hl y hy).1 (hl y hy).2, tops,
    List.append_nil]

/-- The fields of the new text are those of the old one with their tokens replaced, and
the added fields come before those that start after the end of the module. -/
lemma fields_forest (h : Replacing text F ε X) :
    ∃ before after, F.fieldNodes = before ++ after ∧
      (forest text F ε X).fields id =
        before.map (fun n => turn (F.toModule text) ε X n.2) ++
          (X.tops ++ after.map fun n => turn (F.toModule text) ε X n.2) ∧
      ∀ n ∈ after, ∀ t, F.flatten[n.1.opening]? = some t →
        ∃ offset, (F.toModule text).close = some offset ∧ offset < t.start := by
  cases hw : F.wrapper? with
  | none =>
      have hclose : (F.toModule text).close = none := by rw [toModule, hw, Option.bind_none]
      have hany : (forest text F ε X).tops.any (fun x => x.1.named id "module") = false := by
        rw [h.tops_forest, List.any_append, h.any_tops_turn, hw, if_pos hclose, Option.isSome_none,
          Bool.false_or, List.any_eq_false]
        exact fun x hx => by simp [(h.added_fields x hx).1]
      have htops : F.fieldNodes.map Prod.snd = F.tops := by
        rw [fieldNodes, hw]
        exact map_snd_nodes F 0 0
      refine ⟨F.fieldNodes, [], by simp, ?_, by simp⟩
      rw [fields, hany, h.tops_forest, if_pos hclose, ← htops, List.map_map]
      simp [Function.comp_def]
  | some w =>
      obtain ⟨x, hx, hclose⟩ := @exists_tops_of_wrapper? text F h.sound (by rw [hw]; rfl)
      obtain ⟨F₁, o, F₂, hF⟩ := exists_append_of_mem_tops hx
      have hflat : tokens text = F₁.flatten ++ o :: (x.1.flatten ++ x.2 :: F₂.flatten) := by
        rw [← h.flatten_eq, hF, flatten_append, flatten]
      have hnodes : F.nodes 0 0 = F₁.nodes 0 0 ++ (⟨F₁.size, F₁.size + 1 + x.1.size, 0⟩, x) ::
          (x.1.nodes (F₁.size + 1) 1 ++ F₂.nodes (F₁.size + 2 + x.1.size) 0) := by
        rw [hF, nodes_append, nodes, Nat.zero_add]
      have htops : F.tops = F₁.tops ++ x :: F₂.tops := by rw [hF, tops_append, tops]
      -- the module ends in one place only
      have hpair := pairwise_start text
      rw [hflat, List.pairwise_append, List.pairwise_cons, List.pairwise_append,
        List.pairwise_cons] at hpair
      obtain ⟨-, ⟨-, -, ⟨hpair₂, -⟩, -⟩, hpair₁⟩ := hpair
      have hfront := @flatMap_tops_turn text F ε X h x hclose F₁.tops fun y hy =>
        ⟨by simp [htops, hy], (hpair₁ y.2 (mem_flatten_of_mem_tops hy) x.2 (by simp)).ne'⟩
      have hback := @flatMap_tops_turn text F ε X h x hclose F₂.tops fun y hy =>
        ⟨by simp [htops, hy], (hpair₂ y.2 (mem_flatten_of_mem_tops hy)).ne⟩
      have hput : put (F.toModule text) ε X x.2 = X := by
        rw [put, if_pos (sound_of_mem_tops h.sound hx).2, if_pos hclose]
      have hdepth (n : Form × Forest Token × Token) :
          (n.1.depth == if F.wrapper?.isSome then 1 else 0) = (n.1.depth == 1) := by
        rw [hw]
        rfl
      refine ⟨(F₁.nodes 0 0).filter (·.1.depth == 1) ++
          (x.1.nodes (F₁.size + 1) 1).filter (·.1.depth == 1),
        (F₂.nodes (F₁.size + 2 + x.1.size) 0).filter (·.1.depth == 1), ?_, ?_, fun n hn t ht => ?_⟩
      · rw [fieldNodes, hnodes]
        simp only [hdepth, List.filter_append, List.filter_cons]
        simp
      · have hany : (forest text F ε X).tops.any (fun x => x.1.named id "module") = true := by
          rw [h.tops_forest, List.any_append, h.any_tops_turn, hw]
          rfl
        have hmap (l : List (Form × Forest Token × Token)) :
            l.map (fun n => turn (F.toModule text) ε X n.2) =
              (l.map Prod.snd).map (turn (F.toModule text) ε X) := by
          rw [List.map_map]
          rfl
        rw [fields, if_pos hany, h.tops_forest, if_neg (by simp [hclose]), List.append_nil, htops,
          List.flatMap_map, List.flatMap_append, List.flatMap_cons, hfront, hback, h.tops_turn hx,
          hput, hmap, hmap, List.map_append, map_snd_nodes, map_snd_nodes_succ F₁ 0 0,
          map_snd_nodes_succ F₂ _ 0, List.map_append, List.append_assoc, List.append_assoc]
      · have hle := (bounds_of_mem_forms (List.mem_map_of_mem (List.mem_of_mem_filter hn))).1
        have hget : (tokens text)[F₁.size + 1 + x.1.size]? = some x.2 := by
          rw [hflat, size, size, Nat.add_assoc, List.getElem?_append_right (by omega),
            Nat.add_sub_cancel_left, Nat.add_comm 1, List.getElem?_cons_succ,
            List.getElem?_append_right le_rfl, Nat.sub_self, List.getElem?_cons_zero]
        rw [h.flatten_eq] at ht
        have := stop_le_start_of_lt hget ht (by omega)
        have := bounds_of_mem_tokens (List.mem_of_getElem? hget)
        exact ⟨_, hclose, by omega⟩

lemma fieldsNamed_forest (h : Replacing text F ε X) (name : String) :
    ∃ before after,
      (F.fieldNodes.filter fun n => n.2.1.named Token.lexeme name) = before ++ after ∧
      (forest text F ε X).fieldsNamed id name =
        before.map (fun n => turn (F.toModule text) ε X n.2) ++
          (X.tops.filter (fun x => x.1.named id name) ++
            after.map fun n => turn (F.toModule text) ε X n.2) ∧
      ∀ n ∈ after, ∀ t, F.flatten[n.1.opening]? = some t →
        ∃ offset, (F.toModule text).close = some offset ∧ offset < t.start := by
  obtain ⟨before, after, hsplit, hfields, hafter⟩ := h.fields_forest
  have hname {l : List (Form × Forest Token × Token)} (hl : ∀ n ∈ l, n ∈ F.fieldNodes) :
      (l.map fun n => turn (F.toModule text) ε X n.2).filter (fun x => x.1.named id name) =
        (l.filter fun n => n.2.1.named Token.lexeme name).map
          fun n => turn (F.toModule text) ε X n.2 := by
    rw [List.filter_map]
    congr 1
    refine List.filter_congr fun n hn => ?_
    exact h.named_turn (List.mem_of_mem_filter (hl n hn)) (Or.inr (hl n hn)) name
  refine ⟨_, _, by rw [hsplit, List.filter_append], ?_,
    fun n hn => hafter n (List.mem_of_mem_filter hn)⟩
  rw [fieldsNamed, hfields, List.filter_append, List.filter_append, hname, hname]
  · exact fun n hn => hsplit ▸ List.mem_append_right _ hn
  · exact fun n hn => hsplit ▸ List.mem_append_left _ hn

/-- If no field of a name is added, the fields of this name are what becomes of those of the
old text. -/
lemma fieldsNamed_forest_of_not_added (h : Replacing text F ε X) {name : String}
    (hX : ∀ x ∈ X.tops, x.1.named id name = false) :
    (forest text F ε X).fieldsNamed id name =
      (F.fieldNodes.filter fun n => n.2.1.named Token.lexeme name).map
        fun n => turn (F.toModule text) ε X n.2 := by
  obtain ⟨before, after, hsplit, hnamed, -⟩ := h.fieldsNamed_forest name
  have hnone : X.tops.filter (fun x => x.1.named id name) = [] := by
    rw [List.filter_eq_nil_iff]
    exact fun x hx => by simp [hX x hx]
  rw [hnamed, hnone, List.nil_append, ← List.map_append, ← hsplit]

/-- Nothing is added inside a field. -/
lemma put_eq_nil_of_mem_fieldNodes (h : Replacing text F ε X) {n : Form × Forest Token × Token}
    (hn : n ∈ F.fieldNodes) : put (F.toModule text) ε X n.2.2 = nil := by
  obtain ⟨f, inner, c⟩ := n
  have hnode := List.mem_of_mem_filter hn
  have hf : f ∈ (F.toModule text).fields := by
    rw [fields_toModule]
    exact List.mem_map_of_mem (f := Prod.fst) hn
  obtain ⟨-, -, -, -, -, -, -, hc, -⟩ := flatten_of_mem_nodes h.sound hnode
  have hbounds := bounds_of_mem_forms (mem_forms_of_mem_fields hf)
  rw [put, if_pos hc, if_neg]
  intro hclose
  obtain ⟨i, t, ht, -, hstart, hout⟩ := exists_close h.sound hclose
  have hget := getElem?_closing_of_mem_nodes h.sound hnode
  rw [h.flatten_eq] at ht hget
  have := index_eq_of_start_eq ht hget hstart
  rcases hout f hf with hlt | hlt <;> omega

lemma mem_flatten_of_mem_nodes (hF : F.Sound Token.kind) {n : Form × Forest Token × Token}
    (hn : n ∈ F.nodes 0 0) {t : Token} (ht : t ∈ n.2.1.flatten) : t ∈ F.flatten := by
  obtain ⟨front, o, back, hflat, -⟩ := flatten_of_mem_nodes hF hn
  rw [hflat]
  simp [ht]

/-- What is directly inside a field is replaced. -/
lemma items_turn (h : Replacing text F ε X) {n : Form × Forest Token × Token}
    (hn : n ∈ F.fieldNodes) :
    (turn (F.toModule text) ε X n.2).1.items = n.2.1.items.flatMap ε := by
  have hnode := List.mem_of_mem_filter hn
  obtain ⟨-, -, -, -, -, -, -, -, hinner⟩ := flatten_of_mem_nodes h.sound hnode
  rw [turn, h.put_eq_nil_of_mem_fieldNodes hn, append_nil, items_rewrite hinner items_put]
  exact List.flatMap_congr fun t ht => h.rewritten_eq
    (mem_flatten_of_mem_nodes h.sound hnode (n.2.1.items_sublist.mem ht))

/-- All that is inside a field is replaced. -/
lemma flatten_turn (h : Replacing text F ε X) {n : Form × Forest Token × Token}
    (hn : n ∈ F.fieldNodes) :
    (turn (F.toModule text) ε X n.2).1.flatten = n.2.1.flatten.flatMap ε := by
  have hnode := List.mem_of_mem_filter hn
  obtain ⟨-, -, -, -, -, -, -, -, hinner⟩ := flatten_of_mem_nodes h.sound hnode
  rw [turn, h.put_eq_nil_of_mem_fieldNodes hn, append_nil, flatten_rewrite hinner]
  exact List.flatMap_congr fun t ht => h.rewritten_eq (mem_flatten_of_mem_nodes h.sound hnode ht)

/-- If no field of a name is added, the fields of this name in the new text are those of the
old one with their tokens replaced. -/
lemma exists_module (h : Replacing text F ε X) {text' : List Char}
    (htext : (forest text F ε X).flatten = lexemes text') {name : String}
    (hX : ∀ x ∈ X.tops, x.1.named id name = false) :
    ∃ m', Module.parse? text' = some m' ∧
      (m'.fieldsNamed name).map (fun f => (body m' f).map Token.lexeme) =
        ((F.toModule text).fieldsNamed name).map fun f => (body (F.toModule text) f).flatMap ε := by
  obtain ⟨F', hmap, hflat⟩ := exists_map_eq htext
  have hsound := sound_map.mp (hmap ▸ h.sound_forest)
  have hF' : F'.Sound Token.kind := hsound
  refine ⟨F'.toModule text', parse?_eq hF' hflat, ?_⟩
  have hnamed := h.fieldsNamed_forest_of_not_added hX
  rw [← hmap, fieldsNamed_map, Function.id_comp, ← map_snd_fieldNodes_named hF'] at hnamed
  have hbodies := congrArg (List.map fun x => x.1.flatten) hnamed
  rw [List.map_map, List.map_map, List.map_map] at hbodies
  rw [fieldsNamed_toModule hF', fieldsNamed_toModule h.sound, List.map_map, List.map_map]
  refine Eq.trans (List.map_congr_left fun n hn => ?_)
    (hbodies.trans (List.map_congr_left fun n hn => ?_))
  · have hnode := List.mem_of_mem_filter (List.mem_of_mem_filter hn)
    simp only [Function.comp_apply, body_of_mem_nodes hF' hnode, flatten_map]
  · have hnode := List.mem_of_mem_filter hn
    simp only [Function.comp_apply, h.flatten_turn hnode,
      body_of_mem_nodes h.sound (List.mem_of_mem_filter hnode)]

/-! ### The table and the data -/

/-- A token that is directly inside a field lies between its parentheses. -/
lemma exists_getElem?_of_mem_items (hF : F.Sound Token.kind) {n : Form × Forest Token × Token}
    (hn : n ∈ F.nodes 0 0) {t : Token} (ht : t ∈ n.2.1.items) :
    ∃ i, F.flatten[i]? = some t ∧ n.1.opening < i ∧ i < n.1.closing := by
  obtain ⟨f, inner, c⟩ := n
  obtain ⟨k, hk⟩ := List.mem_iff_getElem?.mp (inner.items_sublist.mem ht)
  have hlt : k < inner.size := (List.getElem?_eq_some_iff.mp hk).1
  obtain ⟨-, -, -, -, -, hclose, -⟩ := flatten_of_mem_nodes hF hn
  refine ⟨f.opening + 1 + k, ?_, by simp only; omega, by simp only; omega⟩
  rw [getElem?_of_mem_nodes hF hn hlt.le, List.getElem?_append_left hlt, hk]

lemma nodup_items (h : Replacing text F ε X) {n : Form × Forest Token × Token}
    (hn : n ∈ F.nodes 0 0) : n.2.1.items.Nodup := by
  obtain ⟨front, o, back, hflat, -⟩ := flatten_of_mem_nodes h.sound hn
  have hnodup : F.flatten.Nodup := by
    rw [h.flatten_eq]
    refine (pairwise_start text).imp fun {t t'} hlt => ?_
    rintro rfl
    omega
  rw [hflat] at hnodup
  exact ((List.nodup_append.mp (List.nodup_append.mp hnodup).2.1.of_cons).1).sublist
    n.2.1.items_sublist

/-- If in the field of the table only the references are replaced, what they become is
what the first field for elements lists. -/
lemma lists_forest (h : Replacing text F ε X) {elem : ElemSegment} {f : Form}
    {front refs back : List Token} (hrefs : ReferencesAt (F.toModule text) elem f front refs back)
    {words : List (List Char)} (hwords : refs.flatMap ε = words.map fun w => (.atom, w))
    (hmem : ∀ w ∈ words, w ∈ refs.map Token.text)
    (hkept : ∀ i t, F.flatten[i]? = some t → f.opening < i → i < f.closing → t ∉ refs →
      ε t = [t.lexeme]) :
    ∃ x, ((forest text F ε X).fieldsNamed id "elem").head? = some x ∧
      Lists id x.1.items (words.map fun w => (.atom, w)) := by
  have hfield := hrefs.field
  rw [fieldsNamed_toModule h.sound, List.head?_map] at hfield
  obtain ⟨n, hn, rfl⟩ := Option.map_eq_some_iff.mp hfield
  have hnode : n ∈ F.fieldNodes := List.mem_of_mem_filter (List.mem_of_mem_head? hn)
  refine ⟨turn (F.toModule text) ε X n.2, ?_, ?_⟩
  · rw [h.fieldsNamed_forest_of_not_added fun x hx => (h.added_fields x hx).2, List.head?_map, hn,
      Option.map_some]
  · have hlisted := hrefs.listed
    have hnode' := List.mem_of_mem_filter hnode
    rw [children_of_mem_nodes h.sound hnode', map_fst_roots] at hlisted
    rw [h.items_turn hnode, ← hwords]
    refine hlisted.flatMap (h.nodup_items hnode') (fun t ht hnot => ?_) fun l hl => ?_
    · obtain ⟨i, hi, hlt, hlt'⟩ := exists_getElem?_of_mem_items h.sound hnode' ht
      rw [hkept i t hi hlt hlt' hnot]
      rfl
    · rw [hwords] at hl
      obtain ⟨w, hw, rfl⟩ := List.mem_map.mp hl
      obtain ⟨t, ht, rfl⟩ := List.mem_map.mp (hmem w hw)
      exact ⟨t, ht, Prod.ext (hrefs.atoms t ht).symm rfl⟩

/-- If data is added and all data starts before the end of the module, the added data is
the last. -/
lemma getLast?_data_of_added (h : Replacing text F ε X) {y : Forest Lexeme × Lexeme}
    (hy : (X.tops.filter fun x => x.1.named id "data").getLast? = some y)
    (hinside : (F.toModule text).DataInside) :
    ((forest text F ε X).fieldsNamed id "data").getLast? = some y := by
  obtain ⟨before, after, hsplit, hnamed, hafter⟩ := h.fieldsNamed_forest "data"
  have hempty : after = [] := by
    refine List.eq_nil_iff_forall_not_mem.mpr fun n hn => ?_
    have hnode : n ∈ F.fieldNodes.filter fun n => n.2.1.named Token.lexeme "data" :=
      hsplit ▸ List.mem_append_right _ hn
    have hf : n.1 ∈ (F.toModule text).fieldsNamed "data" := by
      rw [fieldsNamed_toModule h.sound]
      exact List.mem_map_of_mem (f := Prod.fst) hnode
    have hopening := opening_lt_of_mem_fields (List.mem_of_mem_filter hf)
    obtain ⟨t, ht⟩ : ∃ t, F.flatten[n.1.opening]? = some t :=
      ⟨_, List.getElem?_eq_getElem (by omega)⟩
    obtain ⟨offset, hclose, hlt⟩ := hafter n hn t ht
    have := hinside n.1 hf t offset ht hclose
    omega
  rw [hnamed, hempty, List.map_nil, List.append_nil, List.getLast?_append, hy]
  rfl

/-- If nothing is added and only the first string of the last data is replaced there, then
its new text is the first string of the last data. -/
lemma exists_getLast?_data (h : Replacing text F ε nil) {d : Token}
    (hd : (F.toModule text).lastData? = some d) {data : List Char} (hdata : ε d = [(.string, data)])
    (hkept : ∀ f ∈ (F.toModule text).fieldsNamed "data", ∀ i t, F.flatten[i]? = some t →
      f.opening < i → i < f.closing → t ≠ d → ε t = [t.lexeme]) :
    ∃ y, ((forest text F ε nil).fieldsNamed id "data").getLast? = some y ∧
      y.1.items.find? (·.1 == .string) = some (.string, data) := by
  obtain ⟨f, hf, hfind⟩ := Option.bind_eq_some_iff.mp hd
  have hmem := List.mem_of_mem_getLast? hf
  rw [fieldsNamed_toModule h.sound, List.getLast?_map] at hf
  obtain ⟨n, hn, rfl⟩ := Option.map_eq_some_iff.mp hf
  have hnode : n ∈ F.fieldNodes := List.mem_of_mem_filter (List.mem_of_mem_getLast? hn)
  have hnode' := List.mem_of_mem_filter hnode
  rw [children_of_mem_nodes h.sound hnode'] at hfind
  have hroots : (n.2.1.roots (n.1.opening + 1)).map (·.1) = n.2.1.items := map_fst_roots _ _
  rw [hroots] at hfind
  refine ⟨turn (F.toModule text) ε nil n.2, ?_, ?_⟩
  · rw [h.fieldsNamed_forest_of_not_added (by simp [tops]), List.getLast?_map, hn, Option.map_some]
  · obtain ⟨hstring, bs, as, hitems, hbs⟩ := List.find?_eq_some_iff_append.mp hfind
    have hkeep : bs.flatMap ε = bs.map Token.lexeme := by
      rw [List.map_eq_flatMap]
      refine List.flatMap_congr fun t ht => ?_
      obtain ⟨i, hi, hlt, hlt'⟩ := exists_getElem?_of_mem_items h.sound hnode'
        (hitems ▸ List.mem_append_left _ ht)
      refine hkept n.1 hmem i t hi hlt hlt' ?_
      rintro rfl
      have := hbs t ht
      rw [hstring] at this
      simp at this
    have hnone : (bs.map Token.lexeme).find? (·.1 == .string) = none := by
      rw [List.find?_eq_none]
      intro l hl
      obtain ⟨t, ht, rfl⟩ := List.mem_map.mp hl
      simpa [Token.lexeme] using hbs t ht
    rw [h.items_turn hnode, hitems, List.flatMap_append, List.flatMap_cons, hkeep, hdata,
      List.find?_append, hnone]
    rfl

end Replacing

end CallGuard.Wat
