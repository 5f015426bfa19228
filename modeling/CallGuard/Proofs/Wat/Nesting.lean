import CallGuard.Proofs.Wat.Sites

/-!
Forms by counting parentheses. The search for forms keeps a stack, the search for the end of a
form counts upwards from its start, and the search for what is directly inside counts from the
token after its start. All of them find what `IsForm` says without a search: two parentheses
between which parentheses match.

* `level`: the number of parentheses that are open before a position.
* `IsForm`: when two positions are the ends of a form.
* `mem_forms_iff`: the forms that the stack finds.
* `IsForm.closeFrom_eq`: where the end of a form is found.
* `map_snd_roots`: what is found directly inside a form.
* `parse?_nesting`: the fields of a module, and what is in them.
-/

namespace CallGuard.Wat

open Forest

/-! ### Counting parentheses -/

/-- The number of parentheses that are open before the token at a position. -/
def level (ts : List Token) (i : Nat) : Int :=
  (ts.take i).countP (·.kind == .opening) - (ts.take i).countP (·.kind == .closing)

@[simp] lemma level_zero (ts : List Token) : level ts 0 = 0 := by
  simp [level]

lemma level_cons_of_opening {t : Token} (h : t.kind = .opening) (ts : List Token) (i : Nat) :
    level (t :: ts) (i + 1) = level ts i + 1 := by
  simp [level, h]
  omega

lemma level_cons_of_closing {t : Token} (h : t.kind = .closing) (ts : List Token) (i : Nat) :
    level (t :: ts) (i + 1) = level ts i - 1 := by
  simp [level, h]
  omega

lemma level_cons_of_leaf {t : Token} (ho : t.kind ≠ .opening) (hc : t.kind ≠ .closing)
    (ts : List Token) (i : Nat) : level (t :: ts) (i + 1) = level ts i := by
  simp [level, ho, hc]

/-- What is before some tokens adds what it leaves open. -/
lemma level_append (front ts : List Token) (i : Nat) :
    level (front ++ ts) (front.length + i) = level front front.length + level ts i := by
  simp [level, List.take_length_add_append]
  omega

lemma level_append_of_le {ts : List Token} {i : Nat} (h : i ≤ ts.length) (back : List Token) :
    level (ts ++ back) i = level ts i := by
  rw [level, level, List.take_append_of_le_length h]

/-! ### Parentheses that match -/

/-- The search for forms succeeds exactly if parentheses match. -/
lemma isSome_forms?_iff (ts : List Token) : (forms? ts).isSome ↔ Settles 0 ts := by
  rw [forms?, Option.isSome_map, isSome_formsFrom_iff, List.length_nil]

/-- Parentheses match exactly in the tokens of a forest. -/
lemma settles_iff_exists_forest (ts : List Token) :
    Settles 0 ts ↔ ∃ F : Forest Token, F.Sound Token.kind ∧ F.flatten = ts := by
  rw [← isSome_forms?_iff]
  constructor
  · intro h
    obtain ⟨fs, hfs⟩ := Option.isSome_iff_exists.mp h
    exact exists_forest hfs
  · rintro ⟨F, hF, rfl⟩
    rw [forms?_eq hF]
    rfl

/-- In the tokens of a forest no more is closed than was opened. -/
lemma level_flatten_nonneg {F : Forest Token} (hF : F.Sound Token.kind) (i : Nat) :
    0 ≤ level F.flatten i := by
  have hle := ((settles_iff_exists_forest F.flatten).mpr ⟨F, hF, rfl⟩).1 _ (List.take_prefix i _)
  rw [level]
  omega

/-- After the tokens of a forest nothing is open. -/
lemma level_flatten_size {F : Forest Token} (hF : F.Sound Token.kind) :
    level F.flatten F.size = 0 := by
  have heq := ((settles_iff_exists_forest F.flatten).mpr ⟨F, hF, rfl⟩).2
  rw [level, size, List.take_length]
  omega

/-! ### Forms -/

/-- The tokens strictly between two positions. -/
def between (ts : List Token) (i j : Nat) : List Token :=
  (ts.take j).drop (i + 1)

/-- Two positions are the ends of a form if there are an opening and a closing parenthesis at
them and parentheses match between them. The depth of the form is the number of parentheses that
are open before it. -/
structure IsForm (ts : List Token) (f : Form) : Prop where
  lt : f.opening < f.closing
  opens : ts[f.opening]?.map Token.kind = some .opening
  closes : ts[f.closing]?.map Token.kind = some .closing
  balanced : Balanced ((between ts f.opening f.closing).map Token.lexeme)
  depth : level ts f.opening = f.depth

/-- The tokens of a form and those around it. -/
lemma IsForm.exists_split {ts : List Token} {f : Form} (h : IsForm ts f) :
    ∃ (o c : Token) (back : List Token), o.kind = .opening ∧ c.kind = .closing ∧
      ts.drop f.opening = o :: (between ts f.opening f.closing ++ c :: back) := by
  obtain ⟨o, ho, hopening⟩ := Option.map_eq_some_iff.mp h.opens
  obtain ⟨c, hc, hclosing⟩ := Option.map_eq_some_iff.mp h.closes
  obtain ⟨hlt, rfl⟩ := List.getElem?_eq_some_iff.mp ho
  obtain ⟨hlt', rfl⟩ := List.getElem?_eq_some_iff.mp hc
  refine ⟨_, _, ts.drop (f.closing + 1), hopening, hclosing, ?_⟩
  have hinner : ts.drop (f.opening + 1) =
      between ts f.opening f.closing ++ ts.drop f.closing := by
    have hle : f.opening + 1 ≤ (ts.take f.closing).length := by
      have := h.lt
      rw [List.length_take]
      omega
    rw [between, ← List.drop_append_of_le_length hle, List.take_append_drop]
  rw [List.drop_eq_getElem_cons hlt, hinner, List.drop_eq_getElem_cons hlt']

/-- The search for the end of a form finds it. -/
lemma IsForm.closeFrom_eq {ts : List Token} {f : Form} (h : IsForm ts f) :
    closeFrom f.opening 0 (ts.drop f.opening) = some f.closing := by
  obtain ⟨o, c, back, ho, hc, hdrop⟩ := h.exists_split
  obtain ⟨F, hF, hflat⟩ := (settles_iff_exists_forest _).mp (settles_zero_iff.mpr h.balanced)
  have hsize : F.size = f.closing - (f.opening + 1) := by
    obtain ⟨_, hc, -⟩ := Option.map_eq_some_iff.mp h.closes
    have := (List.getElem?_eq_some_iff.mp hc).1
    rw [size, hflat, between, List.length_drop, List.length_take]
    omega
  have := h.lt
  rw [hdrop, ← hflat, closeFrom_node hF ho hc, hsize]
  congr 1
  omega

/-- A form is determined by its start. -/
lemma IsForm.eq_of_opening_eq {ts : List Token} {f f' : Form} (h : IsForm ts f)
    (h' : IsForm ts f') (heq : f.opening = f'.opening) : f = f' := by
  have hclose := h.closeFrom_eq
  rw [heq, h'.closeFrom_eq] at hclose
  have hdepth := h.depth
  rw [heq, h'.depth] at hdepth
  obtain ⟨opening, closing, depth⟩ := f
  obtain ⟨opening', closing', depth'⟩ := f'
  simp_all

/-! ### The nodes of a forest -/

/-- Around a node are as many nodes as parentheses are open before it. -/
lemma level_of_mem_nodes {F : Forest Token} (hF : F.Sound Token.kind) {position depth : Nat}
    {n : Form × Forest Token × Token} (h : n ∈ F.nodes position depth) :
    ∃ k, n.1.opening = position + k ∧ level F.flatten k + depth = n.1.depth := by
  induction F generalizing position depth with
  | nil => simp [nodes] at h
  | leaf a rest ih =>
      obtain ⟨ho, hc, hrest⟩ := hF
      obtain ⟨k, hk, hlevel⟩ := ih hrest h
      refine ⟨k + 1, by omega, ?_⟩
      rwa [flatten, level_cons_of_leaf ho hc]
  | node o inner c rest ih ihrest =>
      obtain ⟨ho, hc, hinner, hrest⟩ := hF
      rw [nodes, List.mem_cons, List.mem_append] at h
      rcases h with rfl | h | h
      · exact ⟨0, rfl, by simp⟩
      · obtain ⟨k, hk, hlevel⟩ := ih hinner h
        have hle := bounds_of_mem_forms (List.mem_map_of_mem h)
        refine ⟨k + 1, by omega, ?_⟩
        rw [flatten, level_cons_of_opening ho, level_append_of_le (by rw [← size]; omega)]
        omega
      · obtain ⟨k, hk, hlevel⟩ := ihrest hrest h
        refine ⟨inner.size + (k + 1) + 1, by omega, ?_⟩
        rw [flatten, level_cons_of_opening ho, size, level_append, ← size,
          level_flatten_size hinner, level_cons_of_closing hc]
        omega

/-- Every opening parenthesis starts a node. -/
lemma exists_node_of_opening {F : Forest Token} (hF : F.Sound Token.kind) {i : Nat}
    (h : F.flatten[i]?.map Token.kind = some .opening) (position depth : Nat) :
    ∃ n ∈ F.nodes position depth, n.1.opening = position + i := by
  induction F generalizing i position depth with
  | nil => simp [flatten] at h
  | leaf a rest ih =>
      obtain ⟨ho, -, hrest⟩ := hF
      cases i with
      | zero => simp [flatten, ho] at h
      | succ i =>
          obtain ⟨n, hn, hopen⟩ := ih hrest h (position + 1) depth
          exact ⟨n, hn, by omega⟩
  | node o inner c rest ih ihrest =>
      obtain ⟨-, hc, hinner, hrest⟩ := hF
      cases i with
      | zero => exact ⟨_, List.mem_cons_self, rfl⟩
      | succ i =>
          rw [flatten, List.getElem?_cons_succ] at h
          rcases Nat.lt_trichotomy i inner.flatten.length with hlt | rfl | hgt
          · rw [List.getElem?_append_left hlt] at h
            obtain ⟨n, hn, hopen⟩ := ih hinner h (position + 1) (depth + 1)
            exact ⟨n, List.mem_cons_of_mem _ (List.mem_append_left _ hn), by omega⟩
          · simp [hc] at h
          · obtain ⟨k, rfl⟩ := Nat.exists_eq_add_of_lt hgt
            rw [Nat.add_assoc, List.getElem?_append_right (Nat.le_add_right _ _),
              Nat.add_sub_cancel_left, List.getElem?_cons_succ] at h
            obtain ⟨n, hn, hopen⟩ := ihrest hrest h (position + 2 + inner.size) depth
            refine ⟨n, List.mem_cons_of_mem _ (List.mem_append_right _ hn), ?_⟩
            rw [hopen, size]
            omega

/-- What the stack finds are the forms. -/
lemma mem_forms_iff {F : Forest Token} (hF : F.Sound Token.kind) {f : Form} :
    f ∈ F.forms 0 0 ↔ IsForm F.flatten f := by
  have hform {g : Form} (hg : g ∈ F.forms 0 0) : IsForm F.flatten g := by
    obtain ⟨⟨g, inner, c⟩, hnode, rfl⟩ := List.mem_map.mp hg
    obtain ⟨k, hk, hlevel⟩ := level_of_mem_nodes hF hnode
    obtain ⟨front, o, back, hflat, hopening, hclosing, ho, hc, hinner⟩ :=
      flatten_of_mem_nodes hF hnode
    dsimp only at hk hlevel ⊢
    rw [Nat.zero_add] at hopening hk
    rw [size] at hclosing
    refine ⟨by omega, ?_, ?_, ?_, ?_⟩
    · rw [hflat, hopening]
      simp [ho]
    · rw [getElem?_closing_of_mem_nodes hF hnode, Option.map_some, hc]
    · have hbetween : between F.flatten g.opening g.closing = inner.flatten := by
        rw [between, List.drop_take, hclosing, hopening, hflat]
        simp
      rw [hbetween, ← settles_zero_iff]
      exact (settles_iff_exists_forest _).mpr ⟨inner, hinner, rfl⟩
    · rw [hk]
      simpa using hlevel
  constructor
  · exact hform
  · intro hf
    obtain ⟨n, hn, hopen⟩ := exists_node_of_opening hF hf.opens 0 0
    have hmem : n.1 ∈ F.forms 0 0 := List.mem_map_of_mem hn
    rw [Nat.zero_add] at hopen
    rwa [← (hform hmem).eq_of_opening_eq hf hopen]

/-! ### Directly inside a form -/

section Inside

variable {ts front back : List Token} {t : Token}

lemma level_length (h : ts = front ++ back) : level ts front.length = level front front.length := by
  rw [h, level_append_of_le le_rfl]

/-- A token that is no parenthesis leaves open what is open. -/
lemma level_after_leaf (h : ts = front ++ t :: back) (ho : t.kind ≠ .opening)
    (hc : t.kind ≠ .closing) : level ts (front.length + 1) = level ts front.length := by
  rw [level_length h, h, level_append, level_cons_of_leaf ho hc, level_zero, add_zero]

/-- Inside a node one more parenthesis is open than before it, and those that are open there. -/
lemma level_inside {F : Forest Token} (h : ts = front ++ t :: (F.flatten ++ back))
    (ho : t.kind = .opening) {i : Nat} (hi : i ≤ F.size) :
    level ts (front.length + 1 + i) = level ts front.length + 1 + level F.flatten i := by
  rw [level_length h, h, Nat.add_assoc, level_append, Nat.add_comm 1, level_cons_of_opening ho,
    level_append_of_le hi]
  omega

/-- After a node as much is open as before it. -/
lemma level_after_node {F : Forest Token} (hF : F.Sound Token.kind) {c : Token}
    (h : ts = front ++ t :: (F.flatten ++ c :: back)) (ho : t.kind = .opening)
    (hc : c.kind = .closing) : level ts (front.length + 2 + F.size) = level ts front.length := by
  have hafter : front.length + 2 + F.size = front.length + (F.flatten.length + (0 + 1) + 1) := by
    rw [size]
    omega
  rw [hafter, level_length h, h, level_append, level_cons_of_opening ho, level_append,
    level_cons_of_closing hc, ← size, level_flatten_size hF, level_zero]
  omega

/-- A position where something is directly inside what starts at another position: no
parenthesis is closed there, and as many are open as before the start. -/
def Surfaces (ts : List Token) (start i : Nat) : Prop :=
  ts[i]?.map Token.kind ≠ some .closing ∧ level ts i = level ts start

instance (ts : List Token) (start i : Nat) : Decidable (Surfaces ts start i) :=
  inferInstanceAs (Decidable (_ ∧ _))

/-- What is inside a node, and its end, is not directly inside what the node is in. -/
lemma not_surfaces_inside {F : Forest Token} (hF : F.Sound Token.kind)
    (h : ts = front ++ t :: (F.flatten ++ back)) (ho : t.kind = .opening) {i : Nat}
    (hi : i ≤ F.size) : ¬ Surfaces ts front.length (front.length + 1 + i) := by
  rintro ⟨-, hlevel⟩
  rw [level_inside h ho hi] at hlevel
  have := level_flatten_nonneg hF i
  omega

/-- A token that closes nothing is directly inside what starts with it. -/
lemma surfaces_start (h : ts = front ++ t :: back) (hc : t.kind ≠ .closing) :
    Surfaces ts front.length front.length := by
  refine ⟨?_, rfl⟩
  rw [h]
  simpa using hc

/-- Only the number of open parentheses matters at the start. -/
lemma surfaces_congr {start start' : Nat} (h : level ts start = level ts start') (i : Nat) :
    Surfaces ts start i ↔ Surfaces ts start' i := by
  rw [Surfaces, Surfaces, h]

/-- Going through the tokens of a forest that lie among others, the roots are at the positions
where something is directly inside. -/
lemma map_snd_roots {F : Forest Token} (hF : F.Sound Token.kind)
    (h : ts = front ++ (F.flatten ++ back)) :
    (F.roots front.length).map Prod.snd =
      (List.range' front.length F.size).filter (Surfaces ts front.length) := by
  induction F generalizing front with
  | nil => rfl
  | leaf a rest ih =>
      obtain ⟨ho, hc, hrest⟩ := hF
      have ih := @ih (front ++ [a]) hrest (by rw [h]; simp [flatten])
      rw [List.length_append, List.length_singleton] at ih
      simp only [surfaces_congr (level_after_leaf h ho hc)] at ih
      rw [size_leaf, List.range'_succ, List.filter_cons,
        if_pos (decide_eq_true (surfaces_start h hc)), roots, List.map_cons, ih]
  | node o inner c rest _ ih =>
      obtain ⟨ho, hc, hinner, hrest⟩ := hF
      have h : ts = front ++ o :: (inner.flatten ++ c :: (rest.flatten ++ back)) := by
        rw [h]
        simp [flatten]
      have ho' : o.kind ≠ .closing := by
        rw [ho]
        decide
      have ih := @ih (front ++ o :: (inner.flatten ++ [c])) hrest (by rw [h]; simp)
      have hlength : (front ++ o :: (inner.flatten ++ [c])).length =
          front.length + 2 + inner.size := by
        simp [size]
        omega
      rw [hlength] at ih
      simp only [surfaces_congr (level_after_node hinner h ho hc)] at ih
      -- the positions are the start of the node, those up to its end, and those after it
      have hrange : List.range' front.length (inner.size + rest.size + 2) =
          front.length :: (List.range' (front.length + 1) (inner.size + 1) ++
            List.range' (front.length + 2 + inner.size) rest.size) := by
        rw [show inner.size + rest.size + 2 = inner.size + 1 + rest.size + 1 by omega,
          List.range'_succ, show front.length + 2 + inner.size =
            front.length + 1 + 1 * (inner.size + 1) by omega, List.range'_append]
      have hnode : (List.range' (front.length + 1) (inner.size + 1)).filter
          (Surfaces ts front.length) = [] := by
        rw [List.filter_eq_nil_iff]
        intro i hi
        obtain ⟨k, hk, rfl⟩ := List.mem_range'.mp hi
        rw [Nat.one_mul, decide_eq_true_eq]
        exact not_surfaces_inside hinner h ho (Nat.le_of_lt_succ hk)
      rw [size_node, hrange, List.filter_cons, if_pos (decide_eq_true (surfaces_start h ho')),
        List.filter_append, hnode, List.nil_append, roots, List.map_cons, ih]

end Inside

/-! ### Modules -/

lemma outermost_sublist (depth : Nat) (ts : List (Token × Nat)) :
    (outermost depth ts).Sublist ts := by
  fun_induction outermost depth ts <;> simp_all

/-- What is directly inside a form comes with its position. -/
lemma getElem?_of_mem_children {m : Module} {f : Form} {c : Token × Nat} (hc : c ∈ m.children f) :
    m.tokens[c.2]? = some c.1 := by
  have hinside : c ∈ m.inside f := (outermost_sublist _ _).subset hc
  exact List.mem_zipIdx_iff_getElem?.mp (List.mem_of_mem_take (List.mem_of_mem_drop hinside))

lemma IsForm.closeOf_eq {m : Module} {f : Form} (hf : IsForm m.tokens f) :
    m.closeOf f.opening = f.closing := by
  rw [Module.closeOf, hf.closeFrom_eq, Option.getD_some]

/-- Some outermost form is named as a module. -/
def Wrapped (ts : List Token) : Prop :=
  ∃ w, IsForm ts w ∧ w.depth = 0 ∧ head? ts w = some "module".toList

section Module

variable {F : Forest Token} (hF : F.Sound Token.kind)
include hF

lemma isSome_wrapper?_iff : F.wrapper?.isSome ↔ Wrapped F.flatten := by
  simp only [wrapper?, List.find?_isSome, Wrapped, mem_forms_iff hF, Bool.and_eq_true, beq_iff_eq]

/-- What is found directly inside a form. -/
lemma map_snd_children {text : List Char} {f : Form} (hf : IsForm F.flatten f) :
    ((F.toModule text).children f).map Prod.snd =
      (List.range' (f.opening + 1) (f.closing - (f.opening + 1))).filter
        (Surfaces F.flatten (f.opening + 1)) := by
  obtain ⟨⟨f, inner, c⟩, hnode, rfl⟩ := List.mem_map.mp ((mem_forms_iff hF).mpr hf)
  obtain ⟨front, o, back, hflat, hopening, hclosing, -, -, hinner⟩ := flatten_of_mem_nodes hF hnode
  have hlength : (front ++ [o]).length = f.opening + 1 := by
    rw [hopening, List.length_append, List.length_singleton, Nat.zero_add]
  have hroots := @map_snd_roots F.flatten (front ++ [o]) (c :: back) inner hinner
    (by rw [hflat]; simp)
  rw [hlength] at hroots
  dsimp only
  rw [children_of_mem_nodes hF hnode, hroots, hclosing, Nat.add_sub_cancel_left]

end Module

/-- **The forms of a module are those that counting parentheses finds.** A text is a module
exactly if its parentheses match. The stack then finds the forms in the order of their starts,
and the fields are those of depth one if an outermost form is named as a module, or else the
outermost ones. From the start of any form its end is found, and directly inside it are, in order
and with their positions, the tokens strictly inside that close nothing and before which as many
parentheses are open as right after the start. -/
theorem parse?_nesting (text : List Char) :
    ((Module.parse? text).isSome ↔ Balanced (lexemes text)) ∧
    ∀ m, Module.parse? text = some m →
      m.tokens = tokens text ∧
      (∃ fs, forms? m.tokens = some fs ∧ (∀ f, f ∈ fs ↔ IsForm m.tokens f) ∧
        fs.Pairwise (fun f f' => f.opening < f'.opening) ∧
        (Wrapped m.tokens → m.fields = fs.filter (·.depth == 1)) ∧
        (¬ Wrapped m.tokens → m.fields = fs.filter (·.depth == 0))) ∧
      ∀ f, IsForm m.tokens f →
        m.closeOf f.opening = f.closing ∧
        (m.children f).map Prod.snd =
          (List.range' (f.opening + 1) (f.closing - (f.opening + 1))).filter
            (Surfaces m.tokens (f.opening + 1)) ∧
        ∀ c ∈ m.children f, m.tokens[c.2]? = some c.1 := by
  refine ⟨?_, fun m hm => ?_⟩
  · rw [Option.isSome_iff_ne_none, Ne, parse?_eq_none_iff, not_not]
  obtain ⟨F, hF, hflat, rfl⟩ := exists_forest_of_parse? hm
  refine ⟨hflat, ⟨F.forms 0 0, forms?_eq hF, fun f => mem_forms_iff hF, F.pairwise_opening 0 0,
    fun hwrapped => ?_, fun hwrapped => ?_⟩, fun f hf => ⟨hf.closeOf_eq, map_snd_children hF hf,
      fun c => getElem?_of_mem_children⟩⟩
  · have hsome := (isSome_wrapper?_iff hF).mpr hwrapped
    rw [toModule, hsome]
    rfl
  · have hnone : F.wrapper?.isSome = false := by
      rwa [Bool.eq_false_iff, Ne, isSome_wrapper?_iff hF]
    rw [toModule, hnone]
    rfl

/-- A module with a form inside its field, and a parenthesis in a string. -/
def nestedText : List Char :=
  "(module (func $f (nop \")\") nop))".toList

/-- The field ends with the token before the last, and of the form inside it only the start is
directly inside. -/
theorem parse?_nesting_nested :
    ∃ m, Module.parse? nestedText = some m ∧ m.fields = [⟨2, 10, 1⟩] ∧
      IsForm m.tokens ⟨2, 10, 1⟩ ∧ m.closeOf 2 = 10 ∧
      (m.children ⟨2, 10, 1⟩).map Prod.snd = [3, 4, 5, 9] := by
  have hfields : (Module.parse? nestedText).map (·.fields) = some [⟨2, 10, 1⟩] := by cbv
  obtain ⟨m, hm, hfields⟩ := Option.map_eq_some_iff.mp hfields
  obtain ⟨htokens, ⟨fs, hfs, hmem, -⟩, hforms⟩ := (parse?_nesting nestedText).2 m hm
  have hforms? : forms? (tokens nestedText) = some [⟨0, 11, 0⟩, ⟨2, 10, 1⟩, ⟨5, 8, 2⟩] := by cbv
  rw [htokens, hforms?] at hfs
  obtain rfl := Option.some.inj hfs
  have hform : IsForm m.tokens ⟨2, 10, 1⟩ := (hmem _).mp (by simp)
  obtain ⟨hclose, hchildren, -⟩ := hforms _ hform
  refine ⟨m, hm, hfields, hform, hclose, hchildren.trans ?_⟩
  rw [htokens]
  cbv

end CallGuard.Wat
