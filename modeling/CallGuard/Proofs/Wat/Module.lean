import CallGuard.Proofs.Wat.Forest
import CallGuard.Proofs.Wat.Token

/-!
Modules as forests: where the fields of a module are, and where its table and its
indirect calls are found among the tokens.

* `Forest.toModule`, `parse?_eq`, `exists_forest_of_parse?`: a parsed module is made of
  the forest of its tokens.
* `eq_or_disjoint_of_mem_fields`, `exists_close`: fields lie beside each other, and the end of the
  module lies in none of them.
* `exists_referencesAt`: the references of the table are tokens that follow each other.
* `exists_call_iff_callSite?`: the indirect calls are the call sites.
-/

namespace CallGuard.Wat

/-! ### The module of a forest -/

namespace Forest

/-- The first outermost form that is named as a module. -/
def wrapper? (F : Forest Token) : Option Form :=
  (F.forms 0 0).find? fun f => f.depth == 0 && head? F.flatten f == some "module".toList

/-- The module that a text spells if its tokens are those of a forest. -/
def toModule (text : List Char) (F : Forest Token) : Module where
  text := text
  tokens := F.flatten
  fields := (F.forms 0 0).filter (·.depth == if F.wrapper?.isSome then 1 else 0)
  close := F.wrapper?.bind fun f => F.flatten[f.closing]?.map (·.start)

end Forest

open Forest

lemma parse?_eq {text : List Char} {F : Forest Token} (hF : F.Sound Token.kind)
    (h : F.flatten = tokens text) : Module.parse? text = some (F.toModule text) := by
  rw [Module.parse?, ← h, forms?_eq hF]
  rfl

lemma exists_forest_of_parse? {text : List Char} {m : Module} (h : Module.parse? text = some m) :
    ∃ F : Forest Token, F.Sound Token.kind ∧ F.flatten = tokens text ∧ m = F.toModule text := by
  obtain ⟨fs, hfs, -⟩ := Option.bind_eq_some_iff.mp h
  obtain ⟨F, hF, hflat⟩ := exists_forest hfs
  exact ⟨F, hF, hflat, Option.some.inj (h.symm.trans (parse?_eq hF hflat))⟩

/-! ### Fields -/

section Fields

variable {F : Forest Token} {text : List Char}

lemma mem_forms_of_mem_fields {f : Form} (hf : f ∈ (F.toModule text).fields) :
    f ∈ F.forms 0 0 :=
  List.mem_of_mem_filter hf

lemma exists_node {f : Form} (hf : f ∈ (F.toModule text).fields) :
    ∃ inner c, (f, inner, c) ∈ F.nodes 0 0 := by
  obtain ⟨⟨f, inner, c⟩, h, rfl⟩ := List.mem_map.mp (mem_forms_of_mem_fields hf)
  exact ⟨inner, c, h⟩

/-- A field opens before it closes, and it closes within the text. -/
lemma opening_lt_of_mem_fields {f : Form} (hf : f ∈ (F.toModule text).fields) :
    f.opening < f.closing ∧ f.closing < F.flatten.length := by
  have hbounds := bounds_of_mem_forms (mem_forms_of_mem_fields hf)
  rw [Nat.zero_add, size] at hbounds
  omega

/-- Two fields are the same, or one ends before the other starts. -/
lemma eq_or_disjoint_of_mem_fields {f f' : Form} (hf : f ∈ (F.toModule text).fields)
    (hf' : f' ∈ (F.toModule text).fields) :
    f = f' ∨ f.closing < f'.opening ∨ f'.closing < f.opening := by
  have hd := (List.mem_filter.mp hf).2
  have hd' := (List.mem_filter.mp hf').2
  simp only [beq_iff_eq] at hd hd'
  rcases eq_or_precedes (mem_forms_of_mem_fields hf) (mem_forms_of_mem_fields hf') with
    h | (h | ⟨-, -, h⟩) | h | ⟨-, -, h⟩
  · exact Or.inl h
  · exact Or.inr (Or.inl h)
  · omega
  · exact Or.inr (Or.inr h)
  · omega

/-- The end of a module that is written around its fields is a parenthesis outside all
of them. -/
lemma exists_close {offset : Nat} (hF : F.Sound Token.kind)
    (h : (F.toModule text).close = some offset) :
    ∃ position t, F.flatten[position]? = some t ∧ t.kind = .closing ∧ t.start = offset ∧
      ∀ f ∈ (F.toModule text).fields, position < f.opening ∨ f.closing < position := by
  obtain ⟨w, hw, h⟩ := Option.bind_eq_some_iff.mp h
  obtain ⟨t, ht, rfl⟩ := Option.map_eq_some_iff.mp h
  have hmem := List.mem_of_find?_eq_some hw
  have hdepth : w.depth = 0 := by
    have := List.find?_some hw
    simp only [Bool.and_eq_true, beq_iff_eq] at this
    exact this.1
  refine ⟨w.closing, t, ht, ?_, rfl, fun f hf => ?_⟩
  · obtain ⟨⟨w, inner, c⟩, hnode, rfl⟩ := List.mem_map.mp hmem
    obtain rfl := Option.some.inj (ht.symm.trans (getElem?_closing_of_mem_nodes hF hnode))
    obtain ⟨-, -, -, -, -, -, -, hc, -⟩ := flatten_of_mem_nodes hF hnode
    exact hc
  · have hd := (List.mem_filter.mp hf).2
    rw [hw, Option.isSome_some, if_pos rfl, beq_iff_eq] at hd
    rcases eq_or_precedes hmem (mem_forms_of_mem_fields hf) with
      rfl | (h | ⟨-, h, -⟩) | h | ⟨-, -, h⟩
    · omega
    · exact Or.inl h
    · exact Or.inr h
    · have := bounds_of_mem_forms hmem
      omega
    · omega

/-- A field is named by the atom after its opening parenthesis. -/
lemma exists_head {m : Module} {name : String} {f : Form} (hf : f ∈ m.fieldsNamed name) :
    ∃ t, m.tokens[f.opening + 1]? = some t ∧ t.kind = .atom ∧ t.text = name.toList := by
  have hhead : head? m.tokens f = some name.toList := by
    simpa using (List.mem_filter.mp hf).2
  obtain ⟨t, ht, htext⟩ := Option.map_eq_some_iff.mp hhead
  obtain ⟨ht, hkind⟩ := Option.filter_eq_some_iff.mp ht
  exact ⟨t, ht, by simpa using hkind, htext⟩

/-- Fields of different names lie beside each other. -/
lemma disjoint_of_mem_fieldsNamed {name name' : String} (hne : name.toList ≠ name'.toList)
    {f f' : Form} (hf : f ∈ (F.toModule text).fieldsNamed name)
    (hf' : f' ∈ (F.toModule text).fieldsNamed name') :
    f.closing < f'.opening ∨ f'.closing < f.opening := by
  rcases eq_or_disjoint_of_mem_fields (List.mem_of_mem_filter hf) (List.mem_of_mem_filter hf') with
    rfl | h
  · obtain ⟨t, ht, -, htext⟩ := exists_head hf
    obtain ⟨t', ht', -, htext'⟩ := exists_head hf'
    obtain rfl := Option.some.inj (ht.symm.trans ht')
    exact absurd (htext.symm.trans htext') hne
  · exact h

/-- What is inside a node. -/
lemma inside_of_mem_nodes (hF : F.Sound Token.kind) {f : Form} {inner : Forest Token}
    {c : Token} (h : (f, inner, c) ∈ F.nodes 0 0) :
    (F.toModule text).inside f = inner.flatten.zipIdx (f.opening + 1) := by
  obtain ⟨front, o, back, hflat, hopen, hclose, -⟩ := flatten_of_mem_nodes hF h
  rw [Nat.zero_add] at hopen
  rw [hopen] at hclose
  have hzip : (F.toModule text).tokens.zipIdx = (front.zipIdx ++ [(o, front.length)]) ++
      (inner.flatten.zipIdx (front.length + 1) ++
        (c :: back).zipIdx (front.length + 1 + inner.size)) := by
    rw [show (F.toModule text).tokens = F.flatten from rfl, hflat, List.zipIdx_append,
      List.zipIdx_cons, List.zipIdx_append]
    simp [size]
  rw [Module.inside, hzip, hclose, hopen, List.drop_take, List.drop_left' (by simp),
    List.take_left' (by simp [size])]

/-- What is directly inside a node. -/
lemma children_of_mem_nodes (hF : F.Sound Token.kind) {f : Form} {inner : Forest Token}
    {c : Token} (h : (f, inner, c) ∈ F.nodes 0 0) :
    (F.toModule text).children f = inner.roots (f.opening + 1) := by
  obtain ⟨-, -, -, -, -, -, -, -, hinner⟩ := flatten_of_mem_nodes hF h
  have houter := (outermost_flatten hinner (f.opening + 1) 0 []).1
  rwa [List.append_nil, ← inside_of_mem_nodes hF h, outermost, List.append_nil] at houter

/-! ### The table -/

lemma dropWhile_eq_cons_iff {α : Type} {p : α → Bool} {l after : List α} {a : α} :
    l.dropWhile p = a :: after ↔
      ∃ before, l = before ++ a :: after ∧ (∀ b ∈ before, p b) ∧ ¬ p a := by
  constructor
  · intro h
    refine ⟨l.takeWhile p, ?_, fun b hb => List.mem_takeWhile_imp hb, ?_⟩
    · rw [← h, List.takeWhile_append_dropWhile]
    · have := List.head?_dropWhile_not p l
      rw [h] at this
      simpa using this
  · rintro ⟨before, rfl, hbefore, ha⟩
    rw [List.dropWhile_append_of_pos hbefore, List.dropWhile_cons_of_neg ha]

/-- The function list starts after the first word for functions, and without one after
the last form. -/
lemma listStart?_eq_some_iff {children after : List (Token × Nat)} {start : Token × Nat} :
    Module.listStart? children = some (start, after) ↔
      ∃ before, children = before ++ start :: after ∧
        (start.1.isAtom "func" ∧ (∀ c ∈ before, ¬ c.1.isAtom "func") ∨
          start.1.kind = .opening ∧ (∀ c ∈ after, c.1.kind ≠ .opening) ∧
            ∀ c ∈ children, ¬ c.1.isAtom "func") := by
  constructor
  · intro h
    rw [Module.listStart?] at h
    split at h
    · rename_i hdrop
      obtain ⟨rfl, rfl⟩ := Prod.mk.inj (Option.some.inj h)
      obtain ⟨before, hchildren, hbefore, hstart⟩ := dropWhile_eq_cons_iff.mp hdrop
      exact ⟨before, hchildren, Or.inl ⟨by simpa using hstart, by simpa using hbefore⟩⟩
    · rename_i hdrop
      have hnone : ∀ c ∈ children, ¬ c.1.isAtom "func" := by
        simpa using List.dropWhile_eq_nil_iff.mp hdrop
      split at h
      · rename_i rest hlast
        obtain ⟨rfl, rfl⟩ := Prod.mk.inj (Option.some.inj h)
        obtain ⟨later, hrev, hlater, hstart⟩ := dropWhile_eq_cons_iff.mp hlast
        have htake : children.reverse.takeWhile (·.1.kind != .opening) = later := by
          rw [hrev, List.takeWhile_append_of_pos hlater, List.takeWhile_cons, if_neg hstart,
            List.append_nil]
        refine ⟨rest.reverse, ?_, Or.inr ⟨by simpa using hstart, ?_, hnone⟩⟩
        · rw [htake, ← List.reverse_reverse children, hrev]
          simp
        · rw [htake]
          simpa using hlater
      · simp at h
  · rintro ⟨before, rfl, ⟨hstart, hbefore⟩ | ⟨hstart, hafter, hnone⟩⟩
    · have hdrop := @dropWhile_eq_cons_iff _ (fun c : Token × Nat => !c.1.isAtom "func")
        (before ++ start :: after) after start
      rw [Module.listStart?, hdrop.mpr ⟨before, rfl, by simpa using hbefore, by simpa using hstart⟩]
    · have hrev : (before ++ start :: after).reverse =
          after.reverse ++ start :: before.reverse := by simp
      have hlater : ∀ c ∈ after.reverse, (c.1.kind != .opening) = true := by simpa using hafter
      have hstop : ¬ (start.1.kind != .opening) = true := by simpa using hstart
      rw [Module.listStart?, List.dropWhile_eq_nil_iff.mpr (by simpa using hnone), hrev,
        List.takeWhile_append_of_pos hlater, List.dropWhile_append_of_pos hlater,
        List.takeWhile_cons, List.dropWhile_cons, if_neg hstop, if_neg hstop]
      simp

/-- The word for functions. -/
def functionWord : Lexeme :=
  (.atom, "func".toList)

lemma isAtom_iff {t : Token} {name : String} :
    t.isAtom name ↔ t.lexeme = (.atom, name.toList) := by
  simp [Token.isAtom, Token.lexeme]

/-- How references are found among items that stand for tokens: they are the atoms after
the first word for functions, or after the last form without one. -/
def Lists {α : Type} (κ : α → Lexeme) (items refs : List α) : Prop :=
  ∃ before start after, items = before ++ start :: (refs ++ after) ∧
    (∀ a ∈ refs, (κ a).1 = .atom) ∧ (∀ a, after.head? = some a → (κ a).1 ≠ .atom) ∧
    (κ start = functionWord ∧ (∀ a ∈ before, κ a ≠ functionWord) ∨
      (κ start).1 = .opening ∧ (∀ a ∈ after, (κ a).1 ≠ .opening) ∧
        ∀ a ∈ items, κ a ≠ functionWord)

/-- What introduces a function list makes the atoms after it references. -/
lemma lists_takeWhile {children before after : List (Token × Nat)} {start : Token × Nat}
    (hchildren : children = before ++ start :: after)
    (hintro : start.1.isAtom "func" ∧ (∀ c ∈ before, ¬ c.1.isAtom "func") ∨
      start.1.kind = .opening ∧ (∀ c ∈ after, c.1.kind ≠ .opening) ∧
        ∀ c ∈ children, ¬ c.1.isAtom "func") :
    Lists Token.lexeme (children.map Prod.fst)
      ((after.map Prod.fst).takeWhile (·.kind == .atom)) := by
  refine ⟨before.map Prod.fst, start.1, (after.map Prod.fst).dropWhile (·.kind == .atom), ?_, ?_,
    ?_, ?_⟩
  · rw [List.takeWhile_append_dropWhile, hchildren, List.map_append, List.map_cons]
  · intro t ht
    simpa [Token.lexeme] using List.mem_takeWhile_imp ht
  · intro t ht
    have := List.head?_dropWhile_not (·.kind == .atom) (after.map Prod.fst)
    rw [ht] at this
    simpa [Token.lexeme] using this
  · rcases hintro with ⟨hstart, hbefore⟩ | ⟨hstart, hafter, hnone⟩
    · refine .inl ⟨isAtom_iff.mp hstart, ?_⟩
      rintro _ ha heq
      obtain ⟨c, hc, rfl⟩ := List.mem_map.mp ha
      exact hbefore c hc (isAtom_iff.mpr heq)
    refine .inr ⟨hstart, ?_, ?_⟩
    · rintro _ ha
      obtain ⟨c, hc, rfl⟩ := List.mem_map.mp ((List.dropWhile_sublist _).mem ha)
      exact hafter c hc
    · rintro _ ha heq
      obtain ⟨c, hc, rfl⟩ := List.mem_map.mp ha
      exact hnone c hc (isAtom_iff.mpr heq)

/-- The parenthesis that closes a form is found from its start. -/
lemma getElem?_closeOf {m : Module} {front rest : List Token} {inner : Forest Token} {o c : Token}
    (hinner : inner.Sound Token.kind) (ho : o.kind = .opening) (hc : c.kind = .closing)
    (h : m.tokens = front ++ o :: (inner.flatten ++ c :: rest)) :
    m.tokens[m.closeOf front.length]? = some c := by
  have hend : m.closeOf front.length = front.length + (1 + inner.size) := by
    rw [Module.closeOf, h, List.drop_left' rfl, closeFrom_node hinner ho hc, Option.getD_some,
      Nat.add_assoc]
  rw [hend, h, List.getElem?_append_right (by omega), Nat.add_sub_cancel_left, Nat.add_comm 1,
    List.getElem?_cons_succ, size, List.getElem?_append_right le_rfl, Nat.sub_self,
    List.getElem?_cons_zero]

/-- The references of a table lie in the field `f` after the tokens `front` and before the
tokens `back`: they are atoms that follow each other, and the table spans them. An empty
table is placed at the end of the token before it. -/
structure ReferencesAt (m : Module) (elem : ElemSegment) (f : Form)
    (front refs back : List Token) : Prop where
  field : (m.fieldsNamed "elem").head? = some f
  tokens_eq : m.tokens = front ++ (refs ++ back)
  opening_lt : f.opening + 1 < front.length
  le_closing : front.length + refs.length ≤ f.closing
  atoms : ∀ t ∈ refs, t.kind = .atom
  listed : Lists Token.lexeme ((m.children f).map Prod.fst) refs
  functions_eq : elem.functions = refs.map Token.text
  span : (∃ first last, refs.head? = some first ∧ refs.getLast? = some last ∧
      elem.start = first.start ∧ elem.stop = last.stop) ∨
    refs = [] ∧ ∃ t, front.getLast? = some t ∧ elem.start = t.stop ∧ elem.stop = t.stop

/-- The references of the table are found among the tokens. -/
lemma exists_referencesAt (hF : F.Sound Token.kind) {elem : ElemSegment}
    (h : (F.toModule text).elemSegment? = some elem) :
    ∃ f front refs back, ReferencesAt (F.toModule text) elem f front refs back := by
  obtain ⟨f, hf, h⟩ := Option.bind_eq_some_iff.mp h
  obtain ⟨⟨⟨start, position⟩, after⟩, hstart, h⟩ := Option.bind_eq_some_iff.mp h
  obtain ⟨inner, c, hnode⟩ :=
    @exists_node F text f (List.mem_of_mem_filter (List.mem_of_mem_head? hf))
  obtain ⟨ks, o, bs, hflat, hopen, hclose, -, -, hinner⟩ := flatten_of_mem_nodes hF hnode
  have hchildren := @children_of_mem_nodes F text hF f inner c hnode
  rw [Nat.zero_add] at hopen
  rw [hopen] at hclose
  rw [hchildren] at hstart
  obtain ⟨before, hroots, hintro⟩ := listStart?_eq_some_iff.mp hstart
  obtain ⟨ls, item, G, hsplit, hposition, rfl, hG, hitem⟩ := exists_of_roots_eq hinner hroots
  -- the references are the first tokens after what introduces them
  have hrefs : ((G.roots (position + item.length)).map (·.1)).takeWhile (·.kind == .atom) =
      G.flatten.takeWhile (·.kind == .atom) :=
    takeWhile_roots hG (fun t ht ho => by simp [ho] at ht) _
  have hlisted := lists_takeWhile hroots hintro
  rw [hrefs, ← hchildren] at hlisted
  dsimp only at h
  rw [hrefs] at h
  have hG := @List.takeWhile_append_dropWhile _ (·.kind == .atom) G.flatten
  have hatoms : ∀ t ∈ G.flatten.takeWhile (·.kind == .atom), t.kind = .atom := fun t ht => by
    simpa using List.mem_takeWhile_imp ht
  generalize G.flatten.takeWhile (·.kind == .atom) = refs at h hG hatoms hlisted
  generalize G.flatten.dropWhile (·.kind == .atom) = later at hG
  rw [← hG] at hsplit
  have hflat : (F.toModule text).tokens =
      (ks ++ o :: ls ++ item) ++ (refs ++ (later ++ c :: bs)) := by
    rw [show (F.toModule text).tokens = F.flatten from rfl, hflat, hsplit]
    simp
  have hsize : inner.size = ls.length + item.length + refs.length + later.length := by
    rw [size, hsplit]
    simp only [List.length_append]
    omega
  have hpos : 0 < item.length := by
    rcases hitem with ⟨-, rfl⟩ | ⟨-, _, _, -, -, rfl⟩ <;> simp
  have hspan : elem.functions = refs.map Token.text ∧
      ((∃ first last, refs.head? = some first ∧ refs.getLast? = some last ∧
        elem.start = first.start ∧ elem.stop = last.stop) ∨
      refs = [] ∧ ∃ t, (ks ++ o :: ls ++ item).getLast? = some t ∧ elem.start = t.stop ∧
        elem.stop = t.stop) := by
    cases refs with
    | nil =>
        obtain rfl := Option.some.inj h
        refine ⟨rfl, Or.inr ⟨rfl, ?_⟩⟩
        rcases hitem with ⟨hkind, rfl⟩ | ⟨hkind, inside, d, hinside, hd, rfl⟩
        · have hlast := @List.getLast?_concat _ (ks ++ o :: ls) start
          exact ⟨start, hlast, if_neg hkind, if_neg hkind⟩
        · have hlast := @List.getLast?_concat _ (ks ++ o :: ls ++ start :: inside.flatten) d
          rw [List.append_assoc, List.cons_append] at hlast
          have hend := @getElem?_closeOf (F.toModule text) (ks ++ o :: ls) (later ++ c :: bs) inside
            start d hinside hkind hd (by rw [hflat]; simp)
          rw [show (ks ++ o :: ls).length = position by
            rw [hposition, List.length_append, List.length_cons]; omega] at hend
          refine ⟨d, hlast, ?_, ?_⟩ <;> simp only [if_pos hkind, hend] <;> rfl
    | cons t ts =>
        have hlast : (t :: ts).getLast? = some ((t :: ts).getLast (by simp)) :=
          List.getLast?_eq_some_getLast _
        rw [List.head?_cons, hlast] at h
        obtain rfl := Option.some.inj h
        exact ⟨rfl, Or.inl ⟨_, _, rfl, hlast, rfl, rfl⟩⟩
  refine ⟨f, ks ++ o :: ls ++ item, refs, later ++ c :: bs, hf, hflat, ?_, ?_, hatoms, hlisted,
    hspan.1, hspan.2⟩
  · rw [hopen]
    simp only [List.length_append, List.length_cons]
    omega
  · rw [hclose, hsize]
    simp only [List.length_append, List.length_cons]
    omega

namespace ReferencesAt

variable {m : Module} {elem : ElemSegment} {f : Form} {front refs back : List Token}

/-- The references come after the tokens before them. -/
lemma getElem?_add (h : ReferencesAt m elem f front refs back) {k : Nat} (hk : k < refs.length) :
    m.tokens[front.length + k]? = refs[k]? := by
  rw [h.tokens_eq, List.getElem?_append_right (by omega), Nat.add_sub_cancel_left,
    List.getElem?_append_left hk]

/-- The table ends where a token does. -/
lemma exists_stop (h : ReferencesAt m elem f front refs back) :
    ∃ t, m.tokens[front.length + refs.length - 1]? = some t ∧ elem.stop = t.stop := by
  have hlt := h.opening_lt
  rw [h.tokens_eq]
  rcases h.span with ⟨-, last, -, hlast, -, hstop⟩ | ⟨rfl, last, hlast, -, hstop⟩
  · have hpos : 0 < refs.length := by
      rw [List.length_pos_iff]
      rintro rfl
      simp at hlast
    refine ⟨last, ?_, hstop⟩
    rw [List.getElem?_append_right (by omega), List.getElem?_append_left (by omega), ← hlast,
      List.getLast?_eq_getElem?]
    congr 1
    omega
  · refine ⟨last, ?_, hstop⟩
    rw [List.length_nil, Nat.add_zero, List.getElem?_append_left (by omega), ← hlast,
      List.getLast?_eq_getElem?]

/-- The table starts where a token does, or is empty. -/
lemma exists_start (h : ReferencesAt m elem f front refs back) :
    (refs ≠ [] ∧ ∃ t, m.tokens[front.length]? = some t ∧ elem.start = t.start) ∨
      refs = [] ∧ elem.start = elem.stop := by
  rcases h.span with ⟨first, -, hfirst, -, hstart, -⟩ | ⟨rfl, last, -, hstart, hstop⟩
  · obtain ⟨refs, rfl⟩ := List.head?_eq_some_iff.mp hfirst
    refine Or.inl ⟨by simp, first, ?_, hstart⟩
    rw [h.tokens_eq, List.getElem?_append_right le_rfl, Nat.sub_self]
    rfl
  · exact Or.inr ⟨rfl, hstart.trans hstop.symm⟩

variable (h : ReferencesAt m elem f front refs back) (hm : m.tokens = tokens m.text) {i : Nat}
  {t : Token} (ht : m.tokens[i]? = some t)
include h hm ht

/-- A token after the references starts after the table. -/
lemma stop_le (hi : front.length + refs.length ≤ i) : elem.stop ≤ t.start := by
  obtain ⟨last, hlast, hstop⟩ := h.exists_stop
  have hlt := h.opening_lt
  rw [hm] at ht hlast
  rw [hstop]
  exact stop_le_start_of_lt hlast ht (by omega)

/-- A token before the references ends before the table. -/
lemma stop_le_start (hi : i < front.length) : t.stop ≤ elem.start := by
  rw [hm] at ht
  rcases h.exists_start with ⟨-, first, hfirst, hstart⟩ | ⟨rfl, hempty⟩
  · rw [hm] at hfirst
    rw [hstart]
    exact stop_le_start_of_lt ht hfirst hi
  · obtain ⟨last, hlast, hstop⟩ := h.exists_stop
    rw [hm, List.length_nil, Nat.add_zero] at hlast
    rw [hempty, hstop]
    rcases Nat.lt_or_ge i (front.length - 1) with hlt | hge
    · have := stop_le_start_of_lt ht hlast hlt
      have := bounds_of_mem_tokens (List.mem_of_getElem? hlast)
      omega
    · obtain rfl : i = front.length - 1 := by omega
      obtain rfl := Option.some.inj (ht.symm.trans hlast)
      exact le_rfl

/-- A reference lies in the table, and the first is where the table starts. -/
lemma start_le (hi : front.length ≤ i) (hi' : i < front.length + refs.length) :
    elem.start ≤ t.start ∧ t.start < elem.stop ∧ (elem.start = t.start ↔ i = front.length) := by
  obtain ⟨last, hlast, hstop⟩ := h.exists_stop
  obtain ⟨first, hfirst, hstart⟩ :
      ∃ t, m.tokens[front.length]? = some t ∧ elem.start = t.start := by
    rcases h.exists_start with ⟨-, hfirst⟩ | ⟨rfl, -⟩
    · exact hfirst
    · rw [List.length_nil] at hi'
      omega
  rw [hm] at ht hlast hfirst
  have hbounds := bounds_of_mem_tokens (List.mem_of_getElem? ht)
  have hbounds' := bounds_of_mem_tokens (List.mem_of_getElem? hlast)
  refine ⟨?_, ?_, ?_⟩
  · rcases eq_or_lt_of_le hi with rfl | hlt
    · obtain rfl := Option.some.inj (ht.symm.trans hfirst)
      omega
    · have := stop_le_start_of_lt hfirst ht hlt
      have := bounds_of_mem_tokens (List.mem_of_getElem? hfirst)
      omega
  · rcases eq_or_lt_of_le (show i ≤ front.length + refs.length - 1 by omega) with rfl | hlt
    · obtain rfl := Option.some.inj (ht.symm.trans hlast)
      omega
    · have := stop_le_start_of_lt ht hlast hlt
      omega
  · rw [hstart]
    constructor
    · intro heq
      exact index_eq_of_start_eq ht hfirst heq.symm
    · rintro rfl
      rw [Option.some.inj (ht.symm.trans hfirst)]

/-- A token after the field of the references starts after the end of the table. -/
lemma stop_lt (hi : f.closing < i) : elem.stop < t.start := by
  have hlt := (List.getElem?_eq_some_iff.mp ht).1
  obtain ⟨c, hc⟩ : ∃ c, m.tokens[f.closing]? = some c := ⟨_, List.getElem?_eq_getElem (by omega)⟩
  have hle := h.stop_le hm hc h.le_closing
  rw [hm] at hc ht
  have := stop_le_start_of_lt hc ht hi
  have := bounds_of_mem_tokens (List.mem_of_getElem? hc)
  omega

omit ht in
lemma start_le_stop : elem.start ≤ elem.stop := by
  rcases h.exists_start with ⟨hne, first, hfirst, -⟩ | ⟨-, heq⟩
  · have := List.length_pos_iff.mpr hne
    have := h.start_le hm hfirst le_rfl (by omega)
    omega
  · omega

end ReferencesAt

/-! ### Indirect calls -/

/-- The indirect calls that are found in a function. -/
def callsOf (m : Module) (form : Form) : List IndirectCall :=
  match (m.inside form).map (·.1) with
  | word :: ts => m.indirectCalls word ts
  | [] => []

lemma functions_eq (m : Module) :
    m.functions = (m.fieldsNamed "func").map fun f => ⟨m.functionName? f, callsOf m f⟩ := rfl

/-- If the token at a position is an indirect call in a function: the name of the
function, and the number of indirect calls before it there. -/
def Module.callSite? (m : Module) (position : Nat) : Option (Option (List Char) × Nat) := do
  let t ← m.tokens[position]?
  guard (t.isAtom "call_indirect")
  let f ← (m.fieldsNamed "func").find? fun f => f.opening < position && position < f.closing
  let before := (m.tokens.take position).drop (f.opening + 1)
  return (m.functionName? f, before.countP (·.isAtom "call_indirect"))

lemma map_indirectCalls (m : Module) (previous : Token) (ts : List Token) :
    (m.indirectCalls previous ts).map (fun c => (c.start, c.stop, c.indent)) =
      (ts.filter (·.isAtom "call_indirect")).map fun t =>
        (t.start, t.stop, m.indentAt t.start) := by
  induction ts generalizing previous with
  | nil => rfl
  | cons t ts ih =>
      rw [Module.indirectCalls, List.filter_cons]
      split <;> simp [ih]

/-- The items of a part of a list, by the number of them before. -/
lemma getElem?_filter_eq_some_iff {α : Type} {p : α → Bool} {l : List α} {k : Nat} {a : α} :
    (l.filter p)[k]? = some a ↔ ∃ j, l[j]? = some a ∧ p a ∧ (l.take j).countP p = k := by
  induction l generalizing k with
  | nil => simp
  | cons b l ih =>
      by_cases hb : p b
      · rw [List.filter_cons_of_pos hb]
        cases k with
        | zero =>
            constructor
            · intro h
              obtain rfl : b = a := by simpa using h
              exact ⟨0, rfl, hb, rfl⟩
            · rintro ⟨_ | j, hj, -, hk⟩
              · exact hj
              · simp [hb] at hk
        | succ k =>
            rw [List.getElem?_cons_succ, ih]
            constructor
            · rintro ⟨j, hj, ha, hk⟩
              exact ⟨j + 1, hj, ha, by simp [hb, hk]⟩
            · rintro ⟨_ | j, hj, ha, hk⟩
              · simp at hk
              · exact ⟨j, hj, ha, by simpa [hb] using hk⟩
      · rw [List.filter_cons_of_neg hb, ih]
        constructor
        · rintro ⟨j, hj, ha, hk⟩
          exact ⟨j + 1, hj, ha, by simp [hb, hk]⟩
        · rintro ⟨_ | j, hj, ha, hk⟩
          · obtain rfl : b = a := by simpa using hj
            exact absurd ha hb
          · exact ⟨j, hj, ha, by simpa [hb] using hk⟩

/-- The tokens between the parentheses of a form. -/
def body (m : Module) (form : Form) : List Token :=
  (m.tokens.take form.closing).drop (form.opening + 1)

lemma map_fst_inside (m : Module) (form : Form) : (m.inside form).map Prod.fst = body m form := by
  rw [Module.inside, List.map_drop, List.map_take, List.zipIdx_map_fst, body]

lemma body_of_mem_nodes (hF : F.Sound Token.kind) {f : Form} {inner : Forest Token} {c : Token}
    (h : (f, inner, c) ∈ F.nodes 0 0) : body (F.toModule text) f = inner.flatten := by
  rw [← map_fst_inside, inside_of_mem_nodes hF h, List.zipIdx_map_fst]

lemma getElem?_body_eq_some_iff {m : Module} {form : Form} {j : Nat} {t : Token} :
    (body m form)[j]? = some t ↔
      m.tokens[form.opening + 1 + j]? = some t ∧ form.opening + 1 + j < form.closing := by
  rw [body, List.getElem?_drop, List.getElem?_take]
  split <;> simp_all

/-- The indirect calls of a function are the words for them between its parentheses. -/
lemma map_callsOf {m : Module} {f : Form} (hf : f ∈ m.fieldsNamed "func") :
    (callsOf m f).map (fun c => (c.start, c.stop, c.indent)) =
      ((body m f).filter (·.isAtom "call_indirect")).map
        fun t => (t.start, t.stop, m.indentAt t.start) := by
  have hbody : (m.inside f).map (·.1) = body m f := map_fst_inside m f
  rw [callsOf, hbody]
  cases hcase : body m f with
  | nil => rfl
  | cons word ts =>
      -- the first word is the name of the field
      have hword : (body m f)[0]? = some word := by
        rw [hcase]
        rfl
      obtain ⟨t, ht, -, htext⟩ := exists_head hf
      obtain rfl := Option.some.inj ((getElem?_body_eq_some_iff.mp hword).1.symm.trans ht)
      have hnot : word.isAtom "call_indirect" = false := by
        rw [Token.isAtom, htext, Bool.and_eq_false_iff]
        exact Or.inr (by decide)
      rw [List.filter_cons, hnot]
      exact map_indirectCalls m word ts

lemma take_body {m : Module} {form : Form} {j : Nat} (h : form.opening + 1 + j < form.closing) :
    (body m form).take j = (m.tokens.take (form.opening + 1 + j)).drop (form.opening + 1) := by
  rw [body, List.drop_take, List.take_take, List.drop_take]
  congr 1
  omega

/-- A call site is found in one function. -/
lemma callSite?_eq_some_iff {position : Nat} {name : Option (List Char)} {k : Nat} :
    (F.toModule text).callSite? position = some (name, k) ↔
      ∃ f ∈ (F.toModule text).fieldsNamed "func", ∃ j t, position = f.opening + 1 + j ∧
        (body (F.toModule text) f)[j]? = some t ∧ t.isAtom "call_indirect" ∧
        (F.toModule text).functionName? f = name ∧
        ((body (F.toModule text) f).take j).countP (·.isAtom "call_indirect") = k := by
  constructor
  · intro h
    obtain ⟨t, ht, h⟩ := Option.bind_eq_some_iff.mp h
    obtain ⟨_, hcall, h⟩ := Option.bind_eq_some_iff.mp h
    obtain ⟨f, hf, h⟩ := Option.bind_eq_some_iff.mp h
    obtain ⟨rfl, rfl⟩ := Prod.mk.inj (Option.some.inj h)
    have hin := List.find?_some hf
    simp only [Bool.and_eq_true, decide_eq_true_eq] at hin
    obtain ⟨j, rfl⟩ : ∃ j, position = f.opening + 1 + j := ⟨position - (f.opening + 1), by omega⟩
    refine ⟨f, List.mem_of_find?_eq_some hf, j, t, rfl, getElem?_body_eq_some_iff.mpr ⟨ht, hin.2⟩,
      ?_, rfl, ?_⟩
    · by_contra hnot
      simp [hnot, guard] at hcall
    · rw [take_body hin.2]
  · rintro ⟨f, hf, j, t, rfl, ht, hcall, rfl, rfl⟩
    obtain ⟨ht, hlt⟩ := getElem?_body_eq_some_iff.mp ht
    have hfind : ((F.toModule text).fieldsNamed "func").find?
        (fun f' => f'.opening < f.opening + 1 + j && f.opening + 1 + j < f'.closing) = some f := by
      cases hcase : ((F.toModule text).fieldsNamed "func").find? (fun f' =>
          f'.opening < f.opening + 1 + j && f.opening + 1 + j < f'.closing) with
      | none =>
          have := List.find?_eq_none.mp hcase f hf
          simp only [Bool.and_eq_true, decide_eq_true_eq] at this
          omega
      | some f' =>
          have hin : f'.opening < f.opening + 1 + j ∧ f.opening + 1 + j < f'.closing := by
            simpa using List.find?_some hcase
          -- another field would not have the position inside
          rcases @eq_or_disjoint_of_mem_fields F text f f' (List.mem_of_mem_filter hf)
            (List.mem_of_mem_filter (List.mem_of_find?_eq_some hcase)) with rfl | h | h
          · rfl
          · omega
          · omega
    rw [Module.callSite?, ht, take_body hlt]
    simp [hcall, hfind, guard]

/-- The indirect calls of functions are the tokens that are call sites, each with the
name of its function and its number there. -/
lemma exists_call_iff_callSite? {name : Option (List Char)} {k : Nat}
    {span : Nat × Nat × List Char} :
    (∃ f ∈ (F.toModule text).functions, f.name = name ∧
      ∃ call, f.calls[k]? = some call ∧ (call.start, call.stop, call.indent) = span) ↔
    ∃ position t, F.flatten[position]? = some t ∧
      (F.toModule text).callSite? position = some (name, k) ∧
      (t.start, t.stop, (F.toModule text).indentAt t.start) = span := by
  constructor
  · rintro ⟨f, hf, rfl, call, hcall, rfl⟩
    rw [functions_eq, List.mem_map] at hf
    obtain ⟨form, hform, rfl⟩ := hf
    have hspan := congrArg (·[k]?) (map_callsOf hform)
    simp only [List.getElem?_map, hcall, Option.map_some] at hspan
    obtain ⟨t, ht, hspan⟩ := Option.map_eq_some_iff.mp hspan.symm
    obtain ⟨j, hj, hatom, hcount⟩ := getElem?_filter_eq_some_iff.mp ht
    exact ⟨_, t, (getElem?_body_eq_some_iff.mp hj).1,
      callSite?_eq_some_iff.mpr ⟨form, hform, j, t, rfl, hj, hatom, rfl, hcount⟩, hspan⟩
  · rintro ⟨position, t, ht, hsite, rfl⟩
    obtain ⟨form, hform, j, t', rfl, hj, hatom, rfl, hcount⟩ := callSite?_eq_some_iff.mp hsite
    obtain rfl := Option.some.inj (ht.symm.trans (getElem?_body_eq_some_iff.mp hj).1)
    have hspan := congrArg (·[k]?) (map_callsOf hform)
    have hfilter := getElem?_filter_eq_some_iff.mpr ⟨j, hj, hatom, hcount⟩
    simp only [List.getElem?_map, hfilter, Option.map_some] at hspan
    obtain ⟨call, hcall, hspan⟩ := Option.map_eq_some_iff.mp hspan
    exact ⟨_, List.mem_map_of_mem hform, rfl, call, hcall, hspan⟩

/-- The calls of a function are tokens between its parentheses. -/
lemma exists_token_of_mem_callsOf {m : Module} {f : Form} (hf : f ∈ m.fieldsNamed "func")
    {call : IndirectCall} (hcall : call ∈ callsOf m f) :
    ∃ i t, m.tokens[i]? = some t ∧ f.opening < i ∧ i < f.closing ∧ call.start = t.start ∧
      call.stop = t.stop := by
  have hmem := List.mem_map_of_mem hcall (f := fun c => (c.start, c.stop, c.indent))
  rw [map_callsOf hf] at hmem
  obtain ⟨t, ht, hspan⟩ := List.mem_map.mp hmem
  obtain ⟨j, hj⟩ := List.mem_iff_getElem?.mp (List.mem_of_mem_filter ht)
  obtain ⟨ht, hlt⟩ := getElem?_body_eq_some_iff.mp hj
  simp only [Prod.mk.injEq] at hspan
  exact ⟨_, t, ht, by omega, hlt, hspan.1.symm, hspan.2.1.symm⟩

/-- The calls of all functions come in the order of the text. -/
lemma pairwise_calls (htext : F.flatten = tokens text) :
    ((F.toModule text).functions.flatMap FunctionField.calls).Pairwise
      fun c c' => c.stop ≤ c'.start := by
  have htokens : (F.toModule text).tokens = tokens text := htext
  rw [functions_eq, List.flatMap_map, List.pairwise_flatMap]
  constructor
  · intro f hf
    have hsub : ((body (F.toModule text) f).filter (·.isAtom "call_indirect")).Sublist
        (tokens text) := by
      rw [← htokens]
      exact List.filter_sublist.trans ((List.drop_sublist _ _).trans (List.take_sublist _ _))
    have hpair := (pairwise_tokens text).sublist hsub
    have hspans : ((callsOf (F.toModule text) f).map fun c => (c.start, c.stop, c.indent)).Pairwise
        fun s s' => s.2.1 ≤ s'.1 := by
      rw [map_callsOf hf, List.pairwise_map]
      exact hpair
    exact List.pairwise_map.mp hspans
  · refine (((F.pairwise_forms 0 0).filter _).filter _).imp_of_mem fun {f f'} hf hf' h => ?_
    intro c hc c' hc'
    obtain ⟨i, t, ht, -, hlt, -, hstop⟩ := exists_token_of_mem_callsOf hf hc
    obtain ⟨i', t', ht', hlt', -, hstart', -⟩ := exists_token_of_mem_callsOf hf' hc'
    have hfield := mem_forms_of_mem_fields (List.mem_of_mem_filter hf)
    rw [htokens] at ht ht'
    rw [hstop, hstart']
    refine stop_le_start_of_lt ht ht' ?_
    rcases @eq_or_disjoint_of_mem_fields F text f f' (List.mem_of_mem_filter hf)
      (List.mem_of_mem_filter hf') with rfl | hd | hd
    · rcases h with h | ⟨h, -⟩ <;> omega
    · omega
    · have := bounds_of_mem_forms hfield
      have := bounds_of_mem_forms (mem_forms_of_mem_fields (List.mem_of_mem_filter hf'))
      rcases h with h | ⟨h, -⟩ <;> omega

end Fields

end CallGuard.Wat
