import CallGuard.Proofs.Wat.Module
import CallGuard.Proofs.Wat.Rewrite

/-!
What a text says depends on its tokens and on how they nest, not on where they are. So the
fields of a module, its table and its data can be found in a forest of tokens without
their places.

* `Forest.fields`, `Forest.fieldsNamed`: the fields of a module that a forest spells.
* `Forest.fieldNodes`: they are those of the parsed module.
* `Reads`: what the table and the last data of a text are.
* `reads_of_forest`: they are found in the forest.
-/

namespace CallGuard.Wat

/-! ### Fields -/

namespace Forest

variable {α β : Type}

/-- Whether the first of items that stand for tokens is the given atom. -/
def named (κ : α → Lexeme) (name : String) (F : Forest α) : Bool :=
  F.flatten.head?.map κ == some (.atom, name.toList)

/-- The fields of a module, each with the item that closes it. They are the nodes inside
the outermost ones if one of these is named `module`, and the outermost ones if not. -/
def fields (κ : α → Lexeme) (F : Forest α) : List (Forest α × α) :=
  if F.tops.any fun x => x.1.named κ "module" then F.tops.flatMap fun x => x.1.tops else F.tops

/-- The fields of a name. -/
def fieldsNamed (κ : α → Lexeme) (name : String) (F : Forest α) : List (Forest α × α) :=
  (F.fields κ).filter fun x => x.1.named κ name

@[simp] lemma named_leaf (κ : α → Lexeme) (name : String) (a : α) (rest : Forest α) :
    (leaf a rest).named κ name = (κ a == (.atom, name.toList)) := rfl

/-- What starts with a word is named by it. -/
lemma named_word (word name : String) (rest : Forest Lexeme) :
    (leaf (TokenKind.atom, word.toList) rest).named id name = decide (word = name) := by
  simp [beq_eq_decide, String.toList_inj]

lemma named_map (f : α → β) (κ : β → Lexeme) (name : String) (F : Forest α) :
    (F.map f).named κ name = F.named (κ ∘ f) name := by
  rw [named, named, flatten_map, List.head?_map, Option.map_map]

lemma fieldsNamed_map (f : α → β) (κ : β → Lexeme) (name : String) (F : Forest α) :
    (F.map f).fieldsNamed κ name =
      (F.fieldsNamed (κ ∘ f) name).map fun x => (x.1.map f, f x.2) := by
  have hany : (F.map f).tops.any (fun x => x.1.named κ "module") =
      F.tops.any fun x => x.1.named (κ ∘ f) "module" := by
    simp only [tops_map, List.any_map, Function.comp_def, named_map]
  have hfields : (F.map f).fields κ = (F.fields (κ ∘ f)).map fun x => (x.1.map f, f x.2) := by
    rw [fields, fields, hany]
    split
    · simp only [tops_map, List.flatMap_map, List.map_flatMap]
    · exact tops_map f F
  rw [fieldsNamed, hfields, List.filter_map, fieldsNamed]
  simp only [Function.comp_def, named_map]

/-- The nodes that are fields of a module, in order. -/
def fieldNodes (F : Forest Token) : List (Form × Forest Token × Token) :=
  (F.nodes 0 0).filter (·.1.depth == if F.wrapper?.isSome then 1 else 0)

lemma fields_toModule (F : Forest Token) (text : List Char) :
    (F.toModule text).fields = F.fieldNodes.map Prod.fst := by
  rw [fieldNodes, toModule, forms, List.filter_map]
  rfl

section Sound

variable {F : Forest Token} (hF : F.Sound Token.kind)
include hF

lemma head?_of_mem_nodes {f : Form} {inner : Forest Token} {c : Token}
    (h : (f, inner, c) ∈ F.nodes 0 0) (name : String) :
    (head? F.flatten f == some name.toList) = inner.named Token.lexeme name := by
  have hget := getElem?_of_mem_nodes hF h (Nat.zero_le _)
  obtain ⟨-, -, -, -, -, -, -, hc, -⟩ := flatten_of_mem_nodes hF h
  rw [Nat.add_zero] at hget
  rw [head?, hget, named]
  cases inner.flatten with
  | nil => simp [Option.filter, hc]
  | cons t ts =>
      by_cases ht : t.kind = .atom <;> simp [Option.filter, ht, Token.lexeme]

lemma isSome_wrapper? :
    F.wrapper?.isSome = F.tops.any fun x => x.1.named Token.lexeme "module" := by
  rw [Bool.eq_iff_iff, wrapper?, List.find?_isSome, ← map_snd_nodes F 0 0]
  simp only [forms, List.mem_map, List.any_map, List.any_eq_true, List.mem_filter, Bool.and_eq_true,
    Function.comp_apply]
  constructor
  · rintro ⟨_, ⟨⟨f, inner, c⟩, hn, rfl⟩, hdepth, hname⟩
    exact ⟨_, ⟨hn, hdepth⟩, head?_of_mem_nodes hF hn _ ▸ hname⟩
  · rintro ⟨⟨f, inner, c⟩, ⟨hn, hdepth⟩, hname⟩
    exact ⟨_, ⟨_, hn, rfl⟩, hdepth, head?_of_mem_nodes hF hn _ ▸ hname⟩

lemma map_snd_fieldNodes : F.fieldNodes.map Prod.snd = F.fields Token.lexeme := by
  rw [fieldNodes, fields, ← isSome_wrapper? hF]
  split
  · exact map_snd_nodes_succ F 0 0
  · exact map_snd_nodes F 0 0

lemma fieldsNamed_toModule (text : List Char) (name : String) :
    (F.toModule text).fieldsNamed name =
      (F.fieldNodes.filter fun n => n.2.1.named Token.lexeme name).map Prod.fst := by
  rw [Module.fieldsNamed, fields_toModule, List.filter_map]
  congr 1
  refine List.filter_congr fun ⟨f, inner, c⟩ hn => ?_
  exact head?_of_mem_nodes hF (List.mem_of_mem_filter hn) name

lemma map_snd_fieldNodes_named (name : String) :
    (F.fieldNodes.filter fun n => n.2.1.named Token.lexeme name).map Prod.snd =
      F.fieldsNamed Token.lexeme name := by
  rw [fieldsNamed, ← map_snd_fieldNodes hF, List.filter_map]
  rfl

end Sound

end Forest

open Forest

/-! ### The table and the data -/

/-- References are found among items if they are found among what the items stand for. -/
lemma Lists.exists_of_map {α β : Type} {κ : β → Lexeme} {ψ : α → β} {items : List α}
    {refs : List β} (h : Lists κ (items.map ψ) refs) :
    ∃ rs, refs = rs.map ψ ∧ Lists (κ ∘ ψ) items rs := by
  obtain ⟨before, start, after, hitems, hatoms, hafter, hintro⟩ := h
  obtain ⟨bs, rest, rfl, rfl, hrest⟩ := List.map_eq_append_iff.mp hitems
  obtain ⟨s, rest, rfl, rfl, hlater⟩ := List.map_eq_cons_iff.mp hrest
  obtain ⟨rs, as, rfl, rfl, rfl⟩ := List.map_eq_append_iff.mp hlater
  refine ⟨rs, rfl, bs, s, as, rfl, by simpa using hatoms, fun a ha => hafter (ψ a) ?_, ?_⟩
  · rw [List.head?_map, ha, Option.map_some]
  · exact hintro.imp (fun ⟨hs, hb⟩ => ⟨hs, fun a ha => hb _ (List.mem_map_of_mem ha)⟩)
      fun ⟨hs, ha, hnone⟩ => ⟨hs, fun a ha' => ha _ (List.mem_map_of_mem ha'),
        fun a ha' => hnone _ (List.mem_map_of_mem ha')⟩

/-- So they are the other way round. -/
lemma Lists.map {α β : Type} {κ : β → Lexeme} {ψ : α → β} {items refs : List α}
    (h : Lists (κ ∘ ψ) items refs) : Lists κ (items.map ψ) (refs.map ψ) := by
  obtain ⟨before, start, after, rfl, hatoms, hafter, hintro⟩ := h
  refine ⟨before.map ψ, ψ start, after.map ψ, by simp, by simpa using hatoms, fun b hb => ?_, ?_⟩
  · rw [List.head?_map] at hb
    obtain ⟨a, ha, rfl⟩ := Option.map_eq_some_iff.mp hb
    exact hafter a ha
  · exact hintro.imp (fun ⟨hs, hb⟩ => ⟨hs, List.forall_mem_map.mpr hb⟩)
      fun ⟨hs, ha, hnone⟩ => ⟨hs, List.forall_mem_map.mpr ha, List.forall_mem_map.mpr hnone⟩

/-- What is listed in the first field for elements is the table, and the table spans it. -/
lemma elemSegment?_of_lists {m : Module} {f : Form} {refs : List Token}
    (hf : (m.fieldsNamed "elem").head? = some f)
    (h : Lists Token.lexeme ((m.children f).map Prod.fst) refs) :
    ∃ elem, m.elemSegment? = some elem ∧ elem.functions = refs.map Token.text ∧
      ∀ first last, refs.head? = some first → refs.getLast? = some last →
        elem.start = first.start ∧ elem.stop = last.stop := by
  obtain ⟨before, start, after, hchildren, hatoms, hafter, hintro⟩ := h
  obtain ⟨bs, rest, hsplit, rfl, hrest⟩ := List.map_eq_append_iff.mp hchildren
  obtain ⟨⟨start, position⟩, as, rfl, rfl, hlater⟩ := List.map_eq_cons_iff.mp hrest
  have hstart : Module.listStart? (m.children f) = some ((start, position), as) := by
    refine listStart?_eq_some_iff.mpr ⟨bs, hsplit, hintro.imp ?_ ?_⟩
    · rintro ⟨hs, hb⟩
      exact ⟨isAtom_iff.mpr hs, fun c hc hatom =>
        hb c.1 (List.mem_map_of_mem hc) (isAtom_iff.mp hatom)⟩
    · rintro ⟨hs, ha, hnone⟩
      refine ⟨hs, fun c hc => ?_, fun c hc hatom =>
        hnone c.1 (List.mem_map_of_mem hc) (isAtom_iff.mp hatom)⟩
      have hmem := List.mem_map_of_mem (f := Prod.fst) hc
      rw [hlater, List.mem_append] at hmem
      rcases hmem with hmem | hmem
      · rw [show c.1.kind = .atom from hatoms c.1 hmem]
        decide
      · exact ha c.1 hmem
  have hrefs : (as.map (·.1)).takeWhile (·.kind == .atom) = refs := by
    have hall : ∀ t ∈ refs, (t.kind == .atom) = true := fun t ht => beq_iff_eq.mpr (hatoms t ht)
    rw [hlater, List.takeWhile_append_of_pos hall]
    cases after with
    | nil => simp
    | cons t ts =>
        have ht : ¬ (t.kind == .atom) = true := fun h => hafter t rfl (beq_iff_eq.mp h)
        rw [List.takeWhile_cons, if_neg ht, List.append_nil]
  rw [Module.elemSegment?, hf]
  simp only [Option.bind_eq_bind, Option.bind_some, hstart, hrefs]
  cases refs with
  | nil => exact ⟨_, rfl, rfl, by simp⟩
  | cons t ts =>
      rw [List.head?_cons, List.getLast?_eq_some_getLast (List.cons_ne_nil t ts)]
      refine ⟨_, rfl, rfl, fun first last hfirst hlast => ?_⟩
      obtain rfl := Option.some.inj hfirst
      obtain rfl := Option.some.inj hlast
      exact ⟨rfl, rfl⟩

/-- A text has a table with the given references, and the first string of its last data
is given. -/
def Reads (text : List Char) (refs : List (List Char)) (data : List Char) : Prop :=
  ∃ m elem d, Module.parse? text = some m ∧ m.elemSegment? = some elem ∧
    elem.functions = refs ∧ m.lastData? = some d ∧ d.text = data

/-- The table and the last data of a text are found in the forest of its tokens. -/
lemma reads_of_forest {text : List Char} {G : Forest Lexeme} (hG : G.Sound Prod.fst)
    (htext : G.flatten = lexemes text) {refs : List (List Char)} {data : List Char}
    {x y : Forest Lexeme × Lexeme} (hx : (G.fieldsNamed id "elem").head? = some x)
    (hrefs : Lists id x.1.items (refs.map fun r => (.atom, r)))
    (hy : (G.fieldsNamed id "data").getLast? = some y)
    (hdata : y.1.items.find? (·.1 == .string) = some (.string, data)) :
    Reads text refs data := by
  obtain ⟨F, rfl, hflat⟩ := exists_map_eq htext
  have hF := sound_map.mp hG
  have hF : F.Sound Token.kind := hF
  have hnodes (name : String) := (fieldsNamed_map Token.lexeme id name F).trans
    (congrArg _ (map_snd_fieldNodes_named hF name).symm)
  have hforms := @fieldsNamed_toModule F hF text
  have hchildren {n : Form × Forest Token × Token} (hn : n ∈ F.fieldNodes) :
      ((F.toModule text).children n.1).map Prod.fst = n.2.1.items := by
    rw [children_of_mem_nodes hF (List.mem_of_mem_filter hn), map_fst_roots]
  rw [hnodes, List.map_map, List.head?_map] at hx
  rw [hnodes, List.map_map, List.getLast?_map] at hy
  obtain ⟨n, hn, rfl⟩ := Option.map_eq_some_iff.mp hx
  obtain ⟨k, hk, rfl⟩ := Option.map_eq_some_iff.mp hy
  refine ⟨F.toModule text, ?_⟩
  have hf : ((F.toModule text).fieldsNamed "elem").head? = some n.1 := by
    rw [hforms, List.head?_map, hn, Option.map_some]
  have hd : ((F.toModule text).fieldsNamed "data").getLast? = some k.1 := by
    rw [hforms, List.getLast?_map, hk, Option.map_some]
  simp only [Function.comp_apply, items_map] at hrefs hdata
  obtain ⟨rs, hmap, hlists⟩ := hrefs.exists_of_map
  rw [← hchildren (List.mem_of_mem_filter (List.mem_of_mem_head? hn))] at hlists
  obtain ⟨elem, helem, hfunctions, -⟩ := elemSegment?_of_lists hf hlists
  rw [List.find?_map, ← hchildren (List.mem_of_mem_filter (List.mem_of_mem_getLast? hk))] at hdata
  obtain ⟨d, hfind, hlex⟩ := Option.map_eq_some_iff.mp hdata
  refine ⟨elem, d, parse?_eq hF hflat, helem, ?_, ?_, congrArg Prod.snd hlex⟩
  · have := congrArg (List.map Prod.snd) hmap
    simp only [List.map_map, Function.comp_def, List.map_id'] at this
    rw [hfunctions, this]
    rfl
  · rw [Module.lastData?, hd]
    exact hfind

end CallGuard.Wat
