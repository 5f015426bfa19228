import CallGuard.Proofs.Wat.Reading

/-!
What guarding a module looks for in the forest of its tokens: parentheses that match, a
function list, a string in the data, and the indirect calls of the functions.

* `Balanced`: parentheses that match, by counting them.
* `balanced_iff_exists_forest`, `parse?_eq_none_iff`: exactly these tokens make a forest.
* `Forest.HasList`, `elemSegment?_eq_none_iff`: where a table is found.
* `Forest.HasData`, `lastData?_eq_none_iff`: where data is found.
* `Site`, `Forest.sites`, `flatMap_sites_functions`: the indirect calls of the functions.
-/

namespace CallGuard.Wat

open Forest

/-! ### Parentheses that match -/

/-- Parentheses match: they are as many, and none is closed before it is opened. -/
@[mk_iff]
structure Balanced (ls : List Lexeme) : Prop where
  /-- No start closes more than it opens. -/
  prefixes : ∀ before, before <+: ls →
    before.countP (·.1 == .closing) ≤ before.countP (·.1 == .opening)
  /-- In the end nothing is open. -/
  settled : ls.countP (·.1 == .closing) = ls.countP (·.1 == .opening)

/-- Whether tokens close the given number of open parentheses and their own. -/
def Settles (n : Nat) (ts : List Token) : Prop :=
  (∀ before, before <+: ts →
    before.countP (·.kind == .closing) ≤ n + before.countP (·.kind == .opening)) ∧
    ts.countP (·.kind == .closing) = n + ts.countP (·.kind == .opening)

lemma forall_prefix_cons {α : Type} {a : α} {l : List α} {p : List α → Prop} :
    (∀ before, before <+: a :: l → p before) ↔
      p [] ∧ ∀ before, before <+: l → p (a :: before) := by
  constructor
  · intro h
    exact ⟨h [] List.nil_prefix, fun before hl => h _ ((List.prefix_cons_inj a).mpr hl)⟩
  · rintro ⟨hnil, hcons⟩ before hbefore
    rcases List.prefix_cons_iff.mp hbefore with rfl | ⟨rest, rfl, hrest⟩
    · exact hnil
    · exact hcons rest hrest

lemma settles_nil_iff {n : Nat} : Settles n [] ↔ n = 0 := by
  simp [Settles, eq_comm]

lemma settles_cons_of_opening {n : Nat} {t : Token} {ts : List Token} (h : t.kind = .opening) :
    Settles n (t :: ts) ↔ Settles (n + 1) ts := by
  simp [Settles, forall_prefix_cons, h, Nat.add_assoc, Nat.add_comm 1]

lemma settles_cons_of_leaf {n : Nat} {t : Token} {ts : List Token} (ho : t.kind ≠ .opening)
    (hc : t.kind ≠ .closing) : Settles n (t :: ts) ↔ Settles n ts := by
  simp [Settles, forall_prefix_cons, ho, hc]

lemma settles_cons_of_closing {n : Nat} {t : Token} {ts : List Token} (h : t.kind = .closing) :
    Settles (n + 1) (t :: ts) ↔ Settles n ts := by
  simp [Settles, forall_prefix_cons, h, Nat.add_right_comm n 1]

lemma not_settles_zero_of_closing {t : Token} {ts : List Token} (h : t.kind = .closing) :
    ¬ Settles 0 (t :: ts) := by
  intro hsettles
  have hone := hsettles.1 [t] (List.prefix_append [t] ts)
  simp [h] at hone

/-- The search for forms succeeds if all parentheses are closed. -/
lemma isSome_formsFrom_iff (position : Nat) (stack : List Nat) (ts : List Token) :
    (formsFrom position stack ts).isSome ↔ Settles stack.length ts := by
  induction ts generalizing position stack with
  | nil =>
      rw [settles_nil_iff]
      cases stack <;> simp [formsFrom]
  | cons t ts ih =>
      by_cases ho : t.kind = .opening
      · rw [formsFrom_of_opening ho, ih, settles_cons_of_opening ho, List.length_cons]
      by_cases hc : t.kind = .closing
      · cases stack with
        | nil =>
            have hnot := @not_settles_zero_of_closing t ts hc
            simpa [formsFrom_nil_of_closing hc] using hnot
        | cons opening stack =>
            rw [formsFrom_cons_of_closing hc, Option.isSome_map, ih, List.length_cons,
              settles_cons_of_closing hc]
      · rw [formsFrom_of_leaf ho hc, ih, settles_cons_of_leaf ho hc]

lemma settles_zero_iff {ts : List Token} : Settles 0 ts ↔ Balanced (ts.map Token.lexeme) := by
  have hprefix (p : List Lexeme → Prop) : (∀ before, before <+: ts.map Token.lexeme → p before) ↔
      ∀ before, before <+: ts → p (before.map Token.lexeme) := by
    constructor
    · exact fun h before hbefore => h _ (hbefore.map _)
    · rintro h _ hbefore
      obtain ⟨start, hstart, rfl⟩ := List.prefix_map_iff.mp hbefore
      exact h start hstart
  simp only [Settles, balanced_iff, hprefix, List.countP_map, Nat.zero_add]
  rfl

/-- A text is no module exactly if its parentheses do not match. -/
lemma parse?_eq_none_iff (text : List Char) :
    Module.parse? text = none ↔ ¬ Balanced (lexemes text) := by
  have hforms : (forms? (tokens text)).isSome ↔ Balanced (lexemes text) := by
    rw [forms?, Option.isSome_map, isSome_formsFrom_iff]
    exact settles_zero_iff
  rw [← hforms, Module.parse?]
  cases forms? (tokens text) with
  | none => exact ⟨fun _ h => Bool.false_ne_true h, fun _ => rfl⟩
  | some forms => exact ⟨fun h => absurd h (Option.some_ne_none _), fun h => absurd rfl h⟩

/-- A forest of what tokens stand for is one of the tokens. -/
lemma exists_forest_of_lexemes {text : List Char} {G : Forest Lexeme} (hG : G.Sound Prod.fst)
    (hflat : G.flatten = lexemes text) :
    ∃ F : Forest Token, F.Sound Token.kind ∧ F.flatten = tokens text ∧ F.map Token.lexeme = G := by
  have hflat : G.flatten = (tokens text).map Token.lexeme := hflat
  obtain ⟨F, rfl, htokens⟩ := exists_map_eq hflat
  exact ⟨F, (sound_map.mp hG :), htokens, rfl⟩

/-- Tokens make a forest exactly if their parentheses match. -/
lemma balanced_iff_exists_forest (text : List Char) :
    Balanced (lexemes text) ↔
      ∃ G : Forest Lexeme, G.Sound Prod.fst ∧ G.flatten = lexemes text := by
  constructor
  · intro h
    obtain ⟨m, hm⟩ := Option.ne_none_iff_exists'.mp
      fun hnone => (parse?_eq_none_iff text).mp hnone h
    obtain ⟨F, hF, hflat, -⟩ := exists_forest_of_parse? hm
    exact ⟨F.map Token.lexeme, sound_map.mpr hF, by rw [flatten_map, hflat]; rfl⟩
  · rintro ⟨G, hG, hflat⟩
    obtain ⟨F, hF, htokens, -⟩ := exists_forest_of_lexemes hG hflat
    have hparse := parse?_eq hF htokens
    by_contra h
    rw [(parse?_eq_none_iff text).mpr h] at hparse
    simp at hparse

/-! ### The table and the data -/

namespace Forest

/-- The first field for elements has the word for functions or a form directly inside. -/
def HasList (G : Forest Lexeme) : Prop :=
  ∃ x, (G.fieldsNamed id "elem").head? = some x ∧
    (functionWord ∈ x.1.items ∨ ∃ l ∈ x.1.items, l.1 = .opening)

/-- The last field for data has a string directly inside. -/
def HasData (G : Forest Lexeme) : Prop :=
  ∃ x, (G.fieldsNamed id "data").getLast? = some x ∧ ∃ l ∈ x.1.items, l.1 = .string

end Forest

lemma listStart?_eq_none_iff {children : List (Token × Nat)} :
    Module.listStart? children = none ↔
      ∀ c ∈ children, ¬ c.1.isAtom "func" ∧ c.1.kind ≠ .opening := by
  constructor
  · intro h
    rw [Module.listStart?] at h
    split at h
    · simp at h
    · rename_i hfunc
      split at h
      · simp at h
      · rename_i hopening
        rw [List.dropWhile_eq_nil_iff] at hfunc hopening
        intro c hc
        have hnot := hfunc c hc
        have hkind := hopening c (List.mem_reverse.mpr hc)
        exact ⟨by simpa using hnot, by simpa using hkind⟩
  · intro h
    cases hstart : Module.listStart? children with
    | none => rfl
    | some found =>
        obtain ⟨before, rfl, hcase⟩ := listStart?_eq_some_iff.mp hstart
        have hnot := h found.1 (by simp)
        rcases hcase with ⟨hfunc, -⟩ | ⟨hopening, -⟩
        · exact absurd hfunc hnot.1
        · exact absurd hopening hnot.2

section Module

variable {F : Forest Token} (hF : F.Sound Token.kind) (text : List Char)
include hF

/-- The fields of a name, in the module of a forest and in the forest. -/
lemma exists_fieldNodes (name : String) :
    ∃ nodes : List (Form × Forest Token × Token),
      (∀ n ∈ nodes, n ∈ F.nodes 0 0 ∧ n.2.1.named Token.lexeme name) ∧
      (F.toModule text).fieldsNamed name = nodes.map Prod.fst ∧
      (F.map Token.lexeme).fieldsNamed id name =
        nodes.map fun n => (n.2.1.map Token.lexeme, n.2.2.lexeme) := by
  refine ⟨F.fieldNodes.filter fun n => n.2.1.named Token.lexeme name, fun n hn => ?_,
    fieldsNamed_toModule hF text name, ?_⟩
  · rw [List.mem_filter] at hn
    exact ⟨List.mem_of_mem_filter hn.1, hn.2⟩
  · rw [fieldsNamed_map, Function.id_comp, ← map_snd_fieldNodes_named hF, List.map_map]
    rfl

/-- What is directly inside a node, in the module of a forest and in the forest. -/
lemma map_lexeme_children {n : Form × Forest Token × Token} (hn : n ∈ F.nodes 0 0) :
    ((F.toModule text).children n.1).map (fun c => c.1.lexeme) =
      (n.2.1.map Token.lexeme).items := by
  rw [items_map, ← map_fst_roots n.2.1 (n.1.opening + 1), children_of_mem_nodes hF hn, List.map_map]
  rfl

/-- There is no table exactly if no function list is found in the forest. -/
lemma elemSegment?_eq_none_iff :
    (F.toModule text).elemSegment? = none ↔ ¬ (F.map Token.lexeme).HasList := by
  obtain ⟨nodes, hnodes, hfields, hforest⟩ := exists_fieldNodes hF text "elem"
  rw [Module.elemSegment?, HasList, hfields, hforest]
  cases nodes with
  | nil => simp
  | cons n nodes =>
      have hitems := map_lexeme_children hF text (hnodes n (by simp)).1
      have hnone : Module.listStart? ((F.toModule text).children n.1) = none ↔
          ¬ (functionWord ∈ (n.2.1.map Token.lexeme).items ∨
            ∃ l ∈ (n.2.1.map Token.lexeme).items, l.1 = .opening) := by
        rw [listStart?_eq_none_iff, ← hitems]
        simp only [isAtom_iff, List.mem_map, not_or, not_exists, not_and]
        constructor
        · intro h
          exact ⟨fun c hc => (h c hc).1, by rintro _ ⟨c, hc, rfl⟩; exact (h c hc).2⟩
        · rintro ⟨hfunc, hopening⟩ c hc
          exact ⟨hfunc c hc, hopening _ ⟨c, hc, rfl⟩⟩
      simp only [List.map_cons, List.head?_cons, Option.some.injEq, exists_eq_left']
      rw [← hnone]
      cases hstart : Module.listStart? ((F.toModule text).children n.1) with
      | none => simp [hstart]
      | some found =>
          simp only [Option.bind_eq_bind, Option.bind_some, hstart]
          split <;> simp

/-- There is no data to renew exactly if no string is found in the forest. -/
lemma lastData?_eq_none_iff :
    (F.toModule text).lastData? = none ↔ ¬ (F.map Token.lexeme).HasData := by
  obtain ⟨nodes, hnodes, hfields, hforest⟩ := exists_fieldNodes hF text "data"
  rw [Module.lastData?, HasData, hfields, hforest, List.getLast?_map, List.getLast?_map]
  cases hlast : nodes.getLast? with
  | none => simp
  | some n =>
      have hmem := List.mem_of_getLast? hlast
      have hitems := map_lexeme_children hF text (hnodes n hmem).1
      simp only [Option.map_some, Option.bind_eq_bind, Option.bind_some, Option.some.injEq,
        exists_eq_left', List.find?_eq_none, ← hitems, List.mem_map]
      grind [Token.lexeme]

end Module

/-! ### Indirect calls -/

/-- An indirect call in a function. -/
structure Site where
  /-- The name of the function, if it has one. -/
  function : Option (List Char)
  /-- The number of indirect calls before it in the function. -/
  number : Nat
  /-- Whether it directly follows an opening parenthesis. -/
  folded : Bool
  deriving DecidableEq, Repr

/-- The word for an indirect call. -/
def callWord : Lexeme :=
  (.atom, "call_indirect".toList)

/-- The name of a function, which is its second token. -/
def nameOf? (ls : List Lexeme) : Option (List Char) :=
  match ls[1]? with
  | some (TokenKind.atom, '$' :: name) => some name
  | _ => none

/-- For each word for an indirect call, whether it directly follows an opening parenthesis. -/
def foldings (ls : List Lexeme) : List Bool :=
  ((ls.zip ls.tail).filter (·.2 == callWord)).map (·.1.1 == .opening)

/-- The indirect calls of a function with the given name. -/
def sitesOf (name : Option (List Char)) (folded : List Bool) : List Site :=
  folded.zipIdx.map fun c => ⟨name, c.2, c.1⟩

/-- The indirect calls of the functions of a module, in order. -/
def Forest.sites (G : Forest Lexeme) : List Site :=
  (G.fieldsNamed id "func").flatMap fun x =>
    sitesOf (nameOf? x.1.flatten) (foldings x.1.flatten)

/-- The indirect calls of a function. -/
def FunctionField.sites (f : FunctionField) : List Site :=
  sitesOf f.name (f.calls.map IndirectCall.folded)

lemma map_folded_indirectCalls (m : Module) (previous : Token) (ts : List Token) :
    (m.indirectCalls previous ts).map IndirectCall.folded =
      foldings ((previous :: ts).map Token.lexeme) := by
  induction ts generalizing previous with
  | nil => rfl
  | cons t ts ih =>
      have hword : (t.lexeme == callWord) = t.isAtom "call_indirect" := by
        rw [Bool.eq_iff_iff, beq_iff_eq, isAtom_iff]
        rfl
      have hcons : foldings ((previous :: t :: ts).map Token.lexeme) =
          (if t.isAtom "call_indirect" then [previous.kind == .opening] else []) ++
            foldings ((t :: ts).map Token.lexeme) := by
        rw [← hword]
        simp only [foldings, List.map_cons, List.tail_cons, List.zip_cons_cons, List.filter_cons]
        split <;> rfl
      rw [hcons, ← ih t, Module.indirectCalls]
      split <;> simp_all

section Module

variable {F : Forest Token} (hF : F.Sound Token.kind) (text : List Char)
include hF

/-- The name of a function is found in the forest. -/
lemma functionName?_eq {f : Form} {inner : Forest Token} {c : Token}
    (hmem : (f, inner, c) ∈ F.nodes 0 0) (hne : inner.flatten ≠ []) :
    (F.toModule text).functionName? f = nameOf? (inner.flatten.map Token.lexeme) := by
  obtain ⟨t, ts, hinner⟩ := List.exists_cons_of_ne_nil hne
  have hsize : 1 ≤ inner.size := List.length_pos_iff.mpr hne
  have hget : (F.toModule text).tokens[f.opening + 2]? = (inner.flatten ++ [c])[1]? :=
    getElem?_of_mem_nodes hF hmem hsize
  obtain ⟨-, -, -, -, -, -, -, hclosing, -⟩ := flatten_of_mem_nodes hF hmem
  rw [Module.functionName?, hget, nameOf?, hinner]
  cases ts with
  | nil =>
      -- the token after the word is the end of the function
      simp [hclosing]
  | cons u us =>
      simp only [List.cons_append, List.getElem?_cons_succ, List.getElem?_cons_zero, List.map_cons,
        Option.bind_eq_bind, Option.bind_some, Token.lexeme]
      split <;> simp_all

/-- The indirect calls of the functions of a module are those in the forest. -/
lemma flatMap_sites_functions :
    (F.toModule text).functions.flatMap FunctionField.sites = (F.map Token.lexeme).sites := by
  obtain ⟨nodes, hnodes, hfields, hforest⟩ := exists_fieldNodes hF text "func"
  rw [functions_eq, Forest.sites, hfields, hforest, List.map_map, List.flatMap_map,
    List.flatMap_map]
  refine List.flatMap_congr fun ⟨f, inner, c⟩ hn => ?_
  obtain ⟨hmem, hnamed⟩ := hnodes _ hn
  have hne : inner.flatten ≠ [] := by
    intro hnil
    simp [named, hnil] at hnamed
  have hcalls : (callsOf (F.toModule text) f).map IndirectCall.folded =
      foldings (inner.flatten.map Token.lexeme) := by
    have hbody : ((F.toModule text).inside f).map (·.1) = inner.flatten := by
      rw [← body_of_mem_nodes hF hmem, ← map_fst_inside]
    obtain ⟨t, ts, hinner⟩ := List.exists_cons_of_ne_nil hne
    rw [callsOf, hbody, hinner, ← map_folded_indirectCalls (F.toModule text)]
  simp only [Function.comp_apply, FunctionField.sites, flatten_map,
    functionName?_eq hF text hmem hne, hcalls]

end Module

end CallGuard.Wat
