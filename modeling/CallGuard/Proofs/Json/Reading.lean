import CallGuard.Proofs.Json.Spelling

/-!
Readers of JSON read all texts of the values that they are for. A run of a reader is followed
part by part: what it takes from the text, and what it gives.

* `Takes`: a reader takes a text that stands before another one, and gives a value.
* `readChars_quote`: a string is read back as the text that it was written for.
* `Decodes`: a reader takes every text of a value, with any blanks before it.
* `decodes_readString`, `decodes_readArray`, `decodes_readObject`, `PairShape.decodes_read`: the
  readers of the shapes.
* `read_of_decodes`: a whole text.
-/

namespace CallGuard.Json

variable {α β : Type}

/-! ### Strings -/

/-- Four digits that spell a byte are read as its value. -/
lemma readHex4_lowerHex (b : UInt8) (rest : List Char) :
    readHex4 ('0' :: '0' :: (Text.lowerHex b ++ rest)) = .ok (b.toNat, rest) := by
  have hb := b.toNat_lt
  have hhigh := Text.hexValue?_lowerDigit (n := b.toNat / 16) (by omega)
  have hlow := Text.hexValue?_lowerDigit (n := b.toNat % 16) (by omega)
  have hzero : Text.hexValue? '0' = some 0 := by decide
  simp only [Text.lowerHex, List.cons_append, List.nil_append, readHex4, hhigh, hlow, hzero,
    Nat.zero_mul, Nat.zero_add, Nat.div_add_mod']

/-- A control character that is written by its code is read back. -/
lemma readEscape_control {c : Char} (hc : c.toNat < 0x20) (rest : List Char) :
    readEscape ('u' :: '0' :: '0' :: (Text.lowerHex (UInt8.ofNat c.toNat) ++ rest)) =
      .ok (c, rest) := by
  have hnat : (UInt8.ofNat c.toNat).toNat = c.toNat := by
    rw [UInt8.toNat_ofNat']
    exact Nat.mod_eq_of_lt (by omega)
  have hlow : isLowSurrogate c.toNat = false := by
    rw [isLowSurrogate, Bool.and_eq_false_iff]
    exact Or.inl (decide_eq_false (by omega))
  have hhigh : isHighSurrogate c.toNat = false := by
    rw [isHighSurrogate, Bool.and_eq_false_iff]
    exact Or.inl (decide_eq_false (by omega))
  simp only [readEscape, readHex4_lowerHex, hnat, hlow, hhigh, Bool.false_eq_true, if_false,
    if_true, Char.ofNat_toNat]

/-- An escape stands for its character. -/
lemma readChars_escape {cs rest : List Char} {c : Char} (h : readEscape cs = .ok (c, rest)) :
    readChars ('\\' :: cs) = (readChars rest).map fun p => (c :: p.1, p.2) := by
  rw [readChars]
  simp only [Char.reduceEq, if_false, if_true]
  split
  · rename_i e he
    rw [h] at he
    cases he
  · rename_i d rest' he
    rw [h] at he
    cases he
    cases readChars rest <;> rfl

/-- A character that is written for itself stands for itself. -/
lemma readChars_plain {c : Char} (hquote : c ≠ '"') (hslash : c ≠ '\\') (hc : ¬ c.toNat < 0x20)
    (rest : List Char) :
    readChars (c :: rest) = (readChars rest).map fun p => (c :: p.1, p.2) := by
  rw [readChars, if_neg hquote, if_neg hslash, if_neg hc]
  cases readChars rest <;> rfl

/-- A character is read back from what stands for it. -/
lemma readChars_quoteChar (c : Char) (rest : List Char) :
    readChars (quoteChar c ++ rest) = (readChars rest).map fun p => (c :: p.1, p.2) := by
  rw [quoteChar]
  split
  · rename_i h
    exact readChars_escape (by rw [h]; rfl)
  split
  · rename_i h
    exact readChars_escape (by rw [h]; rfl)
  split
  · rename_i h
    exact readChars_escape (by rw [h]; rfl)
  split
  · rename_i h
    exact readChars_escape (by rw [h]; rfl)
  split
  · rename_i h
    exact readChars_escape (by rw [h]; rfl)
  split
  · rename_i h
    exact readChars_escape (by rw [h]; rfl)
  split
  · rename_i h
    exact readChars_escape (by rw [h]; rfl)
  split
  · rename_i hc
    exact readChars_escape (readEscape_control hc rest)
  · rename_i hquote hslash _ _ _ _ _ hc
    exact readChars_plain hquote hslash hc rest

/-- A string is read back as the text that it was written for. -/
lemma readChars_quote (s rest : List Char) :
    readChars (s.flatMap quoteChar ++ '"' :: rest) = .ok (s, rest) := by
  induction s with
  | nil =>
      rw [List.flatMap_nil, List.nil_append, readChars]
      rfl
  | cons c s ih =>
      rw [List.flatMap_cons, List.append_assoc, readChars_quoteChar, ih]
      rfl

/-! ### Runs of readers -/

/-- The reader takes a text that stands before another one, and gives a value. -/
def Takes (r : Reader α) (text rest : List Char) (a : α) : Prop :=
  r (text ++ rest) = .ok a rest

lemma takes_pure (a : α) (rest : List Char) : Takes (pure a : Reader α) [] rest a := rfl

/-- A reader and the reader after it. -/
lemma Takes.bind {r : Reader α} {f : α → Reader β} {text text' rest : List Char} {a : α} {b : β}
    (h : Takes r text (text' ++ rest) a) (h' : Takes (f a) text' rest b) :
    Takes (r >>= f) (text ++ text') rest b := by
  change EStateM.bind r f _ = _
  rw [List.append_assoc, EStateM.bind, h]
  exact h'

/-- A reader, and a reader of nothing after it. -/
lemma Takes.bind_end {r : Reader α} {f : α → Reader β} {text rest : List Char} {a : α} {b : β}
    (h : Takes r text rest a) (h' : Takes (f a) [] rest b) : Takes (r >>= f) text rest b := by
  rw [← List.append_nil text]
  exact .bind h h'

/-- Looking at the whole text. -/
lemma takes_get {f : List Char → Reader β} {text rest : List Char} {b : β}
    (h : Takes (f (text ++ rest)) text rest b) : Takes (get >>= f) text rest b :=
  h

lemma takes_skip (c : Char) (rest : List Char) : Takes skip [c] rest () := rfl

/-- Moving over a character, and the reader after it. -/
lemma takes_bind_skip (c : Char) {f : Unit → Reader β} {text rest : List Char} {b : β}
    (h : Takes (f ()) text rest b) : Takes (skip >>= f) (c :: text) rest b :=
  h

lemma dropWhile_blanks {ws cs : List Char} (hws : Blanks ws)
    (hcs : ∀ c, cs.head? = some c → isSpace c = false) : (ws ++ cs).dropWhile isSpace = cs := by
  rw [List.dropWhile_append_of_pos hws]
  cases cs with
  | nil => rfl
  | cons c cs => rw [List.dropWhile_cons_of_neg (by simp [hcs c rfl])]

/-- Looking at the next character after blanks. -/
lemma takes_peek {ws text rest : List Char} {c : Char} (hws : Blanks ws)
    (hhead : (text ++ rest).head? = some c) (hc : isSpace c = false) {f : Option Char → Reader β}
    {b : β} (h : Takes (f (some c)) text rest b) : Takes (peek >>= f) (ws ++ text) rest b := by
  have hdrop : (ws ++ (text ++ rest)).dropWhile isSpace = text ++ rest := by
    refine dropWhile_blanks hws fun d hd => ?_
    obtain rfl := Option.some.inj (hhead.symm.trans hd)
    exact hc
  have hrun : (peek >>= f) (ws ++ text ++ rest) =
      f ((ws ++ (text ++ rest)).dropWhile isSpace).head?
        ((ws ++ (text ++ rest)).dropWhile isSpace) := by
    rw [List.append_assoc]
    rfl
  rw [Takes, hrun, hdrop, hhead]
  exact h

/-- Looking at the next character after all blanks that there are. -/
lemma takes_peek_end {ws rest : List Char} {c : Char} (hws : Blanks ws)
    (hhead : rest.head? = some c) (hc : isSpace c = false) {f : Option Char → Reader β} {b : β}
    (h : Takes (f (some c)) [] rest b) : Takes (peek >>= f) ws rest b := by
  have h := takes_peek hws (by rwa [List.nil_append]) hc h
  rwa [List.append_nil] at h

/-- Looking at the next character, which is no blank. -/
lemma takes_peek_cons {c : Char} {text rest : List Char} (hc : isSpace c = false)
    {f : Option Char → Reader β} {b : β} (h : Takes (f (some c)) (c :: text) rest b) :
    Takes (peek >>= f) (c :: text) rest b :=
  takes_peek blanks_nil rfl hc h

/-- Reading a string after its opening quote. -/
lemma takes_readRest (s : String) (rest : List Char) :
    Takes readRest (s.toList.flatMap quoteChar ++ ['"']) rest s := by
  rw [Takes, readRest, lift, List.append_assoc, List.singleton_append, readChars_quote]
  simp [Except.map]

/-- The same with the reader after it. -/
lemma takes_bind_readRest (s : String) {f : String → Reader β} {text rest : List Char} {b : β}
    (h : Takes (f s) text rest b) :
    Takes (readRest >>= f) (s.toList.flatMap quoteChar ++ '"' :: text) rest b := by
  rw [List.append_cons]
  exact .bind (takes_readRest s _) h

/-! ### Values -/

/-- The reader takes every text of the value, with any blanks before it. -/
def Decodes (r : Reader α) (v : Value) (a : α) : Prop :=
  ∀ ws text rest, Blanks ws → Spells v text → Takes r (ws ++ text) rest a

section Decodes

variable {r : Reader α} {v : Value} {a : α} {f : α → Reader β} {text more rest : List Char} {b : β}

/-- A reader of a value, and the reader after it. -/
lemma Decodes.bind (h : Decodes r v a) {ws : List Char} (hws : Blanks ws) (hv : Spells v text)
    (hf : Takes (f a) more rest b) : Takes (r >>= f) (ws ++ (text ++ more)) rest b := by
  rw [← List.append_assoc]
  exact .bind (h ws text (more ++ rest) hws hv) hf

/-- The same without blanks before the value. -/
lemma Decodes.bind_nil (h : Decodes r v a) (hv : Spells v text) (hf : Takes (f a) more rest b) :
    Takes (r >>= f) (text ++ more) rest b :=
  h.bind blanks_nil hv hf

/-- A reader whose result is changed. -/
lemma Decodes.map (h : Decodes r v a) (g : α → β) :
    Decodes (r >>= fun a => pure (g a)) v (g a) := by
  intro ws text rest hws hv
  exact .bind_end (h ws text rest hws hv) (takes_pure _ rest)

end Decodes

lemma decodes_readString (s : String) : Decodes readString (.string s.toList) s := by
  intro ws text rest hws htext
  cases htext with
  | string text =>
      refine takes_peek hws rfl rfl ?_
      rw [if_pos rfl]
      exact takes_bind_skip '"' (takes_readRest s rest)

/-! ### Arrays -/

/-- A value starts with no blank and with no end of an array. -/
lemma Spells.exists_head {v : Value} {text : List Char} (h : Spells v text)
    (more rest : List Char) :
    ∃ c, (text ++ more ++ rest).head? = some c ∧ isSpace c = false ∧ c ≠ ']' := by
  obtain ⟨c, cs, rfl, hc⟩ := h.exists_cons
  refine ⟨c, rfl, ?_⟩
  rcases hc with rfl | rfl | rfl <;> decide

section Array

variable {ws ws' text rest : List Char} {f : Bool → Reader β} {b : β}

/-- At the end of an array there is no other element. -/
lemma takes_hasElement_end (hws : Blanks ws) (first : Bool)
    (h : Takes (f false) [] (']' :: rest) b) :
    Takes (hasElement first >>= f) ws (']' :: rest) b := by
  refine .bind_end (takes_peek_end hws rfl rfl ?_) h
  simp only [if_true]
  exact takes_pure false _

/-- At the first value there is one. -/
lemma takes_hasElement_first (hws : Blanks ws)
    (hhead : ∃ c, (text ++ rest).head? = some c ∧ isSpace c = false ∧ c ≠ ']')
    (h : Takes (f true) text rest b) : Takes (hasElement true >>= f) (ws ++ text) rest b := by
  obtain ⟨c, hhead, hc, hne⟩ := hhead
  refine .bind (takes_peek_end hws hhead hc ?_) h
  simp only [hne, if_false, if_true]
  exact takes_pure true _

/-- After a comma there is one. -/
lemma takes_hasElement_next (hws : Blanks ws) (hws' : Blanks ws')
    (hhead : ∃ c, (text ++ rest).head? = some c ∧ isSpace c = false ∧ c ≠ ']')
    (h : Takes (f true) text rest b) :
    Takes (hasElement false >>= f) (ws ++ ',' :: (ws' ++ text)) rest b := by
  obtain ⟨c, hhead, hc, hne⟩ := hhead
  rw [show ws ++ ',' :: (ws' ++ text) = (ws ++ ',' :: ws') ++ text by simp]
  refine .bind (takes_peek hws rfl rfl ?_) h
  simp only [Char.reduceEq, if_false, Bool.false_eq_true, if_true]
  refine takes_bind_skip ',' (takes_peek_end hws' hhead hc ?_)
  simp only [hne, if_false]
  exact takes_pure true _

lemma takes_endArray (rest : List Char) : Takes endArray [']'] rest () := by
  refine takes_peek_cons rfl ?_
  simp only [if_true]
  exact takes_skip ']' rest

end Array

section Elements

variable {r : Reader α} {value : α → Value}

/-- The elements after the first. -/
lemma takes_elements_next {as : List α} (hr : ∀ a, Decodes r (value a) a) {more : List Char}
    (h : SpellsElements (as.map value) more) {bound : Nat} (hbound : as.length < bound)
    (rest : List Char) : Takes (elements r bound false) more (']' :: rest) as := by
  induction as generalizing more bound with
  | nil =>
      obtain ⟨bound, rfl⟩ := Nat.exists_eq_add_of_lt hbound
      cases h with
      | nil hws => exact takes_hasElement_end hws false (takes_pure [] _)
  | cons a as ih =>
      obtain ⟨bound, rfl⟩ := Nat.exists_eq_add_of_lt hbound
      cases h with
      | cons hws hws' hv hvs =>
          rename_i ws ws' text more
          have hnext : Takes (elements r (as.length + 1 + bound) false) more (']' :: rest) as :=
            ih hvs (by omega)
          refine takes_hasElement_next hws hws' (hv.exists_head more _) ?_
          rw [if_pos rfl]
          exact (hr a).bind_nil hv (.bind_end hnext (takes_pure _ _))

/-- An array is read element by element. -/
lemma decodes_readArray (hr : ∀ a, Decodes r (value a) a) (as : List α) :
    Decodes (readArray r) (.array (as.map value)) as := by
  intro ws text rest hws htext
  cases as with
  | nil =>
      cases htext with
      | emptyArray hws' =>
          refine takes_peek hws rfl rfl ?_
          rw [if_pos rfl]
          refine takes_bind_skip '[' (takes_get ?_)
          refine .bind ?_ (.bind_end (takes_endArray rest) (takes_pure _ rest))
          exact takes_hasElement_end hws' true (takes_pure [] _)
  | cons a as =>
      cases htext with
      | array hws' hv hvs =>
          rename_i ws' text more
          have hlength : as.length ≤ more.length := by simpa using hvs.length_le
          refine takes_peek hws rfl rfl ?_
          rw [if_pos rfl]
          refine takes_bind_skip '[' (takes_get ?_)
          refine .bind ?_ (.bind_end (takes_endArray rest) (takes_pure _ rest))
          refine takes_hasElement_first hws' (hv.exists_head more _) ?_
          rw [if_pos rfl]
          refine (hr a).bind_nil hv (.bind_end ?_ (takes_pure _ _))
          exact takes_elements_next hr hvs (by simp; omega) rest

end Elements

/-! ### Members -/

section Member

variable {ws ws' text rest : List Char} {b : β}

/-- At the end of an object there is no other member. -/
lemma takes_hasMember_end {f : Bool → Reader β} (hws : Blanks ws) (first : Bool)
    (h : Takes (f false) [] ('\x7d' :: rest) b) :
    Takes (hasMember first >>= f) ws ('\x7d' :: rest) b := by
  refine .bind_end (takes_peek_end hws rfl rfl ?_) h
  simp only [if_true]
  exact takes_pure false _

/-- At the first name there is one. -/
lemma takes_hasMember_first {f : Bool → Reader β} (hws : Blanks ws)
    (h : Takes (f true) text rest b) :
    Takes (hasMember true >>= f) (ws ++ '"' :: text) rest b := by
  rw [List.append_cons]
  refine .bind (takes_peek hws rfl rfl ?_) h
  simp only [Char.reduceEq, if_false, if_true]
  exact takes_bind_skip '"' (takes_pure true _)

/-- After a comma there is one. -/
lemma takes_hasMember_next {f : Bool → Reader β} (hws : Blanks ws) (hws' : Blanks ws')
    (h : Takes (f true) text rest b) :
    Takes (hasMember false >>= f) (ws ++ ',' :: (ws' ++ '"' :: text)) rest b := by
  rw [show ws ++ ',' :: (ws' ++ '"' :: text) = (ws ++ ',' :: (ws' ++ ['"'])) ++ text by simp]
  refine .bind (takes_peek hws rfl rfl ?_) h
  simp only [Char.reduceEq, if_false, Bool.false_eq_true, if_true]
  refine takes_bind_skip ',' (takes_peek hws' rfl rfl ?_)
  simp only [if_true]
  exact takes_bind_skip '"' (takes_pure true _)

lemma takes_readColon {f : Unit → Reader β} (hws : Blanks ws) (h : Takes (f ()) text rest b) :
    Takes (readColon >>= f) (ws ++ ':' :: text) rest b := by
  rw [List.append_cons]
  refine .bind (takes_peek hws rfl rfl ?_) h
  simp only [if_true]
  exact takes_skip ':' _

lemma takes_endObject (rest : List Char) : Takes endObject ['\x7d'] rest () := by
  refine takes_peek_cons rfl ?_
  simp only [if_true]
  exact takes_skip '\x7d' rest

/-- The parts of a member: after the opening quote come the name, the colon and the value. -/
lemma SpellsMember.exists_parts {name : List Char} {v : Value} (h : SpellsMember name v text) :
    ∃ ws ws' inner, Blanks ws ∧ Blanks ws' ∧ Spells v inner ∧ ∀ more,
      text ++ more =
        '"' :: (name.flatMap quoteChar ++ '"' :: (ws ++ ':' :: (ws' ++ (inner ++ more)))) := by
  cases h with
  | mk hws hws' hv => exact ⟨_, _, _, hws, hws', hv, fun more => by simp [quote]⟩

end Member

section Members

variable {r : Reader α} {value : α → Value}

/-- The members after the first. -/
lemma takes_members_next {pairs : List (String × α)} (hr : ∀ a, Decodes r (value a) a)
    {more : List Char} (h : SpellsMembers (pairs.map fun p => (p.1.toList, value p.2)) more)
    {bound : Nat} (hbound : pairs.length < bound) (rest : List Char) :
    Takes (members r bound false) more ('\x7d' :: rest) pairs := by
  induction pairs generalizing more bound with
  | nil =>
      obtain ⟨bound, rfl⟩ := Nat.exists_eq_add_of_lt hbound
      cases h with
      | nil hws => exact takes_hasMember_end hws false (takes_pure [] _)
  | cons p pairs ih =>
      obtain ⟨bound, rfl⟩ := Nat.exists_eq_add_of_lt hbound
      cases h with
      | cons hws hws' hm hms =>
          rename_i ws ws' text more
          obtain ⟨wc, wv, inner, hwc, hwv, hv, htext⟩ := hm.exists_parts
          have hnext : Takes (members r (pairs.length + 1 + bound) false) more ('\x7d' :: rest)
              pairs := ih hms (by omega)
          rw [htext]
          refine takes_hasMember_next hws hws' ?_
          rw [if_pos rfl]
          refine takes_bind_readRest p.1 (takes_readColon hwc ((hr p.2).bind hwv hv ?_))
          exact .bind_end hnext (takes_pure _ _)

/-- An object is read member by member. -/
lemma decodes_readObject (hr : ∀ a, Decodes r (value a) a) (pairs : List (String × α)) :
    Decodes (readObject r) (.object (pairs.map fun p => (p.1.toList, value p.2))) pairs := by
  intro ws text rest hws htext
  cases pairs with
  | nil =>
      cases htext with
      | emptyObject hws' =>
          refine takes_peek hws rfl rfl ?_
          rw [if_pos rfl]
          refine takes_bind_skip '\x7b' (takes_get ?_)
          refine .bind ?_ (.bind_end (takes_endObject rest) (takes_pure _ rest))
          exact takes_hasMember_end hws' true (takes_pure [] _)
  | cons p pairs =>
      cases htext with
      | object hws' hm hms =>
          rename_i ws' text more
          obtain ⟨wc, wv, inner, hwc, hwv, hv, htext⟩ := hm.exists_parts
          have hlength : pairs.length ≤ more.length := by simpa using hms.length_le
          refine takes_peek hws rfl rfl ?_
          rw [if_pos rfl]
          refine takes_bind_skip '\x7b' (takes_get ?_)
          refine .bind ?_ (.bind_end (takes_endObject rest) (takes_pure _ rest))
          have hbound : pairs.length < (ws' ++ (text ++ more) ++ ['\x7d'] ++ rest).length := by
            simp only [List.length_append]
            have : ['\x7d'].length = 1 := rfl
            omega
          generalize (ws' ++ (text ++ more) ++ ['\x7d'] ++ rest).length = bound at hbound ⊢
          rw [htext]
          refine takes_hasMember_first hws' ?_
          rw [if_pos rfl]
          refine takes_bind_readRest p.1 (takes_readColon hwc ((hr p.2).bind hwv hv ?_))
          exact .bind_end (takes_members_next hr hms hbound rest) (takes_pure _ _)

end Members

/-- A pair is read from an object with its two members in order. -/
lemma PairShape.decodes_read (shape : PairShape α β) {v w : Value} {a : α} {b : β}
    (hne : shape.secondName ≠ shape.firstName) (hfirst : Decodes shape.first v a)
    (hsecond : Decodes shape.second w b) :
    Decodes shape.read (.object [(shape.firstName.toList, v), (shape.secondName.toList, w)])
      (a, b) := by
  intro ws text rest hws htext
  cases htext with
  | object hws₁ hm₁ hms =>
  cases hms with
  | cons hws₂ hws₃ hm₂ hms =>
  cases hms with
  | nil hend =>
      rename_i ws₁ text₁ ws₂ ws₃ text₂ wend
      obtain ⟨wc₁, wv₁, inner₁, hwc₁, hwv₁, hv, htext₁⟩ := hm₁.exists_parts
      obtain ⟨wc₂, wv₂, inner₂, hwc₂, hwv₂, hw, htext₂⟩ := hm₂.exists_parts
      refine takes_peek hws rfl rfl ?_
      refine takes_bind_skip '\x7b' (takes_get ?_)
      refine .bind ?_ (.bind_end (takes_endObject rest) (takes_pure _ rest))
      obtain ⟨bound, hbound⟩ : ∃ bound,
          (ws₁ ++ (text₁ ++ (ws₂ ++ ',' :: (ws₃ ++ (text₂ ++ wend)))) ++ ['\x7d'] ++
            rest).length + 1 = bound + 3 := by
        refine Nat.exists_eq_add_of_le' ?_
        simp only [List.length_append, List.length_cons, List.length_nil]
        omega
      rw [hbound, htext₁, htext₂]
      refine takes_hasMember_first hws₁ ?_
      rw [if_pos rfl]
      refine takes_bind_readRest _ ?_
      simp only [if_true, Option.isSome_none, Bool.false_eq_true, if_false]
      refine takes_readColon hwc₁ (hfirst.bind hwv₁ hv ?_)
      refine takes_hasMember_next hws₂ hws₃ ?_
      rw [if_pos rfl]
      refine takes_bind_readRest _ ?_
      simp only [hne, if_true, Option.isSome_none, Bool.false_eq_true, if_false]
      refine takes_readColon hwc₂ (hsecond.bind hwv₂ hw ?_)
      exact takes_hasMember_end hend false (takes_pure _ _)

/-! ### Whole texts -/

/-- A text of a value with blanks around it is read as the value. -/
lemma read_of_decodes {r : Reader α} {v : Value} {a : α} (h : Decodes r v a)
    {ws text ws' : List Char} (hws : Blanks ws) (htext : Spells v text) (hws' : Blanks ws') :
    read r (ws ++ text ++ ws') = .ok a := by
  have hrun : r.run (ws ++ text ++ ws') = .ok a ws' := h ws text ws' hws htext
  have hdrop : ws'.dropWhile isSpace = [] := by
    rw [← List.append_nil ws']
    exact dropWhile_blanks hws' (by simp)
  rw [read, hrun]
  simp [hdrop]

end CallGuard.Json
