import CallGuard.Ir.Ty.Parser
import CallGuard.Proofs.Ir.Reading
import CallGuard.Proofs.Ir.Ty.Misread

/-!
Reading the tokens of types.

* `TypeGrammar.TypeEnds`: what stands behind a type.
* `TypeGrammar.SuffixAhead`: what goes on with a type.
* `TypeGrammar.IsRead`: the tokens of a type are read as this type.
* `TypeGrammar.isRead`: so they are where no part is written like another type.
-/

namespace CallGuard.Ir

/-! ### Keywords -/

namespace Ty

lemma ofKeyword?_keyword (kind : KeywordType) : ofKeyword? kind.keyword = some (.keyword kind) := by
  cases kind <;> decide

lemma ofKeyword?_int (bits : UInt32) :
    ofKeyword? (String.ofList ('i' :: Text.decimal bits.toNat)) = some (.int bits) := by
  have hnone (w : String) (hw : w.toList.head? ≠ some 'i') :
      String.ofList ('i' :: Text.decimal bits.toNat) ≠ w := by
    rintro rfl
    rw [String.toList_ofList] at hw
    exact hw rfl
  have hkeyword :
      KeywordType.ofKeyword? (String.ofList ('i' :: Text.decimal bits.toNat)) = none := by
    rw [KeywordType.ofKeyword?, List.find?_eq_none]
    intro kind _ heq
    refine hnone kind.keyword ?_ (eq_of_beq heq).symm
    cases kind <;> decide
  rw [ofKeyword?, if_neg (hnone "ptr" (by decide)), hkeyword]
  simp only [String.toList_ofList, Text.readDecimal?_decimal, Option.filter_some,
    decide_eq_true bits.toNat_lt, if_true, Option.map_some, UInt32.ofNat_toNat]

end Ty

namespace TypeGrammar

open Parse Ty

/-! ### Reading the tokens of types -/

/-- The tokens do not go on with a type. -/
def TypeEnds (rest : List Token) : Prop :=
  ∀ t, rest.head? = some t → t ≠ .star ∧ t ≠ .lparen ∧ t ≠ .word "addrspace"

lemma leads_spaceNumber (space : UInt32) (rest : List Token) :
    Leads spaceNumber [.lparen, numeral space.toNat, .rparen] rest (pure space) :=
  .bind_cons (leads_expect .lparen _ _) (.bind_cons (leads_expectUInt32 space _ _)
    (.bind_cons (leads_expect .rparen _ _) (leads_pure space rest)))

/-- A type without suffixes, before its suffixes. -/
lemma leads_type_of_base {d : Nat} {first : Token} {later rest : List Token} {t : Ty}
    (h : ∀ line, Leads (base d line first) later rest (pure t)) :
    Leads (type (d + 1)) (first :: later) rest (suffixes d t) := by
  rw [type]
  refine leads_get fun c _ => .bind_cons (leads_advance first _) ?_
  rw [← List.append_nil later]
  refine .bind ?_ (.refl _ rest)
  exact h c.line

lemma leads_base_keyword (d line : Nat) {keyword : String} {t : Ty}
    (hptr : keyword ≠ "ptr") (htarget : keyword ≠ "target") (h : Ty.ofKeyword? keyword = some t)
    (rest : List Token) : Leads (base (d + 1) line (.word keyword)) [] rest (pure t) := by
  rw [base]
  simp only [if_neg hptr, if_neg htarget, h]
  exact leads_pure t rest

lemma leads_base_ptr (d line : Nat) (space : UInt32) {rest : List Token}
    (hrest : space = 0 → rest.head? ≠ some (.word "addrspace")) :
    Leads (base (d + 1) line (.word "ptr")) (spaceTokens space) rest (pure (.ptr space)) := by
  rw [base, spaceTokens]
  simp only [if_true]
  split
  · rename_i hzero
    have hne : rest.head?.getD .eof ≠ .word "addrspace" := by
      intro heq
      cases hhead : rest.head? with
      | none => simp [hhead] at heq
      | some t =>
          rw [hhead, Option.getD_some] at heq
          exact hrest hzero (heq ▸ hhead)
    rw [hzero]
    exact .bind_nil (leads_eat_of_ne hne) (leads_pure _ rest)
  · refine .bind_cons (leads_eat (.word "addrspace") _) ?_
    exact .bind_end (leads_spaceNumber space _) (leads_pure (Ty.ptr space) rest)

lemma leads_base_localName (d line : Nat) {name : String} {t : Ty}
    (h : reference line name = pure t) (rest : List Token) :
    Leads (base (d + 1) line (.localName name)) [] rest (pure t) := by
  rw [base, h]
  exact leads_pure t rest

lemma reference_of_not_isDigitName (line : Nat) {name : String} (h : ¬ (named name).IsDigitName) :
    reference line name = pure (.named name) := by
  have hnone : Text.readDecimal? name.toList = none := by
    rw [Text.readDecimal?, if_neg]
    rw [Bool.and_eq_true, List.all_eq_true, Bool.not_eq_true', List.isEmpty_eq_false_iff]
    rintro ⟨hne, hall⟩
    exact h ⟨fun hempty => hne (by rw [hempty]; rfl), hall⟩
  rw [reference, hnone]

lemma reference_decimal (line : Nat) (number : UInt32) :
    reference line (String.ofList (Text.decimal number.toNat)) = pure (.numbered number) := by
  rw [reference, String.toList_ofList, Text.readDecimal?_decimal]
  simp only [number.toNat_lt, if_true, UInt32.ofNat_toNat]

/-! ### Suffixes -/

/-- A suffix of a type stands first in the tokens. -/
def SuffixAhead (ts : List Token) : Prop :=
  ts.head? = some .star ∨ ts.head? = some .lparen ∨
    ts.head? = some (.word "addrspace") ∧ ts[1]? = some Token.lparen ∧ ts[3]? = some Token.rparen ∧
      ts[4]? = some Token.star

lemma atSpaceSuffix_iff (c : Cursor) : c.atSpaceSuffix = true ↔
    c.ahead.head? = some (.word "addrspace") ∧ c.ahead[1]? = some Token.lparen ∧
      c.ahead[3]? = some Token.rparen ∧ c.ahead[4]? = some Token.star := by
  have hword : c.peek.isKeyword "addrspace" = true ↔ c.peek = .word "addrspace" := by
    cases c.peek <;> simp [Token.isKeyword]
  simp [Cursor.atSpaceSuffix, hword, and_assoc,
    Cursor.peek_eq_iff (t := .word "addrspace") (by simp),
    Cursor.peekAt_eq_iff (t := .lparen) (by decide),
    Cursor.peekAt_eq_iff (t := .rparen) (by decide),
    Cursor.peekAt_eq_iff (t := .star) (by decide)]

lemma not_suffixAhead_of_typeEnds {rest : List Token} (h : TypeEnds rest) :
    ¬ SuffixAhead rest := by
  rintro (hstar | hlparen | ⟨hword, -⟩)
  · exact (h _ hstar).1 rfl
  · exact (h _ hlparen).2.1 rfl
  · exact (h _ hword).2.2 rfl

lemma leads_suffixes_of_not (d : Nat) (t : Ty) {rest : List Token} (hrest : ¬ SuffixAhead rest) :
    Leads (suffixes (d + 1) t) [] rest (pure t) := by
  rw [suffixes]
  refine leads_get fun c hc => ?_
  rw [List.nil_append] at hc
  have hstar : c.peek ≠ .star := by
    rw [Ne, Cursor.peek_eq_iff (by decide), hc]
    exact fun h => hrest (.inl h)
  have hlparen : c.peek ≠ .lparen := by
    rw [Ne, Cursor.peek_eq_iff (by decide), hc]
    exact fun h => hrest (.inr (.inl h))
  have hspace : ¬ c.atSpaceSuffix = true := by
    rw [atSpaceSuffix_iff, hc]
    exact fun h => hrest (.inr (.inr h))
  rw [if_neg hstar, if_neg hspace, if_neg hlparen]
  exact leads_pure t rest

lemma leads_suffixes_end (d : Nat) (t : Ty) {rest : List Token} (hrest : TypeEnds rest) :
    Leads (suffixes (d + 1) t) [] rest (pure t) :=
  leads_suffixes_of_not d t (not_suffixAhead_of_typeEnds hrest)

/-- The star of a pointer in an address space. -/
lemma leads_suffixes_space (d : Nat) (t : Ty) {n : UInt32} {text : String}
    (h : ∀ more, Leads spaceNumber [.lparen, .integer text, .rparen] more (pure n))
    (rest : List Token) :
    Leads (suffixes (d + 1) t) [.word "addrspace", .lparen, .integer text, .rparen, .star] rest
      (suffixes d (.pointer t n)) := by
  rw [suffixes]
  refine leads_get fun c hc => ?_
  have hstar : c.peek ≠ .star := by
    rw [Ne, Cursor.peek_eq_iff (by decide), hc]
    simp
  have hspace : c.atSpaceSuffix = true := by
    rw [atSpaceSuffix_iff, hc]
    exact ⟨rfl, rfl, rfl, rfl⟩
  rw [if_neg hstar, if_pos hspace]
  exact .bind_cons (leads_advance _ _) (.bind (h _)
    (.bind_cons (leads_expect .star _ _) (.refl _ rest)))

/-- The star of a pointer, with its address space. -/
lemma leads_suffixes_star (d : Nat) (t : Ty) (space : UInt32) (rest : List Token) :
    Leads (suffixes (d + 1) t) (spaceTokens space ++ [.star]) rest
      (suffixes d (.pointer t space)) := by
  rw [spaceTokens]
  split
  · rename_i hzero
    rw [suffixes]
    refine leads_get fun c hc => ?_
    have hpeek : c.peek = .star := by rw [Cursor.peek_eq, hc]; rfl
    rw [if_pos hpeek, hzero]
    exact .bind_cons (leads_advance _ _) (.refl _ rest)
  · exact leads_suffixes_space d t (leads_spaceNumber space) rest

/-- A parameter list. -/
lemma leads_suffixes_params (d : Nat) (t : Ty) {ts : List Ty} {variadic : Bool}
    {later rest : List Token} (h : Leads (params d) (.lparen :: later) rest (pure (ts, variadic))) :
    Leads (suffixes (d + 1) t) (.lparen :: later) rest (suffixes d (.func t ts variadic)) := by
  rw [suffixes]
  refine leads_get fun c hc => ?_
  have hpeek : c.peek = .lparen := by rw [Cursor.peek_eq, hc]; rfl
  have hspace : c.atSpaceSuffix = false := by
    simp [Cursor.atSpaceSuffix, hpeek, Token.isKeyword]
  rw [if_neg (by rw [hpeek]; decide), hspace, if_neg Bool.false_ne_true, if_pos hpeek]
  rw [← List.append_nil (Token.lparen :: later)]
  exact .bind h (.refl _ rest)

/-! ### Types in lists -/

/-- The tokens of a type are read as this type, with its suffixes still to be read. Every
token allows for four calls. -/
def IsRead (t : Ty) : Prop :=
  ∀ d rest, 4 * t.tokens.length ≤ d → (t = .ptr 0 → rest.head? ≠ some (.word "addrspace")) →
    ∃ d', d ≤ d' + 4 * t.tokens.length ∧ Leads (type d) t.tokens rest (suffixes d' t)

/-- A type that ends. -/
lemma IsRead.leads {t : Ty} (h : IsRead t) {d : Nat} (hd : 4 * t.tokens.length < d)
    {rest : List Token} (hrest : TypeEnds rest) : Leads (type d) t.tokens rest (pure t) := by
  obtain ⟨d', hd', hlead⟩ := h d rest hd.le fun _ hhead => (hrest _ hhead).2.2 rfl
  obtain ⟨d', rfl⟩ : ∃ k, d' = k + 1 := ⟨d' - 1, by omega⟩
  rw [← List.append_nil t.tokens]
  exact hlead.trans (leads_suffixes_end d' t hrest)

lemma typeEnds_cons {t : Token} (ht : t ≠ .star ∧ t ≠ .lparen ∧ t ≠ .word "addrspace")
    (rest : List Token) : TypeEnds (t :: rest) := by
  intro u hu
  obtain rfl := Option.some.inj hu
  exact ht

/-- No type starts with punctuation that ends lists, with a numeral or with points. -/
lemma head?_tokens_ne {t : Ty} {u : Token} (hu : startsWith u = false) (rest : List Token) :
    (t.tokens ++ rest).head?.getD .eof ≠ u := by
  obtain ⟨first, later, htokens, hfirst⟩ := t.exists_first
  rw [htokens, List.cons_append, List.head?_cons, Option.getD_some]
  rintro rfl
  rw [hu] at hfirst
  exact absurd hfirst Bool.false_ne_true

/-- What does not start a type is not read before one. -/
lemma leads_eat_before_type {u : Token} (hu : startsWith u = false) (t : Ty)
    (later rest : List Token) : Leads (eat u) [] (t.tokens ++ later ++ rest) (pure false) := by
  rw [List.append_assoc]
  exact leads_eat_of_ne (head?_tokens_ne hu _)

/-- Fields and the brace that closes them. -/
lemma leads_fields {t : Ty} {ts : List Ty} (h : ∀ s ∈ t :: ts, IsRead s) {d : Nat}
    (hd : 4 * (t.tokens ++ (tokensAfterComma ts ++ [Token.rbrace])).length ≤ d)
    (rest : List Token) :
    Leads (fields d) (t.tokens ++ (tokensAfterComma ts ++ [.rbrace])) rest (pure (t :: ts)) := by
  induction ts generalizing t d with
  | nil =>
      rw [tokensAfterComma, List.nil_append] at hd ⊢
      rw [List.length_append, List.length_singleton] at hd
      obtain ⟨d, rfl⟩ : ∃ k, d = k + 1 := ⟨d - 1, by omega⟩
      rw [fields]
      refine .bind ((h t (by simp)).leads (by omega) (typeEnds_cons (by decide) _)) ?_
      refine .bind_nil (leads_eat_of_ne (by simp)) ?_
      exact .bind_cons (leads_expect .rbrace _ _) (leads_pure [t] rest)
  | cons s ts ih =>
      rw [tokensAfterComma, List.cons_append, List.append_assoc] at hd ⊢
      rw [List.length_append, List.length_cons] at hd
      obtain ⟨d, rfl⟩ : ∃ k, d = k + 1 := ⟨d - 1, by omega⟩
      have hlater := ih (fun u hu => h u (List.mem_cons_of_mem _ hu)) (d := d) (by omega)
      rw [fields]
      refine .bind ((h t (by simp)).leads (by omega) (typeEnds_cons (by decide) _)) ?_
      refine .bind_cons (leads_eat .comma _) ?_
      rw [if_pos rfl]
      exact hlater.bind_end (leads_pure (t :: s :: ts) rest)

/-- The tokens of the fields of a structure and of the brace that closes them. -/
def bodyTokens : List Ty → List Token
  | [] => [.rbrace]
  | t :: ts => t.tokens ++ (tokensAfterComma ts ++ [.rbrace])

lemma tokens_struct (packed : Bool) (fields : List Ty) :
    (struct packed fields).tokens =
      if packed then .less :: .lbrace :: (bodyTokens fields ++ [.greater])
      else .lbrace :: bodyTokens fields := by
  cases packed <;> cases fields <;> rw [tokens] <;> rfl

lemma leads_structBody {ts : List Ty} (h : ∀ t ∈ ts, IsRead t) {d : Nat}
    (hd : 4 * (bodyTokens ts).length < d) (rest : List Token) :
    Leads (structBody d) (bodyTokens ts) rest (pure ts) := by
  obtain ⟨d, rfl⟩ : ∃ k, d = k + 1 := ⟨d - 1, by omega⟩
  rw [structBody]
  cases ts with
  | nil => exact .bind_cons (leads_eat .rbrace _) (leads_pure [] rest)
  | cons t ts =>
      rw [bodyTokens] at hd ⊢
      exact .bind_nil (leads_eat_before_type rfl _ _ _) (leads_fields h (by omega) rest)

/-- Parameters and the parenthesis that closes them. -/
lemma leads_moreParams {t : Ty} {ts : List Ty} (variadic : Bool) (h : ∀ s ∈ t :: ts, IsRead s)
    {d : Nat} (hd : 4 * (t.tokens ++ (tokensAfterComma ts ++ variadicTokens variadic)).length ≤ d)
    (rest : List Token) :
    Leads (moreParams d) (t.tokens ++ (tokensAfterComma ts ++ variadicTokens variadic)) rest
      (pure (t :: ts, variadic)) := by
  induction ts generalizing t d with
  | nil =>
      rw [tokensAfterComma, List.nil_append] at hd ⊢
      rw [List.length_append] at hd
      cases variadic with
      | false =>
          have hclose : variadicTokens false = [.rparen] := rfl
          rw [hclose] at hd ⊢
          rw [List.length_singleton] at hd
          obtain ⟨d, rfl⟩ : ∃ k, d = k + 1 := ⟨d - 1, by omega⟩
          rw [moreParams]
          refine .bind_nil (leads_eat_before_type rfl _ _ _) ?_
          refine .bind ((h t (by simp)).leads (by omega) (typeEnds_cons (by decide) _)) ?_
          refine .bind_nil (leads_eat_of_ne (by simp)) ?_
          exact .bind_cons (leads_expect .rparen _ _) (leads_pure ([t], false) rest)
      | true =>
          have hclose : variadicTokens true = [.comma, .ellipsis, .rparen] := rfl
          rw [hclose] at hd ⊢
          rw [List.length_cons, List.length_cons] at hd
          obtain ⟨d, rfl⟩ : ∃ k, d = k + 2 := ⟨d - 2, by omega⟩
          rw [moreParams]
          refine .bind_nil (leads_eat_before_type rfl _ _ _) ?_
          refine .bind ((h t (by simp)).leads (by omega) (typeEnds_cons (by decide) _)) ?_
          refine .bind_cons (leads_eat .comma _) ?_
          rw [if_pos rfl, moreParams]
          refine .bind_end (a := ([], true)) ?_ (leads_pure ([t], true) rest)
          exact .bind_cons (leads_eat .ellipsis _)
            (.bind_cons (leads_expect .rparen _ _) (leads_pure ([], true) rest))
  | cons s ts ih =>
      rw [tokensAfterComma, List.cons_append, List.append_assoc] at hd ⊢
      rw [List.length_append, List.length_cons] at hd
      obtain ⟨d, rfl⟩ : ∃ k, d = k + 1 := ⟨d - 1, by omega⟩
      have hlater := ih (fun u hu => h u (List.mem_cons_of_mem _ hu)) (d := d) (by omega)
      rw [moreParams]
      refine .bind_nil (leads_eat_before_type rfl _ _ _) ?_
      refine .bind ((h t (by simp)).leads (by omega) (typeEnds_cons (by decide) _)) ?_
      refine .bind_cons (leads_eat .comma _) ?_
      rw [if_pos rfl]
      exact hlater.bind_end (leads_pure (t :: s :: ts, variadic) rest)

lemma leads_params {ts : List Ty} (variadic : Bool) (h : ∀ t ∈ ts, IsRead t) {d : Nat}
    (hd : 4 * (paramTokens ts variadic).length < d) (rest : List Token) :
    Leads (params d) (.lparen :: paramTokens ts variadic) rest (pure (ts, variadic)) := by
  obtain ⟨d, rfl⟩ : ∃ k, d = k + 1 := ⟨d - 1, by omega⟩
  rw [params]
  refine .bind_cons (leads_expect .lparen _ _) ?_
  cases ts with
  | nil =>
      cases variadic with
      | false => exact .bind_cons (leads_eat .rparen _) (leads_pure ([], false) rest)
      | true =>
          obtain ⟨d, rfl⟩ : ∃ k, d = k + 1 := ⟨d - 1, by simp [paramTokens] at hd; omega⟩
          refine .bind_nil (leads_eat_of_ne (by simp [paramTokens])) ?_
          rw [if_neg Bool.false_ne_true, moreParams]
          exact .bind_cons (leads_eat .ellipsis _)
            (.bind_cons (leads_expect .rparen _ _) (leads_pure ([], true) rest))
  | cons t ts =>
      rw [paramTokens] at hd ⊢
      exact .bind_nil (leads_eat_before_type rfl _ _ _)
        (leads_moreParams variadic h (by omega) rest)

/-- The numbers of a target type and the parenthesis that closes it. -/
lemma leads_targetNumbers (ints : List UInt32) {d : Nat} (hd : ints.length < d)
    (rest : List Token) :
    Leads (targetArguments d)
      (ints.flatMap (fun n => [.comma, numeral n.toNat]) ++ [Token.rparen]) rest
      (pure ([], ints)) := by
  induction ints generalizing d with
  | nil =>
      obtain ⟨d, rfl⟩ : ∃ k, d = k + 1 := ⟨d - 1, by omega⟩
      rw [targetArguments]
      exact .bind_nil (leads_eat_of_ne (by simp))
        (.bind_cons (leads_expect .rparen _ _) (leads_pure ([], []) rest))
  | cons n ints ih =>
      rw [List.length_cons] at hd
      obtain ⟨d, rfl⟩ : ∃ k, d = k + 1 := ⟨d - 1, by omega⟩
      rw [targetArguments]
      refine .bind_cons (leads_eat .comma _) ?_
      rw [if_pos rfl]
      refine leads_peek (t := numeral n.toNat) rfl ?_
      refine .bind_cons (leads_expectUInt32 n _ _) ?_
      exact (ih (by omega)).bind_end (leads_pure ([], n :: ints) rest)

/-- The types and numbers of a target type and the parenthesis that closes it. -/
lemma leads_targetArguments {ts : List Ty} (ints : List UInt32) (h : ∀ t ∈ ts, IsRead t) {d : Nat}
    (hd : 4 * (tokensAfterComma ts ++
      (ints.flatMap (fun n => [.comma, numeral n.toNat]) ++ [Token.rparen])).length ≤ d)
    (rest : List Token) :
    Leads (targetArguments d)
      (tokensAfterComma ts ++
        (ints.flatMap (fun n => [.comma, numeral n.toNat]) ++ [Token.rparen])) rest
      (pure (ts, ints)) := by
  induction ts generalizing d with
  | nil =>
      have hlength : ints.length < d := by
        simp [tokensAfterComma, List.length_flatMap] at hd
        omega
      exact leads_targetNumbers ints hlength rest
  | cons t ts ih =>
      rw [tokensAfterComma, List.cons_append, List.append_assoc] at hd ⊢
      rw [List.length_cons, List.length_append] at hd
      obtain ⟨d, rfl⟩ : ∃ k, d = k + 1 := ⟨d - 1, by omega⟩
      obtain ⟨first, later, htokens, hfirst⟩ := t.exists_first
      rw [targetArguments]
      refine .bind_cons (leads_eat .comma _) ?_
      rw [if_pos rfl]
      refine leads_peek (t := first) (by rw [htokens]; rfl) ?_
      have hends : TypeEnds (tokensAfterComma ts ++
          (ints.flatMap (fun n => [.comma, numeral n.toNat]) ++ [Token.rparen]) ++ rest) := by
        cases ts <;> cases ints <;> exact typeEnds_cons (by decide) _
      have ht := (h t (by simp)).leads (d := d) (by omega) hends
      have hlater := ih (fun u hu => h u (List.mem_cons_of_mem _ hu)) (d := d) (by omega)
      cases first with
      | integer => exact absurd hfirst Bool.false_ne_true
      | _ => exact .bind ht (hlater.bind_end (leads_pure (t :: ts, ints) rest))

/-! ### Reading types -/

/-- A base without suffixes of its own is read as its type. -/
lemma isRead_of_base {first : Token} {later : List Token} {t : Ty}
    (htokens : t.tokens = first :: later)
    (h : ∀ d line rest, 4 * later.length + 2 < d → Leads (base d line first) later rest (pure t)) :
    IsRead t := by
  intro d rest hd _
  rw [htokens] at hd ⊢
  rw [List.length_cons] at hd ⊢
  obtain ⟨d, rfl⟩ : ∃ k, d = k + 1 := ⟨d - 1, by omega⟩
  exact ⟨d, by omega, leads_type_of_base fun line => h d line rest (by omega)⟩

lemma isRead_array (length : UInt64) {element : Ty} (h : IsRead element) :
    IsRead (.array length element) := by
  refine @isRead_of_base .lbracket _ _ (by rw [tokens]) fun d line rest hd => ?_
  simp only [List.length_cons, List.length_append, List.length_nil] at hd
  obtain ⟨d, rfl⟩ : ∃ k, d = k + 1 := ⟨d - 1, by omega⟩
  rw [base]
  refine .bind_cons (leads_expectUInt64 length _ _) (.bind_cons (leads_expectKeyword "x" _ _) ?_)
  refine .bind (h.leads (by omega) (typeEnds_cons (by decide) _)) ?_
  exact .bind_cons (leads_expect .rbracket _ _) (leads_pure (Ty.array length element) rest)

lemma isRead_vector (length : UInt64) (scalable : Bool) {element : Ty} (h : IsRead element) :
    IsRead (.vector length scalable element) := by
  refine @isRead_of_base .less _ _ (by rw [tokens]) fun d line rest hd => ?_
  simp only [List.length_cons, List.length_append, List.length_nil] at hd
  obtain ⟨d, rfl⟩ : ∃ k, d = k + 1 := ⟨d - 1, by omega⟩
  have hlength : Leads (do
      let length ← expectUInt64 "vector length"
      expectKeyword "x" "vector type"
      let element ← type d
      expect .greater "vector type"
      return Ty.vector length scalable element)
      (numeral length.toNat :: .word "x" :: (element.tokens ++ [.greater])) rest
      (pure (Ty.vector length scalable element)) := by
    refine .bind_cons (leads_expectUInt64 length _ _) (.bind_cons (leads_expectKeyword "x" _ _) ?_)
    refine .bind (h.leads (by omega) (typeEnds_cons (by decide) _)) ?_
    exact .bind_cons (leads_expect .greater _ _)
      (leads_pure (Ty.vector length scalable element) rest)
  rw [base]
  cases scalable with
  | false =>
      refine .bind_nil (leads_eat_of_ne (by simp [numeral])) ?_
      rw [if_neg Bool.false_ne_true]
      exact .bind_nil (leads_eat_of_ne (by simp [numeral])) hlength
  | true =>
      refine .bind_nil (leads_eat_of_ne (by simp)) ?_
      rw [if_neg Bool.false_ne_true]
      refine .bind_cons (leads_eat (.word "vscale") _) ?_
      exact .bind_cons (leads_expectKeyword "x" _ _) hlength

lemma isRead_struct (packed : Bool) {fields : List Ty} (h : ∀ t ∈ fields, IsRead t) :
    IsRead (.struct packed fields) := by
  cases packed with
  | false =>
      refine isRead_of_base (tokens_struct false fields) fun d line rest hd => ?_
      obtain ⟨d, rfl⟩ : ∃ k, d = k + 1 := ⟨d - 1, by omega⟩
      rw [base]
      exact (leads_structBody h (by omega) rest).bind_end (leads_pure (Ty.struct false fields) rest)
  | true =>
      refine isRead_of_base (tokens_struct true fields) fun d line rest hd => ?_
      rw [List.length_cons, List.length_append] at hd
      obtain ⟨d, rfl⟩ : ∃ k, d = k + 1 := ⟨d - 1, by omega⟩
      rw [base]
      refine .bind_cons (leads_eat .lbrace _) ?_
      rw [if_pos rfl]
      exact .bind (leads_structBody h (by omega) _)
        (.bind_cons (leads_expect .greater _ _) (leads_pure (Ty.struct true fields) rest))

lemma isRead_target (name : String) {types : List Ty} (ints : List UInt32)
    (h : ∀ t ∈ types, IsRead t) : IsRead (.target name types ints) := by
  refine @isRead_of_base (.word "target") _ _ (by rw [tokens]) fun d line rest hd => ?_
  rw [List.length_cons, List.length_cons] at hd
  obtain ⟨d, rfl⟩ : ∃ k, d = k + 1 := ⟨d - 1, by omega⟩
  rw [base, if_neg (by decide), if_pos rfl]
  refine .bind_cons (leads_expect .lparen _ _) (.bind_cons (leads_expectString name _ _) ?_)
  exact (leads_targetArguments ints h (by omega) rest).bind_end
    (leads_pure (Ty.target name types ints) rest)

/-- The tokens of a type that is not written like another one are read as this type. -/
lemma isRead (t : Ty) (ht : t.Readable) : IsRead t := by
  induction t using Ty.induct with
  | keyword kind =>
      refine isRead_of_base (by rw [tokens]) fun d line rest hd => ?_
      obtain ⟨d, rfl⟩ : ∃ k, d = k + 1 := ⟨d - 1, by omega⟩
      have hne : kind.keyword ≠ "ptr" ∧ kind.keyword ≠ "target" := by cases kind <;> decide
      exact leads_base_keyword d line hne.1 hne.2 (ofKeyword?_keyword kind) rest
  | int bits =>
      refine isRead_of_base (by rw [tokens]) fun d line rest hd => ?_
      obtain ⟨d, rfl⟩ : ∃ k, d = k + 1 := ⟨d - 1, by omega⟩
      have hne (w : String) (hw : w.toList.head? ≠ some 'i') :
          String.ofList ('i' :: Text.decimal bits.toNat) ≠ w := by
        rintro rfl
        rw [String.toList_ofList] at hw
        exact hw rfl
      exact leads_base_keyword d line (hne "ptr" (by decide)) (hne "target" (by decide))
        (ofKeyword?_int bits) rest
  | ptr space =>
      intro d rest hd hrest
      rw [tokens] at hd ⊢
      rw [List.length_cons] at hd ⊢
      obtain ⟨d, rfl⟩ : ∃ k, d = k + 2 := ⟨d - 2, by omega⟩
      refine ⟨d + 1, by omega, leads_type_of_base fun line => ?_⟩
      exact leads_base_ptr d line space fun hzero => hrest (by rw [hzero])
  | pointer pointee space ih =>
      obtain ⟨⟨-, hspaced⟩, hpointee⟩ := everywhere_pointer.mp ht
      intro d rest hd _
      rw [tokens] at hd ⊢
      rw [List.length_append, List.length_append, List.length_singleton] at hd ⊢
      have hnext : pointee = .ptr 0 →
          (spaceTokens space ++ [Token.star] ++ rest).head? ≠ some (.word "addrspace") := by
        intro hpointee'
        have hzero : space = 0 := by_contra fun hne => hspaced ⟨hpointee', hne⟩
        rw [hzero, spaceTokens, if_pos rfl]
        simp
      obtain ⟨d', hd', hlead⟩ := ih hpointee d _ (by omega) hnext
      obtain ⟨d', rfl⟩ : ∃ k, d' = k + 1 := ⟨d' - 1, by omega⟩
      exact ⟨d', by omega, hlead.trans (leads_suffixes_star d' pointee space rest)⟩
  | array length element ih => exact isRead_array length (ih (everywhere_array.mp ht).2)
  | vector length scalable element ih =>
      exact isRead_vector length scalable (ih (everywhere_vector.mp ht).2)
  | struct packed fields ih =>
      exact isRead_struct packed fun t hmem => ih t hmem ((everywhere_struct.mp ht).2 t hmem)
  | named name =>
      refine isRead_of_base (by rw [tokens]) fun d line rest hd => ?_
      obtain ⟨d, rfl⟩ : ∃ k, d = k + 1 := ⟨d - 1, by omega⟩
      exact leads_base_localName d line (reference_of_not_isDigitName line ht.self.1) rest
  | numbered number =>
      refine isRead_of_base (by rw [tokens]) fun d line rest hd => ?_
      obtain ⟨d, rfl⟩ : ∃ k, d = k + 1 := ⟨d - 1, by omega⟩
      exact leads_base_localName d line (reference_decimal line number) rest
  | func ret ps variadic ihret ihparams =>
      obtain ⟨-, hret, hparams⟩ := everywhere_func.mp ht
      intro d rest hd _
      rw [tokens_func] at hd ⊢
      rw [List.length_append, List.length_cons] at hd ⊢
      obtain ⟨d', hd', hlead⟩ := ihret hret d (.lparen :: paramTokens ps variadic ++ rest)
        (by omega) fun _ => by simp
      obtain ⟨d', rfl⟩ : ∃ k, d' = k + 1 := ⟨d' - 1, by omega⟩
      have hlist := leads_params variadic (fun t hmem => ihparams t hmem (hparams t hmem))
        (d := d') (by omega) rest
      exact ⟨d', by omega, hlead.trans (leads_suffixes_params d' ret hlist)⟩
  | target name types ints ih =>
      exact isRead_target name ints fun t hmem => ih t hmem ((everywhere_target.mp ht).2 t hmem)

end TypeGrammar

open Parse in
lemma leads_parseType {t : Ty} (ht : t.Readable) {rest : List Token}
    (hrest : TypeGrammar.TypeEnds rest) : Leads parseType t.tokens rest (pure t) := by
  refine leads_get fun c hc => ?_
  have hlength : c.rest.length = t.tokens.length + rest.length := by
    rw [← List.length_append, ← hc, Cursor.ahead, List.length_map]
  refine (TypeGrammar.isRead t ht).leads ?_ hrest
  rw [TypeGrammar.depthFor]
  omega

end CallGuard.Ir
