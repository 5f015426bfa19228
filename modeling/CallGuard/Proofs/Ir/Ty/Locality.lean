import CallGuard.Proofs.Ir.Reads
import CallGuard.Proofs.Ir.Ty.Grammar

/-!
Types are read from their own tokens. What stands behind them matters only where it goes on
with the type: a reader that has read a type reads it again from the same tokens in any other
place.

* `TypeGrammar.typeStart`: tokens at which a type can start.
* `TypeGrammar.Extends`: tokens that go on with a type.
* `TypeGrammar.Local`: every reader of the grammar reads the same tokens again.
* `SpellsType`: tokens that are read as a type, with none left.
* `SpellsType.leads_parseType`: they are read so wherever nothing extends them.
-/

namespace CallGuard.Ir

namespace TypeGrammar

open Parse

/-- Whether a type can start with these tokens. -/
def typeStart : List Token → Bool
  | .word w :: ts =>
    if w = "target" then ts.head? == some .lparen else (Ty.ofKeyword? w).isSome
  | .localName _ :: _ | .lbrace :: _ | .lbracket :: _ | .less :: _ => true
  | _ => false

/-- The address space of the pointer type that the tokens `ts` spell stands first in the tokens
`rest`. -/
def SpaceAhead (ts rest : List Token) : Prop :=
  ts = [.word "ptr"] ∧ rest.head? = some (.word "addrspace")

/-- The tokens `rest` go on with the type that the tokens `ts` spell. -/
def Extends (ts rest : List Token) : Prop :=
  SuffixAhead rest ∨ SpaceAhead ts rest

/-! ### Looking ahead -/

lemma atType_eq (c : Cursor) : c.atType = typeStart c.ahead := by
  rw [Cursor.atType, Cursor.peek_eq]
  cases hahead : c.ahead with
  | nil => rfl
  | cons t ts =>
      cases t with
      | word w =>
          have hnext : (c.peekAt 1 == .lparen) = (ts.head? == some .lparen) := by
            rw [Bool.eq_iff_iff, beq_iff_eq, beq_iff_eq, Cursor.peekAt_eq_iff (by decide), hahead,
              List.head?_eq_getElem?]
            rfl
          rw [typeStart, ← hnext]
          rfl
      | _ => rfl

lemma ne_nil_of_typeStart {ts : List Token} (h : typeStart ts = true) : ts ≠ [] := by
  rintro rfl
  exact absurd h (by decide)

lemma typeStart_append {ts : List Token} (h : typeStart ts = true) (rest : List Token) :
    typeStart (ts ++ rest) = true := by
  cases ts with
  | nil => exact absurd h (by decide)
  | cons t ts =>
      cases t with
      | word w =>
          rw [List.cons_append, typeStart]
          rw [typeStart] at h
          split
          · rename_i heq
            rw [if_pos heq, beq_iff_eq] at h
            rw [List.head?_append, h]
            rfl
          · rename_i hne
            rwa [if_neg hne] at h
      | _ => exact h

/-- The first token of a type is not punctuation that ends lists, a numeral or points. -/
lemma head?_ne_of_typeStart {ts : List Token} (h : typeStart ts = true) {u : Token}
    (hu : Ty.startsWith u = false) (rest : List Token) : (ts ++ rest).head?.getD .eof ≠ u := by
  cases ts with
  | nil => exact absurd h (by decide)
  | cons t ts =>
      rintro rfl
      rw [List.cons_append, List.head?_cons, Option.getD_some] at hu
      cases t <;> simp_all [typeStart, Ty.startsWith]

/-- A token that did not stand before some tokens does not stand before them elsewhere. -/
lemma leads_eat_of_read {t : Token} {ts rest : List Token} (hts : ts ≠ [])
    (h : (ts ++ rest).head?.getD .eof ≠ t) (more : List Token) :
    Leads (eat t) [] (ts ++ more) (pure false) := by
  obtain ⟨u, ts, rfl⟩ := List.exists_cons_of_ne_nil hts
  exact leads_eat_of_ne h

lemma not_extends_of_typeEnds (ts : List Token) {rest : List Token} (h : TypeEnds rest) :
    ¬ Extends ts rest := by
  rintro (hsuffix | ⟨-, hword⟩)
  · exact not_suffixAhead_of_typeEnds h hsuffix
  · exact (h _ hword).2.2 rfl

/-! ### Reading again -/

/-- The tokens `ts` are read again as `a` by every reader of at least the depth `d`, whatever
stands behind them. -/
def Again {α : Type} (p : Nat → Parse α) (d : Nat) (ts : List Token) (a : α) : Prop :=
  ∀ d' ≥ d, ∀ more, Leads (p d') ts more (pure a)

/-- The reader of types has read the tokens `ts` of the type `t`. -/
structure TypeRead (d : Nat) (ts : List Token) (t : Ty) : Prop where
  start : typeStart ts = true
  again : ∀ d' ≥ d, ∀ more, ¬ Extends ts more → Leads (type d') ts more (pure t)

/-- The reader of types without suffixes has read the tokens `ts` of the type `t`, behind the
token `first` and before the tokens `rest`. -/
structure BaseRead (d : Nat) (first : Token) (ts : List Token) (t : Ty) (rest : List Token) :
    Prop where
  start : typeStart (first :: ts) = true
  ends : ¬ SpaceAhead (first :: ts) rest
  again : ∀ d' ≥ d, ∀ line more, ¬ SpaceAhead (first :: ts) more →
    Leads (base d' line first) ts more (pure t)

/-- What the readers of depth `d` have read, they read again where nothing extends it. -/
structure Local (d : Nat) : Prop where
  type : Reads (type d) fun ts t _ => TypeRead d ts t
  base : ∀ line first, Reads (base d line first) (BaseRead d first)
  suffixes : ∀ t, Reads (suffixes d t) fun ts t' _ =>
    ∀ d' ≥ d, ∀ more, ¬ SuffixAhead more → Leads (TypeGrammar.suffixes d' t) ts more (pure t')
  structBody : Reads (structBody d) fun ts a _ => Again structBody d ts a
  fields : Reads (fields d) fun ts a _ => ts ≠ [] ∧ Again fields d ts a
  params : Reads (params d) fun ts a _ => ts.head? = some .lparen ∧ Again params d ts a
  moreParams : Reads (moreParams d) fun ts a _ => ts ≠ [] ∧ Again moreParams d ts a
  targetArguments : Reads (targetArguments d) fun ts a _ =>
    (∀ more, TypeEnds (ts ++ more)) ∧ Again targetArguments d ts a

lemma Local.zero : Local 0 where
  type := reads_throw _ _
  base _ _ := reads_throw _ _
  suffixes _ := reads_throw _ _
  structBody := reads_throw _ _
  fields := reads_throw _ _
  params := reads_throw _ _
  moreParams := reads_throw _ _
  targetArguments := reads_throw _ _

lemma exists_succ {d d' : Nat} (h : d' ≥ d + 1) : ∃ k ≥ d, d' = k + 1 :=
  ⟨d' - 1, by omega, by omega⟩

lemma Again.succ {α : Type} {p : Nat → Parse α} {d : Nat} {ts : List Token} {a : α}
    (h : ∀ k ≥ d, ∀ more, Leads (p (k + 1)) ts more (pure a)) : Again p (d + 1) ts a := by
  intro d' hd more
  obtain ⟨k, hk, rfl⟩ := exists_succ hd
  exact h k hk more

/-- A type in a list, behind which the list goes on or ends. -/
lemma TypeRead.leads {d : Nat} {ts : List Token} {t : Ty} (h : TypeRead d ts t) {k : Nat}
    (hk : k ≥ d) {u : Token} (hu : u ≠ .star ∧ u ≠ .lparen ∧ u ≠ .word "addrspace")
    (more : List Token) : Leads (type k) ts (u :: more) (pure t) :=
  h.again k hk _ (not_extends_of_typeEnds ts (typeEnds_cons hu more))

/-- Behind a first token other than the pointer's, no address space follows. -/
lemma BaseRead.of_ne {d : Nat} {first : Token} {ts rest : List Token} {t : Ty}
    (hne : first ≠ .word "ptr") (hstart : typeStart (first :: ts) = true)
    (h : ∀ k ≥ d, ∀ line more, Leads (TypeGrammar.base (k + 1) line first) ts more (pure t)) :
    BaseRead (d + 1) first ts t rest where
  start := hstart
  ends hspace := hne (List.cons.inj hspace.1).1
  again d' hd line more _ := by
    obtain ⟨k, hk, rfl⟩ := exists_succ hd
    exact h k hk line more

/-! ### Numbers and names -/

lemma reads_spaceNumber : Reads spaceNumber fun ts n _ =>
    ∃ text, ts = [.lparen, .integer text, .rparen] ∧
      ∀ more, Leads spaceNumber ts more (pure n) := by
  refine reads_bind_expect (by decide) _ (reads_bind_expectUInt32 _ fun n => ?_)
  refine reads_bind_expect (by decide) _ (reads_pure fun rest text hagain => ?_)
  refine ⟨text, rfl, fun more => ?_⟩
  exact .bind_cons (leads_expect .lparen _ _) (.bind_cons (hagain _)
    (.bind_cons (leads_expect .rparen _ _) (leads_pure n more)))

lemma reads_bind_spaceNumber {β : Type} {f : UInt32 → Parse β}
    {R : List Token → β → List Token → Prop}
    (h : ∀ n, Reads (f n) fun ts b rest => ∀ text,
      (∀ more, Leads spaceNumber [.lparen, .integer text, .rparen] more (pure n)) →
        R (.lparen :: .integer text :: .rparen :: ts) b rest) :
    Reads (spaceNumber >>= f) R := by
  refine reads_spaceNumber.bind fun ts n => (h n).mono fun ts' b rest hR hn => ?_
  obtain ⟨text, rfl, hagain⟩ := hn
  exact hR text hagain

lemma reads_reference (line : Nat) (name : String) :
    Reads (reference line name) fun ts t _ => ts = [] ∧ ∀ line', reference line' name = pure t := by
  rw [reference]
  split
  · rename_i hnone
    exact reads_pure fun _ => ⟨rfl, fun line' => by rw [reference, hnone]⟩
  · rename_i n hsome
    split
    · rename_i hn
      refine reads_pure fun _ => ⟨rfl, fun line' => ?_⟩
      rw [reference, hsome]
      exact if_pos hn
    · exact reads_throw _ _

/-! ### Types without suffixes -/

/-- The reader of a vector type behind what says whether its length varies. -/
def vectorTail (scalable : Bool) (depth : Nat) : Parse Ty := do
  let length ← expectUInt64 "vector length"
  expectKeyword "x" "vector type"
  let element ← type depth
  expect .greater "vector type"
  return .vector length scalable element

namespace Local

variable {d : Nat}

lemma type_succ (h : Local d) : Reads (TypeGrammar.type (d + 1)) fun ts t _ =>
    TypeRead (d + 1) ts t := by
  rw [TypeGrammar.type]
  refine reads_get fun c => Reads.mono ?_ fun _ _ _ hR _ => hR
  refine reads_next ?_ fun first => ?_
  · refine (h.base c.line .eof).bind fun ts t => (h.suffixes t).mono fun ts' t' rest _ hbase => ?_
    exact absurd hbase.start (by simp [typeStart])
  refine (h.base c.line first).bind fun ts t =>
    (h.suffixes t).mono fun ts' t' rest hsuffixes hbase => ?_
  refine ⟨typeStart_append hbase.start ts', fun d' hd more hmore => ?_⟩
  obtain ⟨k, hk, rfl⟩ := exists_succ hd
  refine (leads_type_of_base fun line => hbase.again k hk line _ ?_).trans
    (hsuffixes k hk more fun hsuffix => hmore (.inl hsuffix))
  -- the next token is behind the type, or it was there when the type was read
  rintro ⟨hts, hhead⟩
  cases ts' with
  | nil => exact hmore (.inr ⟨by rwa [List.append_nil], hhead⟩)
  | cons u ts' => exact hbase.ends ⟨hts, hhead⟩

/-- The pointer type, with its address space. -/
lemma base_ptr (d line : Nat) : Reads (TypeGrammar.base (d + 1) line (.word "ptr"))
    (BaseRead (d + 1) (.word "ptr")) := by
  rw [TypeGrammar.base]
  refine reads_bind_eat (by simp) ?_ ?_
  · refine reads_bind_spaceNumber fun n => reads_pure fun rest text hagain => ?_
    refine ⟨rfl, by simp [SpaceAhead], fun d' hd line' more _ => ?_⟩
    obtain ⟨k, -, rfl⟩ := exists_succ hd
    rw [TypeGrammar.base]
    exact .bind_cons (leads_eat (.word "addrspace") _)
      (.bind_end (hagain more) (leads_pure (Ty.ptr n) more))
  · refine reads_pure fun rest hnext => ?_
    refine ⟨rfl, fun hspace => hnext (by simp [hspace.2]), fun d' hd line' more hmore => ?_⟩
    obtain ⟨k, -, rfl⟩ := exists_succ hd
    exact leads_base_ptr k line' 0 fun _ hhead => hmore ⟨rfl, hhead⟩

/-- The types that a word starts. -/
lemma base_word (h : Local d) (line : Nat) (w : String) :
    Reads (TypeGrammar.base (d + 1) line (.word w)) (BaseRead (d + 1) (.word w)) := by
  by_cases hptr : w = "ptr"
  · rw [hptr]
    exact base_ptr d line
  have hne : Token.word w ≠ .word "ptr" := by simpa using hptr
  rw [TypeGrammar.base]
  dsimp only
  rw [if_neg hptr]
  split
  · rename_i htarget
    subst htarget
    refine reads_bind_expect (by decide) _ (reads_bind_expectString _ fun name => ?_)
    refine h.targetArguments.bind fun ts a => reads_pure fun rest harguments => ?_
    refine .of_ne hne rfl fun k hk line' more => ?_
    rw [TypeGrammar.base]
    refine .bind_cons (leads_expect .lparen _ _) (.bind_cons (leads_expectString name _ _) ?_)
    exact .bind (harguments.2 k hk _) (leads_pure (Ty.target name a.1 a.2) more)
  · rename_i htarget
    split
    · rename_i t ht
      refine reads_pure fun rest => .of_ne hne ?_ fun k _ line' more =>
        leads_base_keyword k line' hptr htarget ht more
      rw [typeStart, if_neg htarget, ht]
      rfl
    · exact reads_throw _ _

lemma reads_vectorTail (h : Local d) (scalable : Bool) : Reads (vectorTail scalable d)
    fun ts t _ => ts ≠ [] ∧ Again (vectorTail scalable) d ts t := by
  refine reads_bind_expectUInt64 _ fun length => ?_
  refine reads_bind_expectKeyword _ _ (h.type.bind fun ts t => ?_)
  refine reads_bind_expect (by decide) _ (reads_pure fun rest ht text hlength => ?_)
  refine ⟨by simp, fun k hk more => ?_⟩
  refine .bind_cons (hlength _) (.bind_cons (leads_expectKeyword "x" _ _) ?_)
  refine .bind (ht.leads hk (by decide) _) ?_
  exact .bind_cons (leads_expect .greater _ _) (leads_pure (Ty.vector length scalable t) more)

/-- Packed structures and vectors. -/
lemma base_less (h : Local d) (line : Nat) :
    Reads (TypeGrammar.base (d + 1) line .less) (BaseRead (d + 1) .less) := by
  rw [TypeGrammar.base]
  refine reads_bind_eat (by decide) ?_ (reads_bind_eat (by simp) ?_ ?_)
  · refine h.structBody.bind fun ts fields => ?_
    refine reads_bind_expect (by decide) _ (reads_pure fun rest hfields => ?_)
    refine .of_ne (by simp) rfl fun k hk line' more => ?_
    rw [TypeGrammar.base]
    refine .bind_cons (leads_eat .lbrace _) ?_
    exact .bind (hfields k hk _)
      (.bind_cons (leads_expect .greater _ _) (leads_pure (Ty.struct true fields) more))
  · refine reads_bind_expectKeyword _ _ ((h.reads_vectorTail true).mono ?_)
    rintro ts t rest ⟨-, hagain⟩ _
    refine .of_ne (by simp) rfl fun k hk line' more => ?_
    rw [TypeGrammar.base]
    refine .bind_nil (leads_eat_of_ne (by simp)) ?_
    refine .bind_cons (leads_eat (.word "vscale") _) ?_
    exact .bind_cons (leads_expectKeyword "x" _ _) (hagain k hk more)
  · refine Reads.mono (h.reads_vectorTail false) ?_
    rintro ts t rest ⟨hts, hagain⟩ hvscale hlbrace
    refine .of_ne (by simp) rfl fun k hk line' more => ?_
    rw [TypeGrammar.base]
    refine .bind_nil (leads_eat_of_read hts hlbrace more) ?_
    exact .bind_nil (leads_eat_of_read hts hvscale more) (hagain k hk more)

lemma base_succ (h : Local d) (line : Nat) (first : Token) :
    Reads (TypeGrammar.base (d + 1) line first) (BaseRead (d + 1) first) := by
  cases first with
  | word w => exact h.base_word line w
  | less => exact h.base_less line
  | localName name =>
      rw [TypeGrammar.base]
      refine (reads_reference line name).mono ?_
      rintro ts t rest ⟨rfl, hagain⟩
      exact .of_ne (by simp) rfl fun k _ line' more =>
        leads_base_localName k line' (hagain line') more
  | lbrace =>
      rw [TypeGrammar.base]
      refine h.structBody.bind fun ts fields => reads_pure fun rest hfields => ?_
      refine .of_ne (by simp) rfl fun k hk line' more => ?_
      rw [TypeGrammar.base]
      exact .bind (hfields k hk _) (leads_pure (Ty.struct false fields) more)
  | lbracket =>
      rw [TypeGrammar.base]
      refine reads_bind_expectUInt64 _ fun length => ?_
      refine reads_bind_expectKeyword _ _ (h.type.bind fun ts t => ?_)
      refine reads_bind_expect (by decide) _ (reads_pure fun rest ht text hlength => ?_)
      refine .of_ne (by simp) rfl fun k hk line' more => ?_
      rw [TypeGrammar.base]
      refine .bind_cons (hlength _) (.bind_cons (leads_expectKeyword "x" _ _) ?_)
      refine .bind (ht.leads hk (by decide) _) ?_
      exact .bind_cons (leads_expect .rbracket _ _) (leads_pure (Ty.array length t) more)
  | _ => exact reads_throw _ _

/-! ### Suffixes -/

lemma suffixes_succ (h : Local d) (t : Ty) : Reads (TypeGrammar.suffixes (d + 1) t)
    fun ts t' _ => ∀ d' ≥ d + 1, ∀ more, ¬ SuffixAhead more →
      Leads (TypeGrammar.suffixes d' t) ts more (pure t') := by
  rw [TypeGrammar.suffixes]
  refine reads_get fun c => ?_
  split
  · rename_i hstar
    refine reads_shown hstar (by decide) fun _ => (h.suffixes _).mono ?_
    intro ts t' rest hsuffixes _ d' hd more hmore
    obtain ⟨k, hk, rfl⟩ := exists_succ hd
    have hstar' := leads_suffixes_star k t 0 (ts ++ more)
    exact hstar'.trans (hsuffixes k hk more hmore)
  split
  · rename_i hspace
    have hword : c.peek = .word "addrspace" :=
      (Cursor.peek_eq_iff (by simp)).mpr ((atSpaceSuffix_iff c).mp hspace).1
    refine reads_shown hword (by simp) fun _ => reads_bind_spaceNumber fun n => ?_
    refine reads_bind_expect (by decide) _ ((h.suffixes _).mono ?_)
    intro ts t' rest hsuffixes text hagain _ d' hd more hmore
    obtain ⟨k, hk, rfl⟩ := exists_succ hd
    exact (leads_suffixes_space k t hagain _).trans (hsuffixes k hk more hmore)
  split
  · rename_i hlparen
    refine Reads.mono (h.params.bind fun ts a => (h.suffixes _).mono ?_) fun _ _ _ hR _ => hR
    rintro ts' t' rest hsuffixes ⟨hhead, hparams⟩ d' hd more hmore
    obtain ⟨k, hk, rfl⟩ := exists_succ hd
    obtain ⟨ts, rfl⟩ := List.head?_eq_some_iff.mp hhead
    exact (leads_suffixes_params k t (hparams k hk _)).trans (hsuffixes k hk more hmore)
  · refine reads_pure fun rest _ d' hd more hmore => ?_
    obtain ⟨k, -, rfl⟩ := exists_succ hd
    exact leads_suffixes_of_not k t hmore

/-! ### Lists -/

lemma structBody_succ (h : Local d) : Reads (TypeGrammar.structBody (d + 1)) fun ts a _ =>
    Again TypeGrammar.structBody (d + 1) ts a := by
  rw [TypeGrammar.structBody]
  refine reads_bind_eat (by decide) (reads_pure fun rest => .succ fun k _ more => ?_) ?_
  · rw [TypeGrammar.structBody]
    exact .bind_cons (leads_eat .rbrace _) (leads_pure [] more)
  · refine Reads.mono h.fields ?_
    rintro ts a rest ⟨hts, hfields⟩ hnext
    refine .succ fun k hk more => ?_
    rw [TypeGrammar.structBody]
    exact .bind_nil (leads_eat_of_read hts hnext more) (hfields k hk more)

lemma fields_succ (h : Local d) : Reads (TypeGrammar.fields (d + 1)) fun ts a _ =>
    ts ≠ [] ∧ Again TypeGrammar.fields (d + 1) ts a := by
  rw [TypeGrammar.fields]
  refine h.type.bind fun ts t => reads_bind_eat (by decide) ?_ ?_
  · refine h.fields.bind fun ts' fields => reads_pure fun rest hfields ht => ?_
    refine ⟨by simp, .succ fun k hk more => ?_⟩
    rw [TypeGrammar.fields, List.append_nil]
    refine .bind (ht.leads hk (by decide) _) (.bind_cons (leads_eat .comma _) ?_)
    exact (hfields.2 k hk more).bind_end (leads_pure (t :: fields) more)
  · refine reads_bind_expect (by decide) _ (reads_pure fun rest _ ht => ?_)
    refine ⟨by simp, .succ fun k hk more => ?_⟩
    rw [TypeGrammar.fields]
    refine .bind (ht.leads hk (by decide) _) (.bind_nil (leads_eat_of_ne (by simp)) ?_)
    exact .bind_cons (leads_expect .rbrace _ _) (leads_pure [t] more)

lemma params_succ (h : Local d) : Reads (TypeGrammar.params (d + 1)) fun ts a _ =>
    ts.head? = some .lparen ∧ Again TypeGrammar.params (d + 1) ts a := by
  rw [TypeGrammar.params]
  refine reads_bind_expect (by decide) _ (reads_bind_eat (by decide) ?_ ?_)
  · refine reads_pure fun rest => ⟨rfl, .succ fun k _ more => ?_⟩
    rw [TypeGrammar.params]
    exact .bind_cons (leads_expect .lparen _ _)
      (.bind_cons (leads_eat .rparen _) (leads_pure ([], false) more))
  · refine Reads.mono h.moreParams ?_
    rintro ts a rest ⟨hts, hparams⟩ hnext
    refine ⟨rfl, .succ fun k hk more => ?_⟩
    rw [TypeGrammar.params]
    exact .bind_cons (leads_expect .lparen _ _)
      (.bind_nil (leads_eat_of_read hts hnext more) (hparams k hk more))

lemma moreParams_succ (h : Local d) : Reads (TypeGrammar.moreParams (d + 1)) fun ts a _ =>
    ts ≠ [] ∧ Again TypeGrammar.moreParams (d + 1) ts a := by
  rw [TypeGrammar.moreParams]
  refine reads_bind_eat (by decide) ?_ (h.type.bind fun ts t => reads_bind_eat (by decide) ?_ ?_)
  · refine reads_bind_expect (by decide) _ (reads_pure fun rest => ?_)
    refine ⟨by simp, .succ fun k _ more => ?_⟩
    rw [TypeGrammar.moreParams]
    exact .bind_cons (leads_eat .ellipsis _)
      (.bind_cons (leads_expect .rparen _ _) (leads_pure ([], true) more))
  · refine h.moreParams.bind fun ts' a => reads_pure fun rest hparams ht _ => ?_
    refine ⟨by simp, .succ fun k hk more => ?_⟩
    rw [TypeGrammar.moreParams, List.append_nil]
    refine .bind_nil (leads_eat_of_ne ?_) ?_
    · rw [List.append_assoc]
      exact head?_ne_of_typeStart ht.start rfl _
    refine .bind (ht.leads hk (by decide) _) (.bind_cons (leads_eat .comma _) ?_)
    exact (hparams.2 k hk more).bind_end (leads_pure (t :: a.1, a.2) more)
  · refine reads_bind_expect (by decide) _ (reads_pure fun rest _ ht _ => ?_)
    refine ⟨by simp, .succ fun k hk more => ?_⟩
    rw [TypeGrammar.moreParams]
    refine .bind_nil (leads_eat_of_ne ?_) ?_
    · rw [List.append_assoc]
      exact head?_ne_of_typeStart ht.start rfl _
    refine .bind (ht.leads hk (by decide) _) (.bind_nil (leads_eat_of_ne (by simp)) ?_)
    exact .bind_cons (leads_expect .rparen _ _) (leads_pure ([t], false) more)

/-- A type among the arguments of a target type, behind its comma. -/
lemma reads_targetType (h : Local d) : Reads (do
      let t ← TypeGrammar.type d
      let (types, ints) ← TypeGrammar.targetArguments d
      return (t :: types, ints))
    fun ts a _ => Again TypeGrammar.targetArguments (d + 1) (.comma :: ts) a := by
  refine h.type.bind fun ts t => h.targetArguments.bind fun ts' a => ?_
  refine reads_pure fun rest ⟨hends, harguments⟩ ht => .succ fun k hk more => ?_
  obtain ⟨first, later, rfl⟩ := List.exists_cons_of_ne_nil (ne_nil_of_typeStart ht.start)
  have htype : Leads (TypeGrammar.type k) (first :: later) (ts' ++ more) (pure t) :=
    ht.again k hk _ (not_extends_of_typeEnds _ (hends more))
  rw [TypeGrammar.targetArguments, List.append_nil]
  refine .bind_cons (leads_eat .comma _) (leads_peek (t := first) rfl ?_)
  cases first with
  | integer => exact absurd ht.start (by simp [typeStart])
  | _ => exact .bind htype ((harguments k hk more).bind_end (leads_pure (t :: a.1, a.2) more))

lemma targetArguments_succ (h : Local d) : Reads (TypeGrammar.targetArguments (d + 1))
    fun ts a _ =>
      (∀ more, TypeEnds (ts ++ more)) ∧ Again TypeGrammar.targetArguments (d + 1) ts a := by
  rw [TypeGrammar.targetArguments]
  refine reads_bind_eat (by decide) (reads_peek fun u => ?_) ?_
  · refine Reads.mono ?_ fun ts a rest (hR : Again _ _ _ _) _ =>
      ⟨fun more => typeEnds_cons (by decide) _, hR⟩
    cases u with
    | integer text =>
        refine reads_bind_expectUInt32 _ fun n => h.targetArguments.bind fun ts a => ?_
        refine reads_pure fun rest harguments text' hagain => .succ fun k hk more => ?_
        rw [TypeGrammar.targetArguments, List.append_nil]
        refine .bind_cons (leads_eat .comma _) (leads_peek (t := .integer text') rfl ?_)
        exact .bind_cons (hagain _)
          ((harguments.2 k hk more).bind_end (leads_pure (a.1, n :: a.2) more))
    | _ => exact h.reads_targetType
  · refine reads_bind_expect (by decide) _ (reads_pure fun rest _ => ?_)
    refine ⟨fun more => typeEnds_cons (by decide) _, .succ fun k _ more => ?_⟩
    rw [TypeGrammar.targetArguments]
    exact .bind_nil (leads_eat_of_ne (by simp))
      (.bind_cons (leads_expect .rparen _ _) (leads_pure ([], []) more))

lemma succ (h : Local d) : Local (d + 1) where
  type := h.type_succ
  base := h.base_succ
  suffixes := h.suffixes_succ
  structBody := h.structBody_succ
  fields := h.fields_succ
  params := h.params_succ
  moreParams := h.moreParams_succ
  targetArguments := h.targetArguments_succ

end Local

/-- Every reader of the grammar reads the same tokens again. -/
lemma isLocal (d : Nat) : Local d := by
  induction d with
  | zero => exact .zero
  | succ d ih => exact ih.succ

end TypeGrammar

/-! ### Spellings -/

/-- The tokens `ts` spell the type `t`: the reader of types reads all of them as `t`. -/
def SpellsType (ts : List Token) (t : Ty) : Prop :=
  ∃ ls c, ls.map Located.token = ts ∧ parseType (Cursor.ofTokens ls) = .ok t c ∧ c.rest = []

/-- The tokens of a type that is not written like another one spell this type. -/
lemma spellsType_tokens {t : Ty} (h : t.Readable) : SpellsType t.tokens t := by
  obtain ⟨ls, hls⟩ : ∃ ls : List Located, ls.map Located.token = t.tokens :=
    ⟨t.tokens.map fun u => ⟨u, 0, 0, 0, 0⟩, by simp [Function.comp_def]⟩
  have hlead := @leads_parseType t h [] (fun u hu => by simp at hu) [] ls [] hls rfl
  rw [List.append_nil] at hlead
  exact ⟨ls, _, hls, hlead, rfl⟩

namespace SpellsType

variable {ts : List Token} {t : Ty}

/-- A spelling starts like a type, and a reader that allows for its length reads it again. -/
lemma typeRead (h : SpellsType ts t) : TypeGrammar.TypeRead (4 * ts.length + 4) ts t := by
  obtain ⟨ls, c, rfl, hread, hend⟩ := h
  rw [parseType, Parse.run_get, TypeGrammar.depthFor, Cursor.ofTokens] at hread
  obtain ⟨read, left, hls, rfl, htype⟩ := (TypeGrammar.isLocal _).type [] ls t c hread
  obtain rfl : left = [] := hend
  rw [List.append_nil] at hls
  rw [List.length_map, hls]
  rwa [hls] at htype

lemma typeStart (h : SpellsType ts t) : TypeGrammar.typeStart ts = true :=
  h.typeRead.start

/-- **Types are read locally.** The tokens of a type are read as this type wherever what stands
behind them does not go on with it. -/
theorem leads_parseType (h : SpellsType ts t) {rest : List Token}
    (hrest : ¬ TypeGrammar.Extends ts rest) : Parse.Leads parseType ts rest (pure t) := by
  refine Parse.leads_get fun c hc => ?_
  have hlength : c.rest.length = ts.length + rest.length := by
    rw [← List.length_append, ← hc, Cursor.ahead, List.length_map]
  refine h.typeRead.again _ ?_ rest hrest
  rw [TypeGrammar.depthFor]
  omega

end SpellsType

end CallGuard.Ir
