import CallGuard.Proofs.Ir.CallForms

/-!
Reading written instructions.

* `Listing.Call.form`: the parts of a written call.
* `Listing.read_tokens`: reading an instruction.
-/

namespace CallGuard.Ir

open Parse

/-! ### Where types start -/

lemma typeStart_tokens (t : Ty) : TypeGrammar.typeStart t.tokens = true := by
  induction t using Ty.induct with
  | keyword kind => cases kind <;> decide
  | int bits =>
      have hne : String.ofList ('i' :: Text.decimal bits.toNat) ≠ "target" := by
        intro heq
        have hlist := congrArg (fun s => s.toList.head?) heq
        simp at hlist
      rw [Ty.tokens, TypeGrammar.typeStart, if_neg hne, Ty.ofKeyword?_int]
      rfl
  | ptr space =>
      rw [Ty.tokens]
      rfl
  | pointer pointee space ih =>
      rw [Ty.tokens]
      exact TypeGrammar.typeStart_append ih _
  | func ret params variadic ih _ =>
      rw [Ty.tokens_func]
      exact TypeGrammar.typeStart_append ih _
  | struct packed fields _ =>
      rw [TypeGrammar.tokens_struct]
      cases packed <;> rfl
  | _ =>
      rw [Ty.tokens]
      rfl

/-- A type can start where its tokens are. -/
lemma atType_of_ahead {t : Ty} {c : Cursor} {rest : List Token} (h : c.ahead = t.tokens ++ rest) :
    c.atType = true := by
  rw [TypeGrammar.atType_eq, h]
  exact TypeGrammar.typeStart_append (typeStart_tokens t) rest

/-- There are no attributes before the tokens of a type. -/
lemma leads_skipAttributes (t : Ty) (rest : List Token) :
    Leads skipAttributes [] (t.tokens ++ rest) (pure ()) :=
  Attributes.nil.leads (typeStart_tokens t) rest (.inl rfl)

namespace Listing

/-! ### Calls -/

lemma typeEnds_target (t : Target) (rest : List Token) :
    TypeGrammar.TypeEnds (t.tokens ++ rest) := by
  cases t with
  | constant keyword isConstant =>
      have hne : ∀ w ∈ constantKeywords, w ≠ "addrspace" := by decide
      exact TypeGrammar.typeEnds_cons ⟨by simp, by simp, by simpa using hne keyword isConstant⟩ rest
  | _ => exact TypeGrammar.typeEnds_cons (by simp) _

lemma Target.calls (t : Target) : Calls t.callee t.tokens := by
  cases t with
  | symbol name => exact .symbol name
  | value name => exact .value name
  | assembly template constraints => exact .assembly [] template constraints
  | constant keyword isConstant => exact .keyword isConstant

lemma spellsArgument (a : Ty × String) (h : a.1.Readable) :
    SpellsArgument (argumentTokens a) a.1 :=
  ⟨_, _, rfl, spellsType_tokens h, balanced_localName a.2,
    TypeGrammar.typeEnds_cons (by simp) []⟩

lemma intercalate_argumentTokens (a : Ty × String) (as : List (Ty × String)) :
    [Token.comma].intercalate ((a :: as).map argumentTokens) ++ [.rparen] =
      argumentTokens a ++ moreArgumentTokens as := by
  induction as generalizing a with
  | nil => rw [List.map_singleton, List.intercalate_singleton, moreArgumentTokens]
  | cons b as ih =>
      rw [List.map_cons, List.map_cons, List.intercalate_cons_cons, ← List.map_cons,
        List.append_assoc, ih, moreArgumentTokens, List.append_assoc, List.singleton_append]

lemma argumentListTokens_map (as : List (Ty × String)) :
    argumentListTokens (as.map argumentTokens) = .lparen :: argumentsTokens as := by
  cases as with
  | nil => rfl
  | cons a as => rw [argumentListTokens, intercalate_argumentTokens, argumentsTokens]

/-- The written type, or it and the arguments, give the function type. -/
lemma type_of_written (c : Call) :
    c.written.asFunction? = some c.type ∨
      c.written.asFunction? = none ∧ ⟨c.written, c.arguments.map Prod.fst, false⟩ = c.type := by
  rw [Call.written]
  cases hfull : c.isFull with
  | true => exact .inl rfl
  | false =>
      obtain ⟨hvariadic, hparams, hret⟩ := c.short hfull
      refine .inr ⟨hret, ?_⟩
      rw [if_neg Bool.false_ne_true, ← hparams, ← hvariadic]

namespace Call

lemma readable_written (c : Call) : c.written.Readable := by
  rw [written]
  split
  · exact c.readable
  · exact (Ty.everywhere_func.mp c.readable).2.1

/-- A written call, with the name of its result. -/
def form (result : Option String) (c : Call) : CallForm where
  result := result
  marker := c.tail
  kind := c.kind
  attributes := []
  isAttributes := .nil
  typeTokens := c.written.tokens
  type := c.written
  isType := spellsType_tokens c.readable_written
  calleeTokens := c.target.tokens
  callee := c.target.callee
  isCallee := c.target.calls
  apart := by
    have hends := typeEnds_target c.target []
    rw [List.append_nil] at hends
    exact TypeGrammar.not_extends_of_typeEnds _ hends
  argumentTokens := c.arguments.map argumentTokens
  arguments := c.arguments.map Prod.fst
  isArguments := by
    rw [List.forall₂_map_left_iff, List.forall₂_map_right_iff, List.forall₂_same]
    exact fun a ha => spellsArgument a (c.readable_arguments a ha)

lemma operandTokens_form (result : Option String) (c : Call) :
    (c.form result).operandTokens = c.operandTokens := by
  rw [CallForm.operandTokens, operandTokens, ← argumentListTokens_map]
  rfl

lemma instruction_form (result : Option String) (c : Call) (line : Nat) :
    (c.form result).instruction line = ⟨line, c.kind.opcode, result, some c.site⟩ := by
  have htype : (c.form result).functionType = c.type := by
    change c.written.asFunction?.getD ⟨c.written, c.arguments.map Prod.fst, false⟩ = c.type
    rcases type_of_written c with hfull | ⟨hnone, hshort⟩
    · rw [hfull, Option.getD_some]
    · rw [hnone, Option.getD_none, hshort]
  rw [CallForm.instruction, CallForm.site, htype]
  rfl

end Call

/-! ### Instructions -/

/-- The first token of an operation is a word. -/
lemma exists_word (o : Operation) : ∃ w later, o.tokens = .word w :: later ∧ w ∈ opcodes := by
  cases o with
  | plain opcode isPlain => exact ⟨opcode, [], rfl, isPlain.1⟩
  | call c =>
      rw [Operation.tokens, Call.tokens]
      split
      · exact ⟨c.kind.opcode, _, rfl, by cases c.kind <;> decide⟩
      · rename_i htail
        refine ⟨c.tail.keyword, _, rfl, ?_⟩
        cases hcase : c.tail with
        | none => exact absurd hcase htail
        | _ => decide

lemma leads_parseResult (result : Option String) (o : Operation) (rest : List Token) :
    Leads parseResult (Instruction.resultTokens result) (o.tokens ++ rest) (pure result) := by
  obtain ⟨w, later, htokens, -⟩ := exists_word o
  rw [htokens]
  exact leads_parseResult_word result w _

/-- Reading the marker and the operation of an instruction on the given line. -/
lemma leads_operation (i : Instruction) (line : Nat) (rest : List Token) :
    Leads (do
      let marker ← parseTail
      parseOperation line i.result marker) i.operation.tokens rest (pure (i.onLine line)) := by
  obtain ⟨result, operation⟩ := i
  cases operation with
  | plain opcode isPlain =>
      refine .bind_nil (leads_parseTail_none isPlain.2.2 _)
        (.bind_cons (leads_expectWord opcode _ _) ?_)
      rw [isPlain.2.1]
      exact leads_pure _ rest
  | call c =>
      have hform := (c.form result).leads_marked line rest
      rw [c.operandTokens_form, c.instruction_form] at hform
      exact hform

lemma tokens_ne_nil (i : Instruction) : i.tokens ≠ [] := by
  obtain ⟨w, later, htokens, -⟩ := exists_word i.operation
  rw [Instruction.tokens, htokens]
  simp

/-- **Instructions are read back.** The tokens of a written instruction that are on one line are
read as this instruction. -/
lemma read_tokens {i : Instruction} {ls : List Located} (hls : ls.map Located.token = i.tokens)
    {line : Nat} (hline : ∀ l ∈ ls, l.line = line) :
    Ir.Instruction.read ls = .ok (i.onLine line) := by
  have hne : ls ≠ [] := by
    rintro rfl
    exact tokens_ne_nil i hls.symm
  obtain ⟨l, ls, rfl⟩ := List.exists_cons_of_ne_nil hne
  have hstart : (⟨[], l :: ls⟩ : Cursor).line = line := hline l (by simp)
  have hlead : Leads (do
      let result ← parseResult
      let marker ← parseTail
      parseOperation line result marker) i.tokens [] (pure (i.onLine line)) :=
    .bind (leads_parseResult i.result i.operation []) (leads_operation i line [])
  have hread := hlead [] (l :: ls) [] hls rfl
  rw [List.append_nil] at hread
  rw [Ir.Instruction.read, runOn, EStateM.run, Cursor.ofTokens, parseInstruction_eq, run_get,
    hstart, hread]
  rfl

end Listing

end CallGuard.Ir
