import CallGuard.Proofs.Ir.Listing.Instruction
import Mathlib.Data.List.SplitBy

/-!
Reading the bodies of written functions.

* `Listing.ClosesBraces`: tokens that close the braces they open, so that no body ends in
  them.
* `Listing.tokenLines_flatten`: the lines of tokens.
* `Listing.readAll_flatten`: the blocks of a body.
* `Listing.parseBody_eq`: reading a body.
-/

namespace CallGuard.Ir

namespace Listing

open Cursor (splitWhile)

/-! ### Braces -/

/-- The tokens close the braces that they open, so a body goes on behind them. -/
def ClosesBraces (ts : List Token) : Prop :=
  ∀ depth ls later, ls.map Located.token = ts →
    splitWhile bodyStep depth (ls ++ later) =
      (ls ++ (splitWhile bodyStep depth later).1, (splitWhile bodyStep depth later).2)

lemma closesBraces_nil : ClosesBraces [] := by
  intro depth ls later hls
  obtain rfl := List.map_eq_nil_iff.mp hls
  rfl

lemma ClosesBraces.append {ts ts' : List Token} (h : ClosesBraces ts) (h' : ClosesBraces ts') :
    ClosesBraces (ts ++ ts') := by
  intro depth ls later hls
  obtain ⟨ls₁, ls₂, rfl, hls₁, hls₂⟩ := List.map_eq_append_iff.mp hls
  rw [List.append_assoc, h depth ls₁ (ls₂ ++ later) hls₁, h' depth ls₂ later hls₂,
    List.append_assoc]

/-- Whether a token neither ends a body nor is a brace. -/
def isInner (t : Token) : Bool :=
  t != .eof && t != .lbrace && t != .rbrace

lemma ClosesBraces.cons {t : Token} {ts : List Token} (ht : isInner t) (h : ClosesBraces ts) :
    ClosesBraces (t :: ts) := by
  intro depth ls later hls
  obtain ⟨l, ls, rfl, rfl, hts⟩ := List.map_eq_cons_iff.mp hls
  simp only [isInner, Bool.and_eq_true, bne_iff_ne] at ht
  have hstep (after : List Located) : bodyStep depth l after = some depth := by
    cases depth <;> rw [bodyStep] <;> split <;> simp_all
  rw [List.cons_append, splitWhile, if_neg ht.1.1, hstep]
  simp only [h depth ls later hts]
  rfl

/-- What stands in braces. -/
lemma ClosesBraces.braces {ts : List Token} (h : ClosesBraces ts) :
    ClosesBraces (.lbrace :: (ts ++ [.rbrace])) := by
  intro depth ls later hls
  obtain ⟨l, ls, rfl, hl, hls⟩ := List.map_eq_cons_iff.mp hls
  obtain ⟨ls, last, rfl, hts, hlast⟩ := List.map_eq_append_iff.mp hls
  obtain ⟨r, rs, rfl, hr, hnil⟩ := List.map_eq_cons_iff.mp hlast
  obtain rfl := List.map_eq_nil_iff.mp hnil
  have hopen (after : List Located) : bodyStep depth l after = some (depth + 1) := by
    cases depth <;> simp [bodyStep, hl]
  have hclose : splitWhile bodyStep (depth + 1) (r :: later) =
      (r :: (splitWhile bodyStep depth later).1, (splitWhile bodyStep depth later).2) := by
    simp [splitWhile, bodyStep, hr]
  rw [List.cons_append, splitWhile, if_neg (by simp [hl]), hopen, List.append_assoc,
    List.singleton_append]
  simp only [h (depth + 1) ls (r :: later) hts, hclose]
  simp

lemma closesBraces_of_all {ts : List Token} (h : ts.all isInner) : ClosesBraces ts := by
  induction ts with
  | nil => exact closesBraces_nil
  | cons t ts ih =>
      rw [List.all_cons, Bool.and_eq_true] at h
      exact .cons h.1 (ih h.2)

lemma closesBraces_tokensAfterComma {ts : List Ty} (h : ∀ t ∈ ts, ClosesBraces t.tokens) :
    ClosesBraces (Ty.tokensAfterComma ts) := by
  induction ts with
  | nil =>
      rw [Ty.tokensAfterComma]
      exact closesBraces_nil
  | cons t ts ih =>
      rw [List.forall_mem_cons] at h
      rw [Ty.tokensAfterComma]
      exact .cons rfl (h.1.append (ih h.2))

lemma closesBraces_paramTokens {ts : List Ty} (h : ∀ t ∈ ts, ClosesBraces t.tokens)
    (variadic : Bool) : ClosesBraces (Ty.paramTokens ts variadic) := by
  cases ts with
  | nil => cases variadic <;> exact closesBraces_of_all rfl
  | cons t ts =>
      rw [List.forall_mem_cons] at h
      refine h.1.append ((closesBraces_tokensAfterComma h.2).append ?_)
      cases variadic <;> exact closesBraces_of_all rfl

/-- The braces of structures are closed. -/
lemma closesBraces_type (t : Ty) : ClosesBraces t.tokens := by
  induction t using Ty.induct with
  | ptr space =>
      rw [Ty.tokens, Ty.spaceTokens]
      split <;> exact closesBraces_of_all rfl
  | pointer pointee space ih =>
      rw [Ty.tokens, Ty.spaceTokens]
      refine ih.append ?_
      split <;> exact closesBraces_of_all rfl
  | array length element ih =>
      rw [Ty.tokens]
      exact .cons rfl (.cons rfl (.cons rfl (ih.append (closesBraces_of_all rfl))))
  | vector length scalable element ih =>
      have hlength : ClosesBraces (numeral length.toNat :: .word "x" ::
          (element.tokens ++ [.greater])) :=
        .cons rfl (.cons rfl (ih.append (closesBraces_of_all rfl)))
      rw [Ty.tokens]
      refine .cons rfl ?_
      cases scalable with
      | false => exact hlength
      | true => exact .cons rfl (.cons rfl hlength)
  | struct packed fields ih =>
      have hbody : ClosesBraces (.lbrace :: TypeGrammar.bodyTokens fields) := by
        cases fields with
        | nil => exact closesBraces_nil.braces
        | cons t ts =>
            rw [List.forall_mem_cons] at ih
            rw [TypeGrammar.bodyTokens, ← List.append_assoc]
            exact (ih.1.append (closesBraces_tokensAfterComma ih.2)).braces
      rw [TypeGrammar.tokens_struct]
      cases packed with
      | false => exact hbody
      | true => exact .cons rfl (hbody.append (closesBraces_of_all rfl))
  | func ret params variadic ihret ihparams =>
      rw [Ty.tokens_func]
      exact ihret.append (.cons rfl (closesBraces_paramTokens ihparams variadic))
  | target name types ints ih =>
      rw [Ty.tokens]
      refine .cons rfl (.cons rfl (.cons rfl ((closesBraces_tokensAfterComma ih).append ?_)))
      refine .append (closesBraces_of_all ?_) (closesBraces_of_all rfl)
      simp [isInner, numeral]
  | _ =>
      rw [Ty.tokens]
      exact closesBraces_of_all rfl

lemma closesBraces_moreArguments (as : List (Ty × String)) :
    ClosesBraces (moreArgumentTokens as) := by
  induction as with
  | nil => exact closesBraces_of_all rfl
  | cons a as ih =>
      exact .cons rfl (((closesBraces_type a.1).append (closesBraces_of_all rfl)).append ih)

lemma closesBraces_call (c : Call) : ClosesBraces c.tokens := by
  have htarget : ClosesBraces c.target.tokens := by
    cases c.target <;> exact closesBraces_of_all rfl
  have harguments : ClosesBraces (argumentsTokens c.arguments) := by
    cases c.arguments with
    | nil => exact closesBraces_of_all rfl
    | cons a as =>
        exact ((closesBraces_type a.1).append (closesBraces_of_all rfl)).append
          (closesBraces_moreArguments as)
  rw [Call.tokens]
  refine .append ?_ (.cons rfl ((closesBraces_type c.written).append
    (htarget.append (.cons rfl harguments))))
  split <;> exact closesBraces_of_all rfl

lemma closesBraces_item (item : BodyItem Instruction) : ClosesBraces (itemTokens item) := by
  cases item with
  | label name => exact closesBraces_of_all rfl
  | instruction i =>
      rw [itemTokens, Instruction.tokens]
      refine .append ?_ ?_
      · cases i.result <;> exact closesBraces_of_all rfl
      · cases i.operation with
        | plain opcode isPlain => exact closesBraces_of_all rfl
        | call c => exact closesBraces_call c

/-! ### Lines -/

/-- Tokens on lines of their own are cut into these lines. -/
lemma tokenLines_flatten {n : Nat} {tss : List (List Token)} {lss : List (List Located)}
    (h : OnLines n tss lss) (hne : ∀ ts ∈ tss, ts ≠ []) : tokenLines lss.flatten = lss := by
  have hnil : [] ∉ lss := by
    induction h with
    | nil n => simp
    | @cons n ts tss ls lss tokens line later ih =>
        rw [List.forall_mem_cons] at hne
        rw [List.mem_cons]
        rintro (rfl | hmem)
        · exact hne.1 tokens.symm
        · exact ih hne.2 hmem
  refine List.splitBy_flatten hnil ?_ ?_
  · intro ls hls
    obtain ⟨m, hm⟩ : ∃ m, ∀ l ∈ ls, l.line = m := by
      induction h with
      | nil n => simp at hls
      | @cons n ts tss ls' lss tokens line later ih =>
          rcases List.mem_cons.mp hls with rfl | hls
          · exact ⟨n, line⟩
          · exact ih (fun ts hts => hne ts (List.mem_cons_of_mem _ hts))
              (fun hmem => hnil (List.mem_cons_of_mem _ hmem)) hls
    refine (List.pairwise_of_forall_mem_list fun a ha b hb => ?_).isChain
    rw [hm a ha, hm b hb, beq_self_eq_true]
  · induction h with
    | nil n => exact .nil
    | @cons n ts tss ls lss tokens line later ih =>
        rw [List.mem_cons, not_or] at hnil
        have hlater := ih (fun ts hts => hne ts (List.mem_cons_of_mem _ hts)) hnil.2
        cases later with
        | nil => exact .singleton _
        | cons tokens' line' later' =>
            rw [List.mem_cons, not_or] at hnil
            refine .cons_cons ⟨fun h => hnil.1 h.symm, fun h => hnil.2.1 h.symm, ?_⟩ hlater
            rw [line _ (List.getLast_mem _), line' _ (List.head_mem _)]
            simp

/-- The items on lines that follow each other. -/
def itemsAt : Nat → List (BodyItem Instruction) → List (BodyItem Ir.Instruction)
  | _, [] => []
  | line, .label name :: items => .label name :: itemsAt (line + 1) items
  | line, .instruction i :: items => .instruction (i.onLine line) :: itemsAt (line + 1) items

lemma startsInstruction_tokens {i : Instruction} {ls : List Located}
    (hls : ls.map Located.token = i.tokens) :
    startsInstruction ls = true ∧ ∃ l ls', ls = l :: ls' ∧ ∀ name, l.token ≠ .label name := by
  obtain ⟨w, later, htokens, hw⟩ := exists_word i.operation
  rw [Instruction.tokens, htokens] at hls
  cases hresult : i.result with
  | none =>
      rw [hresult] at hls
      obtain ⟨l, ls', rfl, hl, -⟩ := List.map_eq_cons_iff.mp hls
      refine ⟨?_, l, ls', rfl, by simp [hl]⟩
      simp [startsInstruction, hl, isOpcode, hw]
  | some name =>
      rw [hresult] at hls
      obtain ⟨l, ls', rfl, hl, hls'⟩ := List.map_eq_cons_iff.mp hls
      obtain ⟨l', ls'', rfl, hl', -⟩ := List.map_eq_cons_iff.mp hls'
      refine ⟨?_, l, _, rfl, by simp [hl]⟩
      simp [startsInstruction, hl, hl']

/-- Every line of a body is an item of its own. -/
lemma foldr_addLine {n : Nat} {items : List (BodyItem Instruction)} {lss : List (List Located)}
    (h : OnLines n (items.map itemTokens) lss) :
    ∃ later, lss.foldr addLine ([], []) = ([], later) ∧
      later.mapM BodyItem.read = .ok (itemsAt n items) := by
  induction items generalizing n lss with
  | nil =>
      cases h
      exact ⟨[], rfl, rfl⟩
  | cons item items ih =>
      obtain _ | ⟨htokens, hline, hlater⟩ := h
      obtain ⟨later, hfold, hread⟩ := ih hlater
      cases item with
      | label name =>
          obtain ⟨l, ls, rfl, hl, hnil⟩ := List.map_eq_cons_iff.mp htokens
          obtain rfl := List.map_eq_nil_iff.mp hnil
          refine ⟨.label name :: later, ?_, ?_⟩
          · rw [List.foldr_cons, hfold]
            simp [addLine, hl]
          · rw [List.mapM_cons, hread]
            rfl
      | instruction i =>
          obtain ⟨hstart, l, ls, rfl, hl⟩ := startsInstruction_tokens htokens
          refine ⟨.instruction (l :: ls) :: later, ?_, ?_⟩
          · rw [List.foldr_cons, hfold, addLine]
            split
            · rename_i name hname
              exact absurd hname (hl name)
            · rw [if_pos hstart, List.append_nil]
          · rw [List.mapM_cons, hread, BodyItem.read, read_tokens htokens hline]
            rfl

/-! ### Blocks -/

lemma foldr_addItem_instructions (line : Nat) (is : List Instruction)
    (items : List (BodyItem Instruction)) :
    (itemsAt line (is.map .instruction ++ items)).foldr addItem ([], []) =
      (instructionsAt line is ++
          ((itemsAt (line + is.length) items).foldr addItem ([], [])).1,
        ((itemsAt (line + is.length) items).foldr addItem ([], [])).2) := by
  induction is generalizing line with
  | nil => rfl
  | cons i is ih =>
      have hlength : line + 1 + is.length = line + (is.length + 1) := by omega
      rw [List.map_cons, List.cons_append, itemsAt, List.foldr_cons, ih, hlength]
      rfl

lemma foldr_addItem_blocks (line : Nat) (bs : List (String × List Instruction)) :
    (itemsAt line (bs.flatMap fun block => .label block.1 :: block.2.map .instruction)).foldr
      addItem ([], []) = ([], blocksAt line bs) := by
  induction bs generalizing line with
  | nil => rfl
  | cons block bs ih =>
      obtain ⟨label, is⟩ := block
      rw [List.flatMap_cons, List.cons_append, itemsAt, List.foldr_cons,
        foldr_addItem_instructions, ih, List.append_nil]
      rfl

/-- The labels and instructions make up the blocks. -/
lemma group_itemsAt (b : Body) (line : Nat) :
    Block.group (itemsAt line b.items) = b.blocksAt line := by
  rw [Block.group, Body.items, foldr_addItem_instructions, foldr_addItem_blocks, Body.blocksAt,
    List.append_nil]
  cases b.first with
  | nil => rfl
  | cons i is => rfl

lemma itemTokens_ne_nil (item : BodyItem Instruction) : itemTokens item ≠ [] := by
  cases item with
  | label name => simp [itemTokens]
  | instruction i => exact tokens_ne_nil i

/-- **Bodies are read back.** The tokens of the lines of a body are read as its blocks. -/
lemma readAll_flatten {b : Body} {line : Nat} {lss : List (List Located)}
    (h : OnLines line (b.items.map itemTokens) lss) :
    Block.readAll lss.flatten = .ok (b.blocksAt line) := by
  have hne : ∀ ts ∈ b.items.map itemTokens, ts ≠ [] := by
    intro ts hts
    obtain ⟨item, -, rfl⟩ := List.mem_map.mp hts
    exact itemTokens_ne_nil item
  obtain ⟨later, hfold, hread⟩ := foldr_addLine h
  rw [Block.readAll, bodyItems, tokenLines_flatten h hne, hfold, hread]
  change Except.ok (Block.group (itemsAt line b.items)) = _
  rw [group_itemsAt]

/-- No body ends in its lines. -/
lemma closesBraces_flatten {line : Nat} {items : List (BodyItem Instruction)}
    {lss : List (List Located)} (h : OnLines line (items.map itemTokens) lss) :
    ClosesBraces (lss.flatten.map Located.token) := by
  induction items generalizing line lss with
  | nil =>
      cases h
      exact closesBraces_nil
  | cons item items ih =>
      obtain _ | ⟨htokens, -, hlater⟩ := h
      rw [List.flatten_cons, List.map_append, htokens]
      exact (closesBraces_item item).append (ih hlater)

/-- Reading a body and the brace that closes it. -/
lemma parseBody_eq {b : Body} {line : Nat} {lss : List (List Located)}
    (h : OnLines line (b.items.map itemTokens) lss) {brace : Located}
    (hbrace : brace.token = .rbrace) (name : String) (start : Nat) (cs rest : List Located) :
    parseBody name start ⟨cs, lss.flatten ++ brace :: rest⟩ =
      .ok (b.blocksAt line) ⟨brace :: (lss.flatten.reverse ++ cs), rest⟩ := by
  have hend : splitWhile bodyStep 0 (brace :: rest) = ([], brace :: rest) := by
    simp [splitWhile, bodyStep, hbrace]
  have hsplit : splitWhile bodyStep 0 (lss.flatten ++ brace :: rest) =
      (lss.flatten, brace :: rest) := by
    rw [closesBraces_flatten h 0 _ _ rfl, hend, List.append_nil]
  have hskip : Cursor.skipWhile bodyStep 0 ⟨cs, lss.flatten ++ brace :: rest⟩ =
      ⟨lss.flatten.reverse ++ cs, brace :: rest⟩ := by
    rw [Cursor.skipWhile, hsplit, List.reverseAux_eq]
  have hmore : (⟨lss.flatten.reverse ++ cs, brace :: rest⟩ : Cursor).atEnd = false := by
    simp [Cursor.atEnd, Cursor.peek, Cursor.peekAt, hbrace]
  rw [parseBody, Parse.run_get]
  simp only [hsplit]
  rw [Parse.run_modify, hskip, Parse.run_get, hmore, if_neg Bool.false_ne_true, Parse.run_advance,
    readAll_flatten h]
  rfl

end Listing

end CallGuard.Ir
