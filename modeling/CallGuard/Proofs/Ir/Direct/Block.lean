import CallGuard.Proofs.Ir.Blocks
import CallGuard.Proofs.Ir.Direct.Instruction
import Mathlib.Data.List.ModifyLast

/-!
Blocks without a look first. The lines of a body are kept as ranges of indices, and so is the
instruction that is not read yet; the ranges follow each other and end where the tokens end, so
all tokens and parts that are taken by index are there.

* `lineRanges`, `lineRanges_eq`: the ranges of the lines.
* `readLines`, `readBlocks`: the blocks, from the ranges.
* `readLines_eq`: the open instruction is a range before the lines that are left.
* `readBlocks_eq`: blocks are read without a crash.
-/

namespace CallGuard.Ir.Direct

/-! ### Ranges of lines -/

/-- Whether the line that starts at `start` ends before the index `i`. -/
def endsLine (tokens : List Located) (start i : Nat) : Except Stop Bool := do
  if i = tokens.length then return true
  else
    let next ← item tokens i
    let first ← item tokens start
    return next.line != first.line

/-- The ranges of the lines that end before the index `i` or later, if the line before it starts
at `start`. The first argument counts the indices up to the end. -/
def lineRangesFrom (tokens : List Located) : Nat → Nat → Nat → Except Stop (List (Nat × Nat))
  | 0, _, _ => return []
  | count + 1, start, i => do
    if ← endsLine tokens start i then
      let later ← lineRangesFrom tokens count i (i + 1)
      return if start < i then (start, i) :: later else later
    else lineRangesFrom tokens count start (i + 1)

/-- The ranges of the lines of tokens. -/
def lineRanges (tokens : List Located) : Except Stop (List (Nat × Nat)) :=
  lineRangesFrom tokens tokens.length 0 1

/-- The ranges of lists that follow each other, from an index on. -/
def rangesOf {α : Type} : Nat → List (List α) → List (Nat × Nat)
  | _, [] => []
  | start, l :: ls => (start, start + l.length) :: rangesOf (start + l.length) ls

lemma tokenLines_of_same {run : List Located} {line : Nat} (hne : run ≠ [])
    (h : ∀ t ∈ run, t.line = line) : tokenLines run = [run] := by
  refine List.splitBy_of_isChain hne (List.Pairwise.isChain ?_)
  refine List.pairwise_of_forall_mem_list fun a ha b hb => ?_
  rw [h a ha, h b hb, beq_self_eq_true]

lemma tokenLines_append_cons {run : List Located} {line : Nat} (hne : run ≠ [])
    (h : ∀ t ∈ run, t.line = line) {t : Located} (ht : t.line ≠ line) (rest : List Located) :
    tokenLines (run ++ t :: rest) = run :: tokenLines (t :: rest) := by
  have hrun := tokenLines_of_same hne h
  rw [tokenLines] at hrun
  rw [tokenLines, List.splitBy_append_cons, hrun]
  · rfl
  · intro a ha
    rw [h a (List.mem_of_getLast? ha)]
    simpa using ht.symm

lemma endsLine_of_cons {tokens before run rest : List Located} {first t : Located}
    (htokens : tokens = before ++ (first :: run) ++ t :: rest) :
    endsLine tokens before.length (before.length + (first :: run).length) =
      .ok (t.line != first.line) := by
  have hfirst : (item tokens before.length : Except Stop Located) = pure first := by
    rw [htokens, List.append_assoc]
    exact item_append_cons before _ first
  have hnext : (item tokens (before.length + (first :: run).length) : Except Stop Located) =
      pure t := by
    rw [htokens, ← List.length_append]
    exact item_append_cons _ rest t
  rw [endsLine, if_neg (by simp [htokens]), hnext, hfirst]
  rfl

lemma lineRangesFrom_succ {tokens : List Located} {start i : Nat} {ends : Bool}
    (h : endsLine tokens start i = .ok ends) (count : Nat) :
    lineRangesFrom tokens (count + 1) start i =
      if ends then
        (lineRangesFrom tokens count i (i + 1)).map fun later =>
          if start < i then (start, i) :: later else later
      else lineRangesFrom tokens count start (i + 1) := by
  rw [lineRangesFrom, h]
  cases ends with
  | false => rfl
  | true => cases lineRangesFrom tokens count i (i + 1) <;> rfl

/-- The tokens of the line that is open are there, and so are those behind it. -/
lemma lineRangesFrom_eq {tokens before run rest : List Located} {first : Located}
    (htokens : tokens = before ++ (first :: run) ++ rest) (h : ∀ t ∈ run, t.line = first.line) :
    lineRangesFrom tokens (rest.length + 1) before.length
        (before.length + (first :: run).length) =
      .ok (rangesOf before.length (tokenLines (first :: run ++ rest))) := by
  have hsame : ∀ t ∈ first :: run, t.line = first.line := List.forall_mem_cons.mpr ⟨rfl, h⟩
  have hlt : before.length < before.length + (first :: run).length := by simp
  induction rest generalizing before run first with
  | nil =>
      have hends : endsLine tokens before.length (before.length + (first :: run).length) =
          .ok true := if_pos (by simp [htokens])
      rw [lineRangesFrom_succ hends, List.append_nil, tokenLines_of_same (by simp) hsame]
      simp only [if_true, if_pos hlt]
      rfl
  | cons t rest ih =>
      have hends := endsLine_of_cons htokens
      rw [List.length_cons, lineRangesFrom_succ hends]
      by_cases ht : t.line = first.line
      · have hrun : ∀ u ∈ run ++ [t], u.line = first.line :=
          List.forall_mem_append.mpr ⟨h, by simpa using ht⟩
        have hmore := @ih before (run ++ [t]) first (by simp [htokens]) hrun
          (List.forall_mem_cons.mpr ⟨rfl, hrun⟩) (by simp)
        simp only [List.append_assoc, List.cons_append, List.nil_append, List.length_cons,
          List.length_append, List.length_nil] at hmore ⊢
        rw [if_neg (by simp [ht]), ← hmore]
        rfl
      · have hmore := @ih (before ++ first :: run) [] t (by simp [htokens]) (by simp) (by simp)
          (by simp)
        rw [List.length_append] at hmore
        rw [if_pos (by simpa using ht), tokenLines_append_cons (by simp) hsame ht]
        refine (congrArg (Except.map _) hmore).trans ?_
        rw [Except.map, if_pos hlt]
        rfl

lemma lineRanges_eq (tokens : List Located) :
    lineRanges tokens = .ok (rangesOf 0 (tokenLines tokens)) := by
  cases tokens with
  | nil => rfl
  | cons first rest => exact @lineRangesFrom_eq _ [] [] rest first rfl (by simp)

/-! ### Blocks -/

/-- Adds an instruction to the last block, or to a block without label if there is none. -/
def addInstruction (blocks : List Block) (i : Instruction) : List Block :=
  if blocks.isEmpty then [⟨none, [i]⟩]
  else blocks.modifyLast fun b => { b with instructions := b.instructions ++ [i] }

/-- Reads the open instruction, if there is one. -/
def closeInstruction (tokens : List Located) (blocks : List Block) :
    Option (Nat × Nat) → Except Stop (List Block)
  | none => return blocks
  | some (start, stop) => do
    let i ← readInstruction (← part tokens start stop)
    return addInstruction blocks i

/-- Reads the blocks of lines, which are given by their ranges; `pending` is the range of the open
instruction. -/
def readLines (tokens : List Located) :
    List (Nat × Nat) → Option (Nat × Nat) → List Block → Except Stop (List Block)
  | [], pending, blocks => closeInstruction tokens blocks pending
  | (start, stop) :: later, pending, blocks => do
    match (← item tokens start).token with
    | .label name =>
      let blocks ← closeInstruction tokens blocks pending
      let rest := if stop - start > 1 then some (start + 1, stop) else none
      readLines tokens later rest (blocks ++ [⟨some name, []⟩])
    | _ =>
      if startsInstruction (← part tokens start stop) then
        let blocks ← closeInstruction tokens blocks pending
        readLines tokens later (some (start, stop)) blocks
      else readLines tokens later (pending.map fun range => (range.1, stop)) blocks

/-- The blocks that the tokens of a body spell. -/
def readBlocks (tokens : List Located) : Except Stop (List Block) := do
  readLines tokens (← lineRanges tokens) none []

/-! ### Items -/

/-- Adds a label or an instruction to blocks. -/
def place (blocks : List Block) : BodyItem Instruction → List Block
  | .label name => blocks ++ [⟨some name, []⟩]
  | .instruction i => addInstruction blocks i

/-- Reads items into blocks, one by one. -/
def readItems : List (BodyItem (List Located)) → List Block → Except Stop (List Block)
  | [], blocks => return blocks
  | item :: items, blocks => do
    let i ← item.read.mapError .refused
    readItems items (place blocks i)

lemma readItems_eq (items : List (BodyItem (List Located))) (blocks : List Block) :
    readItems items blocks =
      ((items.mapM BodyItem.read).map (List.foldl place blocks)).mapError .refused := by
  induction items generalizing blocks with
  | nil => rfl
  | cons item items ih =>
      rw [readItems]
      cases hitem : item.read with
      | error e =>
          rw [mapM_cons_of_error hitem]
          rfl
      | ok i =>
          rw [mapM_cons_of_ok hitem]
          change readItems items (place blocks i) = _
          rw [ih]
          cases items.mapM BodyItem.read <;> rfl

lemma addInstruction_append (blocks : List Block) (b : Block) (i : Instruction) :
    addInstruction (blocks ++ [b]) i =
      blocks ++ [{ b with instructions := b.instructions ++ [i] }] := by
  rw [addInstruction, if_neg (by simp), List.modifyLast_concat]

/-- Items go on with the last block up to their first label. -/
lemma foldl_place_append (items : List (BodyItem Instruction)) (blocks : List Block) (b : Block) :
    items.foldl place (blocks ++ [b]) =
      blocks ++ { b with instructions := b.instructions ++ (items.foldr addItem ([], [])).1 } ::
        (items.foldr addItem ([], [])).2 := by
  induction items generalizing blocks b with
  | nil => simp
  | cons item items ih =>
      cases item with
      | label name =>
          rw [List.foldl_cons, place, ih]
          simp [addItem]
      | instruction i =>
          rw [List.foldl_cons, place, addInstruction_append, ih]
          simp [addItem]

/-- Adding items one by one makes the blocks of the items. -/
lemma foldl_place_nil (items : List (BodyItem Instruction)) :
    items.foldl place [] = Block.group items := by
  cases items with
  | nil => rfl
  | cons item items =>
      cases item with
      | label name =>
          have happend := foldl_place_append items [] ⟨some name, []⟩
          simpa [Block.group, addItem, place, addInstruction] using happend
      | instruction i =>
          have happend := foldl_place_append items [] ⟨none, [i]⟩
          simpa [Block.group, addItem, place, addInstruction] using happend

/-! ### Reading lines -/

/-- The items of lines behind an open instruction. -/
def openItems (pending : Option (List Located)) (lines : List (List Located)) :
    List (BodyItem (List Located)) :=
  (pending.toList.map fun ts => .instruction (ts ++ (lines.takeWhile continuesLine).flatten)) ++
    lineItems lines

section OpenItems

variable {line : List Located} {later : List (List Located)} (pending : Option (List Located))

lemma lineItems_cons : lineItems (line :: later) =
    (lineLabel? line).toList.map .label ++ openItems (opened? line) later := by
  rw [lineItems, openItems, List.append_assoc]

/-- A label ends what is open. -/
lemma openItems_of_label {name : String} (h : lineLabel? line = some name) :
    openItems pending (line :: later) =
      pending.toList.map .instruction ++ .label name :: openItems (opened? line) later := by
  have hcontinues : continuesLine line = false := by simp [continuesLine, h]
  rw [openItems, lineItems_cons, h, List.takeWhile_cons, hcontinues]
  simp

/-- So does the start of another instruction. -/
lemma openItems_of_starts (h : lineLabel? line = none) (hstart : startsInstruction line = true) :
    openItems pending (line :: later) =
      pending.toList.map .instruction ++ openItems (some line) later := by
  have hcontinues : continuesLine line = false := by simp [continuesLine, hstart]
  rw [openItems, lineItems_cons, h, opened?_of_unlabelled h, hstart, List.takeWhile_cons,
    hcontinues]
  simp

/-- Any other line goes on with what is open. -/
lemma openItems_of_continues (h : lineLabel? line = none)
    (hstart : startsInstruction line = false) :
    openItems pending (line :: later) = openItems (pending.map (· ++ line)) later := by
  have hcontinues : continuesLine line = true := by simp [continuesLine, h, hstart]
  rw [openItems, lineItems_cons, h, opened?_of_unlabelled h, hstart, List.takeWhile_cons,
    hcontinues]
  cases pending <;> simp [openItems]

end OpenItems

lemma readItems_append (items later : List (BodyItem (List Located))) (blocks : List Block) :
    readItems (items ++ later) blocks = readItems items blocks >>= readItems later := by
  induction items generalizing blocks with
  | nil => rfl
  | cons item items ih =>
      rw [List.cons_append, readItems, readItems, bind_assoc]
      exact bind_congr fun i => ih _

/-- The range of the open instruction, which starts behind the tokens `before`. -/
def openRange (before : List Located) (pending : Option (List Located)) : Option (Nat × Nat) :=
  pending.map fun ts => (before.length, before.length + ts.length)

/-- The open instruction is read from its range. -/
lemma closeInstruction_eq {tokens before rest : List Located} {pending : Option (List Located)}
    (htokens : tokens = before ++ pending.getD [] ++ rest) (blocks : List Block) :
    closeInstruction tokens blocks (openRange before pending) =
      readItems (pending.toList.map .instruction) blocks := by
  cases pending with
  | none => rfl
  | some ts =>
      have hpart : (part tokens before.length (before.length + ts.length) : Except Stop _) =
          pure ts := by
        rw [htokens]
        exact part_append before ts rest
      rw [openRange, Option.map_some, closeInstruction, hpart]
      change (readInstruction ts >>= fun i => pure (addInstruction blocks i)) = _
      change _ = ((Instruction.read ts).map BodyItem.instruction).mapError Stop.refused >>= fun i =>
        pure (place blocks i)
      rw [readInstruction_eq]
      cases Instruction.read ts <;> rfl

section Lines

variable {tokens : List Located} {start stop : Nat} {t : Located} {rest : List Located}
  (hitem : (item tokens start : Except Stop Located) = pure t) (later : List (Nat × Nat))
  (pending : Option (Nat × Nat)) (blocks : List Block)
include hitem

lemma readLines_of_label {name : String} (h : lineLabel? (t :: rest) = some name) :
    readLines tokens ((start, stop) :: later) pending blocks =
      closeInstruction tokens blocks pending >>= fun blocks =>
        readLines tokens later (if stop - start > 1 then some (start + 1, stop) else none)
          (place blocks (.label name)) := by
  have htoken : t.token = .label name := by
    rw [lineLabel?] at h
    split at h
    · rename_i htoken
      rwa [← Option.some.inj h]
    · exact absurd h (by simp)
  rw [readLines, hitem, pure_bind, htoken]
  rfl

lemma readLines_of_not_label (h : lineLabel? (t :: rest) = none)
    (hpart : (part tokens start stop : Except Stop (List Located)) = pure (t :: rest)) :
    readLines tokens ((start, stop) :: later) pending blocks =
      if startsInstruction (t :: rest) then
        closeInstruction tokens blocks pending >>= readLines tokens later (some (start, stop))
      else readLines tokens later (pending.map fun range => (range.1, stop)) blocks := by
  rw [readLines, hitem, pure_bind]
  rw [lineLabel?] at h
  split
  · rename_i htoken
    rw [htoken] at h
    exact absurd h (by simp)
  · rw [hpart, pure_bind]

end Lines

/-- A label opens what stands behind it in its line. -/
lemma opened?_of_label {name : String} {t : Located} {rest : List Located}
    (h : lineLabel? (t :: rest) = some name) :
    opened? (t :: rest) = if rest = [] then none else some rest := by
  cases rest <;> simp [opened?, h]

/-- What is open is a range that ends where the lines that are left start. -/
lemma readLines_eq {tokens before : List Located} {pending : Option (List Located)}
    {lines : List (List Located)} (hlines : ∀ line ∈ lines, line ≠ [])
    (htokens : tokens = before ++ pending.getD [] ++ lines.flatten) (blocks : List Block) :
    readLines tokens (rangesOf (before ++ pending.getD []).length lines)
        (openRange before pending) blocks =
      readItems (openItems pending lines) blocks := by
  induction lines generalizing before pending blocks with
  | nil =>
      rw [rangesOf, readLines, closeInstruction_eq htokens]
      cases pending <;> simp [openItems, lineItems]
  | cons line later ih =>
      rw [List.forall_mem_cons] at hlines
      obtain ⟨t, rest, rfl⟩ := List.exists_cons_of_ne_nil hlines.1
      generalize hstart : (before ++ pending.getD []).length = start
      have hitem : (item tokens start : Except Stop Located) = pure t := by
        rw [htokens, ← hstart]
        exact item_append_cons _ _ t
      have hpart : (part tokens start (start + (t :: rest).length) : Except Stop _) =
          pure (t :: rest) := by
        rw [htokens, ← hstart, List.flatten_cons, ← List.append_assoc]
        exact part_append _ _ _
      have hclose := closeInstruction_eq htokens blocks
      rw [rangesOf]
      cases hlabel : lineLabel? (t :: rest) with
      | some name =>
          rw [readLines_of_label hitem _ _ _ hlabel, openItems_of_label pending hlabel,
            readItems_append, hclose]
          refine bind_congr fun blocks => ?_
          have hopened := opened?_of_label hlabel
          have hrest : (opened? (t :: rest)).getD [] = rest := by
            rw [hopened]
            cases rest <;> simp
          have hrange : openRange (before ++ pending.getD [] ++ [t]) (opened? (t :: rest)) =
              if start + (t :: rest).length - start > 1 then
                some (start + 1, start + (t :: rest).length) else none := by
            rw [hopened, openRange, List.length_append, hstart]
            cases rest with
            | nil => simp
            | cons u rest => simp [Nat.add_assoc, Nat.add_comm]
          have hmore := @ih (before ++ pending.getD [] ++ [t]) (opened? (t :: rest)) hlines.2
            (by simp [htokens, hrest]) (place blocks (.label name))
          have hlength : (before ++ pending.getD [] ++ [t] ++ rest).length =
              start + (t :: rest).length := by
            rw [List.append_assoc, List.length_append, hstart]
            rfl
          rwa [hrest, hlength, hrange] at hmore
      | none =>
          rw [readLines_of_not_label hitem _ _ _ hlabel hpart]
          cases hopens : startsInstruction (t :: rest) with
          | true =>
              rw [if_pos rfl, openItems_of_starts pending hlabel hopens, readItems_append, hclose]
              refine bind_congr fun blocks => ?_
              have hmore := @ih (before ++ pending.getD []) (some (t :: rest)) hlines.2
                (by simp [htokens]) blocks
              rwa [Option.getD_some, List.length_append, openRange, Option.map_some,
                hstart] at hmore
          | false =>
              rw [if_neg Bool.false_ne_true, openItems_of_continues pending hlabel hopens]
              cases pending with
              | none =>
                  have hmore := @ih (before ++ t :: rest) none hlines.2 (by simp [htokens]) blocks
                  rw [Option.getD_none, List.append_nil] at hstart hmore
                  rwa [List.length_append, hstart] at hmore
              | some ts =>
                  have hmore := @ih before (some (ts ++ t :: rest)) hlines.2 (by simp [htokens])
                    blocks
                  rw [Option.getD_some] at hstart hmore
                  have hrange : openRange before (some (ts ++ t :: rest)) =
                      (openRange before (some ts)).map fun range =>
                        (range.1, start + (t :: rest).length) := by
                    simp [openRange, ← hstart, Nat.add_assoc]
                  rwa [← List.append_assoc, List.length_append, hstart, hrange] at hmore

/-- Blocks are read without a crash. -/
lemma readBlocks_eq (tokens : List Located) :
    readBlocks tokens = (Block.readAll tokens).mapError .refused := by
  have hlines := isLines_tokenLines tokens
  have hread := @readLines_eq tokens [] none (tokenLines tokens) hlines.nonempty
    (by simp [hlines.flatten]) []
  have hgroup : List.foldl place [] = Block.group := funext foldl_place_nil
  have hranges : readBlocks tokens =
      readLines tokens (rangesOf 0 (tokenLines tokens)) none [] := by
    rw [readBlocks, lineRanges_eq]
    rfl
  rw [hranges, readAll_eq, ← hgroup, ← readItems_eq]
  exact hread

end CallGuard.Ir.Direct
