import CallGuard.Ir.Body.Block
import Mathlib.Data.List.SplitBy
import Mathlib.Data.List.TakeWhile
import Mathlib.Tactic

/-!
The instructions of a body. Every instruction that a body opens is read once, from the line
that opens it and the lines that go on with it, and it stays in the block of its label.

* `IsLines`: lines are tokens cut where the line number changes.
* `segments`: the tokens of the instructions that lines open.
* `sections`: the lines of each block, with its label.
* `IsBlock`: a block is what its lines spell.
* `segments_sections`: the segments of the lines are those of the sections.
* `Block.readAll_sections`: the blocks of a body are what its sections spell, and reading
  fails at the first segment that is no instruction.
-/

namespace CallGuard.Ir

/-! ### Lines -/

/-- The lines are the tokens cut where the line number changes. -/
structure IsLines (tokens : List Located) (lines : List (List Located)) : Prop where
  /-- No token is lost. -/
  flatten : lines.flatten = tokens
  /-- No line is empty. -/
  nonempty : ∀ line ∈ lines, line ≠ []
  /-- The tokens of a line have one line number. -/
  same : ∀ line ∈ lines, ∀ a ∈ line, ∀ b ∈ line, a.line = b.line
  /-- The next line has another one. -/
  apart : lines.IsChain fun line later => ∀ a ∈ line, ∀ b ∈ later, a.line ≠ b.line

lemma same_of_isChain {line : List Located}
    (h : line.IsChain fun a b => (a.line == b.line) = true) :
    ∀ a ∈ line, ∀ b ∈ line, a.line = b.line := by
  have : IsTrans Located fun a b => (a.line == b.line) = true :=
    ⟨fun a b c hab hbc => by simp_all⟩
  have hpairwise : line.Pairwise fun a b => a.line = b.line := h.pairwise.imp (by simp)
  have : Std.Symm fun a b : Located => a.line = b.line := ⟨fun _ _ => Eq.symm⟩
  intro a ha b hb
  exact List.Pairwise.forall_of_forall (R := fun a b => a.line = b.line) (fun _ _ => rfl)
    hpairwise ha hb

lemma isLines_tokenLines (tokens : List Located) : IsLines tokens (tokenLines tokens) := by
  have hsame : ∀ line ∈ tokenLines tokens, ∀ a ∈ line, ∀ b ∈ line, a.line = b.line :=
    fun line hline => same_of_isChain (List.isChain_of_mem_splitBy hline)
  refine ⟨List.flatten_splitBy _ _, fun line hline => List.ne_nil_of_mem_splitBy hline, hsame, ?_⟩
  refine (List.isChain_getLast_head_splitBy _ tokens).imp_of_mem_imp ?_
  rintro line later hline hlater ⟨hne, hne', hlast⟩ a ha b hb
  rw [hsame line hline a ha _ (List.getLast_mem hne),
    hsame later hlater b hb _ (List.head_mem hne')]
  simpa using hlast

/-- The label that a line starts with. -/
def lineLabel? : List Located → Option String
  | [] => none
  | t :: _ =>
    match t.token with
    | .label name => some name
    | _ => none

/-- Whether a line goes on with what an earlier line opens: it starts neither with a label
nor with an instruction. -/
def continuesLine (line : List Located) : Bool :=
  (lineLabel? line).isNone && !startsInstruction line

/-- The tokens of a line that open an instruction: all of them where it starts with an
instruction, and those after the label where it starts with a label and goes on. -/
def opened? (line : List Located) : Option (List Located) :=
  if (lineLabel? line).isSome then
    if line.tail = [] then none else some line.tail
  else if startsInstruction line then some line
  else none

/-- The tokens of the instructions that lines open, each with the lines that directly follow
and go on with it. -/
def segments : List (List Located) → List (List Located)
  | [] => []
  | line :: later =>
    ((opened? line).toList.map (· ++ (later.takeWhile continuesLine).flatten)) ++ segments later

/-- The lines before the first label. -/
def unlabelled (lines : List (List Located)) : List (List Located) :=
  lines.takeWhile fun line => (lineLabel? line).isNone

/-- The labels of lines, each with its line and the lines up to the next label. -/
def labelled : List (List Located) → List (Option String × List (List Located))
  | [] => []
  | line :: later =>
    ((lineLabel? line).toList.map fun name => (some name, line :: unlabelled later)) ++
      labelled later

/-- The lines of each block with its label. The lines before the first label are a section if
one of them starts an instruction. -/
def sections (lines : List (List Located)) : List (Option String × List (List Located)) :=
  (if (unlabelled lines).any startsInstruction then [(none, unlabelled lines)] else []) ++
    labelled lines

/-- The block has the label of the section, and the instructions of its segments in order. -/
def IsBlock (lines : Option String × List (List Located)) (b : Block) : Prop :=
  b.label = lines.1 ∧
    List.Forall₂ (fun ts i => Instruction.read ts = .ok i) (segments lines.2) b.instructions

lemma opened?_of_unlabelled {line : List Located} (h : lineLabel? line = none) :
    opened? line = if startsInstruction line then some line else none := by
  simp [opened?, h]

/-- The lines up to the next label hold those that go on with a line. -/
lemma takeWhile_unlabelled (lines : List (List Located)) :
    (unlabelled lines).takeWhile continuesLine = lines.takeWhile continuesLine := by
  rw [unlabelled, List.takeWhile_takeWhile]
  congr 1
  funext line
  cases hlabel : lineLabel? line <;> simp [continuesLine, hlabel]

/-- The segments of a line and the lines up to the next label. -/
lemma segments_cons_unlabelled (line : List Located) (later : List (List Located)) :
    segments (line :: unlabelled later) =
      (opened? line).toList.map (· ++ (later.takeWhile continuesLine).flatten) ++
        segments (unlabelled later) := by
  rw [segments, takeWhile_unlabelled]

lemma unlabelled_cons_of_eq_none {line : List Located} (h : lineLabel? line = none)
    (later : List (List Located)) : unlabelled (line :: later) = line :: unlabelled later := by
  simp [unlabelled, h]

lemma unlabelled_cons_of_eq_some {line : List Located} {name : String}
    (h : lineLabel? line = some name) (later : List (List Located)) :
    unlabelled (line :: later) = [] := by
  simp [unlabelled, h]

lemma segments_eq_append (lines : List (List Located)) :
    segments lines = segments (unlabelled lines) ++
      (labelled lines).flatMap fun lines => segments lines.2 := by
  induction lines with
  | nil => rfl
  | cons line later ih =>
      cases hlabel : lineLabel? line with
      | none =>
          rw [unlabelled_cons_of_eq_none hlabel, segments_cons_unlabelled, labelled, segments, ih,
            hlabel]
          simp
      | some name =>
          have hnil : segments [] = [] := rfl
          rw [unlabelled_cons_of_eq_some hlabel, hnil, labelled, segments, ih, hlabel]
          simp [segments_cons_unlabelled]

/-- Lines without labels have a segment exactly if one of them starts an instruction. -/
lemma segments_eq_nil_iff {lines : List (List Located)}
    (h : ∀ line ∈ lines, lineLabel? line = none) :
    segments lines = [] ↔ lines.any startsInstruction = false := by
  induction lines with
  | nil => simp [segments]
  | cons line later ih =>
      rw [List.forall_mem_cons] at h
      rw [segments, opened?_of_unlabelled h.1]
      cases hstart : startsInstruction line <;> simp_all

lemma lineLabel?_of_mem_unlabelled {lines : List (List Located)} {line : List Located}
    (h : line ∈ unlabelled lines) : lineLabel? line = none := by
  simpa using List.mem_takeWhile_imp h

/-- No segment is lost, read twice or moved where lines are cut into sections. -/
lemma segments_sections (lines : List (List Located)) :
    segments lines = (sections lines).flatMap fun lines => segments lines.2 := by
  rw [segments_eq_append, sections, List.flatMap_append]
  congr 1
  have hnil := segments_eq_nil_iff fun line => @lineLabel?_of_mem_unlabelled lines line
  cases hstart : (unlabelled lines).any startsInstruction with
  | false => simpa [hstart] using hnil.mpr hstart
  | true => simp

/-! ### Reading the items of lines -/

/-- The labels and segments of lines. -/
def lineItems : List (List Located) → List (BodyItem (List Located))
  | [] => []
  | line :: later =>
    (lineLabel? line).toList.map .label ++
      ((opened? line).toList.map fun ts =>
        .instruction (ts ++ (later.takeWhile continuesLine).flatten)) ++
      lineItems later

lemma addLine_eq (line : List Located)
    (later : List Located × List (BodyItem (List Located))) :
    addLine line later =
      (if continuesLine line then line ++ later.1 else [],
        (lineLabel? line).toList.map .label ++
          ((opened? line).toList.map fun ts => .instruction (ts ++ later.1)) ++ later.2) := by
  cases line with
  | nil => simp [addLine, continuesLine, opened?, lineLabel?, startsInstruction]
  | cons t rest =>
      cases ht : t.token with
      | label name =>
          cases rest <;> simp [addLine, continuesLine, opened?, lineLabel?, ht]
      | _ =>
          cases hstart : startsInstruction (t :: rest) <;>
            simp [addLine, continuesLine, opened?, lineLabel?, ht, hstart]

lemma foldr_addLine_eq (lines : List (List Located)) :
    lines.foldr addLine ([], []) =
      ((lines.takeWhile continuesLine).flatten, lineItems lines) := by
  induction lines with
  | nil => rfl
  | cons line later ih =>
      rw [List.foldr_cons, ih, addLine_eq, lineItems, List.takeWhile_cons]
      cases continuesLine line <;> simp

lemma bodyItems_eq (tokens : List Located) : bodyItems tokens = lineItems (tokenLines tokens) := by
  rw [bodyItems, foldr_addLine_eq]

/-- The segment of an item. -/
def BodyItem.segment? {α : Type} : BodyItem α → Option α
  | .label _ => none
  | .instruction content => some content

lemma filterMap_lineItems (lines : List (List Located)) :
    (lineItems lines).filterMap BodyItem.segment? = segments lines := by
  induction lines with
  | nil => rfl
  | cons line later ih =>
      rw [lineItems, segments, List.filterMap_append, List.filterMap_append, ih]
      cases lineLabel? line <;> cases opened? line <;> simp [BodyItem.segment?]

section

variable {α β ε : Type} {f : α → Except ε β}

lemma mapM_cons_of_ok {x : α} {y : β} (h : f x = .ok y) (xs : List α) :
    (x :: xs).mapM f = (xs.mapM f).map (y :: ·) := by
  rw [List.mapM_cons, h]
  rfl

lemma mapM_cons_of_error {x : α} {e : ε} (h : f x = .error e) (xs : List α) :
    (x :: xs).mapM f = .error e := by
  rw [List.mapM_cons, h]
  rfl

/-- A list is read if all its items are. -/
lemma exists_mapM_eq_ok {xs : List α} (h : ∀ x ∈ xs, ∃ y, f x = .ok y) :
    ∃ ys, xs.mapM f = .ok ys := by
  induction xs with
  | nil => exact ⟨[], rfl⟩
  | cons x xs ih =>
      rw [List.forall_mem_cons] at h
      obtain ⟨y, hy⟩ := h.1
      obtain ⟨ys, hys⟩ := ih h.2
      exact ⟨y :: ys, by rw [mapM_cons_of_ok hy, hys]; rfl⟩

lemma forall₂_of_mapM_eq_ok {xs : List α} {ys : List β} (h : xs.mapM f = .ok ys) :
    List.Forall₂ (fun x y => f x = .ok y) xs ys := by
  induction xs generalizing ys with
  | nil =>
      obtain rfl : [] = ys := Except.ok.inj h
      exact .nil
  | cons x xs ih =>
      cases hx : f x with
      | error e => simp [mapM_cons_of_error hx] at h
      | ok y =>
          rw [mapM_cons_of_ok hx] at h
          cases hxs : xs.mapM f with
          | error e => simp [hxs, Except.map] at h
          | ok zs =>
              rw [hxs] at h
              obtain rfl : y :: zs = ys := Except.ok.inj h
              exact .cons hx (ih hxs)

/-- Reading a list fails at the first item that cannot be read, with its error. -/
lemma mapM_eq_error_iff {xs : List α} {e : ε} :
    xs.mapM f = .error e ↔ ∃ before x after, xs = before ++ x :: after ∧
      (∀ y ∈ before, ∃ b, f y = .ok b) ∧ f x = .error e := by
  constructor
  · intro h
    induction xs with
    | nil => cases h
    | cons x xs ih =>
        cases hx : f x with
        | error e' =>
            rw [mapM_cons_of_error hx] at h
            obtain rfl : e' = e := Except.error.inj h
            exact ⟨[], x, xs, rfl, by simp, hx⟩
        | ok y =>
            rw [mapM_cons_of_ok hx] at h
            cases hxs : xs.mapM f with
            | ok zs => simp [hxs, Except.map] at h
            | error e' =>
                rw [hxs] at h
                obtain rfl : e' = e := Except.error.inj h
                obtain ⟨before, x', after, rfl, hbefore, hx'⟩ := ih hxs
                refine ⟨x :: before, x', after, rfl, ?_, hx'⟩
                exact List.forall_mem_cons.mpr ⟨⟨y, hx⟩, hbefore⟩
  · rintro ⟨before, x, after, rfl, hbefore, hx⟩
    induction before with
    | nil => exact mapM_cons_of_error hx after
    | cons y before ih =>
        rw [List.forall_mem_cons] at hbefore
        obtain ⟨b, hb⟩ := hbefore.1
        rw [List.cons_append, mapM_cons_of_ok hb, ih hbefore.2]
        rfl

end

/-- Reading items reads their segments, and labels do not fail. -/
lemma map_mapM_read (items : List (BodyItem (List Located))) :
    (items.mapM BodyItem.read).map (List.filterMap BodyItem.segment?) =
      (items.filterMap BodyItem.segment?).mapM Instruction.read := by
  induction items with
  | nil => rfl
  | cons item items ih =>
      cases item with
      | label name =>
          have hread : BodyItem.read (.label name) = .ok (.label name) := rfl
          rw [mapM_cons_of_ok hread, List.filterMap_cons_none rfl, ← ih]
          cases items.mapM BodyItem.read <;> rfl
      | instruction ts =>
          have hsegment : (BodyItem.instruction ts).segment? = some ts := rfl
          rw [List.filterMap_cons_some hsegment]
          cases hts : Instruction.read ts with
          | error e =>
              have hread : BodyItem.read (.instruction ts) = .error e := by
                rw [BodyItem.read, hts]
                rfl
              rw [mapM_cons_of_error hread, mapM_cons_of_error hts]
              rfl
          | ok i =>
              have hread : BodyItem.read (.instruction ts) = .ok (.instruction i) := by
                rw [BodyItem.read, hts]
                rfl
              rw [mapM_cons_of_ok hread, mapM_cons_of_ok hts, ← ih]
              cases items.mapM BodyItem.read <;> rfl

/-- A body is read as the blocks of its items. -/
lemma readAll_eq (tokens : List Located) :
    Block.readAll tokens =
      ((lineItems (tokenLines tokens)).mapM BodyItem.read).map Block.group := by
  rw [Block.readAll, bodyItems_eq]
  cases (lineItems (tokenLines tokens)).mapM BodyItem.read <;> rfl

lemma readAll_eq_error_iff (tokens : List Located) (e : ParseError) :
    Block.readAll tokens = .error e ↔
      (segments (tokenLines tokens)).mapM Instruction.read = .error e := by
  rw [readAll_eq, ← filterMap_lineItems, ← map_mapM_read]
  cases (lineItems (tokenLines tokens)).mapM BodyItem.read <;> simp [Except.map]

/-! ### Blocks -/

lemma exists_instructions {tss : List (List Located)} {items : List (BodyItem (List Located))}
    {read : List (BodyItem Instruction)}
    (h : List.Forall₂ (fun item item' => BodyItem.read item = .ok item')
      (tss.map BodyItem.instruction ++ items) read) :
    ∃ is read', read = is.map .instruction ++ read' ∧
      List.Forall₂ (fun ts i => Instruction.read ts = .ok i) tss is ∧
      List.Forall₂ (fun item item' => BodyItem.read item = .ok item') items read' := by
  induction tss generalizing read with
  | nil => exact ⟨[], read, rfl, .nil, h⟩
  | cons ts tss ih =>
      obtain _ | @⟨_, item, _, read, hitem, h⟩ := h
      obtain ⟨is, read', rfl, his, hread'⟩ := ih h
      cases hts : Instruction.read ts with
      | error e => simp [BodyItem.read, hts, Except.map] at hitem
      | ok i =>
          rw [BodyItem.read, hts] at hitem
          obtain rfl : .instruction i = item := Except.ok.inj hitem
          exact ⟨i :: is, read', rfl, .cons hts his, hread'⟩

lemma foldr_addItem_append (is : List Instruction) (items : List (BodyItem Instruction)) :
    (is.map BodyItem.instruction ++ items).foldr addItem ([], []) =
      (is ++ (items.foldr addItem ([], [])).1, (items.foldr addItem ([], [])).2) := by
  induction is with
  | nil => rfl
  | cons i is ih =>
      rw [List.map_cons, List.cons_append, List.foldr_cons, ih]
      rfl

/-- The items of lines, once read, make up the instructions before the first label and the
blocks of the labels. -/
lemma foldr_addItem_eq {lines : List (List Located)} {read : List (BodyItem Instruction)}
    (h : List.Forall₂ (fun item item' => BodyItem.read item = .ok item') (lineItems lines) read) :
    List.Forall₂ (fun ts i => Instruction.read ts = .ok i) (segments (unlabelled lines))
        (read.foldr addItem ([], [])).1 ∧
      List.Forall₂ IsBlock (labelled lines) (read.foldr addItem ([], [])).2 := by
  induction lines generalizing read with
  | nil =>
      cases h
      exact ⟨.nil, .nil⟩
  | cons line later ih =>
      have hopened : ((opened? line).toList.map fun ts =>
          BodyItem.instruction (ts ++ (later.takeWhile continuesLine).flatten)) =
          ((opened? line).toList.map (· ++ (later.takeWhile continuesLine).flatten)).map
            BodyItem.instruction := by
        rw [List.map_map]
        rfl
      rw [lineItems, hopened, List.append_assoc] at h
      cases hlabel : lineLabel? line with
      | none =>
          rw [hlabel] at h
          obtain ⟨is, read, rfl, his, h⟩ := exists_instructions h
          obtain ⟨hfirst, hblocks⟩ := ih h
          rw [foldr_addItem_append, unlabelled_cons_of_eq_none hlabel, segments_cons_unlabelled,
            labelled, hlabel]
          exact ⟨List.rel_append his hfirst, hblocks⟩
      | some name =>
          rw [hlabel] at h
          obtain _ | @⟨_, item, _, read, hitem, h⟩ := h
          obtain rfl : .label name = item := Except.ok.inj hitem
          obtain ⟨is, read, rfl, his, h⟩ := exists_instructions h
          obtain ⟨hfirst, hblocks⟩ := ih h
          rw [List.foldr_cons, foldr_addItem_append, unlabelled_cons_of_eq_some hlabel, labelled,
            hlabel]
          refine ⟨.nil, .cons ⟨rfl, ?_⟩ hblocks⟩
          rw [segments_cons_unlabelled]
          exact List.rel_append his hfirst

/-- The blocks of items that are read are what the sections spell. -/
lemma isBlock_group {lines : List (List Located)} {read : List (BodyItem Instruction)}
    (h : List.Forall₂ (fun item item' => BodyItem.read item = .ok item') (lineItems lines) read) :
    List.Forall₂ IsBlock (sections lines) (Block.group read) := by
  obtain ⟨hfirst, hblocks⟩ := foldr_addItem_eq h
  have hnil := segments_eq_nil_iff fun line => @lineLabel?_of_mem_unlabelled lines line
  rw [sections, Block.group]
  cases hstart : (unlabelled lines).any startsInstruction with
  | false =>
      have hempty : (read.foldr addItem ([], [])).1 = [] := by
        rw [hnil.mpr hstart] at hfirst
        exact List.forall₂_nil_left_iff.mp hfirst
      simpa [hempty] using hblocks
  | true =>
      have hne : (read.foldr addItem ([], [])).1 ≠ [] := by
        intro hempty
        rw [hempty, List.forall₂_nil_right_iff, hnil, hstart] at hfirst
        exact absurd hfirst (by simp)
      simp only [List.isEmpty_iff, if_neg hne]
      exact .cons ⟨rfl, hfirst⟩ hblocks

/-- A section spells one block. -/
lemma isBlock_rightUnique : Relator.RightUnique IsBlock := by
  have hread : Relator.RightUnique fun ts i => Instruction.read ts = .ok i :=
    fun ts i j hi hj => Except.ok.inj (hi.symm.trans hj)
  rintro ⟨label, lines⟩ ⟨l, is⟩ ⟨l', is'⟩ ⟨hl, his⟩ ⟨hl', his'⟩
  obtain rfl : l = label := hl
  obtain rfl : l' = l := hl'
  obtain rfl : is = is' := hread.forall₂ his his'
  rfl

lemma exists_of_mem_forall₂ {α β : Type} {R : α → β → Prop} {xs : List α} {ys : List β}
    (h : List.Forall₂ R xs ys) {x : α} (hx : x ∈ xs) : ∃ y, R x y := by
  induction h with
  | nil => simp at hx
  | cons hxy _ ih =>
      rcases List.mem_cons.mp hx with rfl | hx
      · exact ⟨_, hxy⟩
      · exact ih hx

/-- All segments of sections that spell blocks are instructions. -/
lemma forall_segments {lines : List (List Located)} {blocks : List Block}
    (h : List.Forall₂ IsBlock (sections lines) blocks) :
    ∀ ts ∈ segments lines, ∃ i, Instruction.read ts = .ok i := by
  intro ts hts
  rw [segments_sections] at hts
  obtain ⟨part, hpart, hts⟩ := List.mem_flatMap.mp hts
  obtain ⟨b, -, hb⟩ := exists_of_mem_forall₂ h hpart
  exact exists_of_mem_forall₂ hb hts

lemma isBlock_of_readAll_eq_ok {tokens : List Located} {blocks : List Block}
    (h : Block.readAll tokens = .ok blocks) :
    List.Forall₂ IsBlock (sections (tokenLines tokens)) blocks := by
  rw [readAll_eq] at h
  cases hread : (lineItems (tokenLines tokens)).mapM BodyItem.read with
  | error e => simp [hread, Except.map] at h
  | ok read =>
      rw [hread] at h
      obtain rfl : Block.group read = blocks := Except.ok.inj h
      exact isBlock_group (forall₂_of_mapM_eq_ok hread)

lemma exists_readAll_eq_ok {tokens : List Located}
    (h : ∀ ts ∈ segments (tokenLines tokens), ∃ i, Instruction.read ts = .ok i) :
    ∃ blocks, Block.readAll tokens = .ok blocks := by
  obtain ⟨is, his⟩ := exists_mapM_eq_ok h
  cases hread : Block.readAll tokens with
  | ok blocks => exact ⟨blocks, rfl⟩
  | error e =>
      rw [readAll_eq_error_iff, his] at hread
      exact absurd hread (by simp)

/-- **Every instruction of a body is read in its block.** Reading a body fails at the first
segment that is no instruction, with its error, and succeeds where there is none. The blocks
are then, in order, what the sections of its lines spell: one for every line with a label, and
one without label before them if an instruction starts there, each with the instructions of
its own segments. -/
theorem Block.readAll_sections (tokens : List Located) :
    IsLines tokens (tokenLines tokens) ∧
      segments (tokenLines tokens) =
        ((sections (tokenLines tokens)).flatMap fun lines => segments lines.2) ∧
      (∀ e, Block.readAll tokens = .error e ↔
        ∃ before ts after, segments (tokenLines tokens) = before ++ ts :: after ∧
          (∀ ts' ∈ before, ∃ i, Instruction.read ts' = .ok i) ∧ Instruction.read ts = .error e) ∧
      ((∃ blocks, Block.readAll tokens = .ok blocks) ↔
        ∀ ts ∈ segments (tokenLines tokens), ∃ i, Instruction.read ts = .ok i) ∧
      ∀ blocks, Block.readAll tokens = .ok blocks ↔
        List.Forall₂ IsBlock (sections (tokenLines tokens)) blocks := by
  refine ⟨isLines_tokenLines tokens, segments_sections _, fun e => ?_, ⟨?_, exists_readAll_eq_ok⟩,
    fun blocks => ⟨isBlock_of_readAll_eq_ok, fun h => ?_⟩⟩
  · rw [readAll_eq_error_iff, mapM_eq_error_iff]
  · rintro ⟨blocks, h⟩
    exact forall_segments (isBlock_of_readAll_eq_ok h)
  · obtain ⟨blocks', h'⟩ := exists_readAll_eq_ok (forall_segments h)
    rw [h', isBlock_rightUnique.forall₂ h (isBlock_of_readAll_eq_ok h')]

end CallGuard.Ir
