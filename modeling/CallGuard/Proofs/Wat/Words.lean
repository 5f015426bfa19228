import CallGuard.Proofs.Wat.Splice
import CallGuard.Wat.Instruction

/-!
Texts that are laid out from words. Words with blanks between them are read back as
these words wherever no character of an atom follows, so they can take the place of an
atom.

* `IsWord`: characters that are one atom.
* `Laid`: pieces that stand before whatever an atom stands before.
* `joined`: pieces with blanks between them.
* `Instruction.words`, `sequencePieces`: what a sequence of instructions is read back as.
* `fits_of_tokens`: laid out pieces can take the place of atoms.
-/

namespace CallGuard.Wat

open Text (byteLength)

/-! ### Words -/

/-- Characters that are one atom. -/
def IsWord (w : List Char) : Prop :=
  w ≠ [] ∧ ∀ c ∈ w, isAtomChar c

instance (w : List Char) : Decidable (IsWord w) :=
  decidable_of_iff (w ≠ [] ∧ w.all isAtomChar) (by rw [IsWord, List.all_eq_true])

/-- A word as a piece. -/
def wordPiece (w : List Char) : Piece :=
  ⟨some .atom, w⟩

/-- Blanks as pieces. -/
def blankPieces (cs : List Char) : List Piece :=
  cs.map fun c => ⟨none, [c]⟩

lemma IsWord.stands {w rest : List Char} (hw : IsWord w) (hrest : AtomEnds rest) :
    Stands (wordPiece w) rest := by
  obtain ⟨hne, hall⟩ := hw
  obtain ⟨c, cs, rfl⟩ := List.exists_cons_of_ne_nil hne
  have hc := hall c (by simp)
  simp only [isAtomChar, Bool.and_eq_true, Bool.not_eq_true', bne_iff_ne] at hc
  obtain ⟨⟨⟨⟨hspace, hopen⟩, hclose⟩, hquote⟩, hsemi⟩ := hc
  exact Stands.atom hspace hopen hclose hquote (fun h => absurd h hsemi)
    (fun d hd => hall d (List.mem_cons_of_mem _ hd)) hrest

/-- An atom that does not start as a comment could is a word. -/
lemma isWord_of_stands {w rest : List Char} (h : Stands ⟨some .atom, w⟩ rest)
    (hw : w.head? ≠ some ';') : IsWord w := by
  cases h with
  | @atom c cs _ hspace hopen hclose hquote _ hcs _ =>
      refine ⟨by simp, fun d hd => ?_⟩
      rcases List.mem_cons.mp hd with rfl | hd
      · have hsemi : d ≠ ';' := by simpa using hw
        simp [isAtomChar, hspace, hopen, hclose, hquote, hsemi]
      · exact hcs d hd

lemma atomEnds_of_stands {w rest : List Char} (h : Stands ⟨some .atom, w⟩ rest) :
    AtomEnds rest := by
  cases h with
  | atom _ _ _ _ _ _ hrest => exact hrest

lemma atomEnds_of_isSpace {c : Char} (hc : isSpace c) (rest : List Char) :
    AtomEnds (c :: rest) := by
  intro d hd
  obtain rfl : c = d := by simpa using hd
  simp [isAtomChar, hc]

lemma isAtomChar_of_isDigit {c : Char} (hc : c.isDigit) : isAtomChar c := by
  by_contra h
  simp only [isAtomChar, isSpace, Bool.and_eq_true, Bool.not_eq_true', Bool.or_eq_false_iff,
    bne_iff_ne, beq_eq_false_iff_ne, ne_eq] at h
  have hchar : c = ' ' ∨ c = '\t' ∨ c = '\n' ∨ c = '\x0c' ∨ c = '\r' ∨ c = '(' ∨ c = ')' ∨
      c = '"' ∨ c = ';' := by
    tauto
  rcases hchar with rfl | rfl | rfl | rfl | rfl | rfl | rfl | rfl | rfl <;>
    simp [Char.isDigit] at hc

lemma isWord_decimal (n : Nat) : IsWord (Text.decimal n) :=
  ⟨Nat.toDigits_ne_nil, fun _ hc =>
    isAtomChar_of_isDigit (Nat.isDigit_of_mem_toDigits (by omega) (by omega) hc)⟩

lemma IsWord.append {w v : List Char} (hw : IsWord w) (hv : ∀ c ∈ v, isAtomChar c) :
    IsWord (w ++ v) := by
  refine ⟨by simp [hw.1], fun c hc => ?_⟩
  rcases List.mem_append.mp hc with hc | hc
  · exact hw.2 c hc
  · exact hv c hc

/-! ### Pieces with blanks between them -/

/-- Terminated pieces that stand before every text that does not go on with a character
of an atom. -/
structure Laid (ps : List Piece) : Prop where
  stands : ∀ rest, AtomEnds rest → StandAll ps rest
  terminated : ∀ p ∈ ps, p.Terminated

lemma laid_word {w : List Char} (hw : IsWord w) : Laid [wordPiece w] where
  stands rest hrest := ⟨by simpa [flat] using hw.stands hrest, trivial⟩
  terminated p hp := by
    obtain rfl := List.mem_singleton.mp hp
    rfl

/-- Blanks may come before laid out pieces. -/
lemma Laid.blanks {cs : List Char} (hcs : ∀ c ∈ cs, isSpace c) {ps : List Piece} (hps : Laid ps) :
    Laid (blankPieces cs ++ ps) := by
  induction cs with
  | nil => exact hps
  | cons c cs ih =>
      have ih := ih fun d hd => hcs d (List.mem_cons_of_mem _ hd)
      refine ⟨fun rest hrest => ⟨Stands.blank (hcs c (by simp)), ih.stands rest hrest⟩, ?_⟩
      intro p hp
      rcases List.mem_cons.mp hp with rfl | hp
      · simp [Piece.Terminated]
      · exact ih.terminated p hp

@[simp] lemma flat_blankPieces (cs : List Char) : flat (blankPieces cs) = cs := by
  simp [flat, blankPieces, List.flatMap_map]

@[simp] lemma lexemesOf_blankPieces (cs : List Char) : lexemesOf (blankPieces cs) = [] := by
  simp [lexemesOf, blankPieces, List.filterMap_map]

/-- Pieces may come before others if at least one blank is between. -/
lemma Laid.append_blank {ps qs : List Piece} (hps : Laid ps) {c : Char} {cs : List Char}
    (hc : isSpace c) (hcs : ∀ d ∈ cs, isSpace d) (hqs : Laid qs) :
    Laid (ps ++ (blankPieces (c :: cs) ++ qs)) := by
  have hrest : Laid (blankPieces (c :: cs) ++ qs) := hqs.blanks (by simpa using ⟨hc, hcs⟩)
  refine ⟨fun rest hr => standAll_append.mpr ⟨hps.stands _ ?_, hrest.stands rest hr⟩, ?_⟩
  · rw [flat_append, flat_blankPieces, List.cons_append, List.cons_append]
    exact atomEnds_of_isSpace hc _
  · intro p hp
    rcases List.mem_append.mp hp with hp | hp
    · exact hps.terminated p hp
    · exact hrest.terminated p hp

/-- Parts with blanks between them. -/
def joined (gap : List Char) : List (List Piece) → List Piece
  | [] => []
  | [part] => part
  | part :: parts => part ++ (blankPieces gap ++ joined gap parts)

lemma laid_joined {c : Char} {cs : List Char} (hc : isSpace c) (hcs : ∀ d ∈ cs, isSpace d)
    {parts : List (List Piece)} (hparts : ∀ part ∈ parts, Laid part) :
    Laid (joined (c :: cs) parts) := by
  fun_induction joined (c :: cs) parts with
  | case1 => exact ⟨fun _ _ => trivial, by simp⟩
  | case2 part => exact hparts part (by simp)
  | case3 part parts _ ih =>
      exact (hparts part (by simp)).append_blank hc hcs
        (ih fun part' h => hparts part' (List.mem_cons_of_mem _ h))

lemma flat_joined (gap : List Char) (parts : List (List Piece)) :
    flat (joined gap parts) = gap.intercalate (parts.map flat) := by
  fun_induction joined gap parts with
  | case1 => rfl
  | case2 part => simp
  | case3 part parts hne ih =>
      have hne' : parts.map flat ≠ [] := by simpa using hne
      rw [List.map_cons, List.intercalate_cons_of_ne_nil hne', flat_append, flat_append, ih,
        flat_blankPieces, List.append_assoc]

lemma lexemesOf_joined (gap : List Char) (parts : List (List Piece)) :
    lexemesOf (joined gap parts) = parts.flatMap lexemesOf := by
  fun_induction joined gap parts with
  | case1 => rfl
  | case2 part => simp
  | case3 part parts _ ih => simp [ih]

/-- Words with blanks between them. -/
def wordPieces (ws : List (List Char)) : List Piece :=
  joined [' '] (ws.map fun w => [wordPiece w])

lemma laid_wordPieces {ws : List (List Char)} (hws : ∀ w ∈ ws, IsWord w) :
    Laid (wordPieces ws) := by
  refine laid_joined (by decide) (by simp) fun part hpart => ?_
  obtain ⟨w, hw, rfl⟩ := List.mem_map.mp hpart
  exact laid_word (hws w hw)

lemma flat_wordPieces (ws : List (List Char)) : flat (wordPieces ws) = [' '].intercalate ws := by
  rw [wordPieces, flat_joined, List.map_map]
  congr 1
  simp [Function.comp_def, flat, wordPiece]

lemma lexemesOf_wordPieces (ws : List (List Char)) :
    lexemesOf (wordPieces ws) = ws.map fun w => (.atom, w) := by
  rw [wordPieces, lexemesOf_joined, List.flatMap_map]
  simp [wordPiece, lexemesOf, ← List.map_eq_flatMap]

/-! ### Instructions -/

namespace Instruction

/-- The words of an instruction. -/
def words : Instruction → List (List Char)
  | const value => ["i32.const".toList, Text.decimal value.toNat]
  | sub => ["i32.sub".toList]
  | mul => ["i32.mul".toList]
  | load offset => ["i32.load".toList, "offset=".toList ++ Text.decimal offset.toNat]
  | globalGet index => ["global.get".toList, Text.decimal index]
  | globalSet index => ["global.set".toList, Text.decimal index]
  | call name => ["call".toList, '$' :: name]
  | callIndirect => ["call_indirect".toList]

/-- An instruction is written as its words. -/
lemma flat_words (i : Instruction) : flat (wordPieces i.words) = i.text := by
  have hpair (w v : List Char) : [' '].intercalate [w, v] = (w ++ [' ']) ++ v := by simp
  rw [flat_wordPieces]
  cases i with
  | const value => exact hpair "i32.const".toList _
  | sub => exact List.intercalate_singleton
  | mul => exact List.intercalate_singleton
  | load offset => exact (hpair "i32.load".toList _).trans (List.append_assoc _ _ _).symm
  | globalGet index => exact hpair "global.get".toList _
  | globalSet index => exact hpair "global.set".toList _
  | call name => exact hpair "call".toList ('$' :: name)
  | callIndirect => exact List.intercalate_singleton

/-- A called function has a name that is read back as one word. -/
def Named : Instruction → Prop
  | call name => ∀ c ∈ name, isAtomChar c
  | _ => True

lemma isWord_of_mem_words {i : Instruction} (hi : i.Named) : ∀ w ∈ i.words, IsWord w := by
  have hoffset (n : Nat) : IsWord ("offset=".toList ++ Text.decimal n) :=
    IsWord.append (by decide) (isWord_decimal n).2
  have hpair {w v : List Char} (hw : IsWord w) (hv : IsWord v) : ∀ u ∈ [w, v], IsWord u := by
    simpa using ⟨hw, hv⟩
  cases i with
  | const value => exact hpair (by decide) (isWord_decimal _)
  | sub => exact List.forall_mem_singleton.mpr (by decide)
  | mul => exact List.forall_mem_singleton.mpr (by decide)
  | load offset => exact hpair (by decide) (hoffset _)
  | globalGet index => exact hpair (by decide) (isWord_decimal _)
  | globalSet index => exact hpair (by decide) (isWord_decimal _)
  | call name => exact hpair (by decide) (@IsWord.append ['$'] name (by decide) hi)
  | callIndirect => exact List.forall_mem_singleton.mpr (by decide)

end Instruction

/-- The pieces of instructions one below the other. -/
def sequencePieces (indent : List Char) (is : List Instruction) : List Piece :=
  joined ('\n' :: indent) (is.map fun i => wordPieces i.words)

lemma flat_sequencePieces (indent : List Char) (is : List Instruction) :
    flat (sequencePieces indent is) = sequenceText indent is := by
  rw [sequencePieces, flat_joined, List.map_map]
  fun_induction sequenceText indent is with
  | case1 => rfl
  | case2 i => simp [Instruction.flat_words]
  | case3 i is hne ih =>
      have hne' : is.map (flat ∘ fun i => wordPieces i.words) ≠ [] := by simpa using hne
      rw [List.map_cons, List.intercalate_cons_of_ne_nil hne', ih, Function.comp_apply,
        Instruction.flat_words, List.append_assoc]

lemma laid_sequencePieces {indent : List Char} (hindent : ∀ c ∈ indent, isSpace c)
    {is : List Instruction} (his : ∀ i ∈ is, i.Named) : Laid (sequencePieces indent is) := by
  refine laid_joined (by decide) hindent fun part hpart => ?_
  obtain ⟨i, hi, rfl⟩ := List.mem_map.mp hpart
  exact laid_wordPieces (Instruction.isWord_of_mem_words (his i hi))

lemma lexemesOf_sequencePieces (indent : List Char) (is : List Instruction) :
    lexemesOf (sequencePieces indent is) =
      is.flatMap fun i => i.words.map fun w => (.atom, w) := by
  rw [sequencePieces, lexemesOf_joined, List.flatMap_map]
  simp [lexemesOf_wordPieces]

/-! ### In the place of atoms -/

/-- Characters that start with one of an atom. -/
def StartsAtom (cs : List Char) : Prop :=
  ∃ c, cs.head? = some c ∧ isAtomChar c

lemma IsWord.startsAtom {w : List Char} (hw : IsWord w) (rest : List Char) :
    StartsAtom (w ++ rest) := by
  obtain ⟨c, cs, rfl⟩ := List.exists_cons_of_ne_nil hw.1
  exact ⟨c, rfl, hw.2 c (by simp)⟩

lemma startsAtom_wordPieces {ws : List (List Char)} (hne : ws ≠ []) (hws : ∀ w ∈ ws, IsWord w) :
    StartsAtom (flat (wordPieces ws)) := by
  obtain ⟨w, ws, rfl⟩ := List.exists_cons_of_ne_nil hne
  have hw := hws w (by simp)
  rw [flat_wordPieces]
  cases ws with
  | nil => simpa using hw.startsAtom []
  | cons v ws =>
      rw [List.intercalate_cons_cons, List.append_assoc]
      exact hw.startsAtom _

/-- An atom of a text that does not start as a comment could is a word. -/
lemma isWord_of_mem_tokens {text : List Char} {t : Token} (ht : t ∈ tokens text)
    (hkind : t.kind = .atom) (htext : t.text.head? ≠ some ';') : IsWord t.text := by
  obtain ⟨front, back, hsplit⟩ := List.append_of_mem ht
  obtain ⟨ks, rest, hpieces, -⟩ := exists_pieces hsplit
  have hstand := standAll_pieces text
  rw [hpieces, standAll_append, hkind] at hstand
  exact isWord_of_stands hstand.2.1 htext

/-- Laid out pieces can take the place of pieces that start with an atom and end with
one. -/
lemma Laid.apt {ds ps qs : List Piece} (hqs : Laid qs) {e : Edit} (he : e.replacement = flat qs)
    (hnew : StartsAtom (flat qs)) (hold : StartsAtom (flat ds))
    (htoken : ∀ p, ds.head? = some p → p.kind.isSome) (hps : AtomEnds (flat ps)) : Apt ds ps e := by
  have hpieces : pieces e.replacement = qs := by
    rw [he]
    exact pieces_flat (hqs.stands [] (by simp [AtomEnds]))
  obtain ⟨c, hc, hcatom⟩ := hold
  obtain ⟨d, hd, hdatom⟩ := hnew
  have hne : ds ≠ [] := by
    rintro rfl
    simp at hc
  refine ⟨fun rest hrest => ?_, fun rest _ => Or.inr (Or.inr ⟨c, d, ?_, hcatom, ?_, hdatom⟩), ?_,
    Or.inl ?_⟩
  · rw [hpieces]
    exact hqs.stands rest (hps.blend hrest)
  · rw [List.head?_append, hc, Option.some_or]
  · rw [he, List.head?_append, hd, Option.some_or]
  · rw [Terminated, hpieces]
    exact hqs.terminated
  · rw [List.head?_append_of_ne_nil _ hne]
    exact htoken

/-- Laid out pieces can take the place of atoms that follow each other. -/
lemma fits_of_tokens {text : List Char} {front ts back : List Token} {first last : Token}
    (htext : tokens text = front ++ (ts ++ back)) (hfirst : ts.head? = some first)
    (hlast : ts.getLast? = some last) (hfkind : first.kind = .atom)
    (hftext : first.text.head? ≠ some ';') (hlkind : last.kind = .atom) {qs : List Piece}
    (hqs : Laid qs) (hnew : StartsAtom (flat qs)) :
    Fits text ⟨first.start, last.stop, flat qs⟩ := by
  obtain ⟨ks, ds, rest, hpieces, hstart, hstop, hhead, hend⟩ :=
    exists_pieces_span htext hfirst hlast
  have hstand := standAll_pieces text
  rw [hpieces, standAll_append, standAll_append] at hstand
  obtain ⟨-, hds, -⟩ := hstand
  rw [hfkind] at hhead
  rw [hlkind] at hend
  refine ⟨ks, ds, rest, hpieces, by simpa using hstart, hstop,
    hqs.apt rfl hnew ?_ (fun p hp => ?_) ?_⟩
  · obtain ⟨ds, rfl⟩ := List.head?_eq_some_iff.mp hhead
    exact (isWord_of_stands hds.1 hftext).startsAtom _
  · obtain rfl := Option.some.inj (hhead.symm.trans hp)
    rfl
  · obtain ⟨ds, rfl⟩ := List.getLast?_eq_some_iff.mp hend
    have := (standAll_append.mp hds).2.1
    rw [flat_nil, List.nil_append, List.append_nil] at this
    exact atomEnds_of_stands this

end CallGuard.Wat
