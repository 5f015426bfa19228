import CallGuard.Wat.Token
import Mathlib.Data.List.TakeWhile
import Mathlib.Tactic

/-!
The pieces of a text that is put together from parts. Whether a piece is read as
before depends on nothing but the character after it, and for most pieces not even on
that; so the pieces of a changed text are those of its parts, unless a change makes two
of them run into each other.

* `Stands`: what a piece looks like, and what may follow it.
* `stands_read`, `Stands.read_eq`: these are exactly the pieces that are read.
* `StandAll`, `pieces_append`: the pieces of a text after others.
* `Blends`, `StandAll.blend`: what the text after pieces may be changed to.
-/

namespace CallGuard.Wat

/-! ### Strings and comments that end -/

/-- Whether the rest of a string has a closing quote. -/
def stringCloses : List Char → Bool
  | [] => false
  | '"' :: _ => true
  | '\\' :: _ :: cs => stringCloses cs
  | _ :: cs => stringCloses cs

/-- Whether the rest of block comments, of which the given number is open, has the ends
of all. -/
def commentCloses : Nat → List Char → Bool
  | 0, _ => true
  | _ + 1, [] => false
  | depth + 1, '(' :: ';' :: cs => commentCloses (depth + 2) cs
  | depth + 1, ';' :: ')' :: cs => commentCloses depth cs
  | depth + 1, _ :: cs => commentCloses (depth + 1) cs

/-- A character that neither ends a string nor guards the next one. -/
lemma splitString_cons {c : Char} {cs : List Char} (hquote : c ≠ '"')
    (hslash : c = '\\' → cs = []) : splitString (c :: cs) = addFirst [c] (splitString cs) := by
  rw [splitString]
  · exact hquote
  · rintro d ds hc rfl
    exact absurd (hslash hc) (by simp)

/-- A character that neither opens a comment nor ends one. -/
lemma splitComment_cons {depth : Nat} {c : Char} {cs : List Char}
    (hopen : c = '(' → cs.head? ≠ some ';') (hclose : c = ';' → cs.head? ≠ some ')') :
    splitComment (depth + 1) (c :: cs) = addFirst [c] (splitComment (depth + 1) cs) := by
  rw [splitComment]
  · rintro ds hc rfl
    exact hopen hc rfl
  · rintro ds hc rfl
    exact hclose hc rfl

/-- A string that ends does so whatever follows. -/
lemma splitString_append_of_closes {cs : List Char} (h : stringCloses cs) (rest : List Char) :
    splitString (cs ++ rest) = ((splitString cs).1, (splitString cs).2 ++ rest) := by
  fun_induction stringCloses cs with
  | case1 => simp at h
  | case2 cs => simp [splitString]
  | case3 c cs ih => simp [splitString, ih h, addFirst]
  | case4 c cs hquote hslash ih =>
      have hne : cs ≠ [] := by
        rintro rfl
        simp [stringCloses] at h
      have hc : c ≠ '\\' := by
        rintro rfl
        obtain ⟨d, ds, rfl⟩ := List.exists_cons_of_ne_nil hne
        exact hslash d ds rfl rfl
      rw [List.cons_append, splitString_cons hquote (fun h => absurd h hc),
        splitString_cons hquote (fun h => absurd h hc), ih h]
      rfl

/-- Comments that end do so whatever follows. -/
lemma splitComment_append_of_closes {depth : Nat} {cs : List Char} (h : commentCloses depth cs)
    (rest : List Char) :
    splitComment depth (cs ++ rest) =
      ((splitComment depth cs).1, (splitComment depth cs).2 ++ rest) := by
  fun_induction commentCloses depth cs with
  | case1 cs => simp [splitComment]
  | case2 => simp at h
  | case3 depth cs ih => simp [splitComment, ih h, addFirst]
  | case4 depth cs ih => simp [splitComment, ih h, addFirst]
  | case5 depth c cs hopen hclose ih =>
      have hne : cs ≠ [] := by
        rintro rfl
        simp [commentCloses] at h
      obtain ⟨d, ds, rfl⟩ := List.exists_cons_of_ne_nil hne
      have hopen' : c = '(' → d ≠ ';' := fun hc hd => hopen ds hc (by rw [hd])
      have hclose' : c = ';' → d ≠ ')' := fun hc hd => hclose ds hc (by rw [hd])
      rw [List.cons_append, splitComment_cons (by simpa using hopen') (by simpa using hclose'),
        splitComment_cons (by simpa using hopen') (by simpa using hclose'), ih h]
      rfl

/-- A string splits off no more than itself, and all of the text if it does not end. -/
lemma splitString_fst (cs : List Char) :
    splitString (splitString cs).1 = ((splitString cs).1, []) ∧
      ((splitString cs).2 = [] ∨ stringCloses (splitString cs).1) := by
  fun_induction splitString cs with
  | case1 => exact ⟨rfl, Or.inl rfl⟩
  | case2 cs => exact ⟨rfl, Or.inr rfl⟩
  | case3 c cs ih => simpa [addFirst, splitString, stringCloses, Prod.ext_iff] using ih
  | case4 c cs hquote hslash ih =>
      have hs : c = '\\' → (splitString cs).1 = [] := by
        rintro rfl
        cases cs with
        | nil => rfl
        | cons d ds => exact (hslash d ds rfl rfl).elim
      refine ⟨?_, ih.2.imp id fun h => ?_⟩
      · rw [addFirst, List.singleton_append, splitString_cons hquote hs, ih.1]
        rfl
      · rw [addFirst, List.singleton_append, stringCloses]
        · exact h
        · exact hquote
        · intro d ds hc hds
          exact absurd (hs hc) (by simp [hds])

lemma head?_splitComment (depth : Nat) (cs : List Char) :
    (splitComment (depth + 1) cs).1.head? = cs.head? := by
  unfold splitComment
  split <;> simp_all [addFirst]

/-- Comments split off no more than themselves, and all of the text if they do not
end. -/
lemma splitComment_fst (depth : Nat) (cs : List Char) :
    splitComment depth (splitComment depth cs).1 = ((splitComment depth cs).1, []) ∧
      ((splitComment depth cs).2 = [] ∨ commentCloses depth (splitComment depth cs).1) := by
  fun_induction splitComment depth cs with
  | case1 cs => exact ⟨rfl, Or.inr rfl⟩
  | case2 => exact ⟨rfl, Or.inl rfl⟩
  | case3 depth cs ih => simpa [addFirst, splitComment, commentCloses, Prod.ext_iff] using ih
  | case4 depth cs ih => simpa [addFirst, splitComment, commentCloses, Prod.ext_iff] using ih
  | case5 depth c cs hopen hclose ih =>
      have hhead := head?_splitComment depth cs
      have hopen' : c = '(' → (splitComment (depth + 1) cs).1.head? ≠ some ';' := by
        rw [hhead]
        intro hc h
        obtain ⟨ds, rfl⟩ := List.head?_eq_some_iff.mp h
        exact hopen ds hc rfl
      have hclose' : c = ';' → (splitComment (depth + 1) cs).1.head? ≠ some ')' := by
        rw [hhead]
        intro hc h
        obtain ⟨ds, rfl⟩ := List.head?_eq_some_iff.mp h
        exact hclose ds hc rfl
      refine ⟨?_, ih.2.imp id fun h => ?_⟩
      · rw [addFirst, List.singleton_append, splitComment_cons hopen' hclose', ih.1]
        rfl
      · rw [addFirst, List.singleton_append, commentCloses]
        · exact h
        · intro ds hc hds
          exact hopen' hc (by rw [hds]; rfl)
        · intro ds hc hds
          exact hclose' hc (by rw [hds]; rfl)

/-! ### Pieces and what may follow them -/

/-- The text does not go on with a character of an atom. -/
def AtomEnds (rest : List Char) : Prop :=
  ∀ c, rest.head? = some c → isAtomChar c = false

/-- A piece and a text that it is cut off from when it is read. -/
inductive Stands : Piece → List Char → Prop where
  | blank {c : Char} {rest : List Char} : isSpace c → Stands ⟨none, [c]⟩ rest
  | line {cs rest : List Char} : (∀ c ∈ cs, c ≠ '\n') → (∀ c, rest.head? = some c → c = '\n') →
      Stands ⟨none, ';' :: ';' :: cs⟩ rest
  | block {cs rest : List Char} : splitComment 1 cs = (cs, []) →
      (rest = [] ∨ commentCloses 1 cs) → Stands ⟨none, '(' :: ';' :: cs⟩ rest
  | opening {rest : List Char} : rest.head? ≠ some ';' → Stands ⟨some .opening, ['(']⟩ rest
  | closing {rest : List Char} : Stands ⟨some .closing, [')']⟩ rest
  | string {cs rest : List Char} : splitString cs = (cs, []) → (rest = [] ∨ stringCloses cs) →
      Stands ⟨some .string, '"' :: cs⟩ rest
  | atom {c : Char} {cs rest : List Char} : isSpace c = false → c ≠ '(' → c ≠ ')' → c ≠ '"' →
      (c = ';' → (cs ++ rest).head? ≠ some ';') → (∀ d ∈ cs, isAtomChar d) → AtomEnds rest →
      Stands ⟨some .atom, c :: cs⟩ rest

lemma takeWhile_append_of_atomEnds {cs rest : List Char} (hcs : ∀ d ∈ cs, isAtomChar d)
    (hrest : AtomEnds rest) :
    (cs ++ rest).takeWhile isAtomChar = cs ∧ (cs ++ rest).dropWhile isAtomChar = rest := by
  rw [List.takeWhile_append_of_pos hcs, List.dropWhile_append_of_pos hcs]
  cases rest with
  | nil => simp
  | cons c rest => simp [hrest c rfl]

/-- The piece that is read from a text stands before the rest of the text. -/
lemma stands_read (c : Char) (cs : List Char) :
    Stands (Piece.read c cs).1 (Piece.read c cs).2 := by
  unfold Piece.read
  split_ifs with hspace hline hblock hopen hclose hquote
  · exact Stands.blank hspace
  · obtain ⟨rfl, hhead⟩ := hline
    obtain ⟨ds, rfl⟩ := List.head?_eq_some_iff.mp hhead
    have htake : (';' :: ds).takeWhile (· != '\n') = ';' :: ds.takeWhile (· != '\n') := by simp
    simp only [htake]
    refine Stands.line (fun d hd => by simpa using List.mem_takeWhile_imp hd) fun d hd => ?_
    have := List.head?_dropWhile_not (· != '\n') (';' :: ds)
    rw [hd] at this
    simpa using this
  · obtain ⟨rfl, hhead⟩ := hblock
    exact Stands.block (splitComment_fst 1 cs.tail).1 (splitComment_fst 1 cs.tail).2
  · subst hopen
    exact Stands.opening fun h => hblock ⟨rfl, h⟩
  · subst hclose
    exact Stands.closing
  · subst hquote
    exact Stands.string (splitString_fst cs).1 (splitString_fst cs).2
  · refine Stands.atom (by simpa using hspace) hopen hclose hquote ?_
      (fun d hd => List.mem_takeWhile_imp hd) fun d hd => ?_
    · rw [List.takeWhile_append_dropWhile]
      exact fun hc h => hline ⟨hc, h⟩
    · have := List.head?_dropWhile_not isAtomChar cs
      rw [hd] at this
      simpa using this

/-- A piece that stands before a text is read from the two. -/
lemma Stands.read_eq {c : Char} {cs rest : List Char} {kind : Option TokenKind}
    (h : Stands ⟨kind, c :: cs⟩ rest) : Piece.read c (cs ++ rest) = (⟨kind, c :: cs⟩, rest) := by
  cases h with
  | blank hc => simp [Piece.read, hc]
  | @line ds _ hds hrest =>
      have hall : ∀ d ∈ ';' :: ds, (d != '\n') = true := by
        intro d hd
        rcases List.mem_cons.mp hd with rfl | hd
        · decide
        · simpa using hds d hd
      have htake : rest.takeWhile (· != '\n') = [] ∧ rest.dropWhile (· != '\n') = rest := by
        cases rest with
        | nil => simp
        | cons d rest => simp [hrest d rfl]
      rw [Piece.read, if_neg (by decide), if_pos (by simp),
        List.takeWhile_append_of_pos hall, List.dropWhile_append_of_pos hall, htake.1, htake.2,
        List.append_nil]
  | @block ds _ hsplit hrest =>
      have hread : splitComment 1 (ds ++ rest) = (ds, rest) := by
        rcases hrest with rfl | hclose
        · simpa using hsplit
        · rw [splitComment_append_of_closes hclose, hsplit]
          rfl
      simp [Piece.read, isSpace, hread]
  | opening hrest => simp [Piece.read, isSpace, hrest]
  | closing => simp [Piece.read, isSpace]
  | string hsplit hrest =>
      have hread : splitString (cs ++ rest) = (cs, rest) := by
        rcases hrest with rfl | hclose
        · simpa using hsplit
        · rw [splitString_append_of_closes hclose, hsplit]
          rfl
      simp [Piece.read, isSpace, hread]
  | atom hspace hopen hclose hquote hline hcs hrest =>
      have htake := takeWhile_append_of_atomEnds hcs hrest
      rw [Piece.read, if_neg (by simpa using hspace), if_neg (fun h => hline h.1 h.2),
        if_neg (fun h => hopen h.1), if_neg hopen, if_neg hclose, if_neg hquote, htake.1, htake.2]

/-- A piece has at least one character. -/
lemma Stands.text_ne_nil {p : Piece} {rest : List Char} (h : Stands p rest) : p.text ≠ [] := by
  cases h <;> simp

/-- The first piece of a text. -/
lemma pieces_of_stands {p : Piece} {rest : List Char} (h : Stands p rest) :
    pieces (p.text ++ rest) = p :: pieces rest := by
  obtain ⟨kind, text⟩ := p
  obtain ⟨c, cs, rfl⟩ := List.exists_cons_of_ne_nil h.text_ne_nil
  rw [List.cons_append, pieces, h.read_eq]

/-! ### The pieces of a text after others -/

/-- The text that pieces make up. -/
def flat (ps : List Piece) : List Char :=
  ps.flatMap Piece.text

@[simp] lemma flat_nil : flat [] = [] := rfl

@[simp] lemma flat_cons (p : Piece) (ps : List Piece) : flat (p :: ps) = p.text ++ flat ps := rfl

@[simp] lemma flat_append (ps qs : List Piece) : flat (ps ++ qs) = flat ps ++ flat qs := by
  simp [flat]

@[simp] lemma flat_pieces (text : List Char) : flat (pieces text) = text :=
  flatMap_text_pieces text

/-- Every piece stands before the pieces after it and the rest. -/
def StandAll : List Piece → List Char → Prop
  | [], _ => True
  | p :: ps, rest => Stands p (flat ps ++ rest) ∧ StandAll ps rest

lemma standAll_append {ps qs : List Piece} {rest : List Char} :
    StandAll (ps ++ qs) rest ↔ StandAll ps (flat qs ++ rest) ∧ StandAll qs rest := by
  induction ps with
  | nil => simp [StandAll]
  | cons p ps ih => simp [StandAll, ih, and_assoc]

lemma standAll_pieces (text : List Char) : StandAll (pieces text) [] := by
  fun_induction pieces text with
  | case1 => trivial
  | case2 c cs ih =>
      refine ⟨?_, ih⟩
      rw [List.append_nil, flat_pieces]
      exact stands_read c cs

/-- Pieces that stand before a text are the first pieces of the two. -/
lemma pieces_append {ps : List Piece} {rest : List Char} (h : StandAll ps rest) :
    pieces (flat ps ++ rest) = ps ++ pieces rest := by
  induction ps with
  | nil => rfl
  | cons p ps ih =>
      rw [flat_cons, List.append_assoc, pieces_of_stands h.1, ih h.2, List.cons_append]

lemma pieces_flat {ps : List Piece} (h : StandAll ps []) : pieces (flat ps) = ps := by
  have := pieces_append h
  rwa [List.append_nil, pieces, List.append_nil] at this

/-! ### Changing what follows -/

/-- A string or a block comment that ends. -/
def Piece.Terminated (p : Piece) : Bool :=
  match p.kind, p.text with
  | some .string, _ :: cs => stringCloses cs
  | none, '(' :: ';' :: cs => commentCloses 1 cs
  | _, _ => true

/-- A text without a string or block comment that does not end. -/
def Terminated (text : List Char) : Prop :=
  ∀ p ∈ pieces text, p.Terminated

/-- What a text may be changed to without changing the pieces before it: it starts with
the same character, with a line end, or with a character of an atom as before. -/
def Blends (old new : List Char) : Prop :=
  new.head? = old.head? ∨ new.head? = some '\n' ∨
    ∃ c d, old.head? = some c ∧ isAtomChar c ∧ new.head? = some d ∧ isAtomChar d

lemma Blends.refl (text : List Char) : Blends text text :=
  Or.inl rfl

lemma blends_of_append {text old new : List Char} (h : text ≠ []) :
    Blends (text ++ old) (text ++ new) := by
  obtain ⟨c, cs, rfl⟩ := List.exists_cons_of_ne_nil h
  exact Or.inl rfl

lemma AtomEnds.blend {old new : List Char} (h : AtomEnds old) (hb : Blends old new) :
    AtomEnds new := by
  intro c hc
  rcases hb with hb | hb | ⟨a, b, ha, hatom, -⟩
  · exact h c (hb ▸ hc)
  · obtain rfl := Option.some.inj (hb.symm.trans hc)
    decide
  · rw [h a ha] at hatom
    simp at hatom

/-- A terminated piece stands before every text that blends with what it stood before. -/
lemma Stands.blend {p : Piece} {old new : List Char} (h : Stands p old) (hp : p.Terminated)
    (hb : Blends old new) : Stands p new := by
  have hsemi : old.head? ≠ some ';' → new.head? ≠ some ';' := by
    rintro hold hnew
    rcases hb with hb | hb | ⟨-, d, -, -, hd, hatom⟩
    · exact hold (hb ▸ hnew)
    · rw [hb] at hnew
      exact absurd hnew (by decide)
    · obtain rfl := Option.some.inj (hd.symm.trans hnew)
      exact absurd hatom (by decide)
  cases h with
  | blank hc => exact Stands.blank hc
  | line hcs hold =>
      refine Stands.line hcs fun c hc => ?_
      rcases hb with hb | hb | ⟨a, -, ha, hatom, -⟩
      · exact hold c (hb ▸ hc)
      · exact (Option.some.inj (hb.symm.trans hc)).symm
      · rw [hold a ha] at hatom
        exact absurd hatom (by decide)
  | block hcs _ => exact Stands.block hcs (Or.inr hp)
  | opening hold => exact Stands.opening (hsemi hold)
  | closing => exact Stands.closing
  | string hcs _ => exact Stands.string hcs (Or.inr hp)
  | @atom c cs _ hspace hopen hclose hquote hline hcs hold =>
      refine Stands.atom hspace hopen hclose hquote (fun hc => ?_) hcs (hold.blend hb)
      cases cs with
      | nil => exact hsemi (hline hc)
      | cons d cs => exact hline hc

/-- Terminated pieces stand before every text that blends with what they stood before. -/
lemma StandAll.blend {ps : List Piece} {old new : List Char} (h : StandAll ps old)
    (hps : ∀ p ∈ ps, p.Terminated) (hb : Blends old new) : StandAll ps new := by
  induction ps with
  | nil => trivial
  | cons p ps ih =>
      refine ⟨h.1.blend (hps p (by simp)) ?_, ih h.2 fun q hq => hps q (List.mem_cons_of_mem _ hq)⟩
      cases ps with
      | nil => exact hb
      | cons q qs =>
          rw [flat_cons, List.append_assoc, List.append_assoc]
          exact blends_of_append h.2.1.text_ne_nil

end CallGuard.Wat
