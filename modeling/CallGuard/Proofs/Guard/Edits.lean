import CallGuard.Guard.Instrument
import CallGuard.Proofs.Guard.Table
import CallGuard.Proofs.Wat.Module
import CallGuard.Proofs.Wat.Words

/-!
The edits that guard a module: what they put in and that they fit.

* `Guard.siteKey`, `Guard.siteCheck`: which set a call is checked against, and how.
* `guardFunctions_spec`: the edits of the calls of all functions.
* `Guard.trailerLexemes`, `trailerPieces`: the tokens of what is added at the end.
* `Guard.fits_elemEdit`, `Guard.fits_callEdit`, `Guard.fits_trailer`: the edits fit.
-/

namespace CallGuard

namespace Guard

open Wat
open Text (byteLength)

/-! ### Calls -/

/-- The key of the set that a call is checked against, given by the name of its function
and its number there: that of the signature which the report has for it, if it has
one. -/
def siteKey (g : Guard) (name : Option (List Char)) (k : Nat) : String :=
  ((g.recordedCalls name)[k]?.map g.callKey).getD fallbackKey

/-- The instructions in the place of such a call. -/
def siteCheck (g : Guard) (global : Nat) (name : Option (List Char)) (k : Nat) :
    List Instruction :=
  ((g.sets.find? (g.siteKey name k)).map (g.checkSequence global)).getD []

/-- The edit that puts them there. -/
def callEdit (g : Guard) (global : Nat) (name : Option (List Char)) (k : Nat)
    (call : IndirectCall) : Edit :=
  ⟨call.start, call.stop, sequenceText call.indent (g.siteCheck global name k)⟩

variable {report : Report} {table : List String} {g : Guard}

/-- The key that is looked up for a call. -/
lemma Built.resolve_eq_siteKey (hg : Built report table g) {codes : TypeCodes}
    (hc : Built.Reached g codes) (name : Option (List Char)) (k : Nat) :
    (g.resolve codes ((g.recordedCalls name).drop k).head?).1 = g.siteKey name k := by
  rw [List.head?_drop, siteKey]
  cases (g.recordedCalls name)[k]? with
  | none => rfl
  | some s => exact hg.resolve_eq_callKey hc s

lemma ok_of_map_eq_ok {ε α β : Type} {f : α → β} {x : Except ε α} {b : β}
    (h : x.map f = .ok b) : ∃ a, x = .ok a ∧ f a = b := by
  cases x with
  | error e => simp [Except.map] at h
  | ok a => exact ⟨a, rfl, Except.ok.inj h⟩

lemma ok_of_bind_eq_ok {ε α β : Type} {f : α → Except ε β} {x : Except ε α} {b : β}
    (h : x >>= f = .ok b) : ∃ a, x = .ok a ∧ f a = .ok b := by
  cases x with
  | error e => simp [bind, Except.bind] at h
  | ok a => exact ⟨a, rfl, h⟩

/-- The calls of a function from one number on all get their checks. -/
lemma Built.guardCalls_spec (hg : Built report table g) {global : Nat} {function : String}
    {calls : List IndirectCall} {name : Option (List Char)} {k : Nat} {codes codes' : TypeCodes}
    (hc : Built.Reached g codes) {edits : List Edit}
    (h : g.guardCalls global function calls ((g.recordedCalls name).drop k) codes =
      .ok (edits, codes')) :
    Built.Reached g codes' ∧
      edits = (calls.zipIdx k).map (fun c => g.callEdit global name c.2 c.1) ∧
      ∀ i, k ≤ i → i < k + calls.length → (g.sets.find? (g.siteKey name i)).isSome := by
  induction calls generalizing k codes edits with
  | nil =>
      obtain ⟨rfl, rfl⟩ := Prod.mk.inj (Except.ok.inj h)
      exact ⟨hc, rfl, fun i hle hlt => absurd hlt (by simpa using hle)⟩
  | cons call calls ih =>
      have hkey := hg.resolve_eq_siteKey hc name k
      rw [guardCalls] at h
      split at h
      · simp at h
      · dsimp only at h
        rw [hkey] at h
        split at h
        · simp at h
        · rename_i set hset
          obtain ⟨⟨more, codes''⟩, hmore, heq⟩ := ok_of_map_eq_ok h
          obtain ⟨rfl, rfl⟩ := Prod.mk.inj heq
          rw [List.tail_drop] at hmore
          obtain ⟨hreached, rfl, hsome⟩ := ih (hc.resolve _) hmore
          refine ⟨hreached, ?_, fun i hle hlt => ?_⟩
          · rw [List.zipIdx_cons, List.map_cons, callEdit, siteCheck, hset]
            rfl
          · rcases eq_or_lt_of_le hle with rfl | hle
            · rw [hset]
              rfl
            · rw [List.length_cons] at hlt
              exact hsome i hle (by omega)

/-- The calls of all functions get their checks, in order. -/
lemma Built.guardFunctions_spec (hg : Built report table g) {global : Nat}
    {functions : List FunctionField} {codes : TypeCodes} (hc : Built.Reached g codes)
    {edits : List Edit} (h : g.guardFunctions global functions codes = .ok edits) :
    edits = functions.flatMap (fun f =>
        f.calls.zipIdx.map fun c => g.callEdit global f.name c.2 c.1) ∧
      ∀ f ∈ functions, ∀ i < f.calls.length, (g.sets.find? (g.siteKey f.name i)).isSome := by
  induction functions generalizing codes edits with
  | nil =>
      obtain rfl := Except.ok.inj h
      exact ⟨rfl, by simp⟩
  | cons f fs ih =>
      obtain ⟨⟨calls, codes'⟩, hcalls, h⟩ := ok_of_bind_eq_ok h
      obtain ⟨more, hmore, h⟩ := ok_of_bind_eq_ok h
      obtain rfl := Except.ok.inj h
      obtain ⟨hreached, rfl, hsome⟩ := @Built.guardCalls_spec report table g hg global _ f.calls
        f.name 0 codes codes' hc calls hcalls
      obtain ⟨rfl, hall⟩ := ih hreached hmore
      refine ⟨rfl, fun f' hf' i hi => ?_⟩
      rcases List.mem_cons.mp hf' with rfl | hf'
      · exact hsome i (by omega) (by omega)
      · exact hall f' hf' i hi

/-! ### What is added at the end -/

/-- A text of escapes does not end a string, but a quote after it does. -/
lemma splitString_escapes (bytes : List UInt8) :
    splitString ((bytes.flatMap fun b => '\\' :: Text.lowerHex b) ++ ['"']) =
        ((bytes.flatMap fun b => '\\' :: Text.lowerHex b) ++ ['"'], []) ∧
      stringCloses ((bytes.flatMap fun b => '\\' :: Text.lowerHex b) ++ ['"']) := by
  have hdigit : ∀ n < 16, Text.lowerDigit n ≠ '"' ∧ Text.lowerDigit n ≠ '\\' := by decide
  induction bytes with
  | nil => exact ⟨rfl, rfl⟩
  | cons b bytes ih =>
      have hb := hdigit (b.toNat % 16) (by omega)
      generalize hrest : (bytes.flatMap fun b => '\\' :: Text.lowerHex b) ++ ['"'] = rest at ih
      have htext : ((b :: bytes).flatMap fun b => '\\' :: Text.lowerHex b) ++ ['"'] =
          '\\' :: Text.lowerDigit (b.toNat / 16) :: Text.lowerDigit (b.toNat % 16) :: rest := by
        rw [← hrest, List.flatMap_cons, List.append_assoc]
        rfl
      rw [htext]
      constructor
      · rw [splitString, splitString_cons hb.1 (fun h => absurd h hb.2), ih.1]
        rfl
      · rw [stringCloses, stringCloses]
        · exact ih.2
        · exact hb.1
        · exact fun d ds h => absurd h hb.2

lemma splitString_dataText (g : Guard) :
    splitString (g.layout.dataString ++ ['"']) = (g.layout.dataString ++ ['"'], []) ∧
      stringCloses (g.layout.dataString ++ ['"']) := by
  rw [Layout.dataString_eq]
  exact splitString_escapes _

/-- Characters of an atom do not end a comment, but its end after them does. -/
lemma splitComment_word {w : List Char} (hw : ∀ c ∈ w, isAtomChar c) :
    splitComment 1 (w ++ [';', ')']) = (w ++ [';', ')'], []) ∧
      commentCloses 1 (w ++ [';', ')']) := by
  induction w with
  | nil => exact ⟨rfl, rfl⟩
  | cons c w ih =>
      have ih := ih fun d hd => hw d (List.mem_cons_of_mem _ hd)
      have hc : c ≠ '(' ∧ c ≠ ';' := by
        have hc := hw c (by simp)
        constructor <;> rintro rfl <;> exact absurd hc (by decide)
      rw [List.cons_append]
      constructor
      · rw [splitComment_cons (fun h => absurd h hc.1) (fun h => absurd h hc.2), ih.1]
        rfl
      · rw [commentCloses]
        · exact ih.2
        · exact fun cs h => absurd h hc.1
        · exact fun cs h => absurd h hc.2

/-- The tokens of what is added at the end: the data with the new indices, and a global. -/
def trailerLexemes (g : Guard) : List Lexeme :=
  [(.opening, "(".toList), (.atom, "data".toList), (.opening, "(".toList),
    (.atom, "i32.const".toList), (.atom, Text.decimal g.offset.toNat), (.closing, ")".toList),
    (.string, g.dataText), (.closing, ")".toList),
    (.opening, "(".toList), (.atom, "global".toList),
    (.opening, "(".toList), (.atom, "mut".toList), (.atom, "i32".toList), (.closing, ")".toList),
    (.opening, "(".toList), (.atom, "i32.const".toList), (.atom, Text.decimal g.dataEnd),
    (.closing, ")".toList), (.closing, ")".toList)]

/-- The comment that holds the number of the global. -/
def numberComment (global : Nat) : List Char :=
  '(' :: ';' :: (Text.decimal global ++ [';', ')'])

/-- The pieces of what is added at the end. -/
def trailerPieces (g : Guard) (global : Nat) : List Piece :=
  [⟨none, ['\n']⟩, ⟨none, ['\t']⟩, ⟨some .opening, ['(']⟩, wordPiece "data".toList,
    ⟨none, [' ']⟩, ⟨some .opening, ['(']⟩, wordPiece "i32.const".toList, ⟨none, [' ']⟩,
    wordPiece (Text.decimal g.offset.toNat), ⟨some .closing, [')']⟩, ⟨none, [' ']⟩,
    ⟨some .string, g.dataText⟩, ⟨some .closing, [')']⟩,
    ⟨none, ['\n']⟩, ⟨none, ['\t']⟩, ⟨some .opening, ['(']⟩, wordPiece "global".toList,
    ⟨none, [' ']⟩, ⟨none, numberComment global⟩, ⟨none, [' ']⟩,
    ⟨some .opening, ['(']⟩, wordPiece "mut".toList, ⟨none, [' ']⟩, wordPiece "i32".toList,
    ⟨some .closing, [')']⟩, ⟨none, [' ']⟩,
    ⟨some .opening, ['(']⟩, wordPiece "i32.const".toList, ⟨none, [' ']⟩,
    wordPiece (Text.decimal g.dataEnd), ⟨some .closing, [')']⟩, ⟨some .closing, [')']⟩]

lemma flat_trailerPieces (g : Guard) (global : Nat) :
    flat (g.trailerPieces global) = g.trailer global := by
  have hdata : "\n\t(data (i32.const ".toList =
      '\n' :: '\t' :: '(' :: ("data".toList ++ ' ' :: '(' :: ("i32.const".toList ++ [' '])) := by
    decide
  have hglobal : ")\n\t(global (;".toList =
      ')' :: '\n' :: '\t' :: '(' :: ("global".toList ++ [' ', '(', ';']) := by
    decide
  have hmut : ";) (mut i32) (i32.const ".toList = ';' :: ')' :: ' ' :: '(' ::
      ("mut".toList ++ ' ' :: ("i32".toList ++ ')' :: ' ' :: '(' ::
        ("i32.const".toList ++ [' ']))) := by
    decide
  have hclose : ") ".toList = [')', ' '] ∧ "))".toList = [')', ')'] := by decide
  delta trailer
  simp only [hdata, hglobal, hmut, hclose, trailerPieces, wordPiece, numberComment,
    flat_cons, flat_nil, List.append_assoc, List.cons_append, List.nil_append]

lemma lexemesOf_trailerPieces (g : Guard) (global : Nat) :
    lexemesOf (g.trailerPieces global) = g.trailerLexemes := by
  rfl

/-- What is added at the end stands before every text. -/
lemma standAll_trailerPieces (g : Guard) (global : Nat) (rest : List Char) :
    StandAll (g.trailerPieces global) rest := by
  have hspace (c : Char) (hc : isSpace c) (cs : List Char) : Stands ⟨none, [c]⟩ cs :=
    Stands.blank hc
  have hword {w : List Char} (hw : IsWord w) (c : Char) (hc : isAtomChar c = false)
      (cs : List Char) : Stands (wordPiece w) (c :: cs) :=
    hw.stands fun d hd => by
      obtain rfl : c = d := by simpa using hd
      exact hc
  have hopen (c : Char) (hc : c ≠ ';') (cs : List Char) : Stands ⟨some .opening, ['(']⟩ (c :: cs) :=
    Stands.opening (by simpa using hc)
  have hdata (cs : List Char) : Stands ⟨some .string, g.dataText⟩ cs :=
    Stands.string g.splitString_dataText.1 (Or.inr g.splitString_dataText.2)
  have hcomment (cs : List Char) : Stands ⟨none, numberComment global⟩ cs := by
    have h := splitComment_word (isWord_decimal global).2
    exact Stands.block h.1 (Or.inr h.2)
  refine ⟨hspace _ rfl _, hspace _ rfl _, hopen 'd' (by decide) _, hword (by decide) ' ' rfl _,
    hspace _ rfl _, hopen 'i' (by decide) _, hword (by decide) ' ' rfl _, hspace _ rfl _,
    hword (isWord_decimal _) ')' rfl _, Stands.closing, hspace _ rfl _, hdata _, Stands.closing,
    hspace _ rfl _, hspace _ rfl _, hopen 'g' (by decide) _, hword (by decide) ' ' rfl _,
    hspace _ rfl _, hcomment _, hspace _ rfl _, hopen 'm' (by decide) _,
    hword (by decide) ' ' rfl _, hspace _ rfl _, hword (by decide) ')' rfl _, Stands.closing,
    hspace _ rfl _, hopen 'i' (by decide) _, hword (by decide) ' ' rfl _, hspace _ rfl _,
    hword (isWord_decimal _) ')' rfl _, Stands.closing, Stands.closing, trivial⟩

lemma pieces_trailer (g : Guard) (global : Nat) :
    pieces (g.trailer global) = g.trailerPieces global := by
  rw [← flat_trailerPieces]
  exact pieces_flat (standAll_trailerPieces g global [])

lemma lexemes_trailer (g : Guard) (global : Nat) :
    lexemes (g.trailer global) = g.trailerLexemes := by
  rw [lexemes_eq, pieces_trailer, lexemesOf_trailerPieces]

lemma terminated_trailerPieces (g : Guard) (global : Nat) :
    ∀ p ∈ g.trailerPieces global, p.Terminated := by
  have hdata : Piece.Terminated ⟨some .string, g.dataText⟩ := g.splitString_dataText.2
  have hcomment : Piece.Terminated ⟨none, numberComment global⟩ :=
    (splitComment_word (isWord_decimal global).2).2
  have hblank (c : Char) : Piece.Terminated ⟨none, [c]⟩ := by simp [Piece.Terminated]
  have hother (kind : TokenKind) (h : kind ≠ .string) (text : List Char) :
      Piece.Terminated ⟨some kind, text⟩ := by
    cases kind <;> simp_all [Piece.Terminated]
  simp [trailerPieces, wordPiece, hdata, hcomment, hblank, hother]

/-! ### The edits fit -/

/-- What is added at the end can be put before every token, and at the end. -/
lemma apt_trailer (g : Guard) (global offset : Nat) {ps : List Piece}
    (htoken : ∀ p, ps.head? = some p → p.kind.isSome) :
    Apt [] ps ⟨offset, offset, g.trailer global⟩ where
  stands rest _ := by
    rw [pieces_trailer]
    exact standAll_trailerPieces g global rest
  blends rest _ := by
    rw [← flat_trailerPieces]
    exact Or.inr (Or.inl rfl)
  terminated := by
    rw [Terminated, pieces_trailer]
    exact terminated_trailerPieces g global
  placed := Or.inl htoken

/-- The end of a module is a place for new fields. -/
lemma fits_trailer (g : Guard) (global : Nat) {text : List Char} {F : Forest Token}
    (hF : F.Sound Token.kind) (htext : F.flatten = tokens text) :
    Fits text ⟨(F.toModule text).insertPoint, (F.toModule text).insertPoint, g.trailer global⟩ := by
  cases hclose : (F.toModule text).close with
  | none =>
      have hpoint : (F.toModule text).insertPoint = byteLength text := by
        rw [Module.insertPoint, hclose]
        rfl
      rw [hpoint]
      exact ⟨pieces text, [], [], by simp, by simp, by simp, apt_trailer g global _ (by simp)⟩
  | some offset =>
      have hpoint : (F.toModule text).insertPoint = offset := by
        rw [Module.insertPoint, hclose]
        rfl
      obtain ⟨position, t, ht, -, rfl, -⟩ := exists_close hF hclose
      rw [htext] at ht
      obtain ⟨front, back, hsplit⟩ := List.append_of_mem (List.mem_of_getElem? ht)
      obtain ⟨ks, ps, hpieces, hstart, -⟩ := exists_pieces hsplit
      rw [hpoint]
      refine ⟨ks, [], ⟨some t.kind, t.text⟩ :: ps, hpieces, by simpa using hstart, by simp,
        apt_trailer g global _ fun p hp => ?_⟩
      obtain rfl : (⟨some t.kind, t.text⟩ : Piece) = p := by simpa using hp
      rfl

lemma named_checkSequence {g : Guard} (hname : ∀ c ∈ g.checkFunction.toList, isAtomChar c)
    (global : Nat) (set : SignatureSet) : ∀ i ∈ g.checkSequence global set, i.Named := by
  simpa [checkSequence, remap, Instruction.Named] using hname

lemma siteCheck_eq {g : Guard} {name : Option (List Char)} {k : Nat}
    (hset : (g.sets.find? (g.siteKey name k)).isSome) (global : Nat) :
    ∃ set, g.siteCheck global name k = g.checkSequence global set := by
  obtain ⟨set, hset⟩ := Option.isSome_iff_exists.mp hset
  refine ⟨set, ?_⟩
  rw [siteCheck, hset]
  rfl

/-- The check of a call is read back as the words of its instructions. -/
lemma lexemes_siteCheck {g : Guard} (hname : ∀ c ∈ g.checkFunction.toList, isAtomChar c)
    {indent : List Char} (hindent : ∀ c ∈ indent, isSpace c) {name : Option (List Char)} {k : Nat}
    (hset : (g.sets.find? (g.siteKey name k)).isSome) (global : Nat) :
    lexemes (sequenceText indent (g.siteCheck global name k)) =
      (g.siteCheck global name k).flatMap fun i => i.words.map fun w => (.atom, w) := by
  obtain ⟨set, hcheck⟩ := siteCheck_eq hset global
  have hlaid := laid_sequencePieces hindent (named_checkSequence hname global set)
  rw [hcheck, ← flat_sequencePieces, lexemes_eq,
    pieces_flat (hlaid.stands [] (by simp [AtomEnds])), lexemesOf_sequencePieces]

/-- The check of a call can take its place. -/
lemma fits_callEdit {text : List Char} {position : Nat} {t : Token} {g : Guard}
    (hname : ∀ c ∈ g.checkFunction.toList, isAtomChar c)
    (ht : (tokens text)[position]? = some t) (hcall : t.isAtom "call_indirect")
    {indent : List Char} (hindent : ∀ c ∈ indent, isSpace c) {global : Nat}
    {name : Option (List Char)} {k : Nat} (hset : (g.sets.find? (g.siteKey name k)).isSome) :
    Fits text ⟨t.start, t.stop, sequenceText indent (g.siteCheck global name k)⟩ := by
  obtain ⟨set, hcheck⟩ := siteCheck_eq hset global
  obtain ⟨front, back, hsplit⟩ := List.append_of_mem (List.mem_of_getElem? ht)
  simp only [Token.isAtom, Bool.and_eq_true, beq_iff_eq] at hcall
  rw [hcheck, ← flat_sequencePieces]
  refine @fits_of_tokens text front [t] back t t hsplit rfl rfl hcall.1 ?_ hcall.1 _
    (laid_sequencePieces hindent (named_checkSequence hname global set)) ?_
  · rw [hcall.2]
    decide
  · rw [flat_sequencePieces]
    exact ⟨'g', rfl, by decide⟩

/-- The references as words, in their new order. -/
def referenceWords (g : Guard) : List (List Char) :=
  (g.layout.reorder g.table).map String.toList

lemma toList_elemList (g : Guard) : g.elemList.toList = flat (wordPieces g.referenceWords) := by
  rw [elemList, String.toList_intercalate, flat_wordPieces]
  rfl

/-- A text, the references of its table, and a guard that is made for them. -/
structure Tabled (g : Guard) (text : List Char) (F : Forest Token) (elem : ElemSegment)
    (f : Form) (front refs back : List Token) : Prop where
  sound : F.Sound Token.kind
  flatten_eq : F.flatten = tokens text
  terminated : Terminated text
  references : ReferencesAt (F.toModule text) elem f front refs back
  table_eq : g.table = elem.functions.map String.ofList
  plain : ∀ r ∈ elem.functions, r.head? ≠ some ';'

namespace Tabled

variable {text : List Char} {F : Forest Token} {elem : ElemSegment} {f : Form}
  {front refs back : List Token}

/-- Bringing the references into a new order gives no other references. -/
lemma mem_of_mem_referenceWords (h : Tabled g text F elem f front refs back) :
    ∀ w ∈ g.referenceWords, w ∈ elem.functions := by
  intro w hw
  obtain ⟨r, hr, rfl⟩ := List.mem_map.mp hw
  have hr := Layout.mem_of_mem_reorder hr
  rw [h.table_eq] at hr
  obtain ⟨v, hv, rfl⟩ := List.mem_map.mp hr
  rwa [String.toList_ofList]

/-- The references in their new order are words. -/
lemma isWord_of_mem_referenceWords (h : Tabled g text F elem f front refs back) :
    ∀ w ∈ g.referenceWords, IsWord w := by
  intro w hw
  have hmem := h.mem_of_mem_referenceWords w hw
  obtain ⟨t, ht, rfl⟩ := List.mem_map.mp (h.references.functions_eq ▸ hmem)
  have htext : t ∈ tokens text := by
    rw [← h.flatten_eq, show F.flatten = _ from h.references.tokens_eq]
    simp [ht]
  exact isWord_of_mem_tokens htext (h.references.atoms t ht) (h.plain _ hmem)

lemma length_referenceWords (h : Tabled g text F elem f front refs back) :
    g.referenceWords.length = refs.length := by
  rw [referenceWords, List.length_map, Layout.length_reorder, h.table_eq, List.length_map,
    h.references.functions_eq, List.length_map]

/-- The table in its new order can take the place of the table. -/
lemma fits_elemEdit (h : Tabled g text F elem f front refs back) : Fits text (g.elemEdit elem) := by
  have hwords := h.isWord_of_mem_referenceWords
  have hlength := h.length_referenceWords
  have htokens : tokens text = front ++ (refs ++ back) :=
    h.flatten_eq.symm.trans h.references.tokens_eq
  rw [elemEdit, toList_elemList]
  rcases h.references.span with ⟨first, last, hfirst, hlast, hstart, hstop⟩ |
    ⟨rfl, last, hlast, hstart, hstop⟩
  · have hmem : first ∈ refs := List.mem_of_mem_head? hfirst
    have hne : g.referenceWords ≠ [] := by
      rw [← List.length_pos_iff, hlength]
      exact List.length_pos_of_mem hmem
    rw [hstart, hstop]
    refine fits_of_tokens htokens hfirst hlast (h.references.atoms first hmem) ?_
      (h.references.atoms last (List.mem_of_mem_getLast? hlast)) (laid_wordPieces hwords)
      (startsAtom_wordPieces hne hwords)
    exact h.plain _ (h.references.functions_eq ▸ List.mem_map_of_mem hmem)
  · -- nothing is put where nothing is
    have hempty : g.referenceWords = [] := List.length_eq_zero_iff.mp hlength
    obtain ⟨front, rfl⟩ := List.getLast?_eq_some_iff.mp hlast
    have hsplit : tokens text = front ++ last :: back := by
      rw [htokens]
      simp
    obtain ⟨ks, rest, hpieces, hlstart, hlstop, -⟩ := exists_pieces hsplit
    rw [hempty, hstart, hstop]
    refine ⟨ks ++ [⟨some last.kind, last.text⟩], [], rest, by simp [hpieces], ?_, by simp, ?_⟩
    · simp [hlstop, hlstart]
    · refine ⟨fun _ _ => ?_, fun _ hrest => hrest, ?_, Or.inr ⟨rfl, rfl⟩⟩
      · rw [show flat (wordPieces []) = [] from rfl, pieces]
        trivial
      · rw [Terminated, show flat (wordPieces []) = [] from rfl, pieces]
        simp

lemma lexemes_elemList (h : Tabled g text F elem f front refs back) :
    lexemes (g.elemEdit elem).replacement = g.referenceWords.map fun w => (.atom, w) := by
  have hlaid := laid_wordPieces h.isWord_of_mem_referenceWords
  rw [elemEdit, toList_elemList, lexemes_eq, pieces_flat (hlaid.stands [] (by simp [AtomEnds])),
    lexemesOf_wordPieces]

/-- The references become the references in their new order. -/
lemma flatMap_edited_refs (h : Tabled g text F elem f front refs back) {es : List Edit}
    (hes : es.Pairwise Apart) (hmem : g.elemEdit elem ∈ es) (hle : ∀ e ∈ es, e.start ≤ e.stop) :
    refs.flatMap (edited es) = g.referenceWords.map fun w => (.atom, w) := by
  have hget (k : Nat) (hk : k < refs.length) : F.flatten[front.length + k]? = refs[k]? :=
    h.references.getElem?_add hk
  have hlength := h.length_referenceWords
  cases hrefs : refs with
  | nil =>
      rw [hrefs, List.length_nil, List.length_eq_zero_iff] at hlength
      rw [hlength]
      rfl
  | cons first rest =>
      have hlen : refs.length = rest.length + 1 := by rw [hrefs, List.length_cons]
      have hfirst := hget 0 (by omega)
      rw [hrefs, List.getElem?_cons_zero] at hfirst
      have hspan := h.references.start_le h.flatten_eq hfirst (by omega) (by omega)
      have hrest : rest.flatMap (edited es) = [] := by
        rw [List.flatMap_eq_nil_iff]
        intro t ht
        obtain ⟨k, hk⟩ := List.mem_iff_getElem?.mp ht
        have hk' := (List.getElem?_eq_some_iff.mp hk).1
        have hget := hget (k + 1) (by omega)
        rw [hrefs, List.getElem?_cons_succ, hk] at hget
        obtain ⟨hstart, hlt, hiff⟩ := h.references.start_le h.flatten_eq hget (by omega) (by omega)
        have hne : elem.start ≠ t.start := by
          rw [Ne, hiff]
          omega
        exact edited_of_covered hes hmem hle (show elem.start < t.start by omega) hlt
      rw [List.flatMap_cons, hrest, List.append_nil, ← h.lexemes_elemList]
      exact edited_of_replaced hes hmem (hspan.2.2.mpr rfl) hspan.2.1

/-- What a reference becomes are words. -/
lemma kind_of_mem_edited (h : Tabled g text F elem f front refs back) {es : List Edit}
    (hes : es.Pairwise Apart) (hmem : g.elemEdit elem ∈ es) (hle : ∀ e ∈ es, e.start ≤ e.stop)
    {t : Token} (ht : t ∈ refs) : ∀ l ∈ edited es t, l.1 = .atom := by
  intro l hl
  have hl := List.mem_flatMap.mpr ⟨t, ht, hl⟩
  rw [h.flatMap_edited_refs hes hmem hle] at hl
  obtain ⟨w, -, rfl⟩ := List.mem_map.mp hl
  rfl

/-- The table ends before the text does. -/
lemma stop_lt_byteLength (h : Tabled g text F elem f front refs back) :
    elem.stop < byteLength text := by
  have hf := List.mem_of_mem_filter (List.mem_of_mem_head? h.references.field)
  obtain ⟨c, hc⟩ : ∃ c, F.flatten[f.closing]? = some c :=
    ⟨_, List.getElem?_eq_getElem (opening_lt_of_mem_fields hf).2⟩
  have hle := h.references.stop_le h.flatten_eq hc h.references.le_closing
  rw [h.flatten_eq] at hc
  have := bounds_of_mem_tokens (List.mem_of_getElem? hc)
  omega

lemma outside_of_notMem (h : Tabled g text F elem f front refs back) {i : Nat} {t : Token}
    (ht : F.flatten[i]? = some t) (hnot : t ∉ refs) :
    i < front.length ∨ front.length + refs.length ≤ i := by
  by_contra hin
  rw [show F.flatten = _ from h.references.tokens_eq, List.getElem?_append_right (by omega),
    List.getElem?_append_left (by omega)] at ht
  exact hnot (List.mem_of_getElem? ht)

/-- A reference lies in the field of the table, after its name. -/
lemma inside_field_of_mem (h : Tabled g text F elem f front refs back) {i : Nat} {t : Token}
    (ht : F.flatten[i]? = some t) (hr : t ∈ refs) : f.opening + 1 < i ∧ i < f.closing := by
  obtain ⟨k, hk⟩ := List.mem_iff_getElem?.mp hr
  have hlt := (List.getElem?_eq_some_iff.mp hk).1
  have hget : F.flatten[front.length + k]? = some t := (h.references.getElem?_add hlt).trans hk
  obtain rfl := index_eq_of_start_eq (h.flatten_eq ▸ ht) (h.flatten_eq ▸ hget) rfl
  have hopening := h.references.opening_lt
  have hclosing := h.references.le_closing
  omega

/-- A reference lies in a field. -/
lemma exists_field_of_mem (h : Tabled g text F elem f front refs back) {i : Nat} {t : Token}
    (ht : F.flatten[i]? = some t) (hr : t ∈ refs) :
    ∃ f ∈ (F.toModule text).fields, f.opening + 1 < i ∧ i < f.closing :=
  ⟨f, List.mem_of_mem_filter (List.mem_of_mem_head? h.references.field),
    h.inside_field_of_mem ht hr⟩

section Others

variable (h : Tabled g text F elem f front refs back) {i : Nat} {t : Token}
  (ht : F.flatten[i]? = some t) (hi : i < front.length ∨ front.length + refs.length ≤ i)
include h ht hi

/-- The table covers no token that is no reference. -/
lemma not_covered_elemEdit :
    ¬ ((g.elemEdit elem).start ≤ t.start ∧ t.start < (g.elemEdit elem).stop) := by
  have ht' : (tokens text)[i]? = some t := h.flatten_eq ▸ ht
  have hbounds := bounds_of_mem_tokens (List.mem_of_getElem? ht')
  simp only [elemEdit]
  rcases hi with hi | hi
  · have := h.references.stop_le_start h.flatten_eq ht hi
    omega
  · have := h.references.stop_le h.flatten_eq ht hi
    omega

/-- Only an empty table can start at such a token. -/
lemma replacement_eq_nil (hstart : (g.elemEdit elem).start = t.start) :
    (g.elemEdit elem).replacement = [] := by
  have ht' : (tokens text)[i]? = some t := h.flatten_eq ▸ ht
  have hstart : elem.start = t.start := hstart
  have hempty : refs = [] := by
    rcases h.references.exists_start with ⟨hne, first, hfirst, hfstart⟩ | ⟨hempty, -⟩
    · have hfirst : F.flatten[front.length]? = some first := hfirst
      have hsame := index_eq_of_start_eq (h.flatten_eq ▸ hfirst) ht' (hfstart ▸ hstart)
      have := List.length_pos_iff.mpr hne
      omega
    · exact hempty
  have hwords := h.length_referenceWords
  rw [hempty, List.length_nil, List.length_eq_zero_iff] at hwords
  rw [elemEdit, toList_elemList, hwords]
  rfl

end Others

end Tabled

end Guard

end CallGuard
