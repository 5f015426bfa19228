import CallGuard.Proofs.Ir.Ty.Grammar

/-!
Types are read back as they were written.

* `TypeGrammar.givesNoDigitName`: no type that is read has a name of digits.
* `Ty.parse_text_iff`: which types are read back.
-/

namespace CallGuard.Ir

namespace TypeGrammar

open Parse Ty

/-! ### Types that are read -/

/-- No part of a type has a name of digits. -/
abbrev HasNoDigitName : Ty → Prop :=
  Everywhere fun s => ¬ s.IsDigitName

/-- With a bound on the depth, no reader gives a type with a name of digits. -/
structure GivesNoDigitName (d : Nat) : Prop where
  type : Gives (type d) HasNoDigitName
  base : ∀ line token, Gives (base d line token) HasNoDigitName
  suffixes : ∀ t, HasNoDigitName t → Gives (suffixes d t) HasNoDigitName
  structBody : Gives (structBody d) fun ts => ∀ t ∈ ts, HasNoDigitName t
  fields : Gives (fields d) fun ts => ∀ t ∈ ts, HasNoDigitName t
  params : Gives (params d) fun list => ∀ t ∈ list.1, HasNoDigitName t
  moreParams : Gives (moreParams d) fun list => ∀ t ∈ list.1, HasNoDigitName t
  targetArguments : Gives (targetArguments d) fun list => ∀ t ∈ list.1, HasNoDigitName t

/-- A name of digits is read as a number. -/
lemma gives_reference (line : Nat) (name : String) :
    Gives (reference line name) HasNoDigitName := by
  rw [reference]
  split
  · rename_i hnone
    refine gives_pure fun s hs => ?_
    obtain rfl := List.mem_singleton.mp hs
    rintro ⟨hne, hdigits⟩
    have hne : name.toList ≠ [] := by simpa using hne
    simp [Text.readDecimal?, hne, List.all_eq_true.mpr hdigits] at hnone
  · split
    · refine gives_pure fun s hs => ?_
      obtain rfl := List.mem_singleton.mp hs
      exact id
    · exact gives_throw _ _

/-- A keyword is read as a type without parts. -/
lemma hasNoDigitName_of_ofKeyword? {keyword : String} {t : Ty}
    (h : Ty.ofKeyword? keyword = some t) : HasNoDigitName t := by
  have hbase : (∃ kind, t = .keyword kind) ∨ (∃ bits, t = .int bits) ∨ ∃ space, t = .ptr space := by
    rw [Ty.ofKeyword?] at h
    split at h
    · exact .inr (.inr ⟨0, (Option.some.inj h).symm⟩)
    · split at h
      · exact .inl ⟨_, (Option.some.inj h).symm⟩
      · split at h
        · obtain ⟨bits, -, rfl⟩ := Option.map_eq_some_iff.mp h
          exact .inr (.inl ⟨_, rfl⟩)
        · simp at h
  rcases hbase with ⟨kind, rfl⟩ | ⟨bits, rfl⟩ | ⟨space, rfl⟩ <;>
    exact fun s hs => by obtain rfl := List.mem_singleton.mp hs; exact id

section Step

variable {d : Nat} (h : GivesNoDigitName d)
include h

lemma gives_type_succ : Gives (type (d + 1)) HasNoDigitName := by
  rw [type]
  exact gives_bind fun _ => gives_bind fun _ => (h.base _ _).bind h.suffixes

lemma gives_base_succ (line : Nat) (token : Token) :
    Gives (base (d + 1) line token) HasNoDigitName := by
  cases token with
  | word keyword =>
      have hspace (space : UInt32) : HasNoDigitName (.ptr space) := fun s hs => by
        obtain rfl := List.mem_singleton.mp hs
        exact id
      rw [base]
      split
      · refine gives_bind fun eaten => ?_
        split
        · exact gives_bind fun space => gives_pure (hspace space)
        · exact gives_pure (hspace 0)
      · split
        · exact gives_bind fun _ => gives_bind fun name => h.targetArguments.bind
            fun list hlist => gives_pure (everywhere_target.mpr ⟨id, hlist⟩)
        · split
          · rename_i hkeyword
            exact gives_pure (hasNoDigitName_of_ofKeyword? hkeyword)
          · exact gives_throw _ _
  | localName name =>
      rw [base]
      exact gives_reference line name
  | lbrace =>
      rw [base]
      exact h.structBody.bind fun fields hfields =>
        gives_pure (everywhere_struct.mpr ⟨id, hfields⟩)
  | less =>
      have hvector (scalable : Bool) : Gives (do
          let length ← expectUInt64 "vector length"
          expectKeyword "x" "vector type"
          let element ← type d
          expect .greater "vector type"
          return Ty.vector length scalable element) HasNoDigitName :=
        gives_bind fun length => gives_bind fun _ => h.type.bind fun element helement =>
          gives_bind fun _ => gives_pure (everywhere_vector.mpr ⟨id, helement⟩)
      rw [base]
      refine gives_bind fun eaten => ?_
      split
      · exact h.structBody.bind fun fields hfields => gives_bind fun _ =>
          gives_pure (everywhere_struct.mpr ⟨id, hfields⟩)
      · refine gives_bind fun scalable => ?_
        split
        · exact gives_bind fun _ => hvector scalable
        · exact hvector scalable
  | lbracket =>
      rw [base]
      exact gives_bind fun length => gives_bind fun _ => h.type.bind fun element helement =>
        gives_bind fun _ => gives_pure (everywhere_array.mpr ⟨id, helement⟩)
  | eof =>
      rw [base]
      exact gives_throw _ _
  | _ =>
      simp only [base]
      exact gives_throw _ _

lemma gives_suffixes_succ (t : Ty) (ht : HasNoDigitName t) :
    Gives (suffixes (d + 1) t) HasNoDigitName := by
  have hpointer (space : UInt32) : HasNoDigitName (.pointer t space) :=
    everywhere_pointer.mpr ⟨id, ht⟩
  rw [suffixes]
  refine gives_bind fun cursor => ?_
  split
  · exact gives_bind fun _ => h.suffixes _ (hpointer 0)
  · split
    · exact gives_bind fun _ => gives_bind fun space => gives_bind fun _ =>
        h.suffixes _ (hpointer space)
    · split
      · exact h.params.bind fun list hlist =>
          h.suffixes _ (everywhere_func.mpr ⟨id, ht, hlist⟩)
      · exact gives_pure ht

lemma gives_structBody_succ :
    Gives (structBody (d + 1)) fun ts => ∀ t ∈ ts, HasNoDigitName t := by
  rw [structBody]
  refine gives_bind fun closed => ?_
  split
  · exact gives_pure (by simp)
  · exact h.fields

lemma gives_fields_succ : Gives (fields (d + 1)) fun ts => ∀ t ∈ ts, HasNoDigitName t := by
  rw [fields]
  refine h.type.bind fun t ht => gives_bind fun more => ?_
  split
  · exact h.fields.bind fun ts hts => gives_pure (List.forall_mem_cons.mpr ⟨ht, hts⟩)
  · exact gives_bind fun _ => gives_pure (by simpa using ht)

lemma gives_params_succ :
    Gives (params (d + 1)) fun list => ∀ t ∈ list.1, HasNoDigitName t := by
  rw [params]
  refine gives_bind fun _ => gives_bind fun closed => ?_
  split
  · exact gives_pure (by simp)
  · exact h.moreParams

lemma gives_moreParams_succ :
    Gives (moreParams (d + 1)) fun list => ∀ t ∈ list.1, HasNoDigitName t := by
  rw [moreParams]
  refine gives_bind fun variadic => ?_
  split
  · exact gives_bind fun _ => gives_pure (by simp)
  · refine h.type.bind fun t ht => gives_bind fun more => ?_
    split
    · exact h.moreParams.bind fun list hlist => gives_pure (List.forall_mem_cons.mpr ⟨ht, hlist⟩)
    · exact gives_bind fun _ => gives_pure (by simpa using ht)

lemma gives_targetArguments_succ :
    Gives (targetArguments (d + 1)) fun list => ∀ t ∈ list.1, HasNoDigitName t := by
  rw [targetArguments]
  refine gives_bind fun more => ?_
  split
  · refine gives_bind fun next => ?_
    split
    · exact gives_bind fun n => h.targetArguments.bind fun list hlist => gives_pure hlist
    · exact h.type.bind fun t ht => h.targetArguments.bind fun list hlist =>
        gives_pure (List.forall_mem_cons.mpr ⟨ht, hlist⟩)
  · exact gives_bind fun _ => gives_pure (by simp)

end Step

/-- No type that is read has a name of digits. -/
lemma givesNoDigitName (d : Nat) : GivesNoDigitName d := by
  induction d with
  | zero =>
      refine ⟨?_, fun line token => ?_, fun t _ => ?_, ?_, ?_, ?_, ?_, ?_⟩
      · rw [type]
        exact gives_throw _ _
      · rw [base]
        exact gives_throw _ _
      · rw [suffixes]
        exact gives_throw _ _
      · rw [structBody]
        exact gives_throw _ _
      · rw [fields]
        exact gives_throw _ _
      · rw [params]
        exact gives_throw _ _
      · rw [moreParams]
        exact gives_throw _ _
      · rw [targetArguments]
        exact gives_throw _ _
  | succ d ih =>
      exact
        { type := gives_type_succ ih
          base := gives_base_succ ih
          suffixes := gives_suffixes_succ ih
          structBody := gives_structBody_succ ih
          fields := gives_fields_succ ih
          params := gives_params_succ ih
          moreParams := gives_moreParams_succ ih
          targetArguments := gives_targetArguments_succ ih }

end TypeGrammar

/-! ### Whole texts -/

namespace Ty

/-- Reading a whole text as a type. -/
lemma runOn_tokens {t : Ty} (ht : t.Readable) {ls : List Located} {last : Located}
    (hls : ls.map Located.token = t.tokens) (hlast : last.token = .eof) :
    Parse.runOn (do
      let t ← parseType
      unless (← get).atEnd do Parse.failExpecting "end of type"
      return t) (ls ++ [last]) = .ok t := by
  have hends : TypeGrammar.TypeEnds [.eof] := TypeGrammar.typeEnds_cons (by decide) []
  have hlead : Parse.Leads (do
      let t ← parseType
      unless (← get).atEnd do Parse.failExpecting "end of type"
      return t) t.tokens [.eof] (pure t) := by
    refine (leads_parseType ht hends).bind_end (Parse.leads_get fun c hc => ?_)
    have hend : c.atEnd = true := by
      rw [Cursor.atEnd, Cursor.peek_eq, hc]
      rfl
    rw [hend]
    exact Parse.leads_pure t [.eof]
  rw [Parse.runOn, EStateM.run, Cursor.ofTokens, hlead [] ls [last] hls (by simp [hlast])]
  rfl

/-- A type that is not written like another one is read back. -/
lemma parse_text_of_readable {t : Ty} (ht : t.Readable) : Ty.parse t.text = .ok t := by
  have hspells : Spells t.print t.tokens [] := spells_print t rfl
  obtain ⟨ls, hls, -, htokens⟩ := hspells.tokens {}
  rw [Yields, List.append_nil, tokenizeFrom_nil] at htokens
  obtain ⟨last, hlast, htokenize⟩ :
      ∃ last : Located, last.token = .eof ∧ tokenize t.text = .ok (ls ++ [last]) := by
    rw [tokenize, text, String.toList_ofList, htokens]
    exact ⟨_, rfl, rfl⟩
  rw [Ty.parse, htokenize]
  exact runOn_tokens ht hls hlast

/-- No text is read as a type with a name of digits. -/
lemma hasNoDigitName_of_parse {source : String} {t : Ty} (h : Ty.parse source = .ok t) :
    TypeGrammar.HasNoDigitName t := by
  have hgives : Parse.Gives (do
      let t ← parseType
      unless (← get).atEnd do Parse.failExpecting "end of type"
      return t) TypeGrammar.HasNoDigitName := by
    refine Parse.Gives.bind (Q := TypeGrammar.HasNoDigitName) ?_ fun t ht => ?_
    · exact Parse.gives_bind fun c => (TypeGrammar.givesNoDigitName _).type
    · refine Parse.gives_bind fun c => ?_
      dsimp only
      split
      · exact Parse.gives_pure ht
      · exact Parse.gives_bind fun _ => Parse.gives_pure ht
  rw [Ty.parse] at h
  cases htokens : tokenize source with
  | error e => simp [htokens, bind, Except.bind] at h
  | ok tokens =>
      rw [htokens] at h
      change Parse.runOn _ tokens = .ok t at h
      rw [Parse.runOn] at h
      split at h
      · rename_i s c hrun
        obtain rfl := Except.ok.inj h
        exact hgives _ _ _ hrun
      · simp at h

/-- A type that is read back is not written like another one. -/
lemma readable_of_parse_text {t : Ty} (h : Ty.parse t.text = .ok t) : t.Readable := by
  have hdigits := hasNoDigitName_of_parse h
  have hstraight : t.straighten = t := by
    have hother := parse_text_of_readable (readable_straighten t hdigits)
    rw [text, print_straighten, ← text, h] at hother
    exact (Except.ok.inj hother).symm
  exact fun s hs => ⟨hdigits s hs, not_isSpacedOpaque_of_straighten_eq t hstraight s hs⟩

/-- **Types that are read back.** A type is read back from how it is written exactly if no part
of it is a structure with a name of digits, or a pointer with an address space to an opaque
pointer without one. Two such types are not written alike. -/
theorem parse_text_iff :
    (∀ t : Ty, Ty.parse t.text = .ok t ↔
      ∀ s ∈ t.subterms, ¬ s.IsDigitName ∧ ¬ s.IsSpacedOpaque) ∧
    ∀ s t : Ty, s.Readable → t.Readable → s.text = t.text → s = t := by
  refine ⟨fun t => ⟨readable_of_parse_text, parse_text_of_readable⟩, fun s t hs ht heq => ?_⟩
  have hread := parse_text_of_readable hs
  rw [heq, parse_text_of_readable ht] at hread
  exact (Except.ok.inj hread).symm

/-- Pointers with address spaces: two are read back, and the third is written like the second. -/
theorem parse_text_iff_spaces :
    Ty.parse (pointer (.int 8) 3).text = .ok (pointer (.int 8) 3) ∧
    Ty.parse (pointer (.ptr 3) 0).text = .ok (pointer (.ptr 3) 0) ∧
    Ty.parse (pointer (.ptr 0) 3).text ≠ .ok (pointer (.ptr 0) 3) ∧
    (pointer (.int 8) 3).text ≠ (pointer (.ptr 3) 0).text := by
  have hint : (pointer (.int 8) 3).Readable := by
    simp [Readable, Everywhere, subterms, IsDigitName, IsSpacedOpaque]
  have hptr : (pointer (.ptr 3) 0).Readable := by
    simp [Readable, Everywhere, subterms, IsDigitName, IsSpacedOpaque]
  refine ⟨(parse_text_iff.1 _).mpr hint, (parse_text_iff.1 _).mpr hptr, fun h => ?_, fun h => ?_⟩
  · exact ((parse_text_iff.1 _).mp h _ (mem_subterms_self _)).2 ⟨rfl, by decide⟩
  · have heq := parse_text_iff.2 _ _ hint hptr h
    simp at heq

end Ty

end CallGuard.Ir
