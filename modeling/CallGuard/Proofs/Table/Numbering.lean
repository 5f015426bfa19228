import CallGuard.Proofs.Table.SignatureKey

/-!
Any run of questions to a numbering. Return types and lists of parameters may be asked for in
any order and any number of times; all that counts for the number of a type is when it was first
seen.

* `TypeQuery`, `TypeQuery.answer`: what a numbering can be asked, and what it answers.
* `transcript`, `after`: the questions of a run with their answers, and the numbering after them.
* `firstSeen`, `number`: the types without a fixed number, as they come, and the number of a type.
* `numbers_after`: the numbering after a run is the one by first sight.
* `key_eq_iff_of_transcript`: every answer of a run has the numbers by first sight, and keys that
  are made of such answers are equal exactly when the signatures are.
-/

namespace CallGuard

/-- What a numbering can be asked. -/
inductive TypeQuery where
  /-- The number of a return type. -/
  | ret (type : String)
  /-- The numbers of parameter types. -/
  | params (types : List String)
  deriving DecidableEq, Repr

namespace TypeQuery

/-- The types that are looked up: no return type is `void`, and no parameters are `nil`. -/
def types : TypeQuery → List String
  | ret type => [if type = "" then "void" else type]
  | params types => if types.isEmpty then ["nil"] else types

/-- The answer of a numbering, and the numbering after it. -/
def answer (t : TypeCodes) : TypeQuery → List Int × TypeCodes
  | ret type => ([(t.ret type).1], (t.ret type).2)
  | params types => t.params types

end TypeQuery

namespace TypeCodes

/-- The questions of a run with their answers. -/
def transcript (t : TypeCodes) : List TypeQuery → List (TypeQuery × List Int)
  | [] => []
  | q :: qs => (q, (q.answer t).1) :: transcript (q.answer t).2 qs

/-- The numbering after a run. -/
def after (t : TypeCodes) (qs : List TypeQuery) : TypeCodes :=
  qs.foldl (fun t q => (q.answer t).2) t

/-- The types that are looked up in a run, one after the other. -/
def asked (qs : List TypeQuery) : List String :=
  qs.flatMap TypeQuery.types

/-- The types without a fixed number, each where it comes first. -/
def firstSeen (types : List String) : List String :=
  (types.filter fun a => (fixed.lookup a).isNone).eraseDups

/-- The number of a type among all that are looked up: the fixed one, or else one from nine on
by its place among those without a fixed number. -/
def number (types : List String) (a : String) : Int :=
  (fixed.lookup a).getD (9 + (firstSeen types).idxOf a)

/-! ### The number of one more type -/

lemma mem_firstSeen {types : List String} {a : String} :
    a ∈ firstSeen types ↔ a ∈ types ∧ fixed.lookup a = none := by
  rw [firstSeen, List.mem_eraseDups, List.mem_filter, Option.isNone_iff_eq_none]

/-- Types that are looked up later come after those that were seen before. -/
lemma exists_firstSeen_append (types later : List String) :
    ∃ new, firstSeen (types ++ later) = firstSeen types ++ new := by
  rw [firstSeen, List.filter_append, List.eraseDups_append]
  exact ⟨_, rfl⟩

/-- A type that has a number, fixed or by first sight, is not seen again. -/
lemma firstSeen_append_of_known {types : List String} {a : String}
    (h : fixed.lookup a ≠ none ∨ a ∈ types) : firstSeen (types ++ [a]) = firstSeen types := by
  rw [firstSeen, List.filter_append, List.eraseDups_append, firstSeen]
  cases ha : fixed.lookup a with
  | some n => simp [ha, List.removeAll]
  | none =>
      have hmem : a ∈ types := h.resolve_left (not_not.mpr ha)
      simp [ha, List.removeAll, hmem]

/-- A type that has no number is the last one seen. -/
lemma firstSeen_append_of_new {types : List String} {a : String} (hfixed : fixed.lookup a = none)
    (hnew : a ∉ types) : firstSeen (types ++ [a]) = firstSeen types ++ [a] := by
  rw [firstSeen, List.filter_append, List.eraseDups_append, firstSeen]
  simp [hfixed, List.removeAll, hnew, List.eraseDups_cons]

/-- What is looked up later does not change the number of a type. -/
lemma number_append {types : List String} {a : String} (h : fixed.lookup a ≠ none ∨ a ∈ types)
    (later : List String) : number (types ++ later) a = number types a := by
  rw [number, number]
  cases ha : fixed.lookup a with
  | some n => rfl
  | none =>
      have hmem : a ∈ firstSeen types := mem_firstSeen.mpr ⟨h.resolve_left (not_not.mpr ha), ha⟩
      obtain ⟨new, hnew⟩ := exists_firstSeen_append types later
      rw [hnew, List.idxOf_append_of_mem hmem]

/-! ### What a run leaves -/

/-- The numbering is the one by first sight of the types. -/
structure Numbers (t : TypeCodes) (types : List String) : Prop where
  code?_eq : ∀ a, t.code? a =
    if fixed.lookup a ≠ none ∨ a ∈ types then some (number types a) else none
  next_eq : t.next = 9 + (firstSeen types).length

lemma numbers_initial : Numbers initial [] := by
  refine ⟨fun a => ?_, rfl⟩
  have hcode : initial.code? a = fixed.lookup a := rfl
  rw [hcode, number]
  cases fixed.lookup a <;> simp

/-- One step: the type that is looked up is the last one seen, unless it has a number. -/
lemma Numbers.code {t : TypeCodes} {types : List String} (h : Numbers t types) (a : String) :
    Numbers (t.code a).2 (types ++ [a]) := by
  by_cases hknown : fixed.lookup a ≠ none ∨ a ∈ types
  · have hcode : t.code? a = some (number types a) := by rw [h.code?_eq, if_pos hknown]
    have hseen := firstSeen_append_of_known hknown
    rw [code_of_some hcode]
    refine ⟨fun b => ?_, by rw [h.next_eq, hseen]⟩
    have hiff : (fixed.lookup b ≠ none ∨ b ∈ types ++ [a]) ↔ fixed.lookup b ≠ none ∨ b ∈ types := by
      rw [List.mem_append, List.mem_singleton, ← or_assoc, or_iff_left_iff_imp]
      rintro rfl
      exact hknown
    rw [h.code?_eq, if_congr hiff rfl rfl, number, number, hseen]
  · have hcode : t.code? a = none := by rw [h.code?_eq, if_neg hknown]
    obtain ⟨hfixed, hnew⟩ := not_or.mp hknown
    have hfixed := not_not.mp hfixed
    have hseen := firstSeen_append_of_new hfixed hnew
    refine ⟨fun b => ?_, ?_⟩
    · rw [code?_code_of_none hcode, h.code?_eq, h.next_eq]
      by_cases hb : b = a
      · -- the new type stands behind all that were seen before
        have hnot : b ∉ firstSeen types := fun hmem => hnew (hb ▸ (mem_firstSeen.mp hmem).1)
        subst hb
        rw [if_pos rfl, if_pos (Or.inr (by simp)), number, hfixed, hseen,
          List.idxOf_append_of_notMem hnot]
        simp
      · have hiff : (fixed.lookup b ≠ none ∨ b ∈ types ++ [a]) ↔
            fixed.lookup b ≠ none ∨ b ∈ types := by simp [hb]
        rw [if_neg hb, if_congr hiff rfl rfl]
        split_ifs with hold
        · rw [number_append hold]
        · rfl
    · rw [code_of_none hcode, h.next_eq, hseen, List.length_append, List.length_singleton]
      push_cast
      ring

lemma Numbers.codeAll {t : TypeCodes} {types : List String} (h : Numbers t types)
    (more : List String) : Numbers (t.codeAll more).2 (types ++ more) := by
  induction more generalizing t types with
  | nil => rwa [List.append_nil]
  | cons a more ih =>
      rw [List.append_cons]
      exact ih (h.code a)

/-- A type with a fixed number adds nothing. -/
lemma Numbers.of_fixed {t : TypeCodes} {types : List String} (h : Numbers t types) {a : String}
    (ha : fixed.lookup a ≠ none) : Numbers t (types ++ [a]) := by
  obtain ⟨n, hn⟩ := Option.ne_none_iff_exists'.mp ha
  have hcode : t.code? a = some (number types a) := by rw [h.code?_eq, if_pos (Or.inl ha)]
  have hstep := h.code a
  rwa [code_of_some hcode] at hstep

lemma Numbers.answer {t : TypeCodes} {types : List String} (h : Numbers t types)
    (q : TypeQuery) : Numbers (q.answer t).2 (types ++ q.types) := by
  cases q with
  | ret type =>
      by_cases htype : type = ""
      · simpa [TypeQuery.answer, TypeQuery.types, ret, htype] using
          h.of_fixed (a := "void") (by decide)
      · simpa [TypeQuery.answer, TypeQuery.types, ret, htype] using h.code type
  | params ts =>
      cases ts with
      | nil =>
          simpa [TypeQuery.answer, TypeQuery.types, params] using
            h.of_fixed (a := "nil") (by decide)
      | cons a ts => exact h.codeAll (a :: ts)

/-- **The numbering after a run is the one by first sight** of the types that were looked up. -/
theorem numbers_after (qs : List TypeQuery) : Numbers (initial.after qs) (asked qs) := by
  induction qs using List.reverseRecOn with
  | nil => exact numbers_initial
  | append_singleton qs q ih =>
      have hasked : asked (qs ++ [q]) = asked qs ++ q.types := by simp [asked]
      rw [after, List.foldl_append, hasked]
      exact ih.answer q

/-! ### Answers -/

/-- The answer to a question has the numbers that the types have from then on. -/
lemma answer_spec {t : TypeCodes} (ht : t.Sound) (q : TypeQuery) :
    (q.answer t).2.Sound ∧ t.Keeps (q.answer t).2 ∧
      q.types.map (q.answer t).2.code? = (q.answer t).1.map some := by
  cases q with
  | ret type =>
      obtain ⟨hsound, hkeeps, hcode⟩ := ret_spec ht type
      exact ⟨hsound, hkeeps, congrArg (fun n => [n]) hcode⟩
  | params types => exact params_spec ht types

/-- Every answer of a run has the numbers that the types have in the end. -/
lemma transcript_spec {t : TypeCodes} (ht : t.Sound) (qs : List TypeQuery) :
    (t.after qs).Sound ∧ t.Keeps (t.after qs) ∧
      ∀ p ∈ t.transcript qs, p.1.types.map (t.after qs).code? = p.2.map some := by
  induction qs generalizing t with
  | nil => exact ⟨ht, Keeps.rfl, by simp [transcript]⟩
  | cons q qs ih =>
      obtain ⟨hsound, hkeeps, hcode⟩ := answer_spec ht q
      obtain ⟨hsound', hkeeps', hall⟩ := ih hsound
      refine ⟨hsound', hkeeps.trans hkeeps', fun p hp => ?_⟩
      rcases List.mem_cons.mp hp with rfl | hp
      · exact map_code?_of_keeps hkeeps' hcode
      · exact hall p hp

lemma map_fst_transcript (t : TypeCodes) (qs : List TypeQuery) :
    (t.transcript qs).map Prod.fst = qs := by
  induction qs generalizing t with
  | nil => rfl
  | cons q qs ih => rw [transcript, List.map_cons, ih]

/-- The numbers of the two parts of a signature, whenever they were asked for, are the numbers of
the signature in the end. -/
lemma encodes_of_transcript {t : TypeCodes} (ht : t.Sound) {qs : List TypeQuery} {s : Signature}
    {r : Int} {ps : List Int} (hret : (.ret s.ret, [r]) ∈ t.transcript qs)
    (hparams : (.params s.args, ps) ∈ t.transcript qs) : (t.after qs).Encodes s ⟨r, ps⟩ := by
  have hall := (transcript_spec ht qs).2.2
  exact ⟨(List.cons.inj (hall _ hret)).1, hall _ hparams⟩

/-- **A key says which signature it was made of, whatever was numbered before.** In every run of
questions to the initial numbering, all types have the numbers by first sight in all answers: the
fixed ones, and nine, ten and so on in the order in which the other types come. So a number that
was given to a type is given to it ever after. The key of a return type and parameters that were
asked for anywhere in the run is the key of two others exactly if the signatures are the same, up
to how an empty part is written. -/
theorem key_eq_iff_of_transcript (qs : List TypeQuery) :
    (initial.transcript qs).map Prod.fst = qs ∧
    (∀ q ns, (q, ns) ∈ initial.transcript qs → ns = q.types.map (number (asked qs))) ∧
    ∀ (s s' : Signature) (r r' : Int) (ps ps' : List Int),
      (.ret s.ret, [r]) ∈ initial.transcript qs → (.params s.args, ps) ∈ initial.transcript qs →
      (.ret s'.ret, [r']) ∈ initial.transcript qs →
      (.params s'.args, ps') ∈ initial.transcript qs →
      ((⟨r, ps⟩ : SignatureCode).key = (⟨r', ps'⟩ : SignatureCode).key ↔
        s.normal = s'.normal) := by
  obtain ⟨hsound, -, hall⟩ := transcript_spec initial_sound qs
  refine ⟨map_fst_transcript _ qs, fun q ns hmem => ?_, fun s s' r r' ps ps' hr hp hr' hp' => ?_⟩
  · have hq : q ∈ qs := by
      rw [← map_fst_transcript initial qs]
      exact List.mem_map_of_mem hmem
    have hcode : ∀ a ∈ q.types, (initial.after qs).code? a = some (number (asked qs) a) := by
      intro a ha
      have hasked : a ∈ asked qs := List.mem_flatMap.mpr ⟨q, hq, ha⟩
      rw [(numbers_after qs).code?_eq, if_pos (Or.inr hasked)]
    have hsome : ns.map some = (q.types.map (number (asked qs))).map some := by
      rw [← hall _ hmem, List.map_map]
      exact List.map_congr_left hcode
    exact (Option.some_injective _).list_map hsome
  · exact (encodes_of_transcript initial_sound hr hp).key_eq_iff hsound
      (encodes_of_transcript initial_sound hr' hp')

/-- A return type that was seen among parameters first, and an empty one beside `void`. -/
theorem key_eq_iff_of_transcript_again :
    ∃ qs, qs = [.params ["i64", "ptr"], .ret "", .params [], .ret "ptr", .ret "void"] ∧
      initial.transcript qs = [(.params ["i64", "ptr"], [9, 10]), (.ret "", [0]),
        (.params [], [-1]), (.ret "ptr", [10]), (.ret "void", [0])] ∧
      ((⟨10, [9, 10]⟩ : SignatureCode).key = (⟨0, [-1]⟩ : SignatureCode).key ↔
        (⟨"ptr", ["i64", "ptr"]⟩ : Signature).normal = (⟨"", []⟩ : Signature).normal) ∧
      ((⟨0, [-1]⟩ : SignatureCode).key = (⟨0, [-1]⟩ : SignatureCode).key ↔
        (⟨"void", []⟩ : Signature).normal = (⟨"", []⟩ : Signature).normal) := by
  have htranscript : initial.transcript
      [.params ["i64", "ptr"], .ret "", .params [], .ret "ptr", .ret "void"] =
      [(.params ["i64", "ptr"], [9, 10]), (.ret "", [0]), (.params [], [-1]),
        (.ret "ptr", [10]), (.ret "void", [0])] := by cbv
  have hkeys := (key_eq_iff_of_transcript
    [.params ["i64", "ptr"], .ret "", .params [], .ret "ptr", .ret "void"]).2.2
  rw [htranscript] at hkeys
  exact ⟨_, rfl, htranscript,
    hkeys ⟨"ptr", ["i64", "ptr"]⟩ ⟨"", []⟩ 10 0 [9, 10] [-1] (by simp) (by simp) (by simp)
      (by simp),
    hkeys ⟨"void", []⟩ ⟨"", []⟩ 0 0 [-1] [-1] (by simp) (by simp) (by simp) (by simp)⟩

end TypeCodes

end CallGuard
