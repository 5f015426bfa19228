import CallGuard.Proofs.Ir.Reading

/-!
Moving over bracketed groups. All readers that move over tokens count open brackets in the same
way, so they move over the same groups.

* `Balanced`: tokens whose brackets are closed.
* `Parse.CountsGroups`: a step that counts the open brackets.
* `Parse.leads_skipWhile_cons`, `Parse.leads_skipWhile_end`: moving over single tokens.
* `Parse.leads_skipWhile_group`: such a step moves to the end of a group.
* `Parse.leads_skipToDelimiter`, `Parse.leads_skipGroup`: so do the readers that move.
-/

namespace CallGuard.Ir

/-- Every bracket in the tokens that opens a group is closed, and no other one closes a group.
Where `commas` is false, commas stand in groups only. Brackets of all kinds count alike. -/
inductive Balanced : (commas : Bool) → List Token → Prop
  /-- No tokens. -/
  | nil {commas : Bool} : Balanced commas []
  /-- A token that is no bracket. -/
  | token {commas : Bool} {t : Token} {ts : List Token} (hend : t ≠ .eof)
      (hopens : t.opensGroup = false) (hcloses : t.closesGroup = false)
      (hcomma : commas = false → t ≠ .comma) (h : Balanced commas ts) : Balanced commas (t :: ts)
  /-- A group. -/
  | group {commas : Bool} {o c : Token} {inner ts : List Token} (ho : o.opensGroup = true)
      (hinner : Balanced true inner) (hc : c.closesGroup = true) (h : Balanced commas ts) :
      Balanced commas (o :: (inner ++ c :: ts))

lemma balanced_localName (name : String) : Balanced false [.localName name] :=
  .token (by simp) rfl rfl (by simp) .nil

namespace Parse

variable {σ : Type} {step : σ → Located → List Located → Option σ} {state : Nat → σ}

/-! ### Single tokens -/

/-- A token that is moved over. -/
lemma leads_skipWhile_cons (s' : σ) {s : σ} {t : Token} {ts rest : List Token} (ht : t ≠ .eof)
    (hstep : ∀ l ls, l.token = t → ls.map Located.token = ts ++ rest → step s l ls = some s')
    (h : Leads (modify (Cursor.skipWhile step s')) ts rest (pure ())) :
    Leads (modify (Cursor.skipWhile step s)) (t :: ts) rest (pure ()) := by
  intro cs ls ls' hls hls'
  obtain ⟨l, ls, rfl, rfl, hts⟩ := List.map_eq_cons_iff.mp hls
  have hmove := hstep l (ls ++ ls') rfl (by rw [List.map_append, hts, hls'])
  have hskip : Cursor.skipWhile step s ⟨cs, l :: ls ++ ls'⟩ =
      Cursor.skipWhile step s' ⟨l :: cs, ls ++ ls'⟩ := by
    simp [Cursor.skipWhile, Cursor.splitWhile, ht, hmove]
  have hlater := h (l :: cs) ls ls' hts hls'
  change EStateM.Result.ok () (Cursor.skipWhile step s ⟨cs, l :: ls ++ ls'⟩) = _
  rw [hskip, List.reverse_cons, List.append_assoc, List.singleton_append]
  exact hlater

/-- A token that is not moved over. -/
lemma leads_skipWhile_end {s : σ} {t : Token} {rest : List Token}
    (hstep : ∀ l ls, l.token = t → ls.map Located.token = rest → step s l ls = none) :
    Leads (modify (Cursor.skipWhile step s)) [] (t :: rest) (pure ()) := by
  intro cs ls ls' hls hls'
  obtain rfl := List.map_eq_nil_iff.mp hls
  obtain ⟨l, ls', rfl, rfl, hrest⟩ := List.map_eq_cons_iff.mp hls'
  have hskip : Cursor.skipWhile step s ⟨cs, l :: ls'⟩ = ⟨cs, l :: ls'⟩ := by
    simp [Cursor.skipWhile, Cursor.splitWhile, hstep l ls' rfl hrest]
  change EStateM.Result.ok () (Cursor.skipWhile step s ⟨cs, l :: ls'⟩) = _
  rw [hskip]
  rfl

/-! ### Groups -/

/-- In the state `state n` the step is inside `n` groups, which it leaves one by one. -/
structure CountsGroups (step : σ → Located → List Located → Option σ) (state : Nat → σ) :
    Prop where
  opening : ∀ n l ls, l.token.opensGroup = true → step (state (n + 1)) l ls = some (state (n + 2))
  closing : ∀ n l ls, l.token.closesGroup = true → step (state (n + 1)) l ls = some (state n)
  other : ∀ n l ls, l.token.opensGroup = false → l.token.closesGroup = false →
    step (state (n + 1)) l ls = some (state (n + 1))

lemma ne_eof_of_opensGroup {t : Token} (h : t.opensGroup = true) : t ≠ .eof := by
  rintro rfl
  exact absurd h (by decide)

lemma ne_eof_of_closesGroup {t : Token} (h : t.closesGroup = true) : t ≠ .eof := by
  rintro rfl
  exact absurd h (by decide)

lemma opensGroup_of_closesGroup {t : Token} (h : t.closesGroup = true) : t.opensGroup = false := by
  cases t <;> first | rfl | exact absurd h (by decide)

/-- Balanced tokens inside a group. -/
lemma leads_skipWhile_inside (h : CountsGroups step state) {commas : Bool} {ts : List Token}
    (hts : Balanced commas ts) (n : Nat) {later rest : List Token}
    (hlater : Leads (modify (Cursor.skipWhile step (state (n + 1)))) later rest (pure ())) :
    Leads (modify (Cursor.skipWhile step (state (n + 1)))) (ts ++ later) rest (pure ()) := by
  induction hts generalizing n later with
  | nil => exact hlater
  | token hend hopens hcloses hcomma _ ih =>
      refine leads_skipWhile_cons (state (n + 1)) hend (fun l ls hl _ => ?_) (ih n hlater)
      exact h.other n l ls (hl ▸ hopens) (hl ▸ hcloses)
  | group ho hinner hc _ ihinner ih =>
      rw [List.cons_append, List.append_assoc, List.cons_append]
      refine leads_skipWhile_cons (state (n + 2)) (ne_eof_of_opensGroup ho)
        (fun l ls hl _ => h.opening n l ls (hl ▸ ho)) (ihinner (n + 1) ?_)
      exact leads_skipWhile_cons (state (n + 1)) (ne_eof_of_closesGroup hc)
        (fun l ls hl _ => h.closing (n + 1) l ls (hl ▸ hc)) (ih n hlater)

/-- The rest of a group behind its opening bracket. -/
lemma leads_skipWhile_group (h : CountsGroups step state) {commas : Bool} {inner : List Token}
    (hinner : Balanced commas inner) {c : Token} (hc : c.closesGroup = true)
    {later rest : List Token}
    (hlater : Leads (modify (Cursor.skipWhile step (state 0))) later rest (pure ())) :
    Leads (modify (Cursor.skipWhile step (state 1))) (inner ++ c :: later) rest (pure ()) :=
  leads_skipWhile_inside h hinner 0 <| leads_skipWhile_cons (state 0) (ne_eof_of_closesGroup hc)
    (fun l ls hl _ => h.closing 0 l ls (hl ▸ hc)) hlater

/-! ### The readers -/

lemma countsGroups_groupStep : CountsGroups Cursor.groupStep id where
  opening n l ls h := by simp [Cursor.groupStep, h]
  closing n l ls h := by simp [Cursor.groupStep, h, opensGroup_of_closesGroup h]
  other n l ls hopens hcloses := by simp [Cursor.groupStep, hopens, hcloses]

lemma countsGroups_delimiterStep : CountsGroups Cursor.delimiterStep id where
  opening n l ls h := by simp [Cursor.delimiterStep, h]
  closing n l ls h := by simp [Cursor.delimiterStep, h, opensGroup_of_closesGroup h]
  other n l ls hopens hcloses := by simp [Cursor.delimiterStep, hopens, hcloses]

/-- A group, behind which some token stands. -/
lemma leads_skipGroup {o c : Token} {inner : List Token} (ho : o.opensGroup = true)
    (hinner : Balanced true inner) (hc : c.closesGroup = true) (next : Token)
    (rest : List Token) :
    Leads skipGroup (o :: (inner ++ [c])) (next :: rest) (pure ()) := by
  have hinside : Leads (modify (Cursor.skipWhile Cursor.groupStep 1)) (inner ++ [c])
      (next :: rest) (pure ()) :=
    leads_skipWhile_group countsGroups_groupStep hinner hc
      (leads_skipWhile_end fun l ls _ _ => rfl)
  intro cs ls ls' hls hls'
  obtain ⟨l, ls, rfl, rfl, htail⟩ := List.map_eq_cons_iff.mp hls
  have hskip : Cursor.skipGroup ⟨cs, l :: ls ++ ls'⟩ =
      Cursor.skipWhile Cursor.groupStep 1 ⟨l :: cs, ls ++ ls'⟩ := if_pos ho
  change EStateM.Result.ok () (Cursor.skipGroup ⟨cs, l :: ls ++ ls'⟩) = _
  rw [hskip, List.reverse_cons, List.append_assoc, List.singleton_append]
  exact hinside (l :: cs) ls ls' htail hls'

lemma leads_skipToDelimiter_end {d : Token} (hd : d = .comma ∨ d.closesGroup)
    (rest : List Token) :
    Leads skipToDelimiter [] (d :: rest) (pure ()) := by
  refine leads_skipWhile_end fun l ls hl _ => ?_
  rw [Cursor.delimiterStep, hl, if_pos hd]

/-- Balanced tokens, up to a delimiter. -/
lemma leads_skipToDelimiter {ts : List Token} (hts : Balanced false ts) {d : Token}
    (hd : d = .comma ∨ d.closesGroup) (rest : List Token) :
    Leads skipToDelimiter ts (d :: rest) (pure ()) := by
  generalize hcommas : false = commas at hts
  induction hts with
  | nil => exact leads_skipToDelimiter_end hd rest
  | token hend hopens hcloses hcomma _ ih =>
      refine leads_skipWhile_cons 0 hend (fun l ls hl _ => ?_) (ih hcommas)
      simp [Cursor.delimiterStep, hl, hopens, hcloses, hcomma hcommas.symm]
  | @group _ o c inner ts ho hinner hc _ _ ih =>
      refine leads_skipWhile_cons 1 (ne_eof_of_opensGroup ho) (fun l ls hl _ => ?_)
        (leads_skipWhile_group countsGroups_delimiterStep hinner hc (ih hcommas))
      have hne : o ≠ .comma := by rintro rfl; exact absurd ho (by decide)
      have hcloses : o.closesGroup = false := by
        by_contra h
        exact absurd (opensGroup_of_closesGroup (by simpa using h)) (by simp [ho])
      simp [Cursor.delimiterStep, hl, ho, hcloses, hne]

/-- Bare words, up to another token. -/
lemma leads_skipWords (words : List String) {next : Token} (hnext : next.isWord = false)
    (rest : List Token) :
    Leads (modify Cursor.skipWords) (words.map .word) (next :: rest) (pure ()) := by
  induction words with
  | nil =>
      refine leads_skipWhile_end fun l ls hl _ => ?_
      simp [hl, hnext]
  | cons w words ih =>
      refine leads_skipWhile_cons () (by simp) (fun l ls hl _ => ?_) ih
      simp [hl, Token.isWord]

end Parse

end CallGuard.Ir
