import CallGuard.Proofs.Ir.Direct.Run
import CallGuard.Proofs.Ir.Groups

/-!
Moving over tokens without a look first. The loops count open brackets up and down and take
tokens by their index; the counters never go below zero, the indices are those of tokens, and
every loop ends, so the loops move like the readers that look first.

* `walk`: a loop that goes over one token in each round.
* `walk_eq`: it moves like `Cursor.skipWhile`.
* `skipGroup`, `skipToDelimiter`, `skipEntity`: the loops.
* `skipGroup_eq`, `skipToDelimiter_eq`, `skipEntity_eq`: they never crash.
-/

namespace CallGuard.Ir

/-! ### The cursor before a token -/

namespace Cursor

variable {σ : Type} {step : σ → Located → List Located → Option σ} {cs ls : List Located}
  {t : Located}

lemma atEnd_iff {c : Cursor} : c.atEnd = true ↔ c.peek = .eof :=
  beq_iff_eq

lemma atEnd_cons : (⟨cs, t :: ls⟩ : Cursor).atEnd = true ↔ t.token = .eof :=
  atEnd_iff

/-- Either the tokens are at an end, or the cursor is before a token. -/
lemma atEnd_or_exists (c : Cursor) :
    c.atEnd = true ∨ ∃ cs t ls, c = ⟨cs, t :: ls⟩ ∧ t.token ≠ .eof := by
  obtain ⟨cs, _ | ⟨t, ls⟩⟩ := c
  · exact .inl rfl
  · by_cases ht : t.token = .eof
    · exact .inl (atEnd_cons.mpr ht)
    · exact .inr ⟨cs, t, ls, rfl, ht⟩

lemma skipWhile_of_atEnd {c : Cursor} (h : c.atEnd = true) (s : σ) : c.skipWhile step s = c := by
  obtain ⟨cs, _ | ⟨t, ls⟩⟩ := c
  · rfl
  · simp [skipWhile, splitWhile, atEnd_cons.mp h]

lemma skipWhile_of_none {s : σ} (h : step s t ls = none) :
    (⟨cs, t :: ls⟩ : Cursor).skipWhile step s = ⟨cs, t :: ls⟩ := by
  simp [skipWhile, splitWhile, h]

lemma skipWhile_of_some (ht : t.token ≠ .eof) {s s' : σ} (h : step s t ls = some s') :
    (⟨cs, t :: ls⟩ : Cursor).skipWhile step s = (⟨t :: cs, ls⟩ : Cursor).skipWhile step s' := by
  simp [skipWhile, splitWhile, ht, h]

lemma groupStep_of_opens (h : t.token.opensGroup = true) (n : Nat) :
    groupStep (n + 1) t ls = some (n + 2) :=
  Parse.countsGroups_groupStep.opening n t ls h

lemma groupStep_of_closes (h : t.token.closesGroup = true) (n : Nat) :
    groupStep (n + 1) t ls = some n :=
  Parse.countsGroups_groupStep.closing n t ls h

lemma groupStep_of_not (hopens : t.token.opensGroup = false) (hcloses : t.token.closesGroup = false)
    (n : Nat) : groupStep (n + 1) t ls = some (n + 1) :=
  Parse.countsGroups_groupStep.other n t ls hopens hcloses

/-- Nothing is left of a group without open brackets. -/
lemma skipWhile_groupStep_zero (c : Cursor) : c.skipWhile groupStep 0 = c := by
  obtain ⟨cs, _ | ⟨t, ls⟩⟩ := c
  · rfl
  · exact skipWhile_of_none rfl

/-- A step that counts open brackets goes to the end of the open groups, and on from there. -/
lemma skipWhile_counts {state : Nat → σ} (h : Parse.CountsGroups step state) (n : Nat)
    (c : Cursor) :
    c.skipWhile step (state (n + 1)) =
      (c.skipWhile groupStep (n + 1)).skipWhile step (state 0) := by
  obtain ⟨cs, ls⟩ := c
  induction ls generalizing cs n with
  | nil => rfl
  | cons t ls ih =>
      by_cases ht : t.token = .eof
      · have hend := @atEnd_cons cs ls t |>.mpr ht
        rw [skipWhile_of_atEnd hend, skipWhile_of_atEnd hend, skipWhile_of_atEnd hend]
      cases hopens : t.token.opensGroup with
      | true =>
          rw [skipWhile_of_some ht (h.opening n t ls hopens), ih (n + 1),
            skipWhile_of_some ht (groupStep_of_opens hopens n)]
      | false =>
          cases hcloses : t.token.closesGroup with
          | false =>
              rw [skipWhile_of_some ht (h.other n t ls hopens hcloses), ih n,
                skipWhile_of_some ht (groupStep_of_not hopens hcloses n)]
          | true =>
              rw [skipWhile_of_some ht (h.closing n t ls hcloses),
                skipWhile_of_some ht (groupStep_of_closes hcloses n)]
              cases n with
              | zero => rw [skipWhile_groupStep_zero]
              | succ n => exact ih n _

end Cursor

namespace Direct

open Parse (advance)

/-! ### Groups -/

/-- Goes over the next token and the brackets that are open behind it, up to the end of the
last one; `depth` counts those that are open before it. -/
def skipGroupFrom : Nat → Nat → Reader Unit
  | 0, _ => crash .endless
  | bound + 1, depth => do
    if (← get).atEnd then return ()
    else
      let token ← ofParse advance
      if token.opensGroup then skipGroupFrom bound (depth + 1)
      else if token.closesGroup then
        let depth ← difference depth 1
        if depth = 0 then return ()
        else skipGroupFrom bound depth
      else skipGroupFrom bound depth

/-- Moves over the bracketed group that the next token opens, if it opens one. -/
def skipGroup : Reader Unit := do
  let c ← get
  if c.peek.opensGroup then skipGroupFrom (c.rest.length + 1) 0
  else return ()

/-- Inside a group the counter is at least one, also where it goes down. -/
lemma skipGroupFrom_eq (n : Nat) {bound : Nat} (c : Cursor) (h : c.rest.length < bound) :
    skipGroupFrom bound (n + 1) c = .ok () (c.skipWhile Cursor.groupStep (n + 1)) := by
  obtain ⟨cs, ls⟩ := c
  obtain ⟨bound, rfl⟩ : ∃ k, bound = k + 1 := ⟨bound - 1, by omega⟩
  induction ls generalizing cs n bound with
  | nil => rfl
  | cons t ls ih =>
      rw [skipGroupFrom, run_get]
      by_cases ht : t.token = .eof
      · have hend := @Cursor.atEnd_cons cs ls t |>.mpr ht
        rw [Cursor.skipWhile_of_atEnd hend, if_pos hend]
        rfl
      rw [if_neg (mt Cursor.atEnd_cons.mp ht), run_advance]
      obtain ⟨bound, rfl⟩ : ∃ k, bound = k + 1 :=
        ⟨bound - 1, by simp only [List.length_cons] at h; omega⟩
      cases hopens : t.token.opensGroup with
      | true =>
          rw [if_pos rfl, Cursor.skipWhile_of_some ht (Cursor.groupStep_of_opens hopens n)]
          exact ih (n + 1) (t :: cs) bound (by simpa using h)
      | false =>
          rw [if_neg Bool.false_ne_true]
          cases hcloses : t.token.closesGroup with
          | false =>
              rw [if_neg Bool.false_ne_true,
                Cursor.skipWhile_of_some ht (Cursor.groupStep_of_not hopens hcloses n)]
              exact ih n (t :: cs) bound (by simpa using h)
          | true =>
              rw [if_pos rfl, Cursor.skipWhile_of_some ht (Cursor.groupStep_of_closes hcloses n),
                difference_of_le (by omega), run_pure]
              cases n with
              | zero =>
                  rw [Cursor.skipWhile_groupStep_zero]
                  rfl
              | succ n => exact ih n (t :: cs) bound (by simpa using h)

/-- The counter is zero before the first bracket only, which is an opening one. -/
lemma skipGroup_eq : skipGroup = ofParse Parse.skipGroup := by
  funext c
  rw [skipGroup, run_get]
  obtain ⟨cs, _ | ⟨t, ls⟩⟩ := c
  · rfl
  have hmove : ofParse Parse.skipGroup ⟨cs, t :: ls⟩ =
      .ok () (if t.token.opensGroup then Cursor.skipWhile Cursor.groupStep 1 ⟨t :: cs, ls⟩
        else ⟨cs, t :: ls⟩) := rfl
  have hpeek : (⟨cs, t :: ls⟩ : Cursor).peek = t.token := rfl
  rw [hmove, hpeek]
  cases hopens : t.token.opensGroup with
  | false => rfl
  | true =>
      have ht := Parse.ne_eof_of_opensGroup hopens
      rw [if_pos rfl, if_pos rfl, skipGroupFrom, run_get, if_neg (mt Cursor.atEnd_cons.mp ht),
        run_advance, if_pos hopens]
      exact skipGroupFrom_eq 0 ⟨t :: cs, ls⟩ (by simp)

/-! ### One token in each round -/

section Walk

variable {β : Type} {round : β → Reader (Option β)}
  {step : β → Located → List Located → Option β}

/-- Goes over tokens. In each round `round` says whether to stop before the next token or with
which state to go on behind it. -/
def walk (round : β → Reader (Option β)) : Nat → β → Reader Unit
  | 0, _ => crash .endless
  | bound + 1, b => do
    match ← round b with
    | none => return ()
    | some b =>
      let _ ← ofParse advance
      walk round bound b

lemma walk_of_none {b : β} {c : Cursor} (h : round b c = .ok none c) (bound : Nat) :
    walk round (bound + 1) b c = .ok () c := by
  rw [walk, run_bind h]
  rfl

lemma walk_of_error {b : β} {c : Cursor} {e : Stop} (h : round b c = .error e c) (bound : Nat) :
    walk round (bound + 1) b c = .error e c := by
  rw [walk, run_bind_error _ h]

/-- If the rounds are those of a step, the loop comes to where the step stops, with a round to
go. -/
lemma exists_walk_eq (hnext : ∀ b cs t ls, t.token ≠ .eof →
      round b ⟨cs, t :: ls⟩ = .ok (step b t ls) ⟨cs, t :: ls⟩)
    {bound : Nat} (b : β) (c : Cursor) (h : c.rest.length < bound) :
    ∃ k b', walk round bound b c = walk round (k + 1) b' (c.skipWhile step b) ∧
      ((c.skipWhile step b).atEnd = false →
        round b' (c.skipWhile step b) = .ok none (c.skipWhile step b)) := by
  obtain ⟨cs, ls⟩ := c
  obtain ⟨bound, rfl⟩ : ∃ k, bound = k + 1 := ⟨bound - 1, by omega⟩
  induction ls generalizing cs b bound with
  | nil => exact ⟨bound, b, rfl, (show true ≠ false by decide).elim⟩
  | cons t ls ih =>
      by_cases ht : t.token = .eof
      · have hend := @Cursor.atEnd_cons cs ls t |>.mpr ht
        rw [Cursor.skipWhile_of_atEnd hend]
        exact ⟨bound, b, rfl, fun hfalse => absurd hend (by simp [hfalse])⟩
      · cases hstep : step b t ls with
        | none =>
            rw [Cursor.skipWhile_of_none hstep]
            exact ⟨bound, b, rfl, fun _ => by rw [hnext b cs t ls ht, hstep]⟩
        | some b' =>
            obtain ⟨bound, rfl⟩ : ∃ k, bound = k + 1 :=
              ⟨bound - 1, by simp only [List.length_cons] at h; omega⟩
            have hround : round b ⟨cs, t :: ls⟩ = .ok (some b') ⟨cs, t :: ls⟩ := by
              rw [hnext b cs t ls ht, hstep]
            have hone : walk round (bound + 1 + 1) b ⟨cs, t :: ls⟩ =
                walk round (bound + 1) b' ⟨t :: cs, ls⟩ := by
              rw [walk, run_bind hround]
              rfl
            rw [Cursor.skipWhile_of_some ht hstep, hone]
            exact ih b' (t :: cs) bound (by simpa using h)

/-- If the rounds also stop at the end of the tokens, the loop moves like the step. -/
lemma walk_eq (hend : ∀ b c, c.atEnd = true → round b c = .ok none c)
    (hnext : ∀ b cs t ls, t.token ≠ .eof →
      round b ⟨cs, t :: ls⟩ = .ok (step b t ls) ⟨cs, t :: ls⟩)
    {bound : Nat} (b : β) (c : Cursor) (h : c.rest.length < bound) :
    walk round bound b c = .ok () (c.skipWhile step b) := by
  obtain ⟨k, b', heq, hstop⟩ := exists_walk_eq hnext b c h
  rw [heq]
  cases hatEnd : (c.skipWhile step b).atEnd with
  | true => exact walk_of_none (hend b' _ hatEnd) k
  | false => exact walk_of_none (hstop hatEnd) k

end Walk

/-! ### Delimiters -/

/-- A round up to a comma or closing bracket outside all groups; `depth` counts the open
brackets. -/
def delimiterRound (depth : Nat) : Reader (Option Nat) := do
  let token := (← get).peek
  if token = .eof then return none
  else if depth = 0 ∧ (token = .comma ∨ token.closesGroup) then return none
  else if token.opensGroup then return some (depth + 1)
  else if token.closesGroup then return some (← difference depth 1)
  else return some depth

/-- Moves to the next comma or closing bracket outside all groups. -/
def skipToDelimiter : Reader Unit := do
  walk delimiterRound ((← get).rest.length + 1) 0

/-- Without open brackets the loop stops before a closing one, so it does not count down. -/
lemma delimiterRound_cons (depth : Nat) (cs : List Located) (t : Located) (ls : List Located)
    (ht : t.token ≠ .eof) : delimiterRound depth ⟨cs, t :: ls⟩ =
      .ok (Cursor.delimiterStep depth t ls) ⟨cs, t :: ls⟩ := by
  have hpeek : (⟨cs, t :: ls⟩ : Cursor).peek = t.token := rfl
  rw [delimiterRound, run_get, hpeek, if_neg ht]
  cases depth with
  | zero =>
      rw [Cursor.delimiterStep]
      by_cases hdelimiter : t.token = .comma ∨ t.token.closesGroup
      · rw [if_pos ⟨rfl, hdelimiter⟩, if_pos hdelimiter]
        rfl
      · rw [if_neg fun h => hdelimiter h.2, if_neg hdelimiter]
        have hcloses : ¬ t.token.closesGroup = true := fun h => hdelimiter (.inr h)
        rw [if_neg hcloses]
        split <;> rfl
  | succ n =>
      rw [Cursor.delimiterStep, if_neg (by simp), difference_of_le (by omega)]
      repeat' split
      all_goals rfl

lemma skipToDelimiter_eq : skipToDelimiter = ofParse Parse.skipToDelimiter := by
  funext c
  rw [skipToDelimiter, run_get]
  refine walk_eq (fun depth c hc => ?_) delimiterRound_cons 0 c (Nat.lt_succ_self _)
  rw [delimiterRound, run_get, if_pos (Cursor.atEnd_iff.mp hc)]
  rfl

/-! ### Entities -/

/-- A round over what belongs to an entity on the line `line`; `depth` counts the open
brackets. -/
def entityRound (line depth : Nat) : Reader (Option Nat) := do
  let c ← get
  if c.atEnd then return none
  else
    let next ← item c.tokens c.position
    if depth = 0 ∧ next.line ≠ line then return none
    else
      match c.peek with
      | .lparen | .lbracket | .lbrace => return some (depth + 1)
      | .rparen | .rbracket | .rbrace => return some (depth - 1)
      | _ => return some depth

/-- Moves over the rest of a top-level entity, which starts with the token read last. -/
def skipEntity : Reader Unit := do
  let c ← get
  walk (entityRound c.prevLine) (c.rest.length + 1) 0

/-- The token at the position of a cursor is the next one. -/
lemma item_position (cs : List Located) (t : Located) (ls : List Located) :
    (item (⟨cs, t :: ls⟩ : Cursor).tokens (⟨cs, t :: ls⟩ : Cursor).position : Reader Located) =
      pure t := by
  have hitem : (item (cs.reverse ++ t :: ls) cs.reverse.length : Reader Located) = pure t :=
    item_append_cons _ _ t
  rwa [List.length_reverse] at hitem

lemma entityRound_cons (line depth : Nat) (cs : List Located) (t : Located) (ls : List Located)
    (ht : t.token ≠ .eof) : entityRound line depth ⟨cs, t :: ls⟩ =
      .ok (Cursor.entityStep line depth t ls) ⟨cs, t :: ls⟩ := by
  have hpeek : (⟨cs, t :: ls⟩ : Cursor).peek = t.token := rfl
  rw [entityRound, run_get, if_neg (mt Cursor.atEnd_cons.mp ht), item_position, run_pure, hpeek,
    Cursor.entityStep]
  split
  · rfl
  · cases t.token <;> rfl

lemma skipEntity_eq : skipEntity = ofParse Parse.skipEntity := by
  funext c
  rw [skipEntity, run_get]
  refine walk_eq (fun depth c hc => ?_) (entityRound_cons _) 0 c (Nat.lt_succ_self _)
  rw [entityRound, run_get, if_pos hc]
  rfl

end Direct

end CallGuard.Ir
