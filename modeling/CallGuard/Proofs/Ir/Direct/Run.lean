import CallGuard.Proofs.Ir.Reads

/-!
Reading without a look first. Such a reader cuts a text at any offset, takes any item of a list
and counts down from any number, and where it should not have it crashes.

* `Crash`, `Stop`: what stops a reader, apart from an error of the text.
* `item`, `part`, `difference`: the operations that can crash.
* `Reader`, `ofParse`: readers of tokens, and those among them that look first.
-/

namespace CallGuard.Ir.Direct

/-- What stops a program that does not look first. -/
inductive Crash where
  /-- A text is cut where no character starts, or behind its end. -/
  | cut (start stop : Nat)
  /-- A list has no item at the index. -/
  | index (i : Nat)
  /-- A list has no part between the indices. -/
  | range (start stop : Nat)
  /-- A number goes below zero. -/
  | underflow
  /-- A sum has no place in the bits of its type. -/
  | overflow
  /-- A loop goes on after all rounds that it should have. -/
  | endless

/-- Why a program stops: the text is not as it should be, or the program crashes. -/
inductive Stop where
  /-- An error of the text. -/
  | refused (e : ParseError)
  /-- A crash. -/
  | crashed (c : Crash)

section Operations

variable {m : Type → Type} [Monad m] [MonadExceptOf Stop m] {α : Type}

/-- Stops with a crash. -/
def crash (c : Crash) : m α :=
  throw (.crashed c)

/-- The item of a list at an index. -/
def item (l : List α) (i : Nat) : m α :=
  match l[i]? with
  | some a => return a
  | none => crash (.index i)

/-- The part of a list between two indices. -/
def part (l : List α) (start stop : Nat) : m (List α) :=
  if start ≤ stop ∧ stop ≤ l.length then return (l.take stop).drop start
  else crash (.range start stop)

/-- What is left of a number. -/
def difference (a b : Nat) : m Nat :=
  if b ≤ a then return a - b else crash .underflow

lemma item_append_cons (s t : List α) (a : α) : (item (s ++ a :: t) s.length : m α) = pure a := by
  simp [item]

lemma part_append (s t u : List α) :
    (part (s ++ t ++ u) s.length (s.length + t.length) : m (List α)) = pure t := by
  have htake : (s ++ t ++ u).take (s.length + t.length) = s ++ t := by
    rw [← List.length_append, List.take_left]
  rw [part, if_pos (by simp), htake, List.drop_left]

lemma difference_of_le {a b : Nat} (h : b ≤ a) : (difference a b : m Nat) = pure (a - b) :=
  if_pos h

end Operations

section Runs

variable {σ α β : Type}

lemma run_get (f : σ → EStateM Stop σ β) (s : σ) : (get >>= f) s = f s s := rfl

lemma run_pure (a : α) (f : α → EStateM Stop σ β) (s : σ) : (pure a >>= f) s = f a s := rfl

lemma run_bind {p : EStateM Stop σ α} {f : α → EStateM Stop σ β} {s s' : σ} {a : α}
    (h : p s = .ok a s') : (p >>= f) s = f a s' := by
  change EStateM.bind p f s = _
  rw [EStateM.bind, h]

lemma run_bind_congr {p q : EStateM Stop σ α} {s : σ} (h : p s = q s)
    (f : α → EStateM Stop σ β) : (p >>= f) s = (q >>= f) s := by
  change EStateM.bind p f s = EStateM.bind q f s
  rw [EStateM.bind, EStateM.bind, h]

lemma run_bind_error {p : EStateM Stop σ α} (f : α → EStateM Stop σ β) {s s' : σ} {e : Stop}
    (h : p s = .error e s') : (p >>= f) s = .error e s' := by
  change EStateM.bind p f s = _
  rw [EStateM.bind, h]

end Runs

/-- Readers of tokens that may crash. -/
abbrev Reader := EStateM Stop Cursor

section Readers

variable {α β : Type}

/-- A reader that looks first. -/
def ofParse (p : Parse α) : Reader α := fun c =>
  match p c with
  | .ok a c' => .ok a c'
  | .error e c' => .error (.refused e) c'

lemma ofParse_pure (a : α) : ofParse (pure a) = pure a := rfl

lemma ofParse_get : ofParse get = get := rfl

lemma ofParse_modify (f : Cursor → Cursor) : ofParse (modify f) = modify f := rfl

lemma ofParse_bind (p : Parse α) (f : α → Parse β) :
    ofParse (p >>= f) = ofParse p >>= fun a => ofParse (f a) := by
  funext c
  change (match EStateM.bind p f c with
    | .ok b c' => EStateM.Result.ok b c'
    | .error e c' => .error (.refused e) c') = EStateM.bind (ofParse p) _ c
  rw [EStateM.bind, EStateM.bind, ofParse]
  cases p c <;> rfl

lemma ofParse_inj {p q : Parse α} {c : Cursor} (h : ofParse p c = ofParse q c) : p c = q c := by
  rw [ofParse, ofParse] at h
  cases hp : p c <;> cases hq : q c <;> rw [hp, hq] at h <;> cases h <;> rfl

lemma ofParse_ite (P : Prop) [Decidable P] (p q : Parse α) :
    ofParse (if P then p else q) = if P then ofParse p else ofParse q := by
  split <;> rfl

lemma run_ofParse_get (f : Cursor → Parse β) (c : Cursor) :
    ofParse (get >>= f) c = ofParse (f c) c := rfl

lemma run_advance (f : Token → Reader β) (cs ls : List Located) (t : Located) :
    (ofParse Parse.advance >>= f) ⟨cs, t :: ls⟩ = f t.token ⟨t :: cs, ls⟩ := rfl

/-- What follows a reader that looks first depends on the tokens that this one has left. -/
lemma run_ofParse_congr {p : Parse α} {Q : List Token → α → List Token → Prop}
    (hread : Parse.Reads p Q) {f g : α → Reader β} {c : Cursor}
    (h : ∀ ts a rest, Q ts a rest → c.ahead = ts ++ rest →
      ∀ c', c'.rest.length + ts.length = c.rest.length → f a c' = g a c') :
    (ofParse p >>= f) c = (ofParse p >>= g) c := by
  change EStateM.bind (ofParse p) f c = EStateM.bind (ofParse p) g c
  rw [EStateM.bind, EStateM.bind, ofParse]
  cases hp : p c with
  | error e c' => rfl
  | ok a c' =>
      obtain ⟨cs, ls⟩ := c
      obtain ⟨read, left, rfl, rfl, hQ⟩ := hread cs ls a c' hp
      refine h _ a _ hQ (List.map_append ..) _ ?_
      simp only [List.length_append, List.length_map]
      omega

/-- The result of a reader on its own tokens. -/
def runOn (p : Reader α) (tokens : List Located) : Except Stop α :=
  match p.run (Cursor.ofTokens tokens) with
  | .ok a _ => .ok a
  | .error e _ => .error e

lemma runOn_congr {p q : Reader α} {tokens : List Located}
    (h : p (Cursor.ofTokens tokens) = q (Cursor.ofTokens tokens)) :
    runOn p tokens = runOn q tokens := by
  have hrun : p.run (Cursor.ofTokens tokens) = q.run (Cursor.ofTokens tokens) := h
  rw [runOn, runOn, hrun]

lemma runOn_ofParse (p : Parse α) (tokens : List Located) :
    runOn (ofParse p) tokens = (p.runOn tokens).mapError .refused := by
  change (match ofParse p (Cursor.ofTokens tokens) with
    | .ok a _ => Except.ok a
    | .error e _ => .error e) = Except.mapError _ (match p (Cursor.ofTokens tokens) with
    | .ok a _ => Except.ok a
    | .error e _ => .error e)
  rw [ofParse]
  cases p (Cursor.ofTokens tokens) <;> rfl

end Readers

end CallGuard.Ir.Direct
