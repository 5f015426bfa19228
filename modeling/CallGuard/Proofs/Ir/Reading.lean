import CallGuard.Ir.Cursor
import CallGuard.Proofs.Text.Numeral
import Mathlib.Data.UInt
import Mathlib.Tactic

/-!
What readers do with tokens. A reader that reads some tokens goes on like another reader
behind them, so a run of a reader is followed token by token.

* `Parse.Leads`: reading tokens makes a reader go on like another one.
* `Parse.Leads.trans`, `Parse.Leads.bind`: one reader after the other.
* `Parse.leads_advance`, `Parse.leads_expect`, …: the readers of single tokens.
* `Parse.Gives`: what holds of all results of a reader.
-/

namespace CallGuard

namespace Ir

/-! ### Tokens ahead -/

namespace Cursor

/-- The tokens that have not been read, without their places. -/
def ahead (c : Cursor) : List Token :=
  c.rest.map Located.token

lemma peekAt_eq (c : Cursor) (n : Nat) : c.peekAt n = c.ahead[n]?.getD .eof := by
  rw [peekAt, ahead, List.getElem?_map]
  cases c.rest[n]? <;> rfl

lemma peek_eq (c : Cursor) : c.peek = c.ahead.head?.getD .eof := by
  rw [peek, peekAt_eq, List.head?_eq_getElem?]

variable {c : Cursor} {t : Token}

lemma peekAt_eq_iff (ht : t ≠ .eof) (n : Nat) : c.peekAt n = t ↔ c.ahead[n]? = some t := by
  rw [peekAt_eq]
  cases c.ahead[n]? with
  | none => simp [ht.symm]
  | some u => simp

lemma peek_eq_iff (ht : t ≠ .eof) : c.peek = t ↔ c.ahead.head? = some t := by
  rw [List.head?_eq_getElem?]
  exact peekAt_eq_iff ht 0

end Cursor

namespace Parse

variable {α β : Type}

/-- Reading the tokens `ts`, before the tokens `rest`, makes the reader `p` go on like the
reader `q`. -/
def Leads (p : Parse α) (ts rest : List Token) (q : Parse α) : Prop :=
  ∀ cs ls ls', ls.map Located.token = ts → ls'.map Located.token = rest →
    p ⟨cs, ls ++ ls'⟩ = q ⟨ls.reverse ++ cs, ls'⟩

lemma Leads.refl (p : Parse α) (rest : List Token) : Leads p [] rest p := by
  intro cs ls ls' hls _
  obtain rfl := List.map_eq_nil_iff.mp hls
  rfl

lemma Leads.trans {p q r : Parse α} {ts ts' rest : List Token} (h : Leads p ts (ts' ++ rest) q)
    (h' : Leads q ts' rest r) : Leads p (ts ++ ts') rest r := by
  intro cs ls ls' hls hls'
  obtain ⟨ls₁, ls₂, rfl, hls₁, hls₂⟩ := List.map_eq_append_iff.mp hls
  rw [List.append_assoc, h cs ls₁ (ls₂ ++ ls') hls₁ (by rw [List.map_append, hls₂, hls']),
    h' _ ls₂ ls' hls₂ hls', List.reverse_append, List.append_assoc]

/-- A reader that ends, and the reader after it. -/
lemma Leads.bind {p : Parse α} {a : α} {f : α → Parse β} {q : Parse β} {ts ts' rest : List Token}
    (hp : Leads p ts (ts' ++ rest) (pure a)) (hf : Leads (f a) ts' rest q) :
    Leads (p >>= f) (ts ++ ts') rest q := by
  refine Leads.trans (fun cs ls ls' hls hls' => ?_) hf
  change EStateM.bind p f _ = _
  rw [EStateM.bind, hp cs ls ls' hls hls']
  rfl

/-- A reader of one token, and the reader after it. -/
lemma Leads.bind_cons {p : Parse α} {a : α} {f : α → Parse β} {q : Parse β} {t : Token}
    {ts rest : List Token} (hp : Leads p [t] (ts ++ rest) (pure a)) (hf : Leads (f a) ts rest q) :
    Leads (p >>= f) (t :: ts) rest q :=
  .bind hp hf

/-- A reader that reads nothing, and the reader after it. -/
lemma Leads.bind_nil {p : Parse α} {a : α} {f : α → Parse β} {q : Parse β} {ts rest : List Token}
    (hp : Leads p [] (ts ++ rest) (pure a)) (hf : Leads (f a) ts rest q) :
    Leads (p >>= f) ts rest q :=
  .bind hp hf

/-- A reader that ends, and a reader of nothing after it. -/
lemma Leads.bind_end {p : Parse α} {a : α} {f : α → Parse β} {q : Parse β} {ts rest : List Token}
    (hp : Leads p ts rest (pure a)) (hf : Leads (f a) [] rest q) :
    Leads (p >>= f) ts rest q := by
  rw [← List.append_nil ts]
  exact .bind hp hf

lemma leads_pure (a : α) (rest : List Token) : Leads (pure a : Parse α) [] rest (pure a) :=
  .refl _ rest

lemma run_get (f : Cursor → Parse β) (c : Cursor) : (get >>= f) c = f c c := rfl

lemma run_bind {p : Parse α} {f : α → Parse β} {c c' : Cursor} {a : α} (h : p c = .ok a c') :
    (p >>= f) c = f a c' := by
  change EStateM.bind p f c = _
  rw [EStateM.bind, h]

lemma run_modify (f : Cursor → Cursor) (g : Unit → Parse β) (c : Cursor) :
    (modify f >>= g) c = g () (f c) := rfl

lemma run_advance (g : Token → Parse β) (cs ls : List Located) (l : Located) :
    (advance >>= g) ⟨cs, l :: ls⟩ = g l.token ⟨l :: cs, ls⟩ := rfl

/-- Looking at the cursor. -/
lemma leads_get {f : Cursor → Parse β} {q : Parse β} {ts rest : List Token}
    (h : ∀ c : Cursor, c.ahead = ts ++ rest → Leads (f c) ts rest q) :
    Leads (get >>= f) ts rest q := by
  intro cs ls ls' hls hls'
  have hahead : (⟨cs, ls ++ ls'⟩ : Cursor).ahead = ts ++ rest := by
    rw [Cursor.ahead, List.map_append, hls, hls']
  exact h _ hahead cs ls ls' hls hls'

lemma leads_advance (t : Token) (rest : List Token) : Leads advance [t] rest (pure t) := by
  intro cs ls ls' hls _
  obtain ⟨l, ls, rfl, rfl, hnil⟩ := List.map_eq_cons_iff.mp hls
  obtain rfl := List.map_eq_nil_iff.mp hnil
  rfl

lemma leads_peek {t : Token} {ts rest : List Token} (h : (ts ++ rest).head? = some t)
    {f : Token → Parse β} {q : Parse β} (hf : Leads (f t) ts rest q) :
    Leads (peek >>= f) ts rest q := by
  intro cs ls ls' hls hls'
  have hpeek : (⟨cs, ls ++ ls'⟩ : Cursor).peek = t := by
    rw [Cursor.peek_eq, Cursor.ahead, List.map_append, hls, hls', h]
    rfl
  have heq : (peek >>= f) ⟨cs, ls ++ ls'⟩ = f (⟨cs, ls ++ ls'⟩ : Cursor).peek ⟨cs, ls ++ ls'⟩ := rfl
  rw [heq, hpeek, hf cs ls ls' hls hls']

lemma leads_eat (t : Token) (rest : List Token) : Leads (eat t) [t] rest (pure true) := by
  refine leads_peek rfl ?_
  rw [if_pos rfl]
  exact .bind_cons (leads_advance t rest) (leads_pure true rest)

/-- Another token is not read. -/
lemma leads_eat_of_ne {t : Token} {rest : List Token} (h : rest.head?.getD .eof ≠ t) :
    Leads (eat t) [] rest (pure false) := by
  intro cs ls ls' hls hls'
  obtain rfl := List.map_eq_nil_iff.mp hls
  have hpeek : (⟨cs, ls'⟩ : Cursor).peek ≠ t := by
    rwa [Cursor.peek_eq, Cursor.ahead, hls']
  have heq : eat t ⟨cs, ls'⟩ = (if (⟨cs, ls'⟩ : Cursor).peek = t then do
      let _ ← advance
      return true
    else return false : Parse Bool) ⟨cs, ls'⟩ := rfl
  rw [List.nil_append, heq, if_neg hpeek]
  rfl

lemma leads_expect (t : Token) (context : String) (rest : List Token) :
    Leads (expect t context) [t] rest (pure ()) :=
  .bind_cons (leads_eat t rest) (leads_pure () rest)

lemma leads_expectKeyword (keyword context : String) (rest : List Token) :
    Leads (expectKeyword keyword context) [.word keyword] rest (pure ()) :=
  .bind_cons (leads_eat (.word keyword) rest) (leads_pure () rest)

lemma leads_expectString (name context : String) (rest : List Token) :
    Leads (expectString context) [.string name] rest (pure name) :=
  .bind_cons (leads_advance _ rest) (leads_pure name rest)

lemma leads_expectBelow {n limit : Nat} (h : n < limit) (context : String) (rest : List Token) :
    Leads (expectBelow limit context) [.integer (String.ofList (Text.decimal n))] rest
      (pure n) := by
  refine .bind_cons (leads_advance _ rest) ?_
  simp only [String.toList_ofList, Text.readBelow?_decimal h]
  exact leads_pure n rest

lemma leads_expectUInt32 (n : UInt32) (context : String) (rest : List Token) :
    Leads (expectUInt32 context) [.integer (String.ofList (Text.decimal n.toNat))] rest
      (pure n) := by
  refine .bind_cons (leads_expectBelow n.toNat_lt context rest) ?_
  rw [UInt32.ofNat_toNat]
  exact leads_pure n rest

lemma leads_expectUInt64 (n : UInt64) (context : String) (rest : List Token) :
    Leads (expectUInt64 context) [.integer (String.ofList (Text.decimal n.toNat))] rest
      (pure n) := by
  refine .bind_cons (leads_expectBelow n.toNat_lt context rest) ?_
  rw [UInt64.ofNat_toNat]
  exact leads_pure n rest

/-! ### Results -/

/-- All results of the reader `p` have the property `Q`. -/
def Gives (p : Parse α) (Q : α → Prop) : Prop :=
  ∀ c a c', p c = .ok a c' → Q a

lemma gives_pure {Q : α → Prop} {a : α} (h : Q a) : Gives (pure a) Q := by
  intro c b c' heq
  obtain ⟨rfl, -⟩ := EStateM.Result.ok.inj heq
  exact h

lemma gives_throw (e : ParseError) (Q : α → Prop) : Gives (throw e) Q := by
  intro c b c' heq
  exact absurd heq (by rintro ⟨⟩)

lemma Gives.bind {p : Parse α} {f : α → Parse β} {Q : α → Prop} {R : β → Prop} (hp : Gives p Q)
    (hf : ∀ a, Q a → Gives (f a) R) : Gives (p >>= f) R := by
  intro c b c' heq
  have heq : EStateM.bind p f c = .ok b c' := heq
  rw [EStateM.bind] at heq
  split at heq
  · rename_i a s ha
    exact hf a (hp c a s ha) s b c' heq
  · simp at heq

/-- What a reader gives after another one, whatever that gives. -/
lemma gives_bind {p : Parse α} {f : α → Parse β} {R : β → Prop} (hf : ∀ a, Gives (f a) R) :
    Gives (p >>= f) R :=
  Gives.bind (Q := fun _ => True) (fun _ _ _ _ => trivial) fun a _ => hf a

end Parse

end Ir

end CallGuard
