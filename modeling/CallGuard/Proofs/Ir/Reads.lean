import CallGuard.Proofs.Ir.Reading

/-!
What a reader has read once it ends. The tokens that it has read, and what it gives, are
followed reader by reader, as far as they say what another run on these tokens does.

* `Parse.Reads`: what holds of the tokens that a reader has read, and of what it gives.
* `Parse.Reads.bind`: one reader after the other.
* `Parse.reads_get`, `Parse.reads_peek`: looking at tokens.
* `Parse.reads_next`, `Parse.reads_bind_eat`, …: the readers of single tokens, and what follows.
-/

namespace CallGuard.Ir.Parse

variable {α β : Type}

/-- Whenever the reader `p` ends, `Q` holds of the tokens that it has read, of what it gives and
of the tokens that are left. -/
def Reads (p : Parse α) (Q : List Token → α → List Token → Prop) : Prop :=
  ∀ cs ls a c, p ⟨cs, ls⟩ = .ok a c → ∃ read left, ls = read ++ left ∧
    c = ⟨read.reverse ++ cs, left⟩ ∧ Q (read.map Located.token) a (left.map Located.token)

variable {p : Parse α} {f : α → Parse β} {Q : List Token → α → List Token → Prop}
  {R : List Token → β → List Token → Prop}

lemma reads_pure {a : α} (h : ∀ rest, Q [] a rest) : Reads (pure a) Q := by
  intro cs ls b c heq
  obtain ⟨rfl, rfl⟩ := EStateM.Result.ok.inj heq
  exact ⟨[], ls, rfl, rfl, h _⟩

lemma reads_throw (e : ParseError) (Q : List Token → α → List Token → Prop) :
    Reads (throw e) Q := by
  intro cs ls a c heq
  exact absurd heq (by rintro ⟨⟩)

lemma Reads.mono {R : List Token → α → List Token → Prop} (hp : Reads p Q)
    (h : ∀ ts a rest, Q ts a rest → R ts a rest) : Reads p R := by
  intro cs ls a c heq
  obtain ⟨read, left, rfl, rfl, hQ⟩ := hp cs ls a c heq
  exact ⟨read, left, rfl, rfl, h _ _ _ hQ⟩

/-- What a reader has read, and what the reader after it has read. -/
lemma Reads.bind (hp : Reads p Q)
    (hf : ∀ ts a, Reads (f a) fun ts' b rest => Q ts a (ts' ++ rest) → R (ts ++ ts') b rest) :
    Reads (p >>= f) R := by
  intro cs ls b c heq
  have heq : EStateM.bind p f ⟨cs, ls⟩ = .ok b c := heq
  rw [EStateM.bind] at heq
  split at heq
  · rename_i a s ha
    obtain ⟨read, left, rfl, rfl, hQ⟩ := hp cs ls a s ha
    obtain ⟨read', left', rfl, rfl, hR⟩ := hf _ a _ left b c heq
    refine ⟨read ++ read', left', by rw [List.append_assoc], ?_, ?_⟩
    · rw [List.reverse_append, List.append_assoc]
    · rw [List.map_append]
      exact hR (by rwa [List.map_append] at hQ)
  · simp at heq

/-- Looking at the cursor. -/
lemma reads_get {f : Cursor → Parse β}
    (h : ∀ c : Cursor, Reads (f c) fun ts b rest => c.ahead = ts ++ rest → R ts b rest) :
    Reads (get >>= f) R := by
  intro cs ls b c heq
  obtain ⟨read, left, rfl, rfl, hR⟩ := h _ cs ls b c heq
  exact ⟨read, left, rfl, rfl, hR (List.map_append ..)⟩

/-- Looking at the next token. -/
lemma reads_peek {f : Token → Parse β}
    (h : ∀ t, Reads (f t) fun ts b rest => (ts ++ rest).head?.getD .eof = t → R ts b rest) :
    Reads (peek >>= f) R := by
  intro cs ls b c heq
  obtain ⟨read, left, rfl, rfl, hR⟩ := h _ cs ls b c heq
  refine ⟨read, left, rfl, rfl, hR ?_⟩
  rw [Cursor.peek_eq, Cursor.ahead, List.map_append]

lemma reads_advance :
    Reads advance fun ts t rest => ts = [t] ∨ t = .eof ∧ ts = [] ∧ rest = [] := by
  intro cs ls t c heq
  cases ls with
  | nil =>
      obtain ⟨rfl, rfl⟩ := EStateM.Result.ok.inj heq
      exact ⟨[], [], rfl, rfl, .inr ⟨rfl, rfl, rfl⟩⟩
  | cons l ls =>
      obtain ⟨rfl, rfl⟩ := EStateM.Result.ok.inj heq
      exact ⟨[l], ls, rfl, rfl, .inl rfl⟩

/-- The next token, where a reader that has reached the end fails. -/
lemma reads_next {f : Token → Parse β} (hend : Reads (f .eof) fun _ _ _ => False)
    (h : ∀ t, Reads (f t) fun ts b rest => R (t :: ts) b rest) : Reads (advance >>= f) R := by
  intro cs ls b c heq
  cases ls with
  | nil =>
      obtain ⟨-, -, -, -, hfalse⟩ := hend cs [] b c heq
      exact hfalse.elim
  | cons l ls =>
      obtain ⟨read, left, rfl, rfl, hR⟩ := h l.token _ ls b c heq
      exact ⟨l :: read, left, rfl, by simp, hR⟩

/-- The next token, which the cursor has shown. -/
lemma reads_shown {c : Cursor} {t : Token} (hc : c.peek = t) (ht : t ≠ .eof)
    {f : Token → Parse β}
    (h : ∀ u, Reads (f u) fun ts b rest => c.ahead = t :: (ts ++ rest) → R (t :: ts) b rest) :
    Reads (advance >>= f) fun ts b rest => c.ahead = ts ++ rest → R ts b rest := by
  rw [Cursor.peek_eq] at hc
  refine reads_advance.bind fun ts u => (h u).mono fun ts' b rest hR hread hahead => ?_
  rcases hread with rfl | ⟨-, rfl, hnil⟩
  · rw [hahead] at hc
    obtain rfl : u = t := by simpa using hc
    exact hR hahead
  · rw [hahead, List.nil_append, hnil] at hc
    exact absurd hc.symm ht

lemma reads_eat (t : Token) (ht : t ≠ .eof) :
    Reads (eat t) fun ts more rest =>
      more = true ∧ ts = [t] ∨ more = false ∧ ts = [] ∧ rest.head?.getD .eof ≠ t := by
  refine reads_peek fun u => ?_
  split
  · rename_i heq
    refine reads_advance.bind fun ts v => reads_pure fun rest hread hpeek => ?_
    rcases hread with rfl | ⟨-, rfl, hnil⟩
    · obtain rfl : v = u := by simpa using hpeek
      exact .inl ⟨rfl, by rw [heq]; rfl⟩
    · rw [List.append_nil, List.nil_append] at hpeek
      rw [List.nil_append] at hnil
      rw [hnil] at hpeek
      exact absurd (heq.symm.trans hpeek.symm) ht
  · rename_i hne
    exact reads_pure fun rest hpeek => .inr ⟨rfl, rfl, fun heq => hne (hpeek.symm.trans heq)⟩

/-- A token that may stand there, and what follows in both cases. -/
lemma reads_bind_eat {t : Token} (ht : t ≠ .eof) {f : Bool → Parse β}
    (htrue : Reads (f true) fun ts b rest => R (t :: ts) b rest)
    (hfalse : Reads (f false) fun ts b rest =>
      (ts ++ rest).head?.getD .eof ≠ t → R ts b rest) :
    Reads (eat t >>= f) R := by
  refine (reads_eat t ht).bind fun ts more => ?_
  cases more with
  | true =>
      refine htrue.mono fun ts' b rest hR hread => ?_
      rcases hread with ⟨-, rfl⟩ | ⟨hmore, -⟩
      · exact hR
      · exact absurd hmore (by decide)
  | false =>
      refine hfalse.mono fun ts' b rest hR hread => ?_
      rcases hread with ⟨hmore, -⟩ | ⟨-, rfl, hne⟩
      · exact absurd hmore (by decide)
      · exact hR hne

lemma reads_expect {t : Token} (ht : t ≠ .eof) (context : String) :
    Reads (expect t context) fun ts _ _ => ts = [t] := by
  refine reads_bind_eat ht (reads_pure fun _ => rfl) ?_
  exact reads_get fun c => reads_throw _ _

/-- A token that must stand there. -/
lemma reads_bind_expect {t : Token} (ht : t ≠ .eof) (context : String) {f : Unit → Parse β}
    (h : Reads (f ()) fun ts b rest => R (t :: ts) b rest) :
    Reads (expect t context >>= f) R := by
  refine (reads_expect ht context).bind fun ts _ => h.mono fun ts' b rest hR hts => ?_
  rw [hts]
  exact hR

lemma reads_expectKeyword (keyword context : String) :
    Reads (expectKeyword keyword context) fun ts _ _ => ts = [.word keyword] := by
  refine reads_bind_eat (by simp) (reads_pure fun _ => rfl) ?_
  exact reads_get fun c => reads_throw _ _

lemma reads_bind_expectKeyword (keyword context : String) {f : Unit → Parse β}
    (h : Reads (f ()) fun ts b rest => R (.word keyword :: ts) b rest) :
    Reads (expectKeyword keyword context >>= f) R := by
  refine (reads_expectKeyword keyword context).bind fun ts _ =>
    h.mono fun ts' b rest hR hts => ?_
  rw [hts]
  exact hR

lemma reads_failOn (token : Token) (context : String)
    (Q : List Token → α → List Token → Prop) : Reads (failOn token context) Q := by
  rw [failOn]
  split
  · exact reads_throw _ _
  · exact reads_get fun c => reads_throw _ _

lemma reads_expectString (context : String) :
    Reads (expectString context) fun ts name _ => ts = [.string name] := by
  refine reads_next (reads_failOn _ _ _) fun t => ?_
  split
  · exact reads_pure fun _ => rfl
  · exact reads_failOn _ _ _

lemma reads_bind_expectString (context : String) {f : String → Parse β}
    (h : ∀ name, Reads (f name) fun ts b rest => R (.string name :: ts) b rest) :
    Reads (expectString context >>= f) R := by
  refine (reads_expectString context).bind fun ts name =>
    (h name).mono fun ts' b rest hR hts => ?_
  rw [hts]
  exact hR

/-- A numeral that is read is read again. -/
lemma reads_expectBelow (limit : Nat) (context : String) :
    Reads (expectBelow limit context) fun ts n _ => ∃ text, ts = [.integer text] ∧
      ∀ more, Leads (expectBelow limit context) ts more (pure n) := by
  refine reads_next (reads_failOn _ _ _) fun t => ?_
  split
  · rename_i text
    split
    · rename_i n hn
      refine reads_pure fun _ => ⟨text, rfl, fun more => ?_⟩
      refine .bind_cons (leads_advance _ more) ?_
      simp only [hn]
      exact leads_pure n more
    · exact reads_failOn _ _ _
  · exact reads_failOn _ _ _

/-- A numeral, read as a number of some width: it is read again wherever it stands. -/
lemma reads_numeral {γ : Type} (g : Nat → γ) (limit : Nat) (context : String) :
    Reads (do return g (← expectBelow limit context)) fun ts n _ => ∃ text, ts = [.integer text] ∧
      ∀ more, Leads (do return g (← expectBelow limit context)) ts more (pure n) := by
  refine (reads_expectBelow limit context).bind fun ts n => reads_pure fun rest hn => ?_
  rw [List.append_nil]
  obtain ⟨text, hts, hagain⟩ := hn
  exact ⟨text, hts, fun more => (hagain more).bind_end (leads_pure _ more)⟩

/-- A numeral, and what follows. -/
lemma reads_bind_numeral {γ : Type} (g : Nat → γ) (limit : Nat) (context : String)
    {f : γ → Parse β}
    (h : ∀ n, Reads (f n) fun ts b rest => ∀ text,
      (∀ more, Leads (do return g (← expectBelow limit context)) [.integer text] more (pure n)) →
        R (.integer text :: ts) b rest) :
    Reads ((do return g (← expectBelow limit context)) >>= f) R := by
  refine (reads_numeral g limit context).bind fun ts n => (h n).mono fun ts' b rest hR hn => ?_
  obtain ⟨text, rfl, hagain⟩ := hn
  exact hR text hagain

lemma reads_bind_expectUInt32 (context : String) {f : UInt32 → Parse β}
    (h : ∀ n, Reads (f n) fun ts b rest => ∀ text,
      (∀ more, Leads (expectUInt32 context) [.integer text] more (pure n)) →
        R (.integer text :: ts) b rest) :
    Reads (expectUInt32 context >>= f) R :=
  reads_bind_numeral UInt32.ofNat _ context h

lemma reads_bind_expectUInt64 (context : String) {f : UInt64 → Parse β}
    (h : ∀ n, Reads (f n) fun ts b rest => ∀ text,
      (∀ more, Leads (expectUInt64 context) [.integer text] more (pure n)) →
        R (.integer text :: ts) b rest) :
    Reads (expectUInt64 context >>= f) R :=
  reads_bind_numeral UInt64.ofNat _ context h

end CallGuard.Ir.Parse
