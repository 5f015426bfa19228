import CallGuard.Proofs.Ir.Direct.Run
import CallGuard.Proofs.Ir.Ty.Locality

/-!
Types without a look first. The readers of the grammar call each other to a depth that is given,
and crash below it. Between two calls of one reader a token is read, so the tokens that are left
bound the depth of the calls.

* `TypeGrammar`: the readers of the grammar's parts; `parseType`, `parseParams`: types and
  parameter lists, with a depth for the tokens that are left.
* `Agrees`: a reader does the same as one that looks first where few tokens are left.
* `TypeGrammar.Settles`, `TypeGrammar.settled`: so does every reader of the grammar, if its depth
  is enough for these tokens.
* `parseType_eq`, `parseParams_eq`: no type and no parameter list is too deep.
* `TypeGrammar.type_of_le`: the depth of `parseType` is as good as any larger one.
* `Cursor.Behind`, `reads_parseType`: a type that is read takes tokens.
-/

namespace CallGuard.Ir

namespace TypeGrammar

open Parse (Reads)

/-- A type takes a token. -/
lemma reads_type (d : Nat) : Reads (type d) fun ts _ _ => 1 ≤ ts.length :=
  (isLocal d).type.mono fun _ _ _ hread =>
    List.length_pos_iff.mpr (ne_nil_of_typeStart hread.start)

lemma reads_params (d : Nat) : Reads (params d) fun ts _ _ => 1 ≤ ts.length :=
  (isLocal d).params.mono fun _ _ _ hread => by
    obtain ⟨ts, rfl⟩ := List.head?_eq_some_iff.mp hread.1
    simp

end TypeGrammar

namespace Direct

open Parse (Reads advance eat eatKeyword expect expectKeyword expectString expectUInt32
  expectUInt64 peek)

/-! ### The grammar -/

namespace TypeGrammar

open Ir.TypeGrammar (depthFor reference spaceNumber)

mutual

/-- A type. -/
def type : Nat → Reader Ty
  | 0 => crash .endless
  | depth + 1 => do
    let line := (← get).line
    let token ← ofParse advance
    let base ← base depth line token
    suffixes depth base

/-- A type without suffixes, after its first token. -/
def base : Nat → Nat → Token → Reader Ty
  | 0, _, _ => crash .endless
  | depth + 1, line, token =>
    match token with
    | .word keyword =>
      if keyword = "ptr" then do
        if ← ofParse (eatKeyword "addrspace") then return .ptr (← ofParse spaceNumber)
        else return .ptr 0
      else if keyword = "target" then do
        ofParse (expect .lparen "target type")
        let name ← ofParse (expectString "target type name")
        let (types, ints) ← targetArguments depth
        return .target name types ints
      else
        match Ty.ofKeyword? keyword with
        | some t => return t
        | none => throw (.refused (.invalidType line s!"unknown type '{keyword}'"))
    | .localName name => ofParse (reference line name)
    | .lbrace => return .struct false (← structBody depth)
    | .less => do
      if ← ofParse (eat .lbrace) then
        let fields ← structBody depth
        ofParse (expect .greater "packed struct type")
        return .struct true fields
      else
        let scalable ← ofParse (eatKeyword "vscale")
        if scalable then ofParse (expectKeyword "x" "scalable vector type")
        let length ← ofParse (expectUInt64 "vector length")
        ofParse (expectKeyword "x" "vector type")
        let element ← type depth
        ofParse (expect .greater "vector type")
        return .vector length scalable element
    | .lbracket => do
      let length ← ofParse (expectUInt64 "array length")
      ofParse (expectKeyword "x" "array type")
      let element ← type depth
      ofParse (expect .rbracket "array type")
      return .array length element
    | .eof => throw (.refused (.unexpectedEnd "type"))
    | _ => throw (.refused (.unexpectedToken line "type" token.describe))

/-- The suffixes of the type `t`. -/
def suffixes : Nat → Ty → Reader Ty
  | 0, _ => crash .endless
  | depth + 1, t => do
    let cursor ← get
    if cursor.peek = .star then
      let _ ← ofParse advance
      suffixes depth (.pointer t 0)
    else if cursor.atSpaceSuffix then
      let _ ← ofParse advance
      let space ← ofParse spaceNumber
      ofParse (expect .star "pointer type")
      suffixes depth (.pointer t space)
    else if cursor.peek = .lparen then
      let (list, variadic) ← params depth
      suffixes depth (.func t list variadic)
    else return t

/-- The fields of a structure after its opening brace, with the closing brace. -/
def structBody : Nat → Reader (List Ty)
  | 0 => crash .endless
  | depth + 1 => do
    if ← ofParse (eat .rbrace) then return []
    else fields depth

/-- One or more fields, with the closing brace. -/
def fields : Nat → Reader (List Ty)
  | 0 => crash .endless
  | depth + 1 => do
    let field ← type depth
    if ← ofParse (eat .comma) then return field :: (← fields depth)
    ofParse (expect .rbrace "struct type")
    return [field]

/-- A parameter list in parentheses, and whether more arguments may follow. -/
def params : Nat → Reader (List Ty × Bool)
  | 0 => crash .endless
  | depth + 1 => do
    ofParse (expect .lparen "parameter list")
    if ← ofParse (eat .rparen) then return ([], false)
    else moreParams depth

/-- One or more entries of a parameter list, with the closing parenthesis. -/
def moreParams : Nat → Reader (List Ty × Bool)
  | 0 => crash .endless
  | depth + 1 => do
    if ← ofParse (eat .ellipsis) then
      ofParse (expect .rparen "parameter list")
      return ([], true)
    let param ← type depth
    if ← ofParse (eat .comma) then
      let (list, variadic) ← moreParams depth
      return (param :: list, variadic)
    ofParse (expect .rparen "parameter list")
    return ([param], false)

/-- The types and numbers after the name of a target type, with the closing parenthesis. -/
def targetArguments : Nat → Reader (List Ty × List UInt32)
  | 0 => crash .endless
  | depth + 1 => do
    if ← ofParse (eat .comma) then
      match ← ofParse peek with
      | .integer _ =>
        let n ← ofParse (expectUInt32 "target type parameter")
        let (types, ints) ← targetArguments depth
        return (types, n :: ints)
      | _ =>
        let t ← type depth
        let (types, ints) ← targetArguments depth
        return (t :: types, ints)
    else
      ofParse (expect .rparen "target type")
      return ([], [])

end

end TypeGrammar

/-- Reads a type with all its suffixes. -/
def parseType : Reader Ty := do
  TypeGrammar.type (Ir.TypeGrammar.depthFor (← get))

/-- Reads a parameter list in parentheses. -/
def parseParams : Reader (List Ty × Bool) := do
  TypeGrammar.params (Ir.TypeGrammar.depthFor (← get))

/-! ### Where few tokens are left -/

/-- The reader `p` does the same as `q`, which looks first, where fewer than `n` tokens are left. -/
def Agrees {α : Type} (n : Nat) (p : Reader α) (q : Parse α) : Prop :=
  ∀ c : Cursor, c.rest.length < n → p c = ofParse q c

namespace Agrees

variable {α β : Type} {n : Nat} {p : Reader α} {q : Parse α} {f : α → Reader β}
  {g : α → Parse β} {Q : List Token → α → List Token → Prop}

lemma refl (n : Nat) (q : Parse α) : Agrees n (ofParse q) q :=
  fun _ _ => rfl

lemma zero (p : Reader α) (q : Parse α) : Agrees 0 p q :=
  fun _ h => absurd h (Nat.not_lt_zero _)

lemma mono {m : Nat} (h : Agrees n p q) (hm : m ≤ n) : Agrees m p q :=
  fun c hc => h c (by omega)

/-- One reader after the other; the tokens that the first one has read are not left for the
second one. -/
lemma bind (hp : Agrees n p q) (hread : Reads q Q)
    (hf : ∀ ts a rest, Q ts a rest → Agrees (n - ts.length) (f a) (g a)) :
    Agrees n (p >>= f) (q >>= g) := by
  intro c hc
  rw [ofParse_bind, run_bind_congr (hp c hc)]
  refine run_ofParse_congr hread fun ts a rest hQ _ c' hc' => hf ts a rest hQ c' ?_
  omega

/-- The same reader before both. -/
lemma after (hread : Reads q Q) (hf : ∀ a, Agrees n (f a) (g a)) :
    Agrees n (ofParse q >>= f) (q >>= g) :=
  (refl n q).bind hread fun _ a _ _ => (hf a).mono (Nat.sub_le _ _)

/-- What is given is made into something else. -/
lemma pure_after (hp : Agrees n p q) (hread : Reads q Q) (h : α → β) :
    Agrees n (p >>= fun a => pure (h a)) (q >>= fun a => pure (h a)) :=
  hp.bind hread fun _ a _ _ => refl _ (pure (h a))

/-- Looking at the cursor. -/
lemma get {f : Cursor → Reader β} {g : Cursor → Parse β}
    (h : ∀ c : Cursor, c.rest.length < n → f c c = ofParse (g c) c) :
    Agrees n (get >>= f) (get >>= g) :=
  fun c hc => h c hc

/-- Looking at the next token. -/
lemma peek {f : Token → Reader β} {g : Token → Parse β} (h : ∀ t, Agrees n (f t) (g t)) :
    Agrees n (ofParse Parse.peek >>= f) (Parse.peek >>= g) :=
  fun c hc => h c.peek c hc

/-- A token that may stand there. -/
lemma eat {t : Token} (ht : t ≠ .eof) {f : Bool → Reader β} {g : Bool → Parse β}
    (htrue : Agrees (n - 1) (f true) (g true)) (hfalse : Agrees n (f false) (g false)) :
    Agrees n (ofParse (Parse.eat t) >>= f) (Parse.eat t >>= g) := by
  refine (refl n _).bind (Parse.reads_eat t ht) fun ts more rest hread => ?_
  rcases hread with ⟨rfl, rfl⟩ | ⟨rfl, rfl, -⟩
  · exact htrue
  · exact hfalse

/-- A token that the cursor has shown. -/
lemma shown {c : Cursor} (hpeek : c.peek ≠ .eof) (hc : c.rest.length < n)
    {f : Token → Reader β} {g : Token → Parse β} (h : ∀ t, Agrees (n - 1) (f t) (g t)) :
    (ofParse advance >>= f) c = ofParse (advance >>= g) c := by
  obtain ⟨cs, _ | ⟨t, ls⟩⟩ := c
  · exact absurd rfl hpeek
  · refine h t.token ⟨t :: cs, ls⟩ ?_
    rw [List.length_cons] at hc
    exact Nat.lt_sub_of_add_lt hc

end Agrees

/-! ### Enough depth -/

namespace TypeGrammar

open Ir.TypeGrammar (depthFor isLocal reads_params reads_spaceNumber reads_type)

/-- The reader `p` at the depth `d` does the same as `q` at any depth, where both depths are four
for each token that may be left, and `k` more. -/
def Settles {α : Type} (p : Nat → Reader α) (q : Nat → Parse α) (k d : Nat) : Prop :=
  ∀ d' n, 4 * n + k ≤ d → 4 * n + k ≤ d' → Agrees n (p d) (q d')

lemma Settles.succ {α : Type} {p : Nat → Reader α} {q : Nat → Parse α} {k d : Nat}
    (h : ∀ d' n, 4 * (n + 1) + k ≤ d + 1 → 4 * (n + 1) + k ≤ d' + 1 →
      Agrees (n + 1) (p (d + 1)) (q (d' + 1))) : Settles p q k (d + 1) := by
  intro d' n hd hd'
  cases n with
  | zero => exact .zero _ _
  | succ n =>
      obtain ⟨d', rfl⟩ : ∃ m, d' = m + 1 := ⟨d' - 1, by omega⟩
      exact h d' n hd hd'

lemma Settles.zero {α : Type} (p : Nat → Reader α) (q : Nat → Parse α) (k : Nat) :
    Settles p q k 0 := by
  intro d' n hd _
  obtain rfl : n = 0 := by omega
  exact .zero _ _

/-- The readers of the grammar at the depth `d` do the same as those that look first, if `d` is
enough for the tokens that are left. -/
structure Settled (d : Nat) : Prop where
  type : Settles type Ir.TypeGrammar.type 0 d
  base : ∀ line token, Settles (fun d => base d line token)
    (fun d => Ir.TypeGrammar.base d line token) 3 d
  suffixes : ∀ t, Settles (fun d => suffixes d t) (fun d => Ir.TypeGrammar.suffixes d t) 2 d
  structBody : Settles structBody Ir.TypeGrammar.structBody 2 d
  fields : Settles fields Ir.TypeGrammar.fields 1 d
  params : Settles params Ir.TypeGrammar.params 0 d
  moreParams : Settles moreParams Ir.TypeGrammar.moreParams 1 d
  targetArguments : Settles targetArguments Ir.TypeGrammar.targetArguments 1 d

/-- The reader of a vector type behind what says whether its length varies. -/
def vectorTail (scalable : Bool) (depth : Nat) : Reader Ty := do
  let length ← ofParse (expectUInt64 "vector length")
  ofParse (expectKeyword "x" "vector type")
  let element ← type depth
  ofParse (expect .greater "vector type")
  return .vector length scalable element

namespace Settled

variable {d : Nat}

lemma zero : Settled 0 where
  type := .zero _ _ _
  base _ _ := .zero _ _ _
  suffixes _ := .zero _ _ _
  structBody := .zero _ _ _
  fields := .zero _ _ _
  params := .zero _ _ _
  moreParams := .zero _ _ _
  targetArguments := .zero _ _ _

lemma type_succ (h : Settled d) : Settles TypeGrammar.type Ir.TypeGrammar.type 0 (d + 1) := by
  refine .succ fun d' n hd hd' => ?_
  rw [TypeGrammar.type, Ir.TypeGrammar.type]
  refine .get fun c hc => ?_
  by_cases hpeek : c.peek = .eof
  · -- at the end of the tokens both readers fail
    obtain ⟨m, rfl⟩ : ∃ m, d = m + 1 := ⟨d - 1, by omega⟩
    obtain ⟨m', rfl⟩ : ∃ m, d' = m + 1 := ⟨d' - 1, by omega⟩
    rw [ofParse_bind]
    refine run_ofParse_congr Parse.reads_advance fun ts t rest hread hahead c' _ => ?_
    obtain rfl : t = .eof := by
      rcases hread with rfl | ⟨rfl, -⟩
      · rwa [Cursor.peek_eq, hahead] at hpeek
      · rfl
    rw [ofParse_bind, TypeGrammar.base, Ir.TypeGrammar.base]
    rfl
  · refine Agrees.shown hpeek hc fun t => ?_
    have hbase := h.base c.line t d' n (by omega) (by omega)
    refine hbase.bind ((isLocal _).base _ _) fun ts a _ _ => ?_
    exact (h.suffixes a d' n (by omega) (by omega)).mono (Nat.sub_le _ _)

lemma structBody_succ (h : Settled d) :
    Settles TypeGrammar.structBody Ir.TypeGrammar.structBody 2 (d + 1) := by
  refine .succ fun d' n hd hd' => ?_
  rw [TypeGrammar.structBody, Ir.TypeGrammar.structBody]
  exact .eat (by decide) (.refl _ (pure [])) (h.fields d' (n + 1) (by omega) (by omega))

lemma fields_succ (h : Settled d) : Settles TypeGrammar.fields Ir.TypeGrammar.fields 1 (d + 1) := by
  refine .succ fun d' n hd hd' => ?_
  rw [TypeGrammar.fields, Ir.TypeGrammar.fields]
  refine (h.type d' (n + 1) (by omega) (by omega)).bind (reads_type d') fun ts a _ hts => ?_
  have hfields := h.fields d' n (by omega) (by omega)
  refine .eat (by decide) ?_ ?_
  · exact (hfields.mono (by omega)).pure_after (isLocal d').fields _
  · exact .pure_after (.refl _ _) (Parse.reads_expect (by decide) _) _

lemma params_succ (h : Settled d) : Settles TypeGrammar.params Ir.TypeGrammar.params 0 (d + 1) := by
  refine .succ fun d' n hd hd' => ?_
  rw [TypeGrammar.params, Ir.TypeGrammar.params]
  refine (Agrees.refl _ _).bind (Parse.reads_expect (by decide) _) fun ts _ _ hts => ?_
  subst hts
  exact .eat (by decide) (.refl _ (pure _)) (h.moreParams d' n (by omega) (by omega))

lemma moreParams_succ (h : Settled d) :
    Settles TypeGrammar.moreParams Ir.TypeGrammar.moreParams 1 (d + 1) := by
  refine .succ fun d' n hd hd' => ?_
  rw [TypeGrammar.moreParams, Ir.TypeGrammar.moreParams]
  have hend (a : List Ty × Bool) (n : Nat) : Agrees n
      (ofParse (expect .rparen "parameter list") >>= fun _ => pure a)
      (expect .rparen "parameter list" >>= fun _ => pure a) :=
    .pure_after (.refl _ _) (Parse.reads_expect (by decide) _) _
  refine .eat (by decide) (hend _ _) ?_
  refine (h.type d' (n + 1) (by omega) (by omega)).bind (reads_type d') fun ts a _ hts => ?_
  have hmore := h.moreParams d' n (by omega) (by omega)
  exact .eat (by decide) ((hmore.mono (by omega)).pure_after (isLocal d').moreParams _) (hend _ _)

lemma targetArguments_succ (h : Settled d) :
    Settles TypeGrammar.targetArguments Ir.TypeGrammar.targetArguments 1 (d + 1) := by
  refine .succ fun d' n hd hd' => ?_
  rw [TypeGrammar.targetArguments, Ir.TypeGrammar.targetArguments]
  have hlater := h.targetArguments d' n (by omega) (by omega)
  refine .eat (by decide) (.peek fun t => ?_) ?_
  · have htype : Agrees n
        (TypeGrammar.type d >>= fun t => TypeGrammar.targetArguments d >>= fun a =>
          pure (t :: a.1, a.2))
        (Ir.TypeGrammar.type d' >>= fun t => Ir.TypeGrammar.targetArguments d' >>= fun a =>
          pure (t :: a.1, a.2)) := by
      refine (h.type d' n (by omega) (by omega)).bind (reads_type d') fun ts a _ _ => ?_
      exact (hlater.mono (Nat.sub_le _ _)).pure_after (isLocal d').targetArguments _
    cases t with
    | integer text =>
        exact .after (Parse.reads_numeral _ _ _) fun k =>
          hlater.pure_after (isLocal d').targetArguments _
    | _ => exact htype
  · exact .pure_after (.refl _ _) (Parse.reads_expect (by decide) _) _

lemma suffixes_succ (h : Settled d) (t : Ty) : Settles (fun d => TypeGrammar.suffixes d t)
    (fun d => Ir.TypeGrammar.suffixes d t) 2 (d + 1) := by
  refine .succ fun d' n hd hd' => ?_
  have hlater (t : Ty) : Agrees n (TypeGrammar.suffixes d t) (Ir.TypeGrammar.suffixes d' t) :=
    h.suffixes t d' n (by omega) (by omega)
  simp only [TypeGrammar.suffixes, Ir.TypeGrammar.suffixes]
  refine .get fun c hc => ?_
  split
  · rename_i hstar
    exact Agrees.shown (by simp [hstar]) hc fun _ => hlater _
  split
  · rename_i _ hspace
    have hword : c.peek ≠ .eof := by
      rw [Cursor.atSpaceSuffix] at hspace
      rintro heof
      simp [heof, Token.isKeyword] at hspace
    refine Agrees.shown hword hc fun _ => ?_
    refine .after reads_spaceNumber fun space => ?_
    exact .after (Parse.reads_expect (by decide) _) fun _ => hlater _
  split
  · refine (h.params d' (n + 1) (by omega) (by omega)).bind (reads_params d')
      (fun ts a _ hts => ?_) c hc
    exact (hlater _).mono (by omega)
  · rfl

lemma agrees_vectorTail {d' n : Nat}
    (h : Agrees n (TypeGrammar.type d) (Ir.TypeGrammar.type d')) (scalable : Bool) :
    Agrees n (vectorTail scalable d) (Ir.TypeGrammar.vectorTail scalable d') := by
  refine .after (Parse.reads_numeral _ _ _) fun k => ?_
  refine .after (Parse.reads_expectKeyword _ _) fun _ => ?_
  refine h.bind (reads_type d') fun _ _ _ _ => ?_
  exact .pure_after (.refl _ _) (Parse.reads_expect (by decide) _) _

lemma base_succ (h : Settled d) (line : Nat) (token : Token) :
    Settles (fun d => TypeGrammar.base d line token)
      (fun d => Ir.TypeGrammar.base d line token) 3 (d + 1) := by
  refine .succ fun d' n hd hd' => ?_
  have hbody := h.structBody d' (n + 1) (by omega) (by omega)
  have htype := h.type d' (n + 1) (by omega) (by omega)
  simp only [TypeGrammar.base, Ir.TypeGrammar.base]
  cases token with
  | word keyword =>
      dsimp only
      split
      · refine .after (Parse.reads_eat _ (by simp)) fun space => ?_
        cases space with
        | true => exact .pure_after (.refl _ _) reads_spaceNumber _
        | false => exact .refl _ (pure _)
      split
      · refine .after (Parse.reads_expect (by decide) _) fun _ => ?_
        refine .after (Parse.reads_expectString _) fun name => ?_
        exact (h.targetArguments d' (n + 1) (by omega) (by omega)).pure_after
          (isLocal d').targetArguments _
      · cases Ty.ofKeyword? keyword with
        | some t => exact .refl _ (pure t)
        | none => exact .refl _ (throw _)
  | localName name => exact .refl _ _
  | lbrace => exact hbody.pure_after (isLocal d').structBody _
  | less =>
      refine .after (Parse.reads_eat _ (by decide)) fun packed => ?_
      cases packed with
      | true =>
          refine hbody.bind (isLocal d').structBody fun _ _ _ _ => ?_
          exact .pure_after (.refl _ _) (Parse.reads_expect (by decide) _) _
      | false =>
          refine .after (Parse.reads_eat _ (by simp)) fun scalable => ?_
          cases scalable with
          | true =>
              exact .after (Parse.reads_expectKeyword _ _) fun _ => agrees_vectorTail htype true
          | false => exact agrees_vectorTail htype false
  | lbracket =>
      refine .after (Parse.reads_numeral _ _ _) fun k => ?_
      refine .after (Parse.reads_expectKeyword _ _) fun _ => ?_
      refine htype.bind (reads_type d') fun _ _ _ _ => ?_
      exact .pure_after (.refl _ _) (Parse.reads_expect (by decide) _) _
  | _ => exact .refl _ (throw _)

lemma succ (h : Settled d) : Settled (d + 1) where
  type := h.type_succ
  base := h.base_succ
  suffixes := h.suffixes_succ
  structBody := h.structBody_succ
  fields := h.fields_succ
  params := h.params_succ
  moreParams := h.moreParams_succ
  targetArguments := h.targetArguments_succ

end Settled

lemma settled (d : Nat) : Settled d := by
  induction d with
  | zero => exact .zero
  | succ d ih => exact ih.succ

/-- The tokens that are left do not exhaust a depth that allows for them. -/
lemma type_of_le {c : Cursor} {d d' : Nat} (hd : depthFor c ≤ d) (hd' : depthFor c ≤ d') :
    type d c = ofParse (Ir.TypeGrammar.type d') c := by
  rw [depthFor] at hd hd'
  exact (settled d).type d' (c.rest.length + 1) (by omega) (by omega) c (Nat.lt_succ_self _)

end TypeGrammar

/-- Types are read without a crash. -/
lemma parseType_eq : parseType = ofParse Ir.parseType := by
  funext c
  rw [parseType, run_get, Ir.parseType, run_ofParse_get, TypeGrammar.type_of_le le_rfl le_rfl]

/-- Parameter lists are read without a crash. -/
lemma parseParams_eq : parseParams = ofParse Ir.parseParams := by
  funext c
  rw [parseParams, run_get, Ir.parseParams, run_ofParse_get]
  have hdepth : 4 * (c.rest.length + 1) + 0 ≤ Ir.TypeGrammar.depthFor c := by
    rw [Ir.TypeGrammar.depthFor]
    omega
  exact (TypeGrammar.settled _).params _ (c.rest.length + 1) hdepth hdepth c (Nat.lt_succ_self _)

end Direct

/-- The tokens that are left do not exhaust the depth that is given for them. -/
lemma TypeGrammar.type_of_le {c : Cursor} {d : Nat} (h : depthFor c ≤ d) :
    type d c = parseType c := by
  rw [parseType, Parse.run_get]
  exact Direct.ofParse_inj ((Direct.TypeGrammar.type_of_le le_rfl h).symm.trans
    (Direct.TypeGrammar.type_of_le le_rfl le_rfl))

/-! ### Going forward -/

/-- The cursor `c'` stands behind the cursor `c` in the same tokens, by one or more of them. -/
structure Cursor.Behind (c c' : Cursor) : Prop where
  tokens_eq : c'.tokens = c.tokens
  position_lt : c.position < c'.position
  position_le : c'.position ≤ c.tokens.length

/-- A reader that takes tokens goes forward. -/
lemma Parse.Reads.behind {α : Type} {p : Parse α} {Q : List Token → α → List Token → Prop}
    (h : Parse.Reads p Q) (hne : ∀ ts a rest, Q ts a rest → ts ≠ []) {c c' : Cursor} {a : α}
    (hp : p c = .ok a c') : c.Behind c' := by
  obtain ⟨cs, ls⟩ := c
  obtain ⟨read, left, rfl, rfl, hQ⟩ := h cs ls a c' hp
  have hpos : 0 < read.length := by
    have := List.length_pos_iff.mpr (hne _ _ _ hQ)
    rwa [List.length_map] at this
  refine ⟨by simp [Cursor.tokens], by simp [Cursor.position, hpos], ?_⟩
  simp only [Cursor.tokens, Cursor.position, List.length_append, List.length_reverse]
  omega

/-- A type takes at least one token. -/
lemma reads_parseType : Parse.Reads parseType fun ts _ _ => ts ≠ [] :=
  Parse.reads_get fun _ => (TypeGrammar.reads_type _).mono
    fun _ _ _ hts _ => List.length_pos_iff.mp hts

end CallGuard.Ir
