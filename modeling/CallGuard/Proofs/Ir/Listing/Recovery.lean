import CallGuard.Proofs.Ir.Listing.Body

/-!
Modules are read back as they were written.

* `Listing.leads_header`: reading the header of a function.
* `Listing.isEntity_declaration`, `Listing.isEntity_definition`, `Listing.isEntity_other`: reading
  an entity.
* `Listing.parse_text`: reading a module, and what a report says about it.
-/

namespace CallGuard.Ir

namespace Listing

open Parse

/-! ### Headers -/

/-- Parameters and the parenthesis that closes them. -/
lemma leads_parseHeaderParamsFrom {t : Ty} {ts : List Ty} (variadic : Bool)
    (h : ∀ s ∈ t :: ts, s.Readable) {bound : Nat} (hbound : ts.length + 1 < bound)
    (rest : List Token) :
    Leads (parseHeaderParamsFrom bound) (Ty.paramTokens (t :: ts) variadic) rest
      (pure (t :: ts, variadic)) := by
  have hmore (rest : List Token) :
      Leads (parseListEnd "parameter list") [.comma] rest (pure true) :=
    leads_parseListEnd _ .nil true rest
  induction ts generalizing t bound with
  | nil =>
      have ht := h t (by simp)
      obtain ⟨bound, rfl⟩ : ∃ k, bound = k + 2 := ⟨bound - 2, by simp at hbound; omega⟩
      rw [parseHeaderParamsFrom, Ty.paramTokens, Ty.tokensAfterComma, List.nil_append]
      refine .bind_nil (TypeGrammar.leads_eat_before_type rfl _ _ _) ?_
      rw [if_neg Bool.false_ne_true]
      cases variadic with
      | false =>
          refine .bind (leads_parseType ht (TypeGrammar.typeEnds_cons (by decide) _)) ?_
          exact .bind_end (leads_parseListEnd _ .nil false rest) (leads_pure _ rest)
      | true =>
          refine .bind (leads_parseType ht (TypeGrammar.typeEnds_cons (by decide) _)) ?_
          refine .bind_cons (hmore _) ?_
          rw [if_pos rfl, parseHeaderParamsFrom]
          refine .bind_end (a := ([], true)) ?_ (leads_pure ([t], true) rest)
          exact .bind_cons (leads_eat .ellipsis _)
            (.bind_cons (leads_expect .rparen _ _) (leads_pure ([], true) rest))
  | cons s ts ih =>
      rw [List.length_cons] at hbound
      obtain ⟨bound, rfl⟩ : ∃ k, bound = k + 1 := ⟨bound - 1, by omega⟩
      have hlater := @ih s (fun u hu => h u (List.mem_cons_of_mem _ hu)) bound (by omega)
      rw [parseHeaderParamsFrom, Ty.paramTokens, Ty.tokensAfterComma, List.cons_append,
        List.append_assoc]
      refine .bind_nil (TypeGrammar.leads_eat_before_type rfl _ _ _) ?_
      rw [if_neg Bool.false_ne_true]
      refine .bind (leads_parseType (h t (by simp)) (TypeGrammar.typeEnds_cons (by decide) _)) ?_
      refine .bind_cons (hmore _) ?_
      rw [if_pos rfl]
      exact .bind_end hlater (leads_pure (t :: s :: ts, variadic) rest)

lemma length_lt_paramTokens (t : Ty) (ts : List Ty) (variadic : Bool) :
    ts.length + 1 < (Ty.paramTokens (t :: ts) variadic).length := by
  have hcomma (ts : List Ty) : ts.length ≤ (Ty.tokensAfterComma ts).length := by
    induction ts with
    | nil => simp
    | cons t ts ih =>
        rw [Ty.tokensAfterComma, List.length_cons, List.length_cons, List.length_append]
        omega
  obtain ⟨first, later, htokens, -⟩ := t.exists_first
  have hlater := hcomma ts
  rw [Ty.paramTokens, List.length_append, List.length_append, htokens, List.length_cons]
  cases variadic <;> simp [Ty.variadicTokens] <;> omega

lemma leads_parseHeaderParams {ts : List Ty} (h : ∀ t ∈ ts, t.Readable) (variadic : Bool)
    (rest : List Token) :
    Leads parseHeaderParams (.lparen :: Ty.paramTokens ts variadic) rest (pure (ts, variadic)) := by
  refine .bind_cons (leads_expect .lparen _ _) ?_
  cases ts with
  | nil =>
      cases variadic with
      | false => exact .bind_cons (leads_eat .rparen _) (leads_pure ([], false) rest)
      | true =>
          refine .bind_nil (leads_eat_of_ne (by simp [Ty.paramTokens])) ?_
          rw [if_neg Bool.false_ne_true]
          refine leads_get fun c _ => ?_
          rw [parseHeaderParamsFrom]
          exact .bind_cons (leads_eat .ellipsis _)
            (.bind_cons (leads_expect .rparen _ _) (leads_pure ([], true) rest))
  | cons t ts =>
      have hparams := length_lt_paramTokens t ts variadic
      rw [Ty.paramTokens] at hparams ⊢
      refine .bind_nil (TypeGrammar.leads_eat_before_type rfl _ _ _) ?_
      rw [if_neg Bool.false_ne_true]
      refine leads_get fun c hc => leads_parseHeaderParamsFrom variadic h ?_ rest
      have hlength := congrArg List.length hc
      rw [Cursor.ahead, List.length_map, List.length_append] at hlength
      omega

/-- Reads what stands behind the header of a function. -/
def parseAfterHeader (isDefinition : Bool) (line : Nat) (name : String) (type : FunctionType) :
    Parse Function := do
  if isDefinition then
    skipToBody
    let blocks ← parseBody name line
    return ⟨name, type, false, blocks, line⟩
  else
    skipEntity
    return ⟨name, type, true, [], line⟩

/-- Reads a function that starts on the given line. -/
def parseFunctionFrom (isDefinition : Bool) (line : Nat) : Parse Function := do
  let _ ← advance
  skipAttributes
  unless (← get).atType do
    if (← get).atEnd then throw (.unexpectedEnd "function header")
    else failExpecting "function return type"
  let ret ← parseType
  let name ← parseFunctionName
  let (params, variadic) ← parseHeaderParams
  parseAfterHeader isDefinition line name ⟨ret, params, variadic⟩

lemma parseFunction_eq (isDefinition : Bool) :
    parseFunction isDefinition = (get >>= fun c => parseFunctionFrom isDefinition c.line) := rfl

/-- Reading the keyword and the header of a function. -/
lemma leads_header (h : Header) (keyword : Token) (isDefinition : Bool) (line : Nat)
    (rest : List Token) :
    Leads (parseFunctionFrom isDefinition line) (keyword :: h.tokens) rest
      (parseAfterHeader isDefinition line h.name h.type) := by
  obtain ⟨-, hret, hparams⟩ := Ty.everywhere_func.mp h.readable
  refine .bind_cons (leads_advance keyword _) ?_
  rw [Header.tokens]
  refine .bind_nil (a := ()) ?_ (leads_get fun c hc => ?_)
  · rw [List.append_assoc]
    exact leads_skipAttributes h.type.ret _
  rw [List.append_assoc] at hc
  rw [atType_of_ahead hc]
  refine .bind (leads_parseType hret (TypeGrammar.typeEnds_cons (by simp) _)) ?_
  refine .bind_cons (a := h.name) ?_ ?_
  · exact .bind_cons (leads_advance _ _) (leads_pure h.name _)
  exact .bind_end (leads_parseHeaderParams hparams h.type.variadic rest) (.refl _ rest)

/-! ### The ends of entities -/

/-- Balanced tokens are moved over, up to the next line. -/
lemma splitWhile_entityStep {line depth : Nat} {ts later : List Located}
    (h : IsBalanced line depth ts) (hts : ∀ l ∈ ts, l.token ≠ .eof)
    (hlater : ∀ l ∈ later, line < l.line) :
    Cursor.splitWhile (Cursor.entityStep line) depth (ts ++ later) = (ts, later) := by
  induction ts generalizing depth with
  | nil =>
      obtain rfl : depth = 0 := h
      cases later with
      | nil => rfl
      | cons l later =>
          have hline : l.line ≠ line := (hlater l (by simp)).ne'
          simp [Cursor.splitWhile, Cursor.entityStep, hline]
  | cons t ts ih =>
      rw [List.forall_mem_cons] at hts
      obtain ⟨hline, hbalanced⟩ := h
      have hstay : ¬ (depth = 0 ∧ t.line ≠ line) := fun h => h.2 (hline h.1)
      obtain ⟨depth', hstep, hrest⟩ : ∃ depth', Cursor.entityStep line depth t (ts ++ later) =
          some depth' ∧ IsBalanced line depth' ts := by
        rw [Cursor.entityStep, if_neg hstay]
        split at hbalanced <;> simp_all
      rw [List.cons_append, Cursor.splitWhile, if_neg hts.1, hstep]
      simp only [ih hrest hts.2]

/-- The rest of an entity behind the token `l`. -/
lemma skipEntity_eq {l : Located} {ts later : List Located} (h : IsBalanced l.line 0 ts)
    (hts : ∀ l ∈ ts, l.token ≠ .eof) (hlater : ∀ l' ∈ later, l.line < l'.line)
    (cs : List Located) :
    Cursor.skipEntity ⟨l :: cs, ts ++ later⟩ = ⟨ts.reverse ++ l :: cs, later⟩ := by
  rw [Cursor.skipEntity, Cursor.skipWhile]
  change (⟨(Cursor.splitWhile (Cursor.entityStep l.line) 0 (ts ++ later)).1.reverseAux (l :: cs),
    (Cursor.splitWhile (Cursor.entityStep l.line) 0 (ts ++ later)).2⟩ : Cursor) = _
  rw [splitWhile_entityStep h hts hlater, List.reverseAux_eq]

/-! ### Entities -/

/-- The next token before the tokens of entities. -/
def next (es : List Entity) : Token :=
  (es.map Entity.first).head?.getD .eof

/-- Tokens that stand behind an entity, before other entities. -/
structure Follow (line : Nat) (es : List Entity) (later : List Located) : Prop where
  line : ∀ l ∈ later, line ≤ l.line
  head : (later.map Located.token).head?.getD .eof = next es

/-- What is read from the tokens `ls` of an entity on the lines from `line` to `stop`. -/
def IsEntity (e : Entity) (line stop : Nat) (ls : List Located) : Prop :=
  (ls.map Located.token).head? = some e.first ∧
    ∀ es later cs m, Follow stop es later → HasNoNamedType (e :: es) →
      parseEntity m ⟨cs, ls ++ later⟩ = .ok (e.add line es m) ⟨ls.reverse ++ cs, later⟩

lemma isEntity_declaration {h : Header} {line : Nat} {ls : List Located}
    (hls : ls.map Located.token = .word "declare" :: h.tokens) (hline : ∀ l ∈ ls, l.line = line) :
    IsEntity (.declaration h) line (line + 1) ls := by
  refine ⟨by rw [hls]; rfl, fun es later cs m hlater _ => ?_⟩
  obtain ⟨l, ls', rfl, hl, -⟩ := List.map_eq_cons_iff.mp hls
  have hstart : (⟨cs, l :: ls' ++ later⟩ : Cursor).line = line := hline l (by simp)
  obtain ⟨last, ls'', hreverse⟩ := List.exists_cons_of_ne_nil
    (List.reverse_ne_nil_iff.mpr (List.cons_ne_nil l ls'))
  have hlast : last.line = line := hline last (by
    rw [← List.mem_reverse, hreverse]
    simp)
  have hskip : Cursor.skipEntity ⟨(l :: ls').reverse ++ cs, later⟩ =
      ⟨(l :: ls').reverse ++ cs, later⟩ := by
    rw [hreverse, List.cons_append]
    exact @skipEntity_eq last [] later rfl (by simp)
      (fun l' hl' => by rw [hlast]; exact hlater.line l' hl') _
  have hfunction : parseFunction false ⟨cs, l :: ls' ++ later⟩ =
      .ok ⟨h.name, h.type, true, [], line⟩ ⟨(l :: ls').reverse ++ cs, later⟩ := by
    rw [parseFunction_eq, run_get, hstart, leads_header h (.word "declare") false line _ cs _ later
      hls rfl, parseAfterHeader, if_neg Bool.false_ne_true]
    change EStateM.Result.ok _ (Cursor.skipEntity _) = _
    rw [hskip]
  have hpeek : (⟨cs, l :: ls' ++ later⟩ : Cursor).peek = .word "declare" := hl
  rw [parseEntity, run_get]
  simp only [hpeek]
  rw [run_bind hfunction]
  rfl

lemma line_le_of_onLines {n : Nat} {tss : List (List Token)} {lss : List (List Located)}
    (h : OnLines n tss lss) : ∀ l ∈ lss.flatten, n ≤ l.line := by
  induction h with
  | nil n => simp
  | @cons n ts tss ls lss tokens line later ih =>
      intro l hl
      rcases List.mem_append.mp hl with hl | hl
      · exact (line l hl).ge
      · exact (Nat.le_succ n).trans (ih l hl)

/-- The brace behind a header opens the body. -/
lemma skipToBody_eq {brace : Located} {ls : List Located} (hbrace : brace.token = .lbrace)
    (hls : ∀ l ∈ ls, brace.line < l.line) (cs : List Located) :
    skipToBody ⟨cs, brace :: ls⟩ = .ok () ⟨brace :: cs, ls⟩ := by
  have hopens : opensBody brace ls = true := by
    cases ls with
    | nil => rfl
    | cons l ls =>
        have hne : l.line ≠ brace.line := (hls l (by simp)).ne'
        simp [opensBody, hne]
  have hskip : Cursor.skipWhile headerStep 0 ⟨cs, brace :: ls⟩ = ⟨cs, brace :: ls⟩ := by
    simp [Cursor.skipWhile, Cursor.splitWhile, headerStep, hbrace, hopens]
  have hmore : (⟨cs, brace :: ls⟩ : Cursor).atEnd = false := by
    simp [Cursor.atEnd, Cursor.peek, Cursor.peekAt, hbrace]
  rw [skipToBody, run_modify, hskip, run_get, hmore, if_neg Bool.false_ne_true]
  rfl

lemma isEntity_definition {h : Header} {b : Body} {line : Nat} {hs : List Located}
    {brace closing : Located} {lss : List (List Located)}
    (hhs : hs.map Located.token = .word "define" :: h.tokens) (hline : ∀ l ∈ hs, l.line = line)
    (hbrace : brace.token = .lbrace) (hbraceline : brace.line = line)
    (hlss : OnLines (line + 1) (b.items.map itemTokens) lss)
    (hclosing : closing.token = .rbrace) (hclosingline : line < closing.line) {stop : Nat}
    (hstop : line < stop) :
    IsEntity (.definition h b) line stop (hs ++ brace :: (lss.flatten ++ [closing])) := by
  refine ⟨by rw [List.map_append, hhs]; rfl, fun es later cs m hlater _ => ?_⟩
  obtain ⟨l, hs, rfl, hl, -⟩ := List.map_eq_cons_iff.mp hhs
  have hbehind : ∀ l' ∈ lss.flatten ++ closing :: later, brace.line < l'.line := by
    intro l' hl'
    rw [hbraceline]
    rcases List.mem_append.mp hl' with hl' | hl'
    · exact line_le_of_onLines hlss l' hl'
    · rcases List.mem_cons.mp hl' with rfl | hl'
      · exact hclosingline
      · exact hstop.trans_le (hlater.line l' hl')
  have hstart : (⟨cs, l :: hs ++ brace :: (lss.flatten ++ closing :: later)⟩ : Cursor).line =
      line := hline l (by simp)
  have hfunction : parseFunction true ⟨cs, l :: hs ++ brace :: (lss.flatten ++ closing :: later)⟩ =
      .ok ⟨h.name, h.type, false, b.blocksAt (line + 1), line⟩
        ⟨closing :: (lss.flatten.reverse ++ brace :: ((l :: hs).reverse ++ cs)), later⟩ := by
    rw [parseFunction_eq, run_get, hstart, leads_header h (.word "define") true line _ cs _ _ hhs
      rfl, parseAfterHeader, if_pos rfl, run_bind (skipToBody_eq hbrace hbehind _),
      run_bind (parseBody_eq hlss hclosing _ _ _ _)]
    rfl
  have hpeek : (⟨cs, l :: hs ++ brace :: (lss.flatten ++ closing :: later)⟩ : Cursor).peek =
      .word "define" := hl
  have hlist : l :: hs ++ brace :: (lss.flatten ++ [closing]) ++ later =
      l :: hs ++ brace :: (lss.flatten ++ closing :: later) := by simp
  rw [hlist, parseEntity, run_get]
  simp only [hpeek]
  rw [run_bind hfunction]
  simp [Entity.add, pure, EStateM.pure]

/-- Tokens that are moved stay balanced. -/
lemma isBalanced_of_moved {p q : Position} {line line' : Nat}
    (hline : line' + p.line = line + q.line) {depth : Nat} {ts ts' : List Located}
    (hmoved : List.Forall₂ (Moved p q) ts ts')
    (h : IsBalanced line depth ts) : IsBalanced line' depth ts' := by
  induction hmoved generalizing depth with
  | nil => exact h
  | @cons t t' ts ts' ht hts ih =>
      obtain ⟨hzero, hrest⟩ := h
      refine ⟨fun hdepth => ?_, ?_⟩
      · have hsame := hzero hdepth
        have hplace := ht.2
        omega
      · rw [ht.1]
        split at hrest
        all_goals simp_all

/-- An entity that is no function, named type or name of a source file is moved over, and only
the name of a global is kept. -/
lemma parseEntity_eq_skip {c : Cursor} (m : Module)
    (hkeyword : c.peek ≠ .word "define" ∧ c.peek ≠ .word "declare" ∧
      c.peek ≠ .word "source_filename")
    (hlocal : ∀ name, c.peek = .localName name → (c.peekAt 1 == .equals) = false) :
    parseEntity m c = (do
      let _ ← advance
      skipEntity
      return match c.peek with
        | .globalName name =>
          if c.peekAt 1 == .equals then { m with globals := m.globals.insert name () } else m
        | _ => m : Parse Module) c := by
  obtain ⟨hdefine, hdeclare, hsource⟩ := hkeyword
  rw [parseEntity, run_get]
  cases hpeek : c.peek with
  | word w =>
      have hne : w ≠ "define" ∧ w ≠ "declare" ∧ w ≠ "source_filename" := by simp_all
      split <;> simp_all
  | localName name => simp only [hlocal name hpeek, if_neg Bool.false_ne_true]
  | globalName name =>
      cases c.peekAt 1 == .equals <;> rfl
  | _ => rfl

lemma isEntity_other {o : Other} {l : Located} {ts : List Located}
    (hl : l.token = o.first.token) (hts : ts.map Located.token = o.later.map Located.token)
    (hbalanced : IsBalanced l.line 0 ts) (heof : ∀ t ∈ ts, t.token ≠ .eof) {stop : Nat}
    (hstop : l.line < stop) (line : Nat) : IsEntity (.other o) line stop (l :: ts) := by
  refine ⟨by rw [List.map_cons, hl]; rfl, fun es later cs m hlater hno => ?_⟩
  have hpeek : (⟨cs, l :: ts ++ later⟩ : Cursor).peek = o.first.token := hl
  have hassigned : ((⟨cs, l :: ts ++ later⟩ : Cursor).peekAt 1 == .equals) = o.isAssigned es := by
    have hdefault (t : Option Token) : (t.getD .eof == .equals) = (t == some .equals) := by
      cases t <;> rfl
    have hahead : (⟨cs, l :: ts ++ later⟩ : Cursor).ahead[1]? =
        (ts.map Located.token ++ later.map Located.token).head? := by
      rw [Cursor.ahead, List.cons_append, List.map_cons, List.map_append, List.getElem?_cons_succ,
        List.head?_eq_getElem?]
    rw [Cursor.peekAt_eq, hahead, Other.isAssigned, ← hts, ← hdefault]
    cases ts with
    | nil =>
        rw [List.map_nil, List.nil_append, List.nil_append, hlater.head]
        rfl
    | cons t ts => rfl
  have hskip : Cursor.skipEntity ⟨l :: cs, ts ++ later⟩ = ⟨(l :: ts).reverse ++ cs, later⟩ := by
    rw [skipEntity_eq hbalanced heof (fun l' hl' => hstop.trans_le (hlater.line l' hl')) cs]
    simp
  rw [parseEntity_eq_skip m (by rw [hpeek]; exact o.not_keyword)
    (fun name hname => by rw [hassigned]; exact hno.1 name (hpeek ▸ hname)), hpeek, hassigned]
  change EStateM.Result.ok _ (Cursor.skipEntity ⟨l :: cs, ts ++ later⟩) = _
  rw [hskip]
  rfl

/-! ### Texts of entities -/

/-- The text of the entity is read as the entity, wherever it stands. -/
def IsRecovered (indent : Nat) (e : Entity) : Prop :=
  ∀ p rest, ∃ ls, IsEntity e p.line (p.line + (e.print indent).count '\n') ls ∧
    Yields p (e.print indent) rest ls

lemma isRecovered_declaration (indent : Nat) (h : Header) :
    IsRecovered indent (.declaration h) := by
  intro p rest
  have hprint : (Entity.declaration h).print indent =
      "declare".toList ++ ' ' :: h.print ++ ['\n'] := by
    change "declare".toList ++ ' ' :: (h.print ++ ['\n']) = _
    rw [List.append_assoc, List.cons_append]
  have hspells : Spells ("declare".toList ++ ' ' :: h.print) (.word "declare" :: h.tokens)
      ('\n' :: rest) :=
    .append_cons (spells_keyword (by decide) rfl) (.blank (h.spells_print _))
  obtain ⟨ls, hls, hline, hyields⟩ := hspells.exists_line p
  refine ⟨ls, ?_, hprint ▸ hyields⟩
  rw [← Position.line_after, hprint, hspells.line_after]
  exact isEntity_declaration hls hline

/-- The line of a definition that opens its body. -/
def printOpening (h : Header) : List Char :=
  "define".toList ++ ' ' :: (h.print ++ [' ', '\x7b'])

lemma spells_opening (h : Header) (rest : List Char) :
    Spells (printOpening h) (.word "define" :: h.tokens ++ [.lbrace]) ('\n' :: rest) :=
  .append_cons (spells_keyword (by decide) rfl)
    (.blank (.append (h.spells_print _) (.blank (spells_punctuation rfl _))))

lemma isRecovered_definition (indent : Nat) (h : Header) (b : Body) :
    IsRecovered indent (.definition h b) := by
  intro p rest
  have hprint : (Entity.definition h b).print indent = printOpening h ++ ['\n'] ++
      (b.items.flatMap (fun item => printItem indent item ++ ['\n']) ++ (['\x7d'] ++ ['\n'])) := by
    change "define".toList ++ ' ' :: (h.print ++ ' ' :: '\x7b' :: '\n' ::
      (b.items.flatMap (fun item => printItem indent item ++ ['\n']) ++ ['\x7d', '\n'])) =
        "define".toList ++ ' ' :: (h.print ++ [' ', '\x7b']) ++ ['\n'] ++ _
    simp only [List.append_assoc, List.cons_append, List.nil_append]
  have hclosing : Spells ['\x7d'] [.rbrace] ('\n' :: rest) := spells_punctuation rfl _
  obtain ⟨hs, hhs, hline, hheader⟩ := (spells_opening h _).exists_line p
  obtain ⟨lss, hlss, hbody⟩ := exists_onLines (spells_item indent) b.items
    (p.after (printOpening h ++ ['\n'])) _
  obtain ⟨cs, hcs, hclosingline, hend⟩ := hclosing.exists_line
    ((p.after (printOpening h ++ ['\n'])).after
      (b.items.flatMap fun item => printItem indent item ++ ['\n']))
  have hyields := hheader.append (hbody.append hend)
  obtain ⟨closing, cs, rfl, hclosing, hnil⟩ := List.map_eq_cons_iff.mp hcs
  obtain rfl := List.map_eq_nil_iff.mp hnil
  obtain ⟨hs, bs, rfl, hkeyword, hbs⟩ := List.map_eq_append_iff.mp hhs
  obtain ⟨brace, bs, rfl, hbrace, hnil⟩ := List.map_eq_cons_iff.mp hbs
  obtain rfl := List.map_eq_nil_iff.mp hnil
  rw [(spells_opening h []).line_after] at hlss
  rw [List.append_assoc hs, List.singleton_append] at hyields
  refine ⟨hs ++ brace :: (lss.flatten ++ [closing]), ?_, hprint ▸ hyields⟩
  refine isEntity_definition hkeyword (fun l hl => hline l (by simp [hl])) hbrace
    (hline brace (by simp)) hlss hclosing ?_ ?_
  · rw [hclosingline closing (by simp), Position.line_after, (spells_opening h []).line_after]
    omega
  · rw [← Position.line_after, hprint, Position.after_append, Position.line_after,
      (spells_opening h []).line_after]
    omega

/-- An entity that is moved over has its tokens where it stands, too. -/
lemma Other.exists_tokens (o : Other) :
    o.first.token ≠ .eof ∧ (∀ l ∈ o.later, l.token ≠ .eof) ∧ ∀ p rest, ∃ l ts,
      Moved {} p o.first l ∧ List.Forall₂ (Moved {} p) o.later ts ∧
        Yields p (o.text.toList ++ ['\n']) rest (l :: ts) := by
  obtain ⟨ts, last, hlist, hts, hmove⟩ := tokenizeFrom_newline o.tokens
  rw [← List.cons_append] at hlist
  obtain ⟨rfl, -⟩ := List.append_inj' hlist rfl
  rw [List.forall_mem_cons] at hts
  refine ⟨hts.1, hts.2, fun p rest => ?_⟩
  obtain ⟨ts', hmoved, hyields⟩ := hmove p rest
  obtain _ | ⟨hfirst, hlater⟩ := hmoved
  exact ⟨_, _, hfirst, hlater, hyields⟩

lemma map_token_of_moved {p q : Position} {ts ts' : List Located}
    (h : List.Forall₂ (Moved p q) ts ts') : ts'.map Located.token = ts.map Located.token := by
  induction h with
  | nil => rfl
  | cons hmoved _ ih => rw [List.map_cons, List.map_cons, hmoved.1, ih]

lemma isRecovered_other (indent : Nat) (o : Other) : IsRecovered indent (.other o) := by
  intro p rest
  obtain ⟨-, heof, hmove⟩ := o.exists_tokens
  obtain ⟨l, ts, hfirst, hlater, hyields⟩ := hmove p rest
  have htokens := map_token_of_moved hlater
  refine ⟨l :: ts, ?_, hyields⟩
  refine isEntity_other hfirst.1 htokens (isBalanced_of_moved hfirst.2 hlater o.balanced) ?_ ?_ _
  · intro t ht
    obtain ⟨t', ht', htoken⟩ := List.mem_map.mp (htokens ▸ List.mem_map_of_mem ht)
    exact htoken ▸ heof t' ht'
  · have hbound := (line_of_tokenizeFrom o.tokens (l := o.first) (by simp)).2
    have hplace : l.line + 1 = o.first.line + p.line := hfirst.2
    have hcount : ((Entity.other o).print indent).count '\n' = o.text.toList.count '\n' + 1 :=
      List.count_append
    rw [hcount]
    change o.first.line ≤ 1 + o.text.toList.count '\n' at hbound
    omega

lemma isRecovered (indent : Nat) (e : Entity) : IsRecovered indent e := by
  cases e with
  | declaration h => exact isRecovered_declaration indent h
  | definition h b => exact isRecovered_definition indent h b
  | other o => exact isRecovered_other indent o

/-- The first token of an entity is not the end marker. -/
lemma first_ne_eof (e : Entity) : e.first ≠ .eof := by
  cases e with
  | declaration h => simp [Entity.first]
  | definition h b => simp [Entity.first]
  | other o => exact o.exists_tokens.1

/-! ### Modules -/

/-- Reading entities one after the other. -/
lemma exists_tokens (indent : Nat) {es : List Entity} (h : HasNoNamedType es) (p : Position) :
    ∃ ls, tokenizeFrom p (es.flatMap (·.print indent)) = .ok ls ∧ Follow p.line es ls ∧
      es.length ≤ ls.length ∧ ∀ bound cs m, es.length ≤ bound →
        ∃ c, parseEntities bound m ⟨cs, ls⟩ = .ok (addFrom indent p.line m es) c := by
  induction es generalizing p with
  | nil =>
      refine ⟨_, tokenizeFrom_nil p, ⟨by simp, rfl⟩, by simp, fun bound cs m _ => ?_⟩
      cases bound with
      | zero => exact ⟨_, rfl⟩
      | succ bound => exact ⟨_, rfl⟩
  | cons e es ih =>
      have hes : HasNoNamedType es := by
        cases e with
        | other o => exact h.2
        | _ => exact h
      obtain ⟨ls', htokens', hfollow', hlength', hread'⟩ := ih hes (p.after (e.print indent))
      obtain ⟨ls, ⟨hhead, hread⟩, hyields⟩ :=
        isRecovered indent e p (es.flatMap (·.print indent))
      rw [Position.line_after] at hfollow' hread'
      have htokens : tokenizeFrom p ((e :: es).flatMap (·.print indent)) = .ok (ls ++ ls') := by
        rw [Yields, htokens'] at hyields
        exact hyields
      have hne : ls ≠ [] := by
        rintro rfl
        simp at hhead
      have hpeek (cs : List Located) : (⟨cs, ls ++ ls'⟩ : Cursor).peek = e.first := by
        rw [Cursor.peek_eq, Cursor.ahead, List.map_append, List.head?_append, hhead]
        rfl
      refine ⟨ls ++ ls', htokens, ⟨fun l hl => (line_of_tokenizeFrom htokens hl).1, ?_⟩, ?_,
        fun bound cs m hbound => ?_⟩
      · rw [List.map_append, List.head?_append, hhead]
        rfl
      · have hpos := List.length_pos_of_ne_nil hne
        rw [List.length_cons, List.length_append]
        omega
      · rw [List.length_cons] at hbound
        obtain ⟨bound, rfl⟩ : ∃ k, bound = k + 1 := ⟨bound - 1, by omega⟩
        have hmore : (⟨cs, ls ++ ls'⟩ : Cursor).atEnd = false := by
          rw [Cursor.atEnd, hpeek, beq_eq_false_iff_ne]
          exact first_ne_eof e
        obtain ⟨c, hlater⟩ := hread' bound (ls.reverse ++ cs) (e.add p.line es m) (by omega)
        refine ⟨c, ?_⟩
        rw [parseEntities, run_get, hmore, if_neg Bool.false_ne_true,
          run_bind (hread es ls' cs m hfollow' h), hlater]
        rfl

/-- Reading the text of entities. -/
lemma parse_text (indent : Nat) {es : List Entity} (h : HasNoNamedType es) :
    Module.parse (text indent es) = .ok (contents indent es) := by
  obtain ⟨ls, htokens, -, hlength, hread⟩ := exists_tokens indent h {}
  obtain ⟨c, hparse⟩ := hread ls.length [] {} hlength
  have htokenize : tokenize (text indent es) = .ok ls := by
    rw [tokenize, text, String.toList_ofList, htokens]
  rw [Module.parse, htokenize]
  change runOn (parseEntities ls.length {}) ls = _
  rw [runOn, EStateM.run, Cursor.ofTokens, hparse]
  rfl

/-! ### Reports -/

/-- The signatures of the indirect calls among instructions. -/
def signatures (is : List Ir.Instruction) : List Signature :=
  ((is.filterMap (·.call)).filter (·.isIndirect)).map fun c => .ofType c.type

lemma signatures_append (is js : List Ir.Instruction) :
    signatures (is ++ js) = signatures is ++ signatures js := by
  simp [signatures]

lemma signatures_instructionsAt (line : Nat) (is : List Instruction) :
    signatures (instructionsAt line is) = is.filterMap (·.indirect?) := by
  induction is generalizing line with
  | nil => rfl
  | cons i is ih =>
      have hfirst : signatures [i.onLine line] = i.indirect?.toList := by
        rw [Instruction.onLine, Instruction.indirect?]
        cases i.operation with
        | plain opcode isPlain => rfl
        | call c => cases hcase : c.target <;> simp [signatures, CallSite.isIndirect, Call.site,
            Target.callee, hcase]
      have hsplit : instructionsAt line (i :: is) =
          [i.onLine line] ++ instructionsAt (line + 1) is := rfl
      rw [hsplit, signatures_append, hfirst, ih, List.filterMap_cons]
      cases i.indirect? <;> rfl

lemma signatures_blocksAt (line : Nat) (bs : List (String × List Instruction)) :
    signatures ((blocksAt line bs).flatMap (·.instructions)) =
      (bs.flatMap Prod.snd).filterMap (·.indirect?) := by
  induction bs generalizing line with
  | nil => rfl
  | cons block bs ih =>
      obtain ⟨label, is⟩ := block
      rw [blocksAt, List.flatMap_cons, signatures_append, signatures_instructionsAt, ih,
        List.flatMap_cons, List.filterMap_append]

/-- The record of a definition that is read. -/
lemma ofFunction_definition (h : Header) (b : Body) (line : Nat) :
    Record.ofFunction ⟨h.name, h.type, false, b.blocksAt (line + 1), line⟩ =
      ⟨.ofType h.type, b.instructions.filterMap (·.indirect?)⟩ := by
  have hcalls : signatures ((b.blocksAt (line + 1)).flatMap (·.instructions)) =
      b.instructions.filterMap (·.indirect?) := by
    rw [Body.blocksAt, Body.instructions, List.filterMap_append]
    cases b.first with
    | nil =>
        rw [signatures_blocksAt]
        rfl
    | cons i is =>
        rw [List.flatMap_cons, signatures_append, signatures_instructionsAt, signatures_blocksAt]
  rw [Record.ofFunction, ← hcalls]
  rfl

lemma records_addFrom (indent line : Nat) (m : Module) (es : List Entity) :
    (addFrom indent line m es).definitions.map (fun f => (f.name, Record.ofFunction f)) =
      m.definitions.map (fun f => (f.name, Record.ofFunction f)) ++
        es.filterMap (·.record?) := by
  induction es generalizing line m with
  | nil => simp [addFrom]
  | cons e es ih =>
      have hadd : (e.add line es m).definitions.map (fun f => (f.name, Record.ofFunction f)) =
          m.definitions.map (fun f => (f.name, Record.ofFunction f)) ++ e.record?.toList := by
        cases e with
        | declaration h => simp [Entity.add, Entity.record?, Module.definitions]
        | definition h b =>
            simp [Entity.add, Entity.record?, Module.definitions, ofFunction_definition]
        | other o =>
            have hfunctions : ((Entity.other o).add line es m).functions = m.functions := by
              rw [Entity.add]
              split
              · split <;> rfl
              · rfl
            rw [Module.definitions, hfunctions]
            simp [Entity.record?, Module.definitions]
      rw [addFrom, ih, hadd, List.append_assoc, List.filterMap_cons]
      cases e.record? <;> rfl

end Listing

/-- **Written modules are read back.** The text of entities is read as the module that they make
up, with all functions, blocks, instructions and calls in their order and on their lines. The
report of this module has a record for every definition, with the signatures of its calls of
local values. -/
theorem Module.parse_listing (indent : Nat) (es : List Listing.Entity)
    (h : Listing.HasNoNamedType es) :
    Module.parse (Listing.text indent es) = .ok (Listing.contents indent es) ∧
    Report.ofModule (Listing.contents indent es) =
      OrderedMap.ofList (es.filterMap (·.record?)) := by
  refine ⟨Listing.parse_text indent h, ?_⟩
  rw [Report.ofModule, Listing.contents, Listing.records_addFrom]
  rfl

namespace Listing

/-- A global name and what is assigned to it. -/
def tableEntity : Other where
  text := "@table = global i8 0"
  first := ⟨.globalName "table", 1, 1, 0, 6⟩
  later := [⟨.equals, 1, 8, 7, 8⟩, ⟨.word "global", 1, 10, 9, 15⟩, ⟨.word "i8", 1, 17, 16, 18⟩,
    ⟨.integer "0", 1, 20, 19, 20⟩]
  last := ⟨.eof, 1, 21, 20, 20⟩
  tokens := by decide +kernel
  not_keyword := by decide
  balanced := by simp [IsBalanced]

/-- A call of a local value for which only the return type is written. -/
def pointerCall : Call where
  kind := .call
  tail := .tail
  target := .value "f"
  type := ⟨.int 32, [.int 32, .ptr 0], false⟩
  arguments := [(.int 32, "x"), (.ptr 0, "the pointer")]
  isFull := false
  readable := by
    simp [FunctionType.toTy, Ty.Readable, Ty.Everywhere, Ty.subterms, Ty.subtermsOf,
      Ty.IsDigitName, Ty.IsSpacedOpaque]
  readable_arguments := by
    simp [Ty.Readable, Ty.Everywhere, Ty.subterms, Ty.IsDigitName, Ty.IsSpacedOpaque]
  short := by simp [Ty.asFunction?]

/-- A global name, a declaration, and a definition with two blocks. -/
def sample : List Entity :=
  [.other tableEntity,
    .declaration ⟨"log it", ⟨.void, [.ptr 0], true⟩, by
      simp [FunctionType.toTy, Ty.Readable, Ty.Everywhere, Ty.subterms, Ty.subtermsOf,
        Ty.IsDigitName, Ty.IsSpacedOpaque]⟩,
    .definition ⟨"main", ⟨.int 32, [], false⟩, by
      simp [FunctionType.toTy, Ty.Readable, Ty.Everywhere, Ty.subterms, Ty.subtermsOf,
        Ty.IsDigitName, Ty.IsSpacedOpaque]⟩
      ⟨[⟨some "r", .call pointerCall⟩],
        [("exit", [⟨none, .plain "ret" ⟨by decide, by decide, by decide⟩⟩])]⟩]

end Listing

/-- A module with an indirect call: how it is written, and what is read. -/
theorem Module.parse_listing_sample :
    Listing.text 2 Listing.sample = "@table = global i8 0\n" ++
      "declare void @\"log it\"(ptr, ...)\n" ++
      "define i32 @main() \x7b\n" ++
      "  %r = tail call i32 %f(i32 %x, ptr %\"the pointer\")\n" ++
      "\"exit\":\n" ++
      "  ret\n" ++
      "\x7d\n" ∧
    Module.parse (Listing.text 2 Listing.sample) = .ok (Listing.contents 2 Listing.sample) ∧
    (Report.ofModule (Listing.contents 2 Listing.sample)).entries =
      [("main", ⟨⟨"i32", []⟩, [⟨"i32", ["i32", "ptr"]⟩]⟩)] := by
  have h : Listing.HasNoNamedType Listing.sample := ⟨by simp [Listing.tableEntity], trivial⟩
  obtain ⟨hparse, hreport⟩ := Module.parse_listing 2 Listing.sample h
  refine ⟨by decide +kernel, hparse, ?_⟩
  rw [hreport]
  decide

end CallGuard.Ir
