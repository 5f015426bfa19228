import CallGuard.Ir.Module.Parser
import CallGuard.Proofs.Ir.Direct.Block

/-!
Modules without a look first. The opening brace of a body is taken by its index, the body is the
part of the tokens between two positions, and entities are read as long as there are tokens.

* `skipToBody_eq`, `parseBody_eq`: the body of a function.
* `parseFunction_eq`, `parseEntity_eq`: functions and other entities.
* `takes_parseEntity`: an entity takes at least one token.
* `parseTokens_eq`: any tokens are read as a module without a crash, or refused.
-/

namespace CallGuard.Ir.Direct

open Parse (advance eat eatKeyword expect expectKeyword expectString Reads)

/-! ### Parameters of headers -/

/-- Reads one or more entries of a header's parameter list with the closing parenthesis. -/
def headerParamsFrom : Nat → Reader (List Ty × Bool)
  | 0 => crash .endless
  | bound + 1 => do
    if ← ofParse (eat .ellipsis) then
      ofParse (expect .rparen "parameter list")
      return ([], true)
    else
      let param ← parseType
      if ← parseListEnd "parameter list" then
        let (list, variadic) ← headerParamsFrom bound
        return (param :: list, variadic)
      else return ([param], false)

/-- Reads the parameter list of a header. -/
def parseHeaderParams : Reader (List Ty × Bool) := do
  ofParse (expect .lparen "parameter list")
  if ← ofParse (eat .rparen) then return ([], false)
  else headerParamsFrom ((← get).rest.length + 1)

/-- Every entry takes a token. -/
lemma headerParamsFrom_eq {bound : Nat} (c : Cursor) (h : c.rest.length < bound) :
    headerParamsFrom bound c = ofParse (parseHeaderParamsFrom bound) c := by
  induction bound generalizing c with
  | zero => exact absurd h (Nat.not_lt_zero _)
  | succ bound ih =>
      rw [headerParamsFrom, parseHeaderParamsFrom, parseType_eq, parseListEnd_eq]
      simp only [ofParse_bind]
      refine run_ofParse_congr (Parse.reads_eat _ (by decide)) fun ts variadic _ _ _ c hc => ?_
      cases variadic with
      | true =>
          simp only [if_true, ofParse_bind]
          rfl
      | false =>
          simp only [Bool.false_eq_true, if_false, ofParse_bind]
          refine run_ofParse_congr reads_parseType fun ts' t _ hts' _ c' hc' => ?_
          refine run_ofParse_congr (reads_parseListEnd _) fun ts'' more _ _ _ c'' hc'' => ?_
          cases more with
          | false => rfl
          | true =>
              have hpos := List.length_pos_iff.mpr hts'
              simp only [if_true, ofParse_bind]
              exact run_bind_congr (ih c'' (by omega)) _

lemma parseHeaderParams_eq : parseHeaderParams = ofParse Ir.parseHeaderParams := by
  rw [parseHeaderParams, Ir.parseHeaderParams]
  simp only [ofParse_bind, ofParse_ite, ofParse_pure, ofParse_get]
  refine bind_congr fun _ => bind_congr fun empty => congrArg (ite _ _) ?_
  funext c
  exact headerParamsFrom_eq c (Nat.lt_succ_self _)

/-! ### Bodies -/

/-- Goes on to the brace that opens a body and over it. -/
def skipToBodyFrom : Nat → Reader Unit
  | 0 => crash .endless
  | bound + 1 => do
    let c ← get
    if c.peek = .eof then throw (.refused (.unexpectedEnd "function body"))
    else if c.peek = .lbrace then
      let brace ← item c.tokens c.position
      if opensBody brace (c.tokens.drop (c.position + 1)) then
        let _ ← ofParse advance
        return ()
      else
        skipGroup
        skipToBodyFrom bound
    else if c.peek.opensGroup then
      skipGroup
      skipToBodyFrom bound
    else
      let _ ← ofParse advance
      skipToBodyFrom bound

/-- Moves to the body and over its opening brace. -/
def skipToBody : Reader Unit := do
  skipToBodyFrom ((← get).rest.length + 1)

/-- The body is the one behind the rest of the header. -/
lemma skipToBody_congr {c c' : Cursor} (h : c.skipWhile headerStep 0 = c'.skipWhile headerStep 0) :
    Ir.skipToBody c = Ir.skipToBody c' := by
  rw [Ir.skipToBody, Parse.run_modify, Parse.run_modify, h]

lemma countsGroups_headerStep : Parse.CountsGroups headerStep id where
  opening n l ls h := by simp [headerStep, h]
  closing n l ls h := by simp [headerStep, h, Parse.opensGroup_of_closesGroup h]
  other n l ls hopens hcloses := by simp [headerStep, hopens, hcloses]

lemma skipGroup_of_opens {cs ls : List Located} {t : Located} (h : t.token.opensGroup = true) :
    (⟨cs, t :: ls⟩ : Cursor).skipGroup = Cursor.skipWhile Cursor.groupStep 1 ⟨t :: cs, ls⟩ :=
  if_pos h

/-- A group of the header is gone over. -/
lemma skipToBody_of_opens {cs ls : List Located} {t : Located} (h : t.token.opensGroup = true)
    (hbody : ¬ (t.token = .lbrace ∧ opensBody t ls = true)) :
    Ir.skipToBody ⟨cs, t :: ls⟩ = Ir.skipToBody (⟨cs, t :: ls⟩ : Cursor).skipGroup := by
  refine skipToBody_congr ?_
  have hstep : headerStep 0 t ls = some 1 := by rw [headerStep, if_neg hbody, if_pos h]
  rw [Cursor.skipWhile_of_some (Parse.ne_eof_of_opensGroup h) hstep, skipGroup_of_opens h]
  exact Cursor.skipWhile_counts countsGroups_headerStep 0 _

/-- The tokens behind the next one. -/
lemma drop_position (cs : List Located) (t : Located) (ls : List Located) :
    (⟨cs, t :: ls⟩ : Cursor).tokens.drop ((⟨cs, t :: ls⟩ : Cursor).position + 1) = ls := by
  have hlength : cs.length + 1 = (cs.reverse ++ [t]).length := by simp
  rw [Cursor.tokens, Cursor.position, List.append_cons, hlength, List.drop_left]

/-- The brace is there, since the next token is one. -/
lemma skipToBodyFrom_eq {bound : Nat} (c : Cursor) (h : c.rest.length < bound) :
    skipToBodyFrom bound c = ofParse Ir.skipToBody c := by
  induction bound generalizing c with
  | zero => exact absurd h (Nat.not_lt_zero _)
  | succ bound ih =>
      rw [skipToBodyFrom, run_get]
      obtain hend | ⟨cs, t, ls, rfl, ht⟩ := c.atEnd_or_exists
      · rw [if_pos (Cursor.atEnd_iff.mp hend), ofParse, Ir.skipToBody, Parse.run_modify,
          Cursor.skipWhile_of_atEnd hend, Parse.run_get, if_pos hend]
        rfl
      have hgroup (hopens : t.token.opensGroup = true)
          (hbody : ¬ (t.token = .lbrace ∧ opensBody t ls = true)) :
          (skipGroup >>= fun _ => skipToBodyFrom bound) ⟨cs, t :: ls⟩ =
            ofParse Ir.skipToBody ⟨cs, t :: ls⟩ := by
        have hlength := @Cursor.length_skipWhile_le _ Cursor.groupStep 1 ⟨t :: cs, ls⟩
        have hmove : skipGroup ⟨cs, t :: ls⟩ = .ok () (⟨cs, t :: ls⟩ : Cursor).skipGroup := by
          rw [skipGroup_eq]
          rfl
        rw [run_bind hmove, ih _ (by
          rw [skipGroup_of_opens hopens]
          exact Nat.lt_of_le_of_lt hlength (by simpa using h)), ofParse, ofParse,
          skipToBody_of_opens hopens hbody]
      have hpeek : (⟨cs, t :: ls⟩ : Cursor).peek = t.token := rfl
      rw [hpeek, if_neg ht]
      by_cases hbrace : t.token = .lbrace
      · rw [if_pos hbrace, item_position, run_pure, drop_position]
        cases hbody : opensBody t ls with
        | true =>
            have hstep : headerStep 0 t ls = none := if_pos ⟨hbrace, hbody⟩
            have hmove : Ir.skipToBody ⟨cs, t :: ls⟩ = .ok () ⟨t :: cs, ls⟩ := by
              rw [Ir.skipToBody, Parse.run_modify, Cursor.skipWhile_of_none hstep, Parse.run_get,
                if_neg (mt Cursor.atEnd_cons.mp ht)]
              rfl
            rw [if_pos rfl, ofParse, hmove]
            rfl
        | false => exact hgroup (by rw [hbrace]; rfl) (by simp [hbody])
      · rw [if_neg hbrace]
        cases hopens : t.token.opensGroup with
        | true => exact hgroup hopens fun hbody => hbrace hbody.1
        | false =>
            have hstep : headerStep 0 t ls = some 0 := by simp [headerStep, hbrace, hopens]
            have hnext : Ir.skipToBody ⟨cs, t :: ls⟩ = Ir.skipToBody ⟨t :: cs, ls⟩ :=
              skipToBody_congr (Cursor.skipWhile_of_some ht hstep)
            rw [if_neg Bool.false_ne_true, run_advance, ih _ (by simpa using h), ofParse, ofParse,
              hnext]

lemma skipToBody_eq : skipToBody = ofParse Ir.skipToBody := by
  funext c
  rw [skipToBody, run_get]
  exact skipToBodyFrom_eq c (Nat.lt_succ_self _)

/-- A round inside of a body; `depth` counts the open braces. -/
def bodyRound (name : String) (line depth : Nat) : Reader (Option Nat) := do
  match (← get).peek with
  | .lbrace => return some (depth + 1)
  | .rbrace => if depth = 0 then return none else return some (← difference depth 1)
  | .eof => throw (.refused (.unterminatedBody line name))
  | _ => return some depth

/-- Reads a body with its closing brace; `line` and `name` are those of the function. -/
def parseBody (name : String) (line : Nat) : Reader (List Block) := do
  let start := (← get).position
  walk (bodyRound name line) ((← get).rest.length + 1) 0
  let c ← get
  let body ← part c.tokens start c.position
  let _ ← ofParse advance
  match readBlocks body with
  | .ok blocks => return blocks
  | .error e => throw e

lemma bodyRound_cons (name : String) (line depth : Nat) (cs : List Located) (t : Located)
    (ls : List Located) (ht : t.token ≠ .eof) : bodyRound name line depth ⟨cs, t :: ls⟩ =
      .ok (bodyStep depth t ls) ⟨cs, t :: ls⟩ := by
  have hpeek : (⟨cs, t :: ls⟩ : Cursor).peek = t.token := rfl
  rw [bodyRound, run_get, hpeek]
  cases depth with
  | zero =>
      rw [bodyStep]
      cases htoken : t.token with
      | eof => exact absurd htoken ht
      | _ => rfl
  | succ n =>
      rw [bodyStep, difference_of_le (by omega)]
      cases htoken : t.token with
      | eof => exact absurd htoken ht
      | _ => rfl

section Body

variable (name : String) (line : Nat)

/-- What is read behind the tokens `body` of a body. -/
def closeBody (body : List Located) : Parse (List Block) := do
  if (← get).atEnd then throw (.unterminatedBody line name)
  else
    let _ ← advance
    match Block.readAll body with
    | .ok blocks => return blocks
    | .error e => throw e

lemma run_parseBody (c : Cursor) :
    Ir.parseBody name line c =
      closeBody name line (Cursor.splitWhile bodyStep 0 c.rest).1 (c.skipWhile bodyStep 0) :=
  rfl

/-- The tokens between a position and the one where moving ends. -/
lemma part_skipWhile {σ : Type} (step : σ → Located → List Located → Option σ) (s : σ)
    (c : Cursor) :
    (part (c.skipWhile step s).tokens c.position (c.skipWhile step s).position : Reader _) =
      pure (Cursor.splitWhile step s c.rest).1 := by
  have hpart : (part (c.consumed.reverse ++ (Cursor.splitWhile step s c.rest).1 ++
      (Cursor.splitWhile step s c.rest).2) c.consumed.reverse.length
        (c.consumed.reverse.length + (Cursor.splitWhile step s c.rest).1.length) : Reader _) =
      pure (Cursor.splitWhile step s c.rest).1 := part_append _ _ _
  have hconsumed : (c.skipWhile step s).consumed =
      (Cursor.splitWhile step s c.rest).1.reverse ++ c.consumed :=
    List.reverseAux_eq
  have hrest : (c.skipWhile step s).rest = (Cursor.splitWhile step s c.rest).2 := rfl
  simpa [Cursor.tokens, Cursor.position, hconsumed, hrest, Nat.add_comm] using hpart

/-- The body is the part of the tokens that is gone over. -/
lemma parseBody_eq : parseBody name line = ofParse (Ir.parseBody name line) := by
  funext c
  obtain ⟨k, depth, hwalk, hstop⟩ :=
    exists_walk_eq (bodyRound_cons name line) 0 c (Nat.lt_succ_self c.rest.length)
  rw [parseBody, run_get, run_get, ofParse, run_parseBody, closeBody, Parse.run_get]
  cases hend : (c.skipWhile bodyStep 0).atEnd with
  | true =>
      have hround : bodyRound name line depth (c.skipWhile bodyStep 0) =
          .error (.refused (.unterminatedBody line name)) (c.skipWhile bodyStep 0) := by
        rw [bodyRound, run_get, Cursor.atEnd_iff.mp hend]
        rfl
      rw [run_bind_error _ (hwalk.trans (walk_of_error hround k)), if_pos rfl]
      rfl
  | false =>
      rw [run_bind (hwalk.trans (walk_of_none (hstop hend) k)), run_get, part_skipWhile, run_pure,
        readBlocks_eq, if_neg Bool.false_ne_true]
      obtain hfalse | ⟨cs, t, ls, heq, -⟩ := (c.skipWhile bodyStep 0).atEnd_or_exists
      · exact absurd hend (by simp [hfalse])
      rw [heq, run_advance, Parse.run_advance]
      cases Block.readAll (Cursor.splitWhile bodyStep 0 c.rest).1 <;> rfl

end Body

/-! ### Functions and other entities -/

/-- The error where the header of a function has no type. -/
def headerRefusal (c : Cursor) : ParseError :=
  if c.atEnd then .unexpectedEnd "function header" else c.unexpected "function return type"

/-- Reads a function from its keyword on. -/
def parseFunction (isDefinition : Bool) : Reader Function := do
  let line := (← get).line
  let _ ← ofParse advance
  skipAttributes headerRefusal
  let ret ← parseType
  let name ← ofParse parseFunctionName
  let (params, variadic) ← parseHeaderParams
  let type : FunctionType := ⟨ret, params, variadic⟩
  if isDefinition then
    skipToBody
    let blocks ← parseBody name line
    return ⟨name, type, false, blocks, line⟩
  else
    skipEntity
    return ⟨name, type, true, [], line⟩

lemma parseFunction_eq (isDefinition : Bool) :
    parseFunction isDefinition = ofParse (Ir.parseFunction isDefinition) := by
  rw [parseFunction, Ir.parseFunction, skipAttributes_eq, parseType_eq, parseHeaderParams_eq,
    skipToBody_eq, skipEntity_eq]
  simp only [ofParse_bind, ofParse_get, bind_assoc, parseBody_eq]
  refine bind_congr fun _ => bind_congr fun _ => bind_congr fun _ => funext fun c => ?_
  rw [run_attributesEnd, run_get]
  cases htype : c.atType with
  | false =>
      rw [if_neg Bool.false_ne_true, if_neg Bool.false_ne_true, headerRefusal]
      rw [ofParse, Parse.run_get]
      cases c.atEnd <;> rfl
  | true =>
      simp only [if_true, ofParse_bind, ofParse_ite, ofParse_pure]

/-- Reads what follows the equals sign of a named type. -/
def parseTypeBody : Reader (Option Ty) := do
  ofParse (expectKeyword "type" "type definition")
  if ← ofParse (eatKeyword "opaque") then return none
  else return some (← parseType)

lemma parseTypeBody_eq : parseTypeBody = ofParse Ir.parseTypeBody := by
  rw [parseTypeBody, Ir.parseTypeBody, parseType_eq]
  simp only [ofParse_bind, ofParse_ite, ofParse_pure]

/-- Reads a top-level entity into a module. -/
def parseEntity (m : Module) : Reader Module := do
  let cursor ← get
  let isAssignment := cursor.peekAt 1 == .equals
  match cursor.peek with
  | .word "source_filename" =>
    let _ ← ofParse advance
    ofParse (expect .equals "source_filename")
    let name ← ofParse (expectString "source_filename")
    return { m with sourceFilename := some name }
  | .word "define" =>
    let f ← parseFunction true
    return { m with functions := m.functions ++ [f] }
  | .word "declare" =>
    let f ← parseFunction false
    return { m with functions := m.functions ++ [f] }
  | .localName name =>
    let _ ← ofParse advance
    if isAssignment then
      let _ ← ofParse advance
      let body ← parseTypeBody
      return { m with namedTypes := m.namedTypes.insert name body }
    else
      skipEntity
      return m
  | .globalName name =>
    let _ ← ofParse advance
    skipEntity
    if isAssignment then return { m with globals := m.globals.insert name () }
    else return m
  | _ =>
    let _ ← ofParse advance
    skipEntity
    return m

lemma parseEntity_eq (m : Module) : parseEntity m = ofParse (Ir.parseEntity m) := by
  rw [parseEntity, Ir.parseEntity]
  simp only [ofParse_bind, ofParse_get, parseFunction_eq, parseTypeBody_eq, skipEntity_eq]
  refine bind_congr fun c => ?_
  generalize c.peek = next
  split <;> simp only [ofParse_bind, ofParse_pure, ofParse_ite]

/-! ### Going forward -/

/-- The reader goes forward, or stays. -/
abbrev Moves {α : Type} (p : Parse α) : Prop :=
  Reads p fun _ _ _ => True

section Moves

variable {α β : Type} {p : Parse α} {f : α → Parse β}

lemma moves_of_reads {Q : List Token → α → List Token → Prop} (h : Reads p Q) : Moves p :=
  h.mono fun _ _ _ _ => trivial

lemma Moves.bind (hp : Moves p) (hf : ∀ a, Moves (f a)) : Moves (p >>= f) :=
  Reads.bind hp fun _ a => (hf a).mono fun _ _ _ _ _ => trivial

lemma moves_pure (a : α) : Moves (pure a) :=
  Parse.reads_pure fun _ => trivial

lemma moves_throw (e : ParseError) : Moves (throw e : Parse α) :=
  Parse.reads_throw e _

lemma moves_get {f : Cursor → Parse β} (h : ∀ c, Moves (f c)) : Moves (get >>= f) :=
  Parse.reads_get fun c => (h c).mono fun _ _ _ _ _ => trivial

lemma moves_advance : Moves advance :=
  moves_of_reads Parse.reads_advance

lemma moves_expect {t : Token} (ht : t ≠ .eof) (context : String) : Moves (expect t context) :=
  moves_of_reads (Parse.reads_expect ht context)

lemma moves_parseType : Moves Ir.parseType :=
  moves_of_reads reads_parseType

lemma moves_skipEntity : Moves Parse.skipEntity := by
  intro cs ls a c h
  exact reads_skipWhile _ 0 cs ls a c h

lemma moves_parseFunctionName : Moves parseFunctionName := by
  refine moves_advance.bind fun t => ?_
  cases t with
  | globalName name => exact moves_pure name
  | eof => exact moves_throw _
  | _ => exact moves_get fun _ => moves_throw _

lemma moves_parseHeaderParamsFrom (bound : Nat) : Moves (parseHeaderParamsFrom bound) := by
  induction bound with
  | zero => exact moves_throw _
  | succ bound ih =>
      rw [parseHeaderParamsFrom]
      refine Moves.bind (moves_of_reads (Parse.reads_eat _ (by decide))) fun variadic => ?_
      cases variadic with
      | true => exact (moves_expect (by decide) _).bind fun _ => moves_pure _
      | false =>
          refine moves_parseType.bind fun t => Moves.bind (reads_parseListEnd _) fun more => ?_
          cases more with
          | true => exact ih.bind fun _ => moves_pure _
          | false => exact moves_pure _

lemma moves_parseHeaderParams : Moves Ir.parseHeaderParams := by
  refine (moves_expect (by decide) _).bind fun _ => ?_
  refine Moves.bind (moves_of_reads (Parse.reads_eat _ (by decide))) fun empty => ?_
  cases empty with
  | true => exact moves_pure _
  | false => exact moves_get fun _ => moves_parseHeaderParamsFrom _

lemma moves_skipToBody : Moves Ir.skipToBody := by
  refine Moves.bind (reads_skipWhile _ _) fun _ => moves_get fun c => ?_
  split
  · exact (moves_throw _).bind fun _ => moves_advance.bind fun _ => moves_pure _
  · exact moves_advance.bind fun _ => moves_pure _

lemma moves_parseBody (name : String) (line : Nat) : Moves (Ir.parseBody name line) := by
  have hclose (body : List Located) : Moves (closeBody name line body) := by
    refine moves_get fun c => ?_
    split
    · exact moves_throw _
    · refine moves_advance.bind fun _ => ?_
      split
      · exact moves_pure _
      · exact moves_throw _
  intro cs ls a c h
  exact Moves.bind (reads_skipWhile bodyStep 0) (fun _ => hclose _) cs ls a c h

lemma moves_parseTypeBody : Moves Ir.parseTypeBody := by
  refine Moves.bind (moves_of_reads (Parse.reads_expectKeyword _ _)) fun _ => ?_
  refine Moves.bind (moves_of_reads (Parse.reads_eat _ (by simp))) fun isOpaque => ?_
  cases isOpaque with
  | true => exact moves_pure _
  | false => exact moves_parseType.bind fun _ => moves_pure _

end Moves

/-- The reader takes a token where there is one. -/
def Takes {α : Type} (p : Parse α) : Prop :=
  Reads p fun ts _ rest => (ts ++ rest).head?.getD .eof ≠ .eof → ts ≠ []

section Takes

variable {α β : Type} {p : Parse α}

lemma Takes.bind {f : α → Parse β} (hp : Takes p) (hf : ∀ a, Moves (f a)) : Takes (p >>= f) := by
  refine Reads.bind hp fun ts a => (hf a).mono fun ts' b rest _ htakes hahead => ?_
  rw [List.append_assoc] at hahead
  exact List.append_ne_nil_of_left_ne_nil (htakes hahead) _

lemma takes_get {f : Cursor → Parse β} (h : ∀ c, Takes (f c)) : Takes (get >>= f) :=
  Parse.reads_get fun c => Reads.mono (h c) fun _ _ _ htakes _ => htakes

lemma takes_advance : Takes advance := by
  refine Parse.reads_advance.mono fun ts t rest hread hahead => ?_
  rcases hread with rfl | ⟨-, rfl, rfl⟩
  · simp
  · exact absurd rfl hahead

lemma takes_parseFunction (isDefinition : Bool) : Takes (Ir.parseFunction isDefinition) := by
  refine takes_get fun c => takes_advance.bind fun _ => ?_
  refine Moves.bind (reads_skipWhile _ _) fun _ => moves_get fun c' => ?_
  -- behind its first token, a function is read whether or not its attributes end well
  have htail : Moves (do
      let ret ← Ir.parseType
      let name ← parseFunctionName
      let (params, variadic) ← Ir.parseHeaderParams
      if isDefinition then
        Ir.skipToBody
        let blocks ← Ir.parseBody name c.line
        return (⟨name, ⟨ret, params, variadic⟩, false, blocks, c.line⟩ : Function)
      else
        Parse.skipEntity
        return ⟨name, ⟨ret, params, variadic⟩, true, [], c.line⟩) := by
    refine moves_parseType.bind fun _ => moves_parseFunctionName.bind fun _ => ?_
    refine moves_parseHeaderParams.bind fun _ => ?_
    cases isDefinition with
    | true => exact moves_skipToBody.bind fun _ => (moves_parseBody _ _).bind fun _ => moves_pure _
    | false => exact moves_skipEntity.bind fun _ => moves_pure _
  refine iteInduction (fun _ => htail) fun _ => moves_get fun c'' => ?_
  refine iteInduction (fun _ => (moves_throw _).bind fun _ => htail) fun _ => ?_
  exact Moves.bind (moves_get fun _ => moves_throw _) fun _ => htail

/-- An entity takes a token. -/
lemma takes_parseEntity (m : Module) : Takes (Ir.parseEntity m) := by
  refine takes_get fun c => ?_
  split
  · refine takes_advance.bind fun _ => (moves_expect (by decide) _).bind fun _ => ?_
    exact Moves.bind (moves_of_reads (Parse.reads_expectString _)) fun _ => moves_pure _
  · exact (takes_parseFunction true).bind fun _ => moves_pure _
  · exact (takes_parseFunction false).bind fun _ => moves_pure _
  · refine takes_advance.bind fun _ => ?_
    split
    · exact moves_advance.bind fun _ => moves_parseTypeBody.bind fun _ => moves_pure _
    · exact moves_skipEntity.bind fun _ => moves_pure _
  · refine takes_advance.bind fun _ => moves_skipEntity.bind fun _ => ?_
    split <;> exact moves_pure _
  · exact takes_advance.bind fun _ => moves_skipEntity.bind fun _ => moves_pure _

end Takes

/-! ### Modules -/

/-- Reads the remaining entities into a module. -/
def entitiesFrom : Nat → Module → Reader Module
  | 0, _ => crash .endless
  | bound + 1, m => do
    if (← get).atEnd then return m
    else entitiesFrom bound (← parseEntity m)

/-- Every entity takes a token, so there are no more entities than tokens. -/
lemma entitiesFrom_eq {bound : Nat} (m : Module) (c : Cursor) (h : c.rest.length ≤ bound) :
    entitiesFrom (bound + 1) m c = ofParse (parseEntities bound m) c := by
  induction bound generalizing m c with
  | zero =>
      obtain ⟨cs, _ | ⟨t, ls⟩⟩ := c
      · rfl
      · simp at h
  | succ bound ih =>
      rw [entitiesFrom, parseEntities, parseEntity_eq, run_get]
      simp only [ofParse_bind, ofParse_get]
      rw [run_get]
      cases hend : c.atEnd with
      | true => rfl
      | false =>
          simp only [Bool.false_eq_true, if_false, ofParse_bind]
          refine run_ofParse_congr (takes_parseEntity m) fun ts m' rest htakes hahead c' hc' => ?_
          have hpeek : (ts ++ rest).head?.getD .eof ≠ .eof := by
            rw [← hahead, ← Cursor.peek_eq]
            exact fun heof => absurd (Cursor.atEnd_iff.mpr heof) (by simp [hend])
          have hpos := List.length_pos_iff.mpr (htakes hpeek)
          exact ih m' c' (by omega)

/-- The module that tokens spell. -/
def parseTokens (tokens : List Located) : Except Stop Module :=
  runOn (entitiesFrom (tokens.length + 1) {}) tokens

lemma parseTokens_eq (tokens : List Located) :
    parseTokens tokens = ((parseEntities tokens.length {}).runOn tokens).mapError .refused := by
  rw [← runOn_ofParse]
  exact runOn_congr (entitiesFrom_eq {} (Cursor.ofTokens tokens) (Nat.le_refl tokens.length))

end CallGuard.Ir.Direct
