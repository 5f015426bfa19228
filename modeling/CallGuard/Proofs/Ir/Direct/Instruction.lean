import CallGuard.Ir.Body.Instruction
import CallGuard.Proofs.Ir.CallForms
import CallGuard.Proofs.Ir.Direct.Grammar
import CallGuard.Proofs.Ir.Direct.Skip

/-!
Instructions without a look first. Attributes are gone over one by one, and arguments are read as
long as a comma follows; both loops end because every round takes a token.

* `skipAttributesFrom`, `skipAttributesFrom_eq`: the loop over attributes.
* `parseListEnd_eq`, `argumentsFrom_eq`: arguments, for any number of them.
* `parseInstruction_eq`: instructions are read without a crash.
-/

namespace CallGuard.Ir

namespace Cursor

variable {σ : Type} {step : σ → Located → List Located → Option σ}

/-- Moving takes tokens, or none. -/
lemma length_skipWhile_le (s : σ) (c : Cursor) :
    (c.skipWhile step s).rest.length ≤ c.rest.length := by
  have hlength := congrArg List.length (splitWhile_append step s c.rest)
  rw [List.length_append] at hlength
  change (splitWhile step s c.rest).2.length ≤ _
  omega

lemma length_skipGroup_le (c : Cursor) : c.skipGroup.rest.length ≤ c.rest.length := by
  obtain ⟨cs, _ | ⟨t, ls⟩⟩ := c
  · exact Nat.le_refl _
  · have hskip : (⟨cs, t :: ls⟩ : Cursor).skipGroup =
        if t.token.opensGroup then skipWhile groupStep 1 ⟨t :: cs, ls⟩ else ⟨cs, t :: ls⟩ := rfl
    rw [hskip]
    split
    · exact (length_skipWhile_le _ _).trans (Nat.le_succ _)
    · exact Nat.le_refl _

end Cursor

namespace Direct

open Parse (advance expect expectString expectWord eat peek)

/-! ### Attributes -/

/-- Moves over a group in parentheses, if one is next. -/
def skipParentheses : Reader Unit := do
  if (← get).peek = .lparen then skipGroup else return ()

/-- Goes over attributes up to the start of a type; `refuse` is the error where neither is. -/
def skipAttributesFrom (refuse : Cursor → ParseError) : Nat → Reader Unit
  | 0 => crash .endless
  | bound + 1 => do
    let c ← get
    if c.atType then return ()
    else
      match c.peek with
      | .word _ =>
        let _ ← ofParse advance
        skipParentheses
        skipAttributesFrom refuse bound
      | .integer _ | .hash _ =>
        let _ ← ofParse advance
        skipAttributesFrom refuse bound
      | _ => throw (.refused (refuse c))

/-- Moves over attributes to the start of a type. -/
def skipAttributes (refuse : Cursor → ParseError) : Reader Unit := do
  skipAttributesFrom refuse ((← get).rest.length + 1)

/-- The end of attributes: a type starts there, or there is an error. -/
def attributesEnd (refuse : Cursor → ParseError) : Reader Unit := do
  let c ← get
  if c.atType then return () else throw (.refused (refuse c))

lemma attributeStep_plain (cs : List Located) (t : Located) (ls : List Located) :
    attributeStep .plain t ls =
      if (⟨cs, t :: ls⟩ : Cursor).atType then none
      else
        match t.token with
        | .word _ => some .afterWord
        | .integer _ | .hash _ => some .plain
        | _ => none :=
  rfl

/-- What is gone over behind a word: a group in parentheses, or nothing. -/
lemma skipWhile_afterWord (c : Cursor) :
    c.skipWhile attributeStep .afterWord =
      (if c.peek = .lparen then c.skipGroup else c).skipWhile attributeStep .plain := by
  split
  · rename_i hpeek
    obtain ⟨cs, _ | ⟨t, ls⟩⟩ := c
    · exact absurd (show Token.eof = .lparen from hpeek) (by decide)
    have ht : t.token = .lparen := hpeek
    have hstep : attributeStep .afterWord t ls = some (attributeState 1) := by
      simp [attributeStep, ht, attributeState]
    have hgroup : Cursor.skipGroup ⟨cs, t :: ls⟩ =
        Cursor.skipWhile Cursor.groupStep 1 ⟨t :: cs, ls⟩ := if_pos (by rw [ht]; rfl)
    rw [Cursor.skipWhile_of_some (by simp [ht]) hstep, hgroup]
    exact Cursor.skipWhile_counts countsGroups_attributeStep 0 _
  · rename_i hpeek
    obtain ⟨cs, _ | ⟨t, ls⟩⟩ := c
    · rfl
    have hstep : attributeStep .afterWord t ls = attributeStep .plain t ls := by
      rw [attributeStep_outside (.inr rfl) hpeek, attributeStep_outside (.inl rfl) hpeek]
    simp [Cursor.skipWhile, Cursor.splitWhile, hstep]

lemma skipParentheses_eq (c : Cursor) :
    skipParentheses c = .ok () (if c.peek = .lparen then c.skipGroup else c) := by
  rw [skipParentheses, run_get, skipGroup_eq]
  split <;> rfl

lemma skipAttributesFrom_eq (refuse : Cursor → ParseError) {bound : Nat} (c : Cursor)
    (h : c.rest.length < bound) :
    skipAttributesFrom refuse bound c =
      attributesEnd refuse (c.skipWhile attributeStep .plain) := by
  induction bound generalizing c with
  | zero => exact absurd h (Nat.not_lt_zero _)
  | succ bound ih =>
      rw [skipAttributesFrom, run_get]
      obtain hend | ⟨cs, t, ls, rfl, ht⟩ := c.atEnd_or_exists
      · have hpeek := Cursor.atEnd_iff.mp hend
        rw [Cursor.skipWhile_of_atEnd hend, attributesEnd, run_get, hpeek]
      have hpeek : (⟨cs, t :: ls⟩ : Cursor).peek = t.token := rfl
      rw [hpeek]
      cases htype : (⟨cs, t :: ls⟩ : Cursor).atType with
      | true =>
          have hstep : attributeStep .plain t ls = none := by
            rw [attributeStep_plain cs, htype, if_pos rfl]
          rw [Cursor.skipWhile_of_none hstep, attributesEnd, run_get, htype]
          rfl
      | false =>
          have hstep := attributeStep_plain cs t ls
          rw [htype, if_neg Bool.false_ne_true] at hstep
          rw [if_neg Bool.false_ne_true]
          cases htoken : t.token with
          | word w =>
              rw [htoken] at hstep
              rw [Cursor.skipWhile_of_some ht hstep, skipWhile_afterWord]
              dsimp only
              rw [run_advance, run_bind (skipParentheses_eq _)]
              refine ih _ (Nat.lt_of_le_of_lt (m := ls.length) ?_ (by simpa using h))
              split
              · exact Cursor.length_skipGroup_le _
              · exact Nat.le_refl _
          | integer text =>
              rw [htoken] at hstep
              rw [Cursor.skipWhile_of_some ht hstep]
              exact ih _ (by simpa using h)
          | hash name =>
              rw [htoken] at hstep
              rw [Cursor.skipWhile_of_some ht hstep]
              exact ih _ (by simpa using h)
          | _ =>
              rw [htoken] at hstep
              rw [Cursor.skipWhile_of_none hstep, attributesEnd, run_get, htype]
              rfl

lemma skipAttributes_eq (refuse : Cursor → ParseError) :
    skipAttributes refuse = ofParse Ir.skipAttributes >>= fun _ => attributesEnd refuse := by
  funext c
  rw [skipAttributes, run_get]
  exact skipAttributesFrom_eq refuse c (Nat.lt_succ_self _)

/-- The end of attributes, and what follows. -/
lemma run_attributesEnd {β : Type} (refuse : Cursor → ParseError) (f : Unit → Reader β)
    (c : Cursor) : (attributesEnd refuse >>= f) c =
      if c.atType then f () c else .error (.refused (refuse c)) c := by
  have hend : attributesEnd refuse c =
      if c.atType then .ok () c else .error (.refused (refuse c)) c := by
    rw [attributesEnd, run_get]
    split <;> rfl
  cases htype : c.atType with
  | true => exact run_bind (by rw [hend, htype, if_pos rfl])
  | false => exact run_bind_error f (by rw [hend, htype, if_neg Bool.false_ne_true])

/-! ### Calls -/

/-- Reads what a call calls. -/
def parseCallee : Reader Callee := do
  let line := (← get).line
  match ← ofParse advance with
  | .globalName name => return .globalSymbol name
  | .localName name => return .localValue name
  | .word word =>
    if word = "asm" then
      modify Cursor.skipWords
      let _ ← ofParse (expectString "inline asm string")
      ofParse (expect .comma "inline asm")
      let _ ← ofParse (expectString "inline asm constraints")
      return .inlineAsm
    unless constantKeywords.contains word do
      modify Cursor.skipWords
      match ← ofParse peek with
      | .globalName _ =>
        let _ ← ofParse advance
      | _ => skipGroup
    return .constant
  | .eof => throw (.refused (.unexpectedEnd "call target"))
  | token => throw (.refused (.unexpectedToken line "call target" token.describe))

lemma parseCallee_eq : parseCallee = ofParse Ir.parseCallee := by
  rw [parseCallee, Ir.parseCallee]
  simp only [ofParse_bind, ofParse_get]
  refine bind_congr fun c => bind_congr fun token => ?_
  cases token with
  | word w =>
      simp only [ofParse_ite, ofParse_bind, ofParse_modify, ofParse_pure, skipGroup_eq]
      refine congrArg (ite _ _) (congrArg (ite _ _) ?_)
      refine bind_congr fun _ => bind_congr fun next => ?_
      cases next <;> simp only [ofParse_bind, ofParse_pure]
  | _ => rfl

/-- Reads what follows a type in an argument or parameter list up to the next entry, and says
whether there is one. -/
def parseListEnd (context : String) : Reader Bool := do
  skipToDelimiter
  let line := (← get).line
  match ← ofParse advance with
  | .comma => return true
  | .rparen => return false
  | .eof => throw (.refused (.unexpectedEnd context))
  | token => throw (.refused (.unexpectedToken line s!"',' or ')' in {context}" token.describe))

lemma parseListEnd_eq (context : String) :
    parseListEnd context = ofParse (Ir.parseListEnd context) := by
  rw [parseListEnd, Ir.parseListEnd, skipToDelimiter_eq]
  simp only [ofParse_bind, ofParse_get]
  refine bind_congr fun _ => bind_congr fun c => bind_congr fun token => ?_
  cases token <;> rfl

lemma reads_skipWhile {σ : Type} (step : σ → Located → List Located → Option σ) (s : σ) :
    Parse.Reads (modify (Cursor.skipWhile step s)) fun _ _ _ => True := by
  intro cs ls a c h
  obtain ⟨-, rfl⟩ := EStateM.Result.ok.inj h
  refine ⟨(Cursor.splitWhile step s ls).1, (Cursor.splitWhile step s ls).2,
    (Cursor.splitWhile_append step s ls).symm, ?_, trivial⟩
  rw [← List.reverseAux_eq]
  rfl

lemma reads_parseListEnd (context : String) :
    Parse.Reads (Ir.parseListEnd context) fun _ _ _ => True := by
  refine (reads_skipWhile _ _).bind fun _ _ => Parse.reads_get fun c => ?_
  refine Parse.reads_advance.bind fun _ t => ?_
  cases t with
  | comma | rparen => exact Parse.reads_pure fun _ _ _ _ => trivial
  | _ => exact Parse.reads_throw _ _

/-- Reads one or more arguments with the closing parenthesis, for their types. -/
def argumentsFrom : Nat → Reader (List Ty)
  | 0 => crash .endless
  | bound + 1 => do
    let t ← parseType
    if ← parseListEnd "call arguments" then return t :: (← argumentsFrom bound)
    else return [t]

/-- Every argument takes a token, so there are no more arguments than tokens. -/
lemma argumentsFrom_eq {bound : Nat} (c : Cursor) (h : c.rest.length < bound) :
    argumentsFrom bound c = ofParse (parseArgumentsFrom bound) c := by
  induction bound generalizing c with
  | zero => exact absurd h (Nat.not_lt_zero _)
  | succ bound ih =>
      rw [argumentsFrom, parseArgumentsFrom, parseType_eq, parseListEnd_eq]
      simp only [ofParse_bind]
      refine run_ofParse_congr reads_parseType fun ts t _ hts _ c' hc' => ?_
      refine run_ofParse_congr (reads_parseListEnd _) fun ts' more _ _ _ c'' hc'' => ?_
      cases more with
      | false => rfl
      | true =>
          have hpos := List.length_pos_iff.mpr hts
          simp only [if_true, ofParse_bind]
          exact run_bind_congr (ih c'' (by omega)) _

/-- Reads the arguments of a call in their parentheses, for their types. -/
def parseArguments : Reader (List Ty) := do
  ofParse (expect .lparen "call arguments")
  if ← ofParse (eat .rparen) then return []
  else argumentsFrom ((← get).rest.length + 1)

lemma parseArguments_eq : parseArguments = ofParse Ir.parseArguments := by
  rw [parseArguments, Ir.parseArguments]
  simp only [ofParse_bind, ofParse_ite, ofParse_pure, ofParse_get]
  refine bind_congr fun _ => bind_congr fun empty => congrArg (ite _ _) ?_
  funext c
  exact argumentsFrom_eq c (Nat.lt_succ_self _)

/-- Reads a call after its opcode. -/
def parseCall (kind : CallKind) (marker : TailMarker) : Reader CallSite := do
  skipAttributes fun c => c.unexpected "call return type"
  let t ← parseType
  let callee ← parseCallee
  let arguments ← parseArguments
  let type := match t.asFunction? with
    | some f => f
    | none => ⟨t, arguments, false⟩
  return ⟨kind, marker, callee, type⟩

lemma parseCall_eq (kind : CallKind) (marker : TailMarker) :
    parseCall kind marker = ofParse (Ir.parseCall kind marker) := by
  rw [parseCall, Ir.parseCall, skipAttributes_eq, parseType_eq, parseCallee_eq, parseArguments_eq]
  simp only [ofParse_bind, ofParse_get, bind_assoc]
  refine bind_congr fun _ => funext fun c => ?_
  rw [run_attributesEnd, run_get]
  cases c.atType with
  | false => rfl
  | true =>
      simp only [if_true, ofParse_bind]
      rfl

/-! ### Instructions -/

/-- Reads an instruction. -/
def parseInstruction : Reader Instruction := do
  let line := (← get).line
  let result ← ofParse parseResult
  let marker ← ofParse parseTail
  let opcode ← ofParse (expectWord "instruction opcode")
  match CallKind.ofOpcode? opcode with
  | some kind => return ⟨line, opcode, result, some (← parseCall kind marker)⟩
  | none => return ⟨line, opcode, result, none⟩

lemma parseInstruction_eq : parseInstruction = ofParse Ir.parseInstruction := by
  rw [parseInstruction, Ir.parseInstruction]
  simp only [ofParse_bind, ofParse_get, parseCall_eq]
  refine bind_congr fun c => bind_congr fun result => bind_congr fun marker =>
    bind_congr fun opcode => ?_
  cases CallKind.ofOpcode? opcode with
  | none => rfl
  | some kind =>
      dsimp only
      rw [ofParse_bind]
      rfl

/-- The instruction that tokens spell. -/
def readInstruction (tokens : List Located) : Except Stop Instruction :=
  runOn parseInstruction tokens

lemma readInstruction_eq (tokens : List Located) :
    readInstruction tokens = (Instruction.read tokens).mapError .refused := by
  rw [readInstruction, parseInstruction_eq]
  exact runOn_ofParse _ tokens

end Direct

end CallGuard.Ir
