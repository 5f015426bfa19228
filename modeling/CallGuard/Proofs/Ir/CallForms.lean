import CallGuard.Proofs.Ir.Groups
import CallGuard.Proofs.Ir.Listing.Tokens
import CallGuard.Proofs.Ir.Ty.Locality

/-!
The forms in which calls are written. Attributes, what is called and what stands behind the
types of arguments are moved over, and of what stands behind a call nothing is read.

* `Attributes`: the attributes before the type of a call.
* `Calls`: the spellings of what is called.
* `SpellsArgument`: the spellings of an argument.
* `CallForm`: the parts of a written call.
* `CallForm.read_of_parts`: a call is read from its parts.
-/

namespace CallGuard.Ir

open Parse TypeGrammar

/-! ### Attributes -/

/-- Attributes: words at which no type starts, each with a group in parentheses or without one,
integers and attribute groups. -/
inductive Attributes : List Token → Prop
  /-- No attribute. -/
  | nil : Attributes []
  /-- A word. -/
  | word {w : String} {ts : List Token} (hw : typeStart [.word w] = false) (h : Attributes ts) :
      Attributes (.word w :: ts)
  /-- A word with a group in parentheses. -/
  | group {w : String} {inner ts : List Token} (hw : typeStart [.word w, .lparen] = false)
      (hinner : Balanced true inner) (h : Attributes ts) :
      Attributes (.word w :: .lparen :: (inner ++ .rparen :: ts))
  /-- An integer. -/
  | integer {text : String} {ts : List Token} (h : Attributes ts) :
      Attributes (.integer text :: ts)
  /-- An attribute group. -/
  | hash {name : String} {ts : List Token} (h : Attributes ts) : Attributes (.hash name :: ts)

/-- The states of the step over attributes, by the number of open brackets. -/
def attributeState : Nat → AttributeState
  | 0 => .plain
  | n + 1 => .inGroup (n + 1)

lemma countsGroups_attributeStep : CountsGroups attributeStep attributeState where
  opening n l ls h := by simp [attributeStep, attributeState, h]
  closing n l ls h := by
    cases n <;> simp [attributeStep, attributeState, h, opensGroup_of_closesGroup h]
  other n l ls hopens hcloses := by simp [attributeStep, attributeState, hopens, hcloses]

/-- Outside all groups, the step goes over attributes up to a type. -/
lemma attributeStep_outside {s : AttributeState} (hs : s = .plain ∨ s = .afterWord) {l : Located}
    (hl : l.token ≠ .lparen) (ls : List Located) :
    attributeStep s l ls =
      if typeStart (l.token :: ls.map Located.token) then none
      else
        match l.token with
        | .word _ => some .afterWord
        | .integer _ | .hash _ => some .plain
        | _ => none := by
  have htype : (Cursor.ofTokens (l :: ls)).atType = typeStart (l.token :: ls.map Located.token) :=
    atType_eq _
  rw [← htype]
  rcases hs with rfl | rfl
  · rfl
  · unfold attributeStep
    split
    · rename_i hinside
      exact absurd hinside (by simp)
    · rename_i hlparen
      exact absurd hlparen hl
    · rfl

lemma typeStart_word {w : String} (hw : typeStart [.word w] = false) {ts : List Token}
    (hts : ts.head? ≠ some .lparen) : typeStart (.word w :: ts) = false := by
  rw [typeStart] at hw ⊢
  split
  · simpa using hts
  · rename_i hne
    rwa [if_neg hne] at hw

/-- Neither an attribute nor a type starts with a parenthesis. -/
lemma Attributes.head?_ne {ts type : List Token} (h : Attributes ts)
    (htype : typeStart type = true) (rest : List Token) :
    (ts ++ (type ++ rest)).head? ≠ some .lparen := by
  cases h with
  | nil =>
      intro hhead
      refine head?_ne_of_typeStart htype (u := .lparen) rfl rest ?_
      rw [← List.nil_append (type ++ rest), hhead]
      rfl
  | _ => simp

/-- Attributes are moved over, up to the type. -/
lemma Attributes.leads {ts type : List Token} (h : Attributes ts)
    (htype : typeStart type = true) (rest : List Token) {s : AttributeState}
    (hs : s = .plain ∨ s = .afterWord) :
    Leads (modify (Cursor.skipWhile attributeStep s)) ts (type ++ rest) (pure ()) := by
  induction h generalizing s with
  | nil =>
      obtain ⟨first, later, rfl⟩ := List.exists_cons_of_ne_nil (ne_nil_of_typeStart htype)
      refine leads_skipWhile_end fun l ls hl hls => ?_
      have hstart : typeStart (l.token :: ls.map Located.token) = true := by
        rw [hl, hls]
        exact typeStart_append htype rest
      have hne : l.token ≠ .lparen := by
        rw [hl]
        rintro rfl
        exact absurd htype (by simp [typeStart])
      rw [attributeStep_outside hs hne, hstart, if_pos rfl]
  | word hw h ih =>
      refine leads_skipWhile_cons .afterWord (by simp) (fun l ls hl hls => ?_) (ih (.inr rfl))
      rw [attributeStep_outside hs (by simp [hl]), hl, hls,
        typeStart_word hw (h.head?_ne htype rest)]
      rfl
  | @group w inner ts hw hinner h ih =>
      refine leads_skipWhile_cons .afterWord (by simp) (fun l ls hl hls => ?_) ?_
      · have hstart : typeStart (l.token :: ls.map Located.token) = false := by
          rw [hl, hls]
          exact hw
        rw [attributeStep_outside hs (by simp [hl]), hstart, hl]
        rfl
      refine leads_skipWhile_cons (attributeState 1) (by simp) (fun l ls hl _ => ?_) ?_
      · simp [attributeStep, hl, attributeState]
      · exact leads_skipWhile_group countsGroups_attributeStep hinner rfl (ih (.inl rfl))
  | integer h ih =>
      refine leads_skipWhile_cons .plain (by simp) (fun l ls hl hls => ?_) (ih (.inl rfl))
      rw [attributeStep_outside hs (by simp [hl]), hl]
      rfl
  | hash h ih =>
      refine leads_skipWhile_cons .plain (by simp) (fun l ls hl hls => ?_) (ih (.inl rfl))
      rw [attributeStep_outside hs (by simp [hl]), hl]
      rfl

/-! ### What is called -/

/-- The spellings of what a call calls. -/
inductive Calls : Callee → List Token → Prop
  /-- A global symbol. -/
  | symbol (name : String) : Calls (.globalSymbol name) [.globalName name]
  /-- A local value. -/
  | value (name : String) : Calls (.localValue name) [.localName name]
  /-- Inline assembly, with words before its text. -/
  | assembly (words : List String) (template constraints : String) :
      Calls .inlineAsm
        (.word "asm" :: (words.map .word ++ [.string template, .comma, .string constraints]))
  /-- A constant that is one keyword. -/
  | keyword {w : String} (hw : w ∈ constantKeywords) : Calls .constant [.word w]
  /-- A symbol behind words. -/
  | wrapped {w : String} (hasm : w ≠ "asm") (hw : w ∉ constantKeywords) (words : List String)
      (name : String) : Calls .constant (.word w :: (words.map .word ++ [.globalName name]))
  /-- A constant expression. -/
  | expression {w : String} (hasm : w ≠ "asm") (hw : w ∉ constantKeywords) (words : List String)
      {o c : Token} {inner : List Token} (ho : o.opensGroup = true)
      (hinner : Balanced true inner) (hc : c.closesGroup = true) :
      Calls .constant (.word w :: (words.map .word ++ o :: (inner ++ [c])))

namespace Calls

variable {callee : Callee} {ts : List Token}

lemma ne_nil (h : Calls callee ts) : ts ≠ [] := by
  cases h <;> simp

/-- What is called is read up to the parenthesis of the arguments. -/
lemma leads (h : Calls callee ts) (rest : List Token) :
    Leads parseCallee ts (.lparen :: rest) (pure callee) := by
  refine leads_get fun c _ => ?_
  cases h with
  | symbol name => exact .bind_cons (leads_advance _ _) (leads_pure _ _)
  | value name => exact .bind_cons (leads_advance _ _) (leads_pure _ _)
  | assembly words template constraints =>
      refine .bind_cons (leads_advance _ _) ?_
      dsimp only
      rw [if_pos rfl]
      refine .bind (leads_skipWords words rfl _) ?_
      exact .bind_cons (leads_expectString template _ _) (.bind_cons (leads_expect .comma _ _)
        (.bind_cons (leads_expectString constraints _ _) (leads_pure Callee.inlineAsm _)))
  | @keyword w hw =>
      have hne : ∀ v ∈ constantKeywords, v ≠ "asm" := by decide
      refine .bind_cons (leads_advance _ _) ?_
      dsimp only
      rw [if_neg (hne w hw), if_pos (List.contains_iff_mem.mpr hw)]
      exact leads_pure _ _
  | wrapped hasm hw words name =>
      refine .bind_cons (leads_advance _ _) ?_
      dsimp only
      rw [if_neg hasm, if_neg fun hmem => hw (List.contains_iff_mem.mp hmem)]
      refine .bind (leads_skipWords words rfl _) (leads_peek rfl ?_)
      exact .bind_cons (leads_advance _ _) (leads_pure Callee.constant _)
  | @expression w hasm hw words o close inner ho hinner hc =>
      refine .bind_cons (leads_advance _ _) ?_
      dsimp only
      rw [if_neg hasm, if_neg fun hmem => hw (List.contains_iff_mem.mp hmem)]
      have hgroup := leads_skipGroup ho hinner hc .lparen rest
      cases o with
      | lparen | lbracket | lbrace | less =>
          refine .bind (leads_skipWords words rfl _) (leads_peek rfl ?_)
          exact hgroup.bind_end (leads_pure Callee.constant _)
      | _ => exact absurd ho Bool.false_ne_true

/-- Behind a word for an address space, a group is called. -/
lemma two_lt_length (h : Calls callee ts) {rest : List Token}
    (hword : ts.head? = some (.word "addrspace"))
    (hnext : (ts ++ .lparen :: rest)[1]? = some .lparen) : 2 < ts.length := by
  cases h with
  | symbol | value | assembly => simp at hword
  | @keyword w hw =>
      have hne : ∀ v ∈ constantKeywords, v ≠ "addrspace" := by decide
      exact absurd (by simpa using hword) (hne w hw)
  | wrapped _ _ words name => cases words <;> simp at hnext
  | expression _ _ words =>
      simp only [List.length_cons, List.length_append, List.length_nil]
      omega

/-- What is called goes on with a type only if it does so on its own. -/
lemma not_extends (h : Calls callee ts) {type : List Token} (htype : ¬ Extends type ts)
    (rest : List Token) : ¬ Extends type (ts ++ .lparen :: rest) := by
  have hhead : (ts ++ .lparen :: rest).head? = ts.head? := by
    obtain ⟨first, later, rfl⟩ := List.exists_cons_of_ne_nil h.ne_nil
    rfl
  rintro ((hstar | hlparen | ⟨hword, hnext, hclose, hstar⟩) | ⟨hptr, hword⟩)
  · exact htype (.inl (.inl (hhead ▸ hstar)))
  · exact htype (.inl (.inr (.inl (hhead ▸ hlparen))))
  · rw [hhead] at hword
    have hlength := h.two_lt_length hword hnext
    by_cases hlong : 4 < ts.length
    · rw [List.getElem?_append_left (by omega)] at hnext hclose hstar
      exact htype (.inl (.inr (.inr ⟨hword, hnext, hclose, hstar⟩)))
    -- the parenthesis of the arguments stands where the suffix would end
    · rcases (show ts.length = 3 ∨ ts.length = 4 by omega) with hthree | hfour
      · rw [List.getElem?_append_right (by omega), hthree] at hclose
        exact absurd hclose (by simp)
      · rw [List.getElem?_append_right (by omega), hfour] at hstar
        exact absurd hstar (by simp)
  · exact htype (.inr ⟨hptr, hhead ▸ hword⟩)

end Calls

/-! ### Arguments -/

/-- The end of an entry of a list, behind the type. -/
lemma leads_parseListEnd (context : String) {ts : List Token} (hts : Balanced false ts)
    (more : Bool) (rest : List Token) :
    Leads (parseListEnd context) (ts ++ [if more then .comma else .rparen]) rest (pure more) := by
  cases more with
  | true =>
      refine .bind (leads_skipToDelimiter hts (.inl rfl) rest) (leads_get fun c _ => ?_)
      exact .bind_cons (leads_advance .comma rest) (leads_pure true rest)
  | false =>
      refine .bind (leads_skipToDelimiter hts (.inr rfl) rest) (leads_get fun c _ => ?_)
      exact .bind_cons (leads_advance .rparen rest) (leads_pure false rest)

/-- The tokens `ts` spell an argument of the type `t`: a spelling of its type, and behind it
balanced tokens that do not go on with a type. -/
def SpellsArgument (ts : List Token) (t : Ty) : Prop :=
  ∃ type later, ts = type ++ later ∧ SpellsType type t ∧ Balanced false later ∧ TypeEnds later

namespace SpellsArgument

variable {ts : List Token} {t : Ty}

lemma typeStart (h : SpellsArgument ts t) : TypeGrammar.typeStart ts = true := by
  obtain ⟨type, later, rfl, htype, -⟩ := h
  exact typeStart_append htype.typeStart later

/-- An argument, up to what stands behind it. -/
lemma leads (h : SpellsArgument ts t) (more : Bool) {ts' rest : List Token} {β : Type}
    {f : Bool → Ty → Parse β} {q : Parse β} (hf : Leads (f more t) ts' rest q) :
    Leads (do
        let t ← parseType
        let more ← parseListEnd "call arguments"
        f more t)
      (ts ++ (if more then .comma else .rparen) :: ts') rest q := by
  obtain ⟨type, later, rfl, htype, hlater, hends⟩ := h
  have hnext : ¬ Extends type (later ++ (if more then .comma else .rparen) :: (ts' ++ rest)) := by
    refine not_extends_of_typeEnds _ fun u hu => ?_
    cases later with
    | nil =>
        obtain rfl := Option.some.inj hu
        cases more <;> decide
    | cons v later => exact hends u hu
  rw [List.append_assoc]
  refine .bind (htype.leads_parseType ?_) ?_
  · rwa [List.append_assoc]
  rw [List.append_cons]
  exact .bind (leads_parseListEnd _ hlater more _) hf

end SpellsArgument

/-- The tokens of arguments in their parentheses. -/
def argumentListTokens (tss : List (List Token)) : List Token :=
  .lparen :: ([Token.comma].intercalate tss ++ [.rparen])

/-- One or more arguments and the parenthesis that closes them. -/
lemma leads_parseArgumentsFrom {ts : List Token} {tss : List (List Token)} {t : Ty}
    {types : List Ty} (h : List.Forall₂ SpellsArgument (ts :: tss) (t :: types)) {bound : Nat}
    (hbound : tss.length < bound) (rest : List Token) :
    Leads (parseArgumentsFrom bound) ([Token.comma].intercalate (ts :: tss) ++ [.rparen]) rest
      (pure (t :: types)) := by
  induction tss generalizing ts t types bound with
  | nil =>
      obtain ⟨bound, rfl⟩ : ∃ k, bound = k + 1 := ⟨bound - 1, by omega⟩
      obtain ⟨hts, hnone⟩ := List.forall₂_cons.mp h
      obtain rfl := List.forall₂_nil_left_iff.mp hnone
      rw [parseArgumentsFrom, List.intercalate_singleton]
      exact hts.leads false (leads_pure [t] rest)
  | cons ts' tss ih =>
      rw [List.length_cons] at hbound
      obtain ⟨bound, rfl⟩ : ∃ k, bound = k + 1 := ⟨bound - 1, by omega⟩
      obtain ⟨hts, hlater⟩ := List.forall₂_cons.mp h
      obtain ⟨t', types, ht', htypes, rfl⟩ := List.forall₂_cons_left_iff.mp hlater
      have hmore := @ih ts' t' types (.cons ht' htypes) bound (by omega)
      rw [parseArgumentsFrom, List.intercalate_cons_cons, List.append_assoc, List.append_assoc]
      exact hts.leads true (hmore.bind_end (leads_pure (t :: t' :: types) rest))

/-- Every argument but the first one has a comma before it. -/
lemma length_le_intercalate (ts : List Token) (tss : List (List Token)) :
    tss.length ≤ ([Token.comma].intercalate (ts :: tss)).length := by
  induction tss generalizing ts with
  | nil => exact Nat.zero_le _
  | cons ts' tss ih =>
      have hlater := ih ts'
      rw [List.intercalate_cons_cons, List.length_append, List.length_append, List.length_cons,
        List.length_singleton]
      omega

/-- Arguments in their parentheses are read as their types. -/
lemma leads_parseArguments {tss : List (List Token)} {types : List Ty}
    (h : List.Forall₂ SpellsArgument tss types) (rest : List Token) :
    Leads parseArguments (argumentListTokens tss) rest (pure types) := by
  refine .bind_cons (leads_expect .lparen _ _) ?_
  cases h with
  | nil => exact .bind_cons (leads_eat .rparen _) (leads_pure [] rest)
  | @cons ts t tss types hts hlater =>
      obtain ⟨later, hfirst⟩ : ∃ later, [Token.comma].intercalate (ts :: tss) = ts ++ later := by
        cases tss with
        | nil => exact ⟨[], by rw [List.intercalate_singleton, List.append_nil]⟩
        | cons => exact ⟨_, by rw [List.intercalate_cons_cons, List.append_assoc]⟩
      refine .bind_nil (leads_eat_of_ne ?_) ?_
      · rw [hfirst, List.append_assoc, List.append_assoc]
        exact head?_ne_of_typeStart hts.typeStart rfl _
      · rw [if_neg Bool.false_ne_true]
        refine leads_get fun c hc => leads_parseArgumentsFrom (.cons hts hlater) ?_ rest
        have hlength := congrArg List.length hc
        have hcommas := length_le_intercalate ts tss
        rw [Cursor.ahead, List.length_map, List.length_append, List.length_append] at hlength
        omega

/-! ### Instructions -/

/-- The name of a result, before a word. -/
lemma leads_parseResult_word (result : Option String) (w : String) (rest : List Token) :
    Leads parseResult (Listing.Instruction.resultTokens result) (.word w :: rest)
      (pure result) := by
  refine leads_get fun c hc => ?_
  cases result with
  | none =>
      have hpeek : c.peek = .word w := by
        rw [Cursor.peek_eq, hc]
        rfl
      rw [hpeek]
      exact leads_pure none _
  | some name =>
      have hpeek : c.peek = .localName name := by
        rw [Cursor.peek_eq, hc]
        rfl
      have hnext : c.peekAt 1 = .equals := by
        rw [Cursor.peekAt_eq, hc]
        rfl
      rw [hpeek]
      simp only [hnext, if_true]
      exact .bind_cons (leads_advance _ _)
        (.bind_cons (leads_advance _ _) (leads_pure (some name) _))

/-- A word that is no tail marker. -/
lemma leads_parseTail_none {w : String} (hw : TailMarker.ofWord? w = none) (rest : List Token) :
    Leads parseTail [] (.word w :: rest) (pure .none) := by
  refine leads_peek rfl ?_
  simp only [Token.word?, Option.bind_some, hw]
  exact leads_pure _ _

lemma leads_parseTail_some {marker : TailMarker} (h : marker ≠ .none) (rest : List Token) :
    Leads parseTail [.word marker.keyword] rest (pure marker) := by
  have hword : TailMarker.ofWord? marker.keyword = some marker := by
    cases marker with
    | none => exact absurd rfl h
    | _ => decide
  refine leads_peek rfl ?_
  simp only [Token.word?, Option.bind_some, hword]
  exact .bind_cons (leads_advance _ rest) (leads_pure marker rest)

lemma leads_expectWord (w context : String) (rest : List Token) :
    Leads (expectWord context) [.word w] rest (pure w) :=
  .bind_cons (leads_advance _ rest) (leads_pure w rest)

/-- Reads an opcode and what stands behind it. -/
def parseOperation (line : Nat) (result : Option String) (marker : TailMarker) :
    Parse Ir.Instruction := do
  let opcode ← expectWord "instruction opcode"
  match CallKind.ofOpcode? opcode with
  | some kind => return ⟨line, opcode, result, some (← parseCall kind marker)⟩
  | none => return ⟨line, opcode, result, none⟩

lemma parseInstruction_eq :
    parseInstruction = (get >>= fun c => do
      let result ← parseResult
      let marker ← parseTail
      parseOperation c.line result marker) := rfl

/-! ### Calls -/

/-- The parts of a written call. -/
structure CallForm where
  /-- The name of its result. -/
  result : Option String
  /-- The tail marker. -/
  marker : TailMarker
  /-- The instruction. -/
  kind : CallKind
  /-- The attributes. -/
  attributes : List Token
  /-- They are attributes. -/
  isAttributes : Attributes attributes
  /-- The spelling of the type. -/
  typeTokens : List Token
  /-- The type. -/
  type : Ty
  /-- It is spelt so. -/
  isType : SpellsType typeTokens type
  /-- The spelling of what is called. -/
  calleeTokens : List Token
  /-- What is called. -/
  callee : Callee
  /-- It is spelt so. -/
  isCallee : Calls callee calleeTokens
  /-- What is called does not go on with the type. -/
  apart : ¬ Extends typeTokens calleeTokens
  /-- The spellings of the arguments. -/
  argumentTokens : List (List Token)
  /-- The types of the arguments. -/
  arguments : List Ty
  /-- They are spelt so. -/
  isArguments : List.Forall₂ SpellsArgument argumentTokens arguments

namespace CallForm

/-- The tokens behind the opcode. -/
def operandTokens (c : CallForm) : List Token :=
  c.attributes ++ (c.typeTokens ++ (c.calleeTokens ++ argumentListTokens c.argumentTokens))

/-- The tokens of the call. -/
def tokens (c : CallForm) : List Token :=
  Listing.Instruction.resultTokens c.result ++
    ((if c.marker = .none then [] else [.word c.marker.keyword]) ++
      .word c.kind.opcode :: c.operandTokens)

/-- The function type that the call is made through: the written type, if it is a function type,
or else that of the arguments and the written result. -/
def functionType (c : CallForm) : FunctionType :=
  c.type.asFunction?.getD ⟨c.type, c.arguments, false⟩

/-- The call itself. -/
def site (c : CallForm) : CallSite :=
  ⟨c.kind, c.marker, c.callee, c.functionType⟩

/-- The call as an instruction on the given line. -/
def instruction (c : CallForm) (line : Nat) : Instruction :=
  ⟨line, c.kind.opcode, c.result, some c.site⟩

/-- Reading a call behind its opcode. -/
lemma leads_parseCall (c : CallForm) (rest : List Token) :
    Leads (parseCall c.kind c.marker) c.operandTokens rest (pure c.site) := by
  have hattributes : Leads skipAttributes c.attributes
      (c.typeTokens ++ (c.calleeTokens ++ argumentListTokens c.argumentTokens) ++ rest)
      (pure ()) := by
    rw [List.append_assoc]
    exact c.isAttributes.leads c.isType.typeStart _ (.inl rfl)
  have hcallee : ¬ Extends c.typeTokens
      (c.calleeTokens ++ argumentListTokens c.argumentTokens ++ rest) := by
    rw [List.append_assoc]
    exact c.isCallee.not_extends c.apart _
  refine .bind hattributes (leads_get fun cursor hcursor => ?_)
  have hstart : cursor.atType = true := by
    rw [atType_eq, hcursor, List.append_assoc]
    exact typeStart_append c.isType.typeStart _
  rw [hstart]
  refine .bind (c.isType.leads_parseType hcallee) (.bind (c.isCallee.leads _) ?_)
  refine .bind_end (leads_parseArguments c.isArguments rest) ?_
  rw [site, functionType]
  cases c.type.asFunction? with
  | some f => exact leads_pure _ rest
  | none => exact leads_pure _ rest

/-- Reading a call with its tail marker. -/
lemma leads_marked (c : CallForm) (line : Nat) (rest : List Token) :
    Leads (do
        let marker ← parseTail
        parseOperation line c.result marker)
      ((if c.marker = .none then [] else [.word c.marker.keyword]) ++
        .word c.kind.opcode :: c.operandTokens) rest (pure (c.instruction line)) := by
  have hkind : CallKind.ofOpcode? c.kind.opcode = some c.kind := by cases c.kind <;> decide
  have hoperation : Leads (parseOperation line c.result c.marker)
      (.word c.kind.opcode :: c.operandTokens) rest (pure (c.instruction line)) := by
    refine .bind_cons (leads_expectWord c.kind.opcode _ _) ?_
    rw [hkind]
    exact .bind_end (c.leads_parseCall rest) (leads_pure _ rest)
  split
  · rename_i hmarker
    have hword : TailMarker.ofWord? c.kind.opcode = none := by cases c.kind <;> decide
    exact .bind_nil (leads_parseTail_none hword _) (hmarker ▸ hoperation)
  · rename_i hmarker
    exact .bind (leads_parseTail_some hmarker _) hoperation

/-- **Calls are read from their parts.** Whatever attributes stand before the type of a call, and
whatever stands behind the types of its arguments and behind the call, the call is read with its
result, its tail marker, its kind, what it calls and its function type. -/
theorem read_of_parts (c : CallForm) {l : Located} {ls : List Located} {rest : List Token}
    (hls : (l :: ls).map Located.token = c.tokens ++ rest) :
    Instruction.read (l :: ls) = .ok (c.instruction l.line) := by
  have hlead : Leads (do
      let result ← parseResult
      let marker ← parseTail
      parseOperation l.line result marker) c.tokens rest
      (pure (c.instruction l.line)) := by
    refine .bind ?_ (c.leads_marked l.line rest)
    by_cases hmarker : c.marker = .none
    · rw [if_pos hmarker]
      exact leads_parseResult_word c.result _ _
    · rw [if_neg hmarker]
      exact leads_parseResult_word c.result _ _
  obtain ⟨read, left, heq, hread, hleft⟩ := List.map_eq_append_iff.mp hls
  rw [Instruction.read, runOn, EStateM.run, Cursor.ofTokens, parseInstruction_eq, run_get]
  have hrun := hlead [] read left hread hleft
  rw [← heq] at hrun
  have hline : (⟨[], l :: ls⟩ : Cursor).line = l.line := rfl
  rw [hline, hrun]
  rfl

/-- The call of `bitcast (ptr @g to ptr)` with two arguments, for a pointer to a function. -/
def bitcastCall : CallForm where
  result := some "r"
  marker := .tail
  kind := .call
  attributes := [.word "range", .lparen, .word "i32", .integer "0", .comma, .integer "10",
    .rparen, .hash "4"]
  isAttributes := .group rfl (.token (by simp) rfl rfl (by simp) (.token (by simp) rfl rfl
    (by simp) (.token (by simp) rfl rfl (by simp) (.token (by simp) rfl rfl (by simp) .nil))))
    (.hash .nil)
  typeTokens := [.word "void", .lparen, .word "i32", .rparen, .star]
  type := .pointer (.func .void [.int 32] false) 0
  isType := ⟨[⟨.word "void", 1, 1, 0, 0⟩, ⟨.lparen, 1, 1, 0, 0⟩, ⟨.word "i32", 1, 1, 0, 0⟩,
    ⟨.rparen, 1, 1, 0, 0⟩, ⟨.star, 1, 1, 0, 0⟩], _, rfl, rfl, rfl⟩
  calleeTokens := [.word "bitcast", .lparen, .word "ptr", .globalName "g", .word "to",
    .word "ptr", .rparen]
  callee := .constant
  isCallee := .expression (by decide) (by decide) [] rfl (.token (by simp) rfl rfl (by simp)
    (.token (by simp) rfl rfl (by simp) (.token (by simp) rfl rfl (by simp)
      (.token (by simp) rfl rfl (by simp) .nil)))) rfl
  apart := not_extends_of_typeEnds _ (typeEnds_cons (by decide) _)
  argumentTokens := [[.word "ptr", .word "byval", .lparen, .localName "s", .rparen,
    .localName "p"], [.word "i32", .localName "x"]]
  arguments := [.ptr 0, .int 32]
  isArguments := .cons
    ⟨[.word "ptr"], _, rfl, ⟨[⟨.word "ptr", 1, 1, 0, 0⟩], _, rfl, rfl, rfl⟩,
      .token (by simp) rfl rfl (by simp) (@Balanced.group _ _ _ [_] _ rfl
        (.token (by simp) rfl rfl (by simp) .nil) rfl (balanced_localName "p")),
      typeEnds_cons (by decide) _⟩
    (.cons ⟨[.word "i32"], _, rfl, ⟨[⟨.word "i32", 1, 1, 0, 0⟩], _, rfl, rfl, rfl⟩,
      balanced_localName "x", typeEnds_cons (by decide) _⟩ .nil)

theorem read_of_parts_bitcastCall :
    Instruction.read (([.localName "r", .equals, .word "tail", .word "call",
      .word "range", .lparen, .word "i32", .integer "0", .comma, .integer "10", .rparen, .hash "4",
      .word "void", .lparen, .word "i32", .rparen, .star,
      .word "bitcast", .lparen, .word "ptr", .globalName "g", .word "to", .word "ptr", .rparen,
      .lparen, .word "ptr", .word "byval", .lparen, .localName "s", .rparen, .localName "p",
      .comma, .word "i32", .localName "x", .rparen,
      .comma, .metadata "dbg", .metadata "17"] : List Token).map fun t => ⟨t, 7, 1, 0, 0⟩) =
    .ok ⟨7, "call", some "r", some ⟨.call, .tail, .constant,
      ⟨.pointer (.func .void [.int 32] false) 0, [.ptr 0, .int 32], false⟩⟩⟩ :=
  @read_of_parts bitcastCall _ _ [.comma, .metadata "dbg", .metadata "17"] rfl

end CallForm

end CallGuard.Ir
