import CallGuard.Proofs.Ir.Listing.Written

/-!
The tokens of written modules.

* `Listing.Call.tokens`, `Listing.Instruction.tokens`, `Listing.itemTokens`,
  `Listing.Header.tokens`: the tokens of the parts of functions.
* `Listing.spells_item`, `Listing.Header.spells_print`: they are what these parts are read as.
-/

namespace CallGuard.Ir

namespace Listing

/-! ### Calls -/

namespace Target

/-- The tokens of what is called. -/
def tokens : Target → List Token
  | symbol name => [.globalName name]
  | value name => [.localName name]
  | assembly template constraints =>
    [.word "asm", .string template, .comma, .string constraints]
  | constant keyword _ => [.word keyword]

lemma spells_print (t : Target) {rest : List Char} (hrest : WordEnds rest) :
    Spells t.print t.tokens rest := by
  cases t with
  | symbol name =>
      have hname := @spells_name '@' .globalName rfl name.toList rest hrest
      rwa [String.ofList_toList] at hname
  | value name =>
      have hname := @spells_name '%' .localName rfl name.toList rest hrest
      rwa [String.ofList_toList] at hname
  | assembly template constraints =>
      have htemplate := @spells_string template.toList
        (',' :: ' ' :: Name.printQuoted constraints.toList ++ rest) (by simp)
      have hconstraints := @spells_string constraints.toList rest fun h => (hrest.ne h).2 rfl
      rw [String.ofList_toList] at htemplate hconstraints
      exact .append_cons (spells_keyword (by decide) rfl) (.blank (.append_cons htemplate
        (.cons (spells_punctuation rfl _) (.blank hconstraints))))
  | constant keyword isConstant =>
      have hplain : ∀ w ∈ constantKeywords, isPlainWord w.toList := by decide
      exact spells_keyword (hplain keyword isConstant) hrest

end Target

/-- The tokens of an argument. -/
def argumentTokens (a : Ty × String) : List Token :=
  a.1.tokens ++ [.localName a.2]

/-- The tokens of further arguments with the closing parenthesis. -/
def moreArgumentTokens : List (Ty × String) → List Token
  | [] => [.rparen]
  | a :: as => .comma :: (argumentTokens a ++ moreArgumentTokens as)

/-- The tokens of arguments with the closing parenthesis. -/
def argumentsTokens : List (Ty × String) → List Token
  | [] => [.rparen]
  | a :: as => argumentTokens a ++ moreArgumentTokens as

lemma spells_argument (a : Ty × String) {rest : List Char} (hrest : WordEnds rest) :
    Spells (printArgument a) (argumentTokens a) rest := by
  have hname := @spells_name '%' .localName rfl a.2.toList rest hrest
  rw [String.ofList_toList] at hname
  exact .append (Ty.spells_print a.1 rfl) (.blank hname)

lemma spells_moreArguments (as : List (Ty × String)) (rest : List Char) :
    Spells (printMoreArguments as) (moreArgumentTokens as) rest := by
  induction as with
  | nil => exact spells_punctuation rfl rest
  | cons a as ih =>
      have hend : WordEnds (printMoreArguments as ++ rest) := by cases as <;> rfl
      exact .cons (spells_punctuation rfl _) (.blank (.append (spells_argument a hend) ih))

lemma spells_arguments (as : List (Ty × String)) (rest : List Char) :
    Spells (printArguments as) (argumentsTokens as) rest := by
  cases as with
  | nil => exact spells_punctuation rfl rest
  | cons a as =>
      have hend : WordEnds (printMoreArguments as ++ rest) := by cases as <;> rfl
      exact .append (spells_argument a hend) (spells_moreArguments as rest)

namespace Call

/-- The tokens of a call behind its opcode. -/
def operandTokens (c : Call) : List Token :=
  c.written.tokens ++ (c.target.tokens ++ .lparen :: argumentsTokens c.arguments)

/-- The tokens of a call. -/
def tokens (c : Call) : List Token :=
  (if c.tail = .none then [] else [.word c.tail.keyword]) ++ .word c.kind.opcode :: c.operandTokens

lemma spells_print (c : Call) (rest : List Char) : Spells c.print c.tokens rest := by
  have hopcode : isPlainWord c.kind.opcode.toList := by cases c.kind <;> decide
  have htail : isPlainWord c.tail.keyword.toList := by cases c.tail <;> decide
  have hcall : Spells (c.kind.opcode.toList ++ ' ' :: (c.written.print ++
      ' ' :: (c.target.print ++ '(' :: printArguments c.arguments)))
      (.word c.kind.opcode :: c.operandTokens) rest :=
    .append_cons (spells_keyword hopcode rfl) (.blank (.append (Ty.spells_print c.written rfl)
      (.blank (.append (c.target.spells_print rfl) (.cons (spells_punctuation rfl _)
        (spells_arguments c.arguments rest))))))
  rw [print, tokens]
  split
  · exact hcall
  · rw [List.append_assoc]
    exact .append_cons (spells_keyword htail rfl) (.blank hcall)

end Call

/-! ### Instructions -/

namespace Operation

/-- The tokens of an operation. -/
def tokens : Operation → List Token
  | plain opcode _ => [.word opcode]
  | call c => c.tokens

end Operation

namespace Instruction

/-- The tokens of the result of an instruction. -/
def resultTokens : Option String → List Token
  | none => []
  | some name => [.localName name, .equals]

/-- The tokens of an instruction. -/
def tokens (i : Instruction) : List Token :=
  resultTokens i.result ++ i.operation.tokens

lemma isPlainWord_of_mem_opcodes : ∀ w ∈ opcodes, isPlainWord w.toList := by
  decide

lemma spells_print (i : Instruction) {rest : List Char} (hrest : WordEnds rest) :
    Spells i.print i.tokens rest := by
  have hoperation : Spells i.operation.print i.operation.tokens rest := by
    cases i.operation with
    | plain opcode isPlain =>
        exact spells_keyword (isPlainWord_of_mem_opcodes opcode isPlain.1) hrest
    | call c => exact c.spells_print rest
  rw [print, tokens]
  cases i.result with
  | none => exact hoperation
  | some name =>
      have hname (rest : List Char) := @spells_name '%' .localName rfl name.toList (' ' :: rest) rfl
      rw [String.ofList_toList] at hname
      rw [printResult, resultTokens, List.cons_append, List.append_assoc, ← List.cons_append]
      exact .append_cons (hname _) (.blank (.cons (spells_punctuation rfl _) (.blank hoperation)))

end Instruction

lemma spells_blanks (n : Nat) {s rest : List Char} {ts : List Token} (h : Spells s ts rest) :
    Spells (List.replicate n ' ' ++ s) ts rest := by
  induction n with
  | zero => exact h
  | succ n ih => exact .blank ih

/-- The tokens of a line of a body. -/
def itemTokens : BodyItem Instruction → List Token
  | .label name => [.label name]
  | .instruction i => i.tokens

lemma spells_item (indent : Nat) (item : BodyItem Instruction) (rest : List Char) :
    Spells (printItem indent item) (itemTokens item) ('\n' :: rest) := by
  cases item with
  | label name =>
      have hlabel := spells_label name.toList ('\n' :: rest)
      rwa [String.ofList_toList] at hlabel
  | instruction i => exact spells_blanks indent (i.spells_print rfl)

/-! ### Functions -/

namespace Header

/-- The tokens of a header. -/
def tokens (h : Header) : List Token :=
  h.type.ret.tokens ++ .globalName h.name ::
    .lparen :: Ty.paramTokens h.type.params h.type.variadic

lemma spells_print (h : Header) (rest : List Char) : Spells h.print h.tokens rest := by
  have hname (rest : List Char) := @spells_name '@' .globalName rfl h.name.toList ('(' :: rest) rfl
  rw [String.ofList_toList] at hname
  rw [print, tokens, ← List.cons_append]
  exact .append (Ty.spells_print h.type.ret rfl) (.blank (.append_cons (hname _)
    (.cons (spells_punctuation rfl _) (Ty.spells_printParams _ _ rest))))

end Header

end Listing

end CallGuard.Ir
