import CallGuard.Ir.Ty.Printer
import CallGuard.Proofs.Ir.Lexing

/-!
The tokens of types. A type that is written is read as the tokens of its parts.

* `Ty.tokens`: the tokens of a type.
* `Ty.spells_print`: they are what the written type is read as.
* `Ty.exists_first`: with which tokens types start.
-/

namespace CallGuard.Ir

namespace Ty

/-! ### Equations of the written form -/

/-- The characters behind the last parameter, with the closing parenthesis. -/
def printVariadic (variadic : Bool) : List Char :=
  if variadic then ", ...)".toList else [')']

/-- The characters of a parameter list after its opening parenthesis. -/
def printParams : List Ty → Bool → List Char
  | [], variadic => if variadic then "...)".toList else [')']
  | t :: ts, variadic => t.print ++ (printAfterComma ts ++ printVariadic variadic)

section Equations

variable (t element ret : Ty) (ts : List Ty) (space : UInt32) (length : UInt64) (flag : Bool)

lemma print_keyword (kind : KeywordType) : (keyword kind).print = kind.keyword.toList := rfl

lemma print_int (bits : UInt32) : (int bits).print = 'i' :: Text.decimal bits.toNat := rfl

lemma print_ptr : (ptr space).print = "ptr".toList ++ printSpace space := rfl

lemma print_pointer :
    (pointer t space).print = t.print ++ (printSpace space ++ ['*']) :=
  List.append_assoc _ _ _

lemma print_array :
    (array length element).print = '[' :: (Text.decimal length.toNat ++ " x ".toList ++
      element.print ++ [']']) := rfl

lemma print_vector :
    (vector length flag element).print = '<' :: ((if flag then "vscale x ".toList else []) ++
      Text.decimal length.toNat ++ " x ".toList ++ element.print ++ ['>']) := rfl

lemma print_struct_nil :
    (struct flag []).print =
      if flag then ['<', '\x7b', '\x7d', '>'] else ['\x7b', '\x7d'] := rfl

lemma print_struct_cons :
    (struct flag (t :: ts)).print =
      if flag then
        '<' :: ('\x7b' :: ' ' :: (t.print ++ (printAfterComma ts ++ [' ', '\x7d'])) ++ ['>'])
      else '\x7b' :: ' ' :: (t.print ++ (printAfterComma ts ++ [' ', '\x7d'])) := by
  rw [← List.append_assoc]
  rfl

lemma print_named (name : String) : (named name).print = '%' :: Name.print name.toList := rfl

lemma print_numbered (number : UInt32) :
    (numbered number).print = '%' :: Text.decimal number.toNat := rfl

lemma print_func : (func ret ts flag).print = ret.print ++ ' ' :: '(' :: printParams ts flag := by
  cases ts with
  | nil =>
      change ret.print ++ [' ', '('] ++ (if flag then "...".toList else []) ++ [')'] = _
      rw [List.append_assoc, List.append_assoc]
      cases flag <;> rfl
  | cons t ts =>
      change ret.print ++ [' ', '('] ++
        (t.print ++ printAfterComma ts ++ (if flag then ", ...".toList else [])) ++ [')'] = _
      simp only [List.append_assoc]
      cases flag <;> rfl

lemma print_target (name : String) (ints : List UInt32) :
    (target name ts ints).print = "target(".toList ++ (Name.printQuoted name.toList ++
      (printAfterComma ts ++ (ints.flatMap (fun n => [',', ' '] ++ Text.decimal n.toNat) ++
        [')']))) := by
  simp only [← List.append_assoc]
  rfl

lemma printAfterComma_nil : printAfterComma [] = [] := rfl

lemma printAfterComma_cons :
    printAfterComma (t :: ts) = ',' :: ' ' :: (t.print ++ printAfterComma ts) := rfl

end Equations

/-! ### Tokens -/

/-- The tokens of the address space of a pointer. -/
def spaceTokens (space : UInt32) : List Token :=
  if space = 0 then [] else [.word "addrspace", .lparen, numeral space.toNat, .rparen]

mutual

/-- The tokens of a type. -/
def tokens : Ty → List Token
  | .keyword kind => [.word kind.keyword]
  | .int bits => [.word (String.ofList ('i' :: Text.decimal bits.toNat))]
  | .ptr space => .word "ptr" :: spaceTokens space
  | .pointer pointee space => pointee.tokens ++ (spaceTokens space ++ [.star])
  | .array length element =>
    .lbracket :: numeral length.toNat :: .word "x" :: (element.tokens ++ [.rbracket])
  | .vector length scalable element =>
    .less :: ((if scalable then [.word "vscale", .word "x"] else []) ++
      numeral length.toNat :: .word "x" :: (element.tokens ++ [.greater]))
  | .struct packed fields =>
    let body := match fields with
      | [] => [.lbrace, .rbrace]
      | field :: rest => .lbrace :: (field.tokens ++ (tokensAfterComma rest ++ [.rbrace]))
    if packed then .less :: (body ++ [.greater]) else body
  | .named name => [.localName name]
  | .numbered number => [.localName (String.ofList (Text.decimal number.toNat))]
  | .func ret params variadic =>
    let list := match params with
      | [] => if variadic then [.ellipsis] else []
      | param :: rest =>
        param.tokens ++ (tokensAfterComma rest ++ if variadic then [.comma, .ellipsis] else [])
    ret.tokens ++ .lparen :: (list ++ [.rparen])
  | .target name types ints =>
    .word "target" :: .lparen :: .string name :: (tokensAfterComma types ++
      (ints.flatMap (fun n => [.comma, numeral n.toNat]) ++ [.rparen]))

/-- The tokens of types that each follow a comma. -/
def tokensAfterComma : List Ty → List Token
  | [] => []
  | t :: ts => .comma :: (t.tokens ++ tokensAfterComma ts)

end

/-- The tokens behind the last parameter, with the closing parenthesis. -/
def variadicTokens (variadic : Bool) : List Token :=
  if variadic then [.comma, .ellipsis, .rparen] else [.rparen]

/-- The tokens of a parameter list after its opening parenthesis. -/
def paramTokens : List Ty → Bool → List Token
  | [], variadic => if variadic then [.ellipsis, .rparen] else [.rparen]
  | t :: ts, variadic => t.tokens ++ (tokensAfterComma ts ++ variadicTokens variadic)

lemma tokens_func (ret : Ty) (ps : List Ty) (variadic : Bool) :
    (func ret ps variadic).tokens = ret.tokens ++ .lparen :: paramTokens ps variadic := by
  cases ps <;> cases variadic <;> simp [tokens, paramTokens, variadicTokens]

/-! ### Written types -/

lemma isPlainWord_keyword (kind : KeywordType) : isPlainWord kind.keyword.toList := by
  cases kind <;> decide

lemma isPlainWord_int (n : Nat) : isPlainWord ('i' :: Text.decimal n) := by
  have hdigits : ∀ c ∈ Text.decimal n, isWordChar c := fun c hc =>
    isWordChar_of_isDigit (Nat.isDigit_of_mem_toDigits (by omega) (by omega) hc)
  have hi : isWordChar 'i' := by decide
  simpa [isPlainWord, hi] using hdigits

lemma spells_printSpace (space : UInt32) (rest : List Char) :
    Spells (printSpace space) (spaceTokens space) rest := by
  rw [printSpace, spaceTokens]
  split
  · exact .nil rest
  · have hword : " addrspace(".toList = ' ' :: ("addrspace".toList ++ ['(']) := by decide
    simp only [hword, List.cons_append, List.append_assoc, List.nil_append]
    exact .blank (.append_cons (spells_keyword (by decide) rfl)
      (.cons (spells_punctuation rfl _) (.append_cons (spells_decimal _ rfl)
        (spells_punctuation rfl rest))))

lemma wordEnds_printSpace (space : UInt32) {rest : List Char} (hrest : WordEnds rest) :
    WordEnds (printSpace space ++ rest) := by
  rw [printSpace]
  split
  · exact hrest
  · have hword : " addrspace(".toList = ' ' :: "addrspace(".toList := by decide
    rw [hword]
    rfl

lemma wordEnds_printAfterComma (ts : List Ty) {rest : List Char} (hrest : WordEnds rest) :
    WordEnds (printAfterComma ts ++ rest) := by
  cases ts with
  | nil => exact hrest
  | cons t ts => rfl

/-- Numbers that each follow a comma. -/
lemma spells_ints (ns : List UInt32) {rest : List Char} (hrest : WordEnds rest) :
    Spells (ns.flatMap fun n => [',', ' '] ++ Text.decimal n.toNat)
      (ns.flatMap fun n => [.comma, numeral n.toNat]) rest := by
  induction ns with
  | nil => exact .nil rest
  | cons n ns ih =>
      rw [List.flatMap_cons, List.flatMap_cons]
      refine .append (.cons (spells_punctuation rfl _) (.blank (spells_decimal _ ?_))) ih
      cases ns with
      | nil => exact hrest
      | cons n ns => rfl

lemma wordEnds_ints (ns : List UInt32) {rest : List Char} (hrest : WordEnds rest) :
    WordEnds ((ns.flatMap fun n => [',', ' '] ++ Text.decimal n.toNat) ++ rest) := by
  cases ns with
  | nil => exact hrest
  | cons n ns => rfl

lemma spells_printVariadic (variadic : Bool) (rest : List Char) :
    Spells (printVariadic variadic) (variadicTokens variadic) rest := by
  cases variadic with
  | false => exact spells_punctuation rfl rest
  | true =>
      have hlist : printVariadic true = ',' :: ' ' :: ("...".toList ++ [')']) := by decide
      rw [hlist]
      exact .cons (spells_punctuation rfl _) (.blank (.append_cons (spells_ellipsis _)
        (spells_punctuation rfl rest)))

lemma spells_printParams_nil (variadic : Bool) (rest : List Char) :
    Spells (printParams [] variadic) (paramTokens [] variadic) rest := by
  cases variadic with
  | false => exact spells_punctuation rfl rest
  | true =>
      have hlist : printParams [] true = "...".toList ++ [')'] := by decide
      rw [hlist]
      exact .append_cons (spells_ellipsis _) (spells_punctuation rfl rest)

lemma spells_printParams_cons {t : Ty} {ts : List Ty}
    (ht : ∀ {rest}, WordEnds rest → Spells t.print t.tokens rest)
    (hts : ∀ {rest}, WordEnds rest → Spells (printAfterComma ts) (tokensAfterComma ts) rest)
    (variadic : Bool) (rest : List Char) :
    Spells (printParams (t :: ts) variadic) (paramTokens (t :: ts) variadic) rest := by
  have hend : WordEnds (printVariadic variadic ++ rest) := by cases variadic <;> rfl
  have hlater : WordEnds (printAfterComma ts ++ printVariadic variadic ++ rest) := by
    rw [List.append_assoc]
    exact wordEnds_printAfterComma ts hend
  exact (ht hlater).append ((hts hend).append (spells_printVariadic variadic rest))

mutual

/-- A written type is read as its tokens. -/
lemma spells_print (t : Ty) {rest : List Char} (hrest : WordEnds rest) :
    Spells t.print t.tokens rest := by
  have hx : " x ".toList = ' ' :: ("x".toList ++ [' ']) := by decide
  cases t with
  | keyword kind =>
      rw [print_keyword, tokens]
      exact spells_keyword (isPlainWord_keyword kind) hrest
  | int bits =>
      rw [print_int, tokens]
      exact spells_word (isPlainWord_int _) hrest
  | ptr space =>
      rw [print_ptr, tokens]
      exact .append_cons (spells_keyword (by decide) (wordEnds_printSpace space hrest))
        (spells_printSpace space rest)
  | pointer pointee space =>
      rw [print_pointer, tokens]
      have hstar : WordEnds (printSpace space ++ ['*'] ++ rest) := by
        rw [List.append_assoc]
        exact wordEnds_printSpace space rfl
      exact .append (spells_print pointee hstar) (.append (spells_printSpace space _)
        (spells_punctuation rfl rest))
  | array length element =>
      simp only [print_array, tokens, hx, List.cons_append, List.append_assoc, List.nil_append]
      exact .cons (spells_punctuation rfl _) (.append_cons (spells_decimal _ rfl)
        (.blank (.append_cons (spells_keyword (by decide) rfl)
          (.blank (.append (spells_print element rfl) (spells_punctuation rfl rest))))))
  | vector length scalable element =>
      have hscale : "vscale x ".toList = "vscale".toList ++ ' ' :: ("x".toList ++ [' ']) := by
        decide
      have hlength : Spells
          (Text.decimal length.toNat ++ ' ' :: ("x".toList ++ ' ' :: (element.print ++ ['>'])))
          (numeral length.toNat :: .word "x" :: (element.tokens ++ [.greater])) rest :=
        .append_cons (spells_decimal _ rfl) (.blank (.append_cons (spells_keyword (by decide) rfl)
          (.blank (.append (spells_print element rfl) (spells_punctuation rfl rest)))))
      simp only [print_vector, tokens, hx, hscale, List.cons_append, List.append_assoc,
        List.nil_append]
      refine .cons (spells_punctuation rfl _) ?_
      cases scalable with
      | false => exact hlength
      | true =>
          simp only [if_true, List.cons_append, List.append_assoc, List.nil_append]
          exact .append_cons (spells_keyword (by decide) rfl)
            (.blank (.append_cons (spells_keyword (by decide) rfl) (.blank hlength)))
  | struct packed fields =>
      cases fields with
      | nil =>
          rw [print_struct_nil, tokens]
          cases packed with
          | false => exact .cons (spells_punctuation rfl _) (spells_punctuation rfl rest)
          | true =>
              exact .cons (spells_punctuation rfl _) (.cons (spells_punctuation rfl _)
                (.cons (spells_punctuation rfl _) (spells_punctuation rfl rest)))
      | cons field fields =>
          have hbody (rest : List Char) : Spells
              ('\x7b' :: ' ' :: (field.print ++ (printAfterComma fields ++ [' ', '\x7d'])))
              (.lbrace :: (field.tokens ++ (tokensAfterComma fields ++ [.rbrace]))) rest := by
            have hend : WordEnds (printAfterComma fields ++ [' ', '\x7d'] ++ rest) := by
              rw [List.append_assoc]
              exact wordEnds_printAfterComma fields rfl
            exact .cons (spells_punctuation rfl _) (.blank (.append (spells_print field hend)
              (.append (spells_printAfterComma fields rfl) (.blank (spells_punctuation rfl rest)))))
          rw [print_struct_cons, tokens]
          cases packed with
          | false => exact hbody rest
          | true =>
              exact .cons (spells_punctuation rfl _)
                (.append (hbody _) (spells_punctuation rfl rest))
  | named name =>
      rw [print_named, tokens]
      have h := @spells_name '%' .localName rfl name.toList rest hrest
      rwa [String.ofList_toList] at h
  | numbered number =>
      rw [print_numbered, tokens]
      exact spells_sigil_word rfl Nat.toDigits_ne_nil (fun c hc => isWordChar_of_isDigit
        (Nat.isDigit_of_mem_toDigits (by omega) (by omega) hc)) hrest
  | func ret params variadic =>
      rw [print_func, tokens_func]
      refine .append (spells_print ret rfl) (.blank (.cons (spells_punctuation rfl _) ?_))
      cases params with
      | nil => exact spells_printParams_nil variadic rest
      | cons param params =>
          exact spells_printParams_cons (spells_print param) (spells_printAfterComma params)
            variadic rest
  | target name types ints =>
      have htarget : "target(".toList = "target".toList ++ ['('] := by decide
      have hints : WordEnds ((ints.flatMap fun n => [',', ' '] ++ Text.decimal n.toNat) ++
          [')'] ++ rest) := by
        rw [List.append_assoc]
        exact wordEnds_ints ints rfl
      have hcolon : (printAfterComma types ++ ((ints.flatMap fun n => [',', ' '] ++
          Text.decimal n.toNat) ++ [')']) ++ rest).head? ≠ some ':' := by
        intro hhead
        rw [List.append_assoc] at hhead
        exact ((wordEnds_printAfterComma types hints).ne hhead).2 rfl
      have hstring := spells_string name.toList hcolon
      rw [String.ofList_toList] at hstring
      rw [print_target, tokens, htarget, List.append_assoc, List.singleton_append]
      exact .append_cons (spells_keyword (by decide) rfl) (.cons (spells_punctuation rfl _)
        (.append_cons hstring (.append (spells_printAfterComma types hints)
          (.append (spells_ints ints rfl) (spells_punctuation rfl rest)))))

/-- Written types that each follow a comma are read as their tokens. -/
lemma spells_printAfterComma (ts : List Ty) {rest : List Char} (hrest : WordEnds rest) :
    Spells (printAfterComma ts) (tokensAfterComma ts) rest := by
  cases ts with
  | nil =>
      rw [printAfterComma_nil, tokensAfterComma]
      exact .nil rest
  | cons t ts =>
      rw [printAfterComma_cons, tokensAfterComma]
      exact .cons (spells_punctuation rfl _) (.blank
        (.append (spells_print t (wordEnds_printAfterComma ts hrest))
          (spells_printAfterComma ts hrest)))

end

/-- A written parameter list is read as its tokens. -/
lemma spells_printParams (ts : List Ty) (variadic : Bool) (rest : List Char) :
    Spells (printParams ts variadic) (paramTokens ts variadic) rest := by
  cases ts with
  | nil => exact spells_printParams_nil variadic rest
  | cons t ts =>
      exact spells_printParams_cons (spells_print t) (spells_printAfterComma ts) variadic rest

/-! ### First tokens -/

/-- Whether a type can start with a token. -/
def startsWith : Token → Bool
  | .word _ | .localName _ | .lbrace | .lbracket | .less => true
  | _ => false

/-- Every type has a first token. -/
lemma exists_first (t : Ty) : ∃ first later, t.tokens = first :: later ∧ startsWith first := by
  cases t with
  | pointer pointee space =>
      obtain ⟨first, later, htokens, hfirst⟩ := exists_first pointee
      exact ⟨first, later ++ (spaceTokens space ++ [.star]), by rw [tokens, htokens]; rfl, hfirst⟩
  | func ret params variadic =>
      obtain ⟨first, later, htokens, hfirst⟩ := exists_first ret
      cases params <;> exact ⟨first, later ++ _, by rw [tokens, htokens]; rfl, hfirst⟩
  | struct packed fields =>
      cases packed <;> cases fields <;> exact ⟨_, _, by rw [tokens]; rfl, rfl⟩
  | _ => exact ⟨_, _, by rw [tokens], rfl⟩

end Ty

end CallGuard.Ir
