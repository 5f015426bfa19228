import CallGuard.Text.Utf8

/-!
The tokens of WebAssembly text: parentheses, strings and atoms, with blanks and
comments between them. A text is cut into pieces without loss, so a token can be
found again by its bytes.

* `Piece.read`: the piece at the start of a text.
* `pieces`: all pieces; `flatMap_text_pieces` says that they make up the text.
* `tokens`: the pieces that are tokens, with their bytes.
-/

namespace CallGuard.Wat

/-- The kinds of tokens. -/
inductive TokenKind where
  /-- An opening parenthesis. -/
  | opening
  /-- A closing parenthesis. -/
  | closing
  /-- A keyword, name or number. -/
  | atom
  /-- A string with its quotes. -/
  | string
  deriving DecidableEq, Repr

/-- A part of a text: a token, or a blank or comment, which has no kind. -/
structure Piece where
  /-- The kind of token. -/
  kind : Option TokenKind
  /-- The characters. -/
  text : List Char
  deriving DecidableEq, Repr

/-- The blanks between tokens: space, tab, line feed, form feed and carriage
return. -/
def isSpace (c : Char) : Bool :=
  c == ' ' || c == '\t' || c == '\n' || c == '\x0c' || c == '\r'

/-- The characters that can follow the first of an atom. -/
def isAtomChar (c : Char) : Bool :=
  !isSpace c && c != '(' && c != ')' && c != '"' && c != ';'

/-- Adds characters to the first of two parts of a text. -/
def addFirst (start : List Char) (parts : List Char × List Char) : List Char × List Char :=
  (start ++ parts.1, parts.2)

/-- The rest of block comments, of which the given number is open, and the text
after them. Without its end a comment reaches to the end of the text. -/
def splitComment : Nat → List Char → List Char × List Char
  | 0, cs => ([], cs)
  | _ + 1, [] => ([], [])
  | depth + 1, '(' :: ';' :: cs => addFirst ['(', ';'] (splitComment (depth + 2) cs)
  | depth + 1, ';' :: ')' :: cs => addFirst [';', ')'] (splitComment depth cs)
  | depth + 1, c :: cs => addFirst [c] (splitComment (depth + 1) cs)

/-- The rest of a string with its closing quote, and the text after it. A backslash
keeps the character after it from ending the string. -/
def splitString : List Char → List Char × List Char
  | [] => ([], [])
  | '"' :: cs => (['"'], cs)
  | '\\' :: c :: cs => addFirst ['\\', c] (splitString cs)
  | c :: cs => addFirst [c] (splitString cs)

theorem splitComment_append (depth : Nat) (cs : List Char) :
    (splitComment depth cs).1 ++ (splitComment depth cs).2 = cs := by
  fun_induction splitComment depth cs <;> simp_all [addFirst]

theorem splitString_append (cs : List Char) :
    (splitString cs).1 ++ (splitString cs).2 = cs := by
  fun_induction splitString cs <;> simp_all [addFirst]

namespace Piece

/-- The piece that starts with the character `c`, before the text `cs`, and the
text after it. -/
def read (c : Char) (cs : List Char) : Piece × List Char :=
  if isSpace c then (⟨none, [c]⟩, cs)
  else if c = ';' ∧ cs.head? = some ';' then
    (⟨none, c :: cs.takeWhile (· != '\n')⟩, cs.dropWhile (· != '\n'))
  else if c = '(' ∧ cs.head? = some ';' then
    let (comment, rest) := splitComment 1 cs.tail
    (⟨none, '(' :: ';' :: comment⟩, rest)
  else if c = '(' then (⟨some .opening, [c]⟩, cs)
  else if c = ')' then (⟨some .closing, [c]⟩, cs)
  else if c = '"' then
    let (body, rest) := splitString cs
    (⟨some .string, c :: body⟩, rest)
  else (⟨some .atom, c :: cs.takeWhile isAtomChar⟩, cs.dropWhile isAtomChar)

/-- A piece and the text after it make up the text. -/
theorem text_append_rest (c : Char) (cs : List Char) :
    (read c cs).1.text ++ (read c cs).2 = c :: cs := by
  unfold read
  split
  · rfl
  split
  · simp [List.takeWhile_append_dropWhile]
  split
  · rename_i h
    cases cs with
    | nil => simp at h
    | cons d cs =>
      simp only [List.head?_cons, Option.some.injEq] at h
      simp [splitComment_append, h.1, h.2]
  split
  · rfl
  split
  · rfl
  split
  · simp [splitString_append]
  · simp [List.takeWhile_append_dropWhile]

/-- A piece is not empty. -/
theorem text_ne_nil (c : Char) (cs : List Char) : (read c cs).1.text ≠ [] := by
  unfold read
  repeat' split
  all_goals simp

end Piece

/-- The pieces of a text. -/
def pieces (cs : List Char) : List Piece :=
  match cs with
  | [] => []
  | c :: cs => (Piece.read c cs).1 :: pieces (Piece.read c cs).2
termination_by cs.length
decreasing_by
  have h₁ := congrArg List.length (Piece.text_append_rest c cs)
  have h₂ := List.length_pos_iff.mpr (Piece.text_ne_nil c cs)
  simp only [List.length_append, List.length_cons] at h₁ ⊢
  omega

/-- The pieces of a text make up the text. -/
theorem flatMap_text_pieces (cs : List Char) : (pieces cs).flatMap Piece.text = cs := by
  fun_induction pieces cs with
  | case1 => rfl
  | case2 c cs ih => rw [List.flatMap_cons, ih, Piece.text_append_rest]

/-- A token with its bytes in the text. -/
structure Token where
  /-- The kind. -/
  kind : TokenKind
  /-- The characters. -/
  text : List Char
  /-- The offset of its first byte. -/
  start : Nat
  /-- The offset after its last byte. -/
  stop : Nat
  deriving DecidableEq, Repr

/-- Whether a token is the given atom. -/
def Token.isAtom (t : Token) (name : String) : Bool :=
  t.kind == .atom && t.text == name.toList

/-- The tokens among pieces, of which the first starts at an offset. -/
def tokensFrom (offset : Nat) : List Piece → List Token
  | [] => []
  | p :: ps =>
    let stop := offset + Text.byteLength p.text
    match p.kind with
    | some kind => ⟨kind, p.text, offset, stop⟩ :: tokensFrom stop ps
    | none => tokensFrom stop ps

/-- The tokens of a text. -/
def tokens (text : List Char) : List Token :=
  tokensFrom 0 (pieces text)

end CallGuard.Wat
