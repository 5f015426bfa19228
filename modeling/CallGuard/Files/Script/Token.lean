import CallGuard.Files.Script.Word

/-!
Tokens of scripts.

* `Script.Token`: words, operators and redirections, with their lines.
* `Script.tokens`: the tokens of a script.
-/

namespace CallGuard.Script

/-- An operator between commands. -/
inductive Operator where
  | newline
  | semicolon
  | doubleSemicolon
  | ampersand
  | andThen
  | orElse
  | pipe
  | leftParenthesis
  | rightParenthesis
  deriving DecidableEq, Repr

/-- How an operator is written. -/
def Operator.text : Operator → String
  | newline => "newline"
  | semicolon => "\";\""
  | doubleSemicolon => "\";;\""
  | ampersand => "\"&\""
  | andThen => "\"&&\""
  | orElse => "\"||\""
  | pipe => "\"|\""
  | leftParenthesis => "\"(\""
  | rightParenthesis => "\")\""

/-- How a file is opened. -/
inductive Opening where
  | read
  | write
  | append
  deriving DecidableEq, Repr

/-- What a token is. -/
inductive TokenKind where
  /-- A word. -/
  | word (parts : Word)
  /-- An operator. -/
  | operator (operator : Operator)
  /-- Sends a stream to the file whose name follows. -/
  | redirect (stream : Nat) (opening : Opening)
  /-- Sends a stream to where another one goes, or nowhere. -/
  | duplicate (stream : Nat) (target : Option Nat)
  /-- Gives a text to be read. -/
  | here (text : Word)
  /-- Quotes that are not closed. -/
  | unclosed
  /-- The end of the script. -/
  | ending
  deriving DecidableEq, Repr

/-- A token, and the line that has been reached at its end. -/
structure Token where
  /-- The line. -/
  line : Nat
  /-- What it is. -/
  kind : TokenKind
  deriving DecidableEq, Repr

/-! ### Texts within scripts -/

/-- What ends a text within a script. -/
structure Delimiter where
  /-- Whether tabs at the start of lines do not count. -/
  stripped : Bool
  /-- Whether nothing is filled in. -/
  quoted : Bool
  /-- The line that ends the text. -/
  text : List Char
  /-- The number of characters that spell it. -/
  length : Nat

/-- Whether a character ends a word. -/
def endsWord (c : Char) : Bool :=
  [' ', '\t', '\n', ';', '&', '|', '<', '>', '(', ')'].contains c

/-- The delimiter at the start of what follows its mark. -/
def Delimiter.read (cs : List Char) : Delimiter :=
  let stripped := cs.head? = some '-'
  let afterMark := if stripped then cs.tail else cs
  let blanks := (afterMark.takeWhile fun c => c == ' ' || c == '\t').length
  let rest := afterMark.drop blanks
  let spelled := rest.takeWhile (!endsWord ·)
  let isQuote (c : Char) := c == '\x27' || c == '"' || c == '\\'
  ⟨stripped, spelled.any isQuote, spelled.filter (!isQuote ·),
    (if stripped then 1 else 0) + blanks + spelled.length⟩

/-- The text up to a delimiter, and the number of characters that it takes with the
line of the delimiter. -/
def Delimiter.body (d : Delimiter) (cs : List Char) : List Char × Nat :=
  let strip (line : List Char) := if d.stripped then line.dropWhile (· == '\t') else line
  let lines := (cs.splitOn '\n').takeWhile (strip · != d.text)
  let taken := (lines.map fun line => line.length + 1).foldl (· + ·) 0
  (lines.flatMap (strip · ++ ['\n']), taken + ((cs.drop taken).takeWhile (· != '\n')).length + 1)

/-- The token of a text within a script, after a line. -/
def Delimiter.token (d : Delimiter) (line : Nat) (body : List Char) : TokenKind :=
  .here (if d.quoted then literalParts body else textParts line 0 body)

/-! ### Reading tokens -/

/-- Where the characters of a script stand. -/
inductive Mode where
  /-- Outside quotes. -/
  | plain
  /-- Between single quotes. -/
  | single
  /-- Between double quotes. -/
  | double
  /-- In a comment. -/
  | comment
  /-- In what has been dealt with; so many characters are still to come. -/
  | skipping (rest : Nat) (quoted : Bool)
  deriving DecidableEq, Repr

/-- Puts the word that has been read so far before tokens. -/
def finishWord (line : Nat) (word : Option Word) (tokens : List Token) : List Token :=
  match word with
  | some parts => ⟨line, .word parts⟩ :: tokens
  | none => tokens

/-- A word with one more part. -/
def addPart (word : Option Word) (part : Part) : Option Word :=
  some (word.getD [] ++ [part])

/-- The stream that a redirection is about, which a digit before it may name. The
word is left if it is no such digit. -/
def streamOf (standard : Nat) (word : Option Word) : Nat × Option Word :=
  match word with
  | some [.char c false] => if c.isDigit then (c.toNat - '0'.toNat, none) else (standard, word)
  | _ => (standard, word)

/-- The line after a character. -/
def nextLine (line : Nat) (c : Char) : Nat :=
  if c = '\n' then line + 1 else line

/-- The tokens of a text, of which `word` has been read, from a line on. After the
line end `pending` characters have been dealt with. -/
def tokensFrom : Mode → Nat → Option Word → Nat → List Char → List Token
  | .single, line, _, _, [] | .double, line, _, _, [] | .skipping _ true, line, _, _, [] =>
    [⟨line, .unclosed⟩]
  | _, line, word, _, [] => finishWord line word [⟨line, .ending⟩]
  | .skipping (n + 1) quoted, line, word, pending, c :: cs =>
    tokensFrom (.skipping n quoted) (nextLine line c) word pending cs
  | .comment, line, _, pending, c :: cs =>
    if c = '\n' then
      ⟨line + 1, .operator .newline⟩ :: tokensFrom (.skipping pending false) (line + 1) none 0 cs
    else tokensFrom .comment line none pending cs
  | .single, line, word, pending, c :: cs =>
    if c = '\x27' then tokensFrom .plain line word pending cs
    else tokensFrom .single (nextLine line c) (addPart word (.char c true)) pending cs
  | .double, line, word, pending, c :: cs | .skipping 0 true, line, word, pending, c :: cs =>
    if c = '"' then tokensFrom .plain line word pending cs
    else if c = '\\' then
      match cs with
      | '\n' :: cs => tokensFrom .double (line + 1) word pending cs
      | e :: cs =>
        let word := if isEscapable e then word else addPart word (.char '\\' true)
        tokensFrom .double line (addPart word (.char e true)) pending cs
      | [] => [⟨line, .unclosed⟩]
    else
      match Value.at? line c cs with
      | some (value, n) =>
        tokensFrom (.skipping n true) line (addPart word (.value value true)) pending cs
      | none => tokensFrom .double (nextLine line c) (addPart word (.char c true)) pending cs
  | _, line, word, pending, '\\' :: '\n' :: cs => tokensFrom .plain (line + 1) word pending cs
  | _, line, word, pending, '\\' :: c :: cs =>
    tokensFrom .plain line (addPart word (.char c true)) pending cs
  | _, line, word, pending, '"' :: cs =>
    tokensFrom .double line (addPart word .quotes) pending cs
  | _, line, word, pending, '\x27' :: cs =>
    tokensFrom .single line (addPart word .quotes) pending cs
  | _, line, word, pending, '<' :: '<' :: cs =>
    let d := Delimiter.read cs
    let lines := (cs.drop d.length).dropWhile (· != '\n')
    let (body, n) := d.body (lines.drop (pending + 1))
    finishWord line (streamOf 0 word).2
      (⟨line, d.token line body⟩ ::
        tokensFrom (.skipping d.length false) line none (pending + n) cs)
  | _, line, word, pending, '>' :: '>' :: cs =>
    redirected 1 .append line word (tokensFrom .plain line none pending cs)
  | _, line, word, pending, '>' :: '|' :: cs =>
    redirected 1 .write line word (tokensFrom .plain line none pending cs)
  | _, line, word, pending, '>' :: '&' :: c :: cs =>
    duplicated 1 c line word (tokensFrom .plain line none pending cs)
  | _, line, word, pending, '<' :: '&' :: c :: cs =>
    duplicated 0 c line word (tokensFrom .plain line none pending cs)
  | _, line, word, pending, '>' :: cs =>
    redirected 1 .write line word (tokensFrom .plain line none pending cs)
  | _, line, word, pending, '<' :: cs =>
    redirected 0 .read line word (tokensFrom .plain line none pending cs)
  | _, line, word, pending, '|' :: '|' :: cs =>
    separated .orElse line word (tokensFrom .plain line none pending cs)
  | _, line, word, pending, '&' :: '&' :: cs =>
    separated .andThen line word (tokensFrom .plain line none pending cs)
  | _, line, word, pending, ';' :: ';' :: cs =>
    separated .doubleSemicolon line word (tokensFrom .plain line none pending cs)
  | _, line, word, pending, '\n' :: cs =>
    finishWord line word
      (⟨line + 1, .operator .newline⟩ :: tokensFrom (.skipping pending false) (line + 1) none 0 cs)
  | _, line, word, pending, ' ' :: cs | _, line, word, pending, '\t' :: cs =>
    finishWord line word (tokensFrom .plain line none pending cs)
  | _, line, none, pending, '#' :: cs => tokensFrom .comment line none pending cs
  | _, line, word, pending, c :: cs =>
    match operator? c, Value.at? line c cs with
    | some operator, _ => separated operator line word (tokensFrom .plain line none pending cs)
    | none, some (value, n) =>
      tokensFrom (.skipping n false) line (addPart word (.value value false)) pending cs
    | none, none =>
      tokensFrom .plain line (addPart word (.char c false)) pending cs
where
  /-- The operator of one character. -/
  operator? : Char → Option Operator
    | ';' => some .semicolon
    | '&' => some .ampersand
    | '|' => some .pipe
    | '(' => some .leftParenthesis
    | ')' => some .rightParenthesis
    | _ => none
  /-- Puts a word and an operator before tokens. -/
  separated (operator : Operator) (line : Nat) (word : Option Word) (tokens : List Token) :
      List Token :=
    finishWord line word (⟨line, .operator operator⟩ :: tokens)
  /-- Puts a word and a redirection before tokens. -/
  redirected (standard : Nat) (opening : Opening) (line : Nat) (word : Option Word)
      (tokens : List Token) : List Token :=
    let (stream, word) := streamOf standard word
    finishWord line word (⟨line, .redirect stream opening⟩ :: tokens)
  /-- Puts a word and a duplication before tokens. -/
  duplicated (standard : Nat) (target : Char) (line : Nat) (word : Option Word)
      (tokens : List Token) : List Token :=
    let (stream, word) := streamOf standard word
    let target := if target.isDigit then some (target.toNat - '0'.toNat) else none
    finishWord line word (⟨line, .duplicate stream target⟩ :: tokens)

/-- The tokens of a script whose first line has a number. -/
def tokens (line : Nat) (script : List Char) : List Token :=
  tokensFrom .plain line none 0 script

end CallGuard.Script
