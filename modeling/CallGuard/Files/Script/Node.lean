import CallGuard.Files.Script.Token

/-!
The commands of scripts, as trees.

* `Script.Node`: simple and compound commands.
* `Script.parse`: the commands of a script, line by line. A line that cannot be read
  ends the script, and says so when it is reached.
-/

namespace CallGuard.Script

/-- Where a stream goes or comes from. -/
inductive Redirect where
  /-- A file. -/
  | file (stream : Nat) (opening : Opening) (path : Word)
  /-- Where another stream goes, or nowhere. -/
  | duplicate (stream : Nat) (target : Option Nat)
  /-- A text to be read. -/
  | here (text : Word)
  deriving DecidableEq, Repr

/-- A simple command. -/
structure Simple where
  /-- The line of its first word. -/
  line : Nat := 1
  /-- The variables that it sets. -/
  assignments : List (List Char × Word) := []
  /-- Its name and arguments. -/
  words : List Word := []
  /-- Where its streams go, in order. -/
  redirects : List Redirect := []
  deriving DecidableEq, Repr

/-- Whether nothing of a command has been read. -/
def Simple.isBlank (c : Simple) : Bool :=
  c.assignments.isEmpty && c.words.isEmpty && c.redirects.isEmpty

/-- A command. -/
inductive Node where
  /-- A simple command. -/
  | simple (command : Simple)
  /-- Commands of which each reads what the one before it writes. -/
  | pipeline (nodes : List Node)
  /-- A command whose status is turned around. -/
  | negated (node : Node)
  /-- Two commands, the second only if the first succeeds. -/
  | both (first second : Node)
  /-- Two commands, the second only if the first fails. -/
  | either (first second : Node)
  /-- Commands one after the other. -/
  | sequence (nodes : List Node)
  /-- A command that is not waited for. -/
  | background (node : Node)
  /-- A command that changes nothing but files. -/
  | subshell (node : Node)
  /-- A conditional. -/
  | conditional (condition consequent : Node) (otherwise : Option Node)
  /-- A command that is repeated while a condition succeeds, or while it fails. -/
  | repeated (whileFails : Bool) (condition body : Node)
  /-- A command that is run for each of several words, or for each argument. -/
  | loop (line : Nat) (name : List Char) (words : Option (List Word)) (body : Node)
  /-- The first of several commands whose pattern matches a word. -/
  | choice (line : Nat) (subject : Word) (arms : List (List Word × Node))
  /-- The definition of a function. -/
  | definition (name : List Char) (body : Node)
  /-- A command whose streams are redirected. -/
  | redirected (line : Nat) (node : Node) (redirects : List Redirect)
  /-- What cannot be read. -/
  | broken (line : Nat) (message : String)

/-! ### Tokens that mean something -/

/-- Words that mean something where a command can start. -/
def reservedWords : List String :=
  ["!", "case", "do", "done", "elif", "else", "esac", "fi", "for", "if", "in", "then", "until",
    "while", "\x7b", "\x7d"]

/-- The bare text of a token that is a word. -/
def Token.word? (t : Token) : Option String :=
  match t.kind with
  | .word parts => (bareText? parts).map String.ofList
  | _ => none

/-- Whether a token is a certain word. -/
def Token.isWord (t : Token) (s : String) : Bool :=
  t.word? == some s

/-- Whether a token is a certain operator. -/
def Token.isOperator (t : Token) (o : Operator) : Bool :=
  t.kind = .operator o

/-- What a token is called. -/
def Token.name (t : Token) : String :=
  match t.kind with
  | .word _ =>
    match t.word? with
    | some s => if reservedWords.contains s then "\"" ++ s ++ "\"" else "word"
    | none => "word"
  | .operator o => o.text
  | .redirect _ _ | .duplicate _ _ | .here _ => "redirection"
  | .unclosed | .ending => "end of file"

/-- Whether a token ends a list of commands. -/
def Token.endsList (t : Token) : Bool :=
  match t.kind with
  | .operator .rightParenthesis | .operator .doubleSemicolon | .ending => true
  | .word _ =>
    ["do", "done", "elif", "else", "esac", "fi", "then", "\x7d"].any (t.isWord ·)
  | _ => false

/-! ### Reading commands -/

/-- Readers take tokens. An error has a line and a message. -/
abbrev Reader := StateT (List Token) (Except (Nat × String))

/-- Refuses the next token, and says what would be expected. A redirection is refused
as no file follows it. -/
def unexpected {α : Type} (expected : Option String := none) : Reader α := do
  let hint := expected.elim "" fun s => " (expecting \"" ++ s ++ "\")"
  match ← get with
  | [] => throw (0, "end of file unexpected" ++ hint)
  | ⟨_, .redirect _ _⟩ :: t :: _ => throw (t.line, t.name ++ " unexpected")
  | t :: _ =>
    if t.kind = .unclosed then throw (t.line, "Unterminated quoted string")
    else throw (t.line, t.name ++ " unexpected" ++ hint)

/-- Drops line ends. -/
def skipNewlines : Reader Unit :=
  modify (List.dropWhile (·.isOperator .newline))

/-- The next token, if it passes a test, is dropped. -/
def accept (test : Token → Bool) : Reader Bool := do
  match ← get with
  | t :: ts =>
    if test t then
      set ts
      return true
    else return false
  | [] => return false

/-- Reads a certain word. -/
def expectWord (s : String) : Reader Unit := do
  unless ← accept (·.isWord s) do unexpected (some s)

/-- Reads a certain operator. -/
def expectOperator (o : Operator) (s : String) : Reader Unit := do
  unless ← accept (·.isOperator o) do unexpected (some s)

/-- Reads any word. -/
def readWord : Reader Word := do
  match ← get with
  | ⟨_, .word parts⟩ :: ts =>
    set ts
    return parts
  | _ => unexpected

/-- Whether a list of commands ends here. -/
def atListEnd : Reader Bool := do
  return ((← get).head?.map Token.endsList).getD true

/-- The line of the next token. -/
def currentLine : Reader Nat := do
  return ((← get).head?.map (·.line)).getD 0

/-- The variable that a word sets, and its value. -/
def assignment? (word : Word) : Option (List Char × Word) :=
  let isLetter : Part → Bool
    | .char c false => c != '='
    | _ => false
  match bareText? (word.takeWhile isLetter), word.dropWhile isLetter with
  | some name, .char '=' false :: value => if isName name then some (name, value) else none
  | _, _ => none

/-- The redirections at the start of tokens. -/
def redirectsFrom : List Token → List Redirect × List Token
  | ⟨_, .redirect stream opening⟩ :: ⟨_, .word path⟩ :: ts =>
    let (rs, ts) := redirectsFrom ts
    (.file stream opening path :: rs, ts)
  | ⟨_, .duplicate stream target⟩ :: ts =>
    let (rs, ts) := redirectsFrom ts
    (.duplicate stream target :: rs, ts)
  | ⟨_, .here text⟩ :: ts =>
    let (rs, ts) := redirectsFrom ts
    (.here text :: rs, ts)
  | ts => ([], ts)

/-- Reads redirections. -/
def readRedirects : Reader (List Redirect) :=
  modifyGet redirectsFrom

/-- The simple command at the start of tokens, of which `c` has been read. -/
def simpleFrom (c : Simple) : List Token → Simple × List Token
  | ⟨_, .redirect stream opening⟩ :: ⟨_, .word path⟩ :: ts =>
    simpleFrom { c with redirects := c.redirects ++ [.file stream opening path] } ts
  | ⟨_, .duplicate stream target⟩ :: ts =>
    simpleFrom { c with redirects := c.redirects ++ [.duplicate stream target] } ts
  | ⟨_, .here text⟩ :: ts => simpleFrom { c with redirects := c.redirects ++ [.here text] } ts
  | ⟨line, .word parts⟩ :: ts =>
    let line := if c.words.isEmpty && c.assignments.isEmpty then line else c.line
    match if c.words.isEmpty then assignment? parts else none with
    | some a => simpleFrom { c with line, assignments := c.assignments ++ [a] } ts
    | none => simpleFrom { c with line, words := c.words ++ [parts] } ts
  | ts => (c, ts)

/-- Reads a simple command. -/
def readSimple : Reader Node := do
  let c ← modifyGet (simpleFrom { line := ← currentLine })
  if c.isBlank then unexpected else return .simple c

/-- The words at the start of tokens. -/
def wordsFrom : List Token → List Word × List Token
  | ⟨_, .word parts⟩ :: ts =>
    let (ws, ts) := wordsFrom ts
    (parts :: ws, ts)
  | ts => ([], ts)

/-- Reads the name of a function and its parentheses, if they are there. -/
def readFunctionName : Reader (Option (List Char)) := do
  match ← get with
  | ⟨line, .word word⟩ :: ⟨_, .operator .leftParenthesis⟩ :: ts =>
    if (assignment? word).isSome then return none
    set ts
    expectOperator .rightParenthesis ")"
    let name := (bareText? word).getD []
    if isName name then return some name else throw (line, "Bad function name")
  | _ => return none

/-- Reads the name of the variable of a loop. -/
def readLoopName : Reader (List Char) := do
  match ← get with
  | ⟨line, kind⟩ :: ts =>
    match (Token.mk line kind).word? with
    | some name =>
      set ts
      if isName name.toList then return name.toList else throw (line, "Bad for loop variable")
    | none => throw (line, "Bad for loop variable")
  | [] => unexpected

/-- Reads the words that a loop runs over; without them it runs over the arguments. -/
def readLoopWords : Reader (Option (List Word)) := do
  skipNewlines
  if ← accept (·.isWord "in") then return some (← modifyGet wordsFrom) else return none

/-- The pattern at the start of tokens. What is no word is passed over, since the mark
that follows a pattern will be missing. -/
def patternFrom : List Token → Word × List Token
  | ⟨_, .word parts⟩ :: ts => (parts, ts)
  | [t] => ([], [t])
  | ts => ([], ts.tail)

/-- Reads further patterns of an arm, up to its parenthesis, `n` at most. -/
def readPatterns : Nat → Reader (List Word)
  | 0 => unexpected
  | n + 1 => do
    let word ← modifyGet patternFrom
    if ← accept (·.isOperator .pipe) then return word :: (← readPatterns n)
    else
      expectOperator .rightParenthesis ")"
      return [word]

/-- Reads what separates commands, if it is there: whether the one before it is not
waited for. -/
def readSeparator : Reader (Option Bool) := do
  if ← accept (·.isOperator .ampersand) then return some true
  else if ← accept fun t => t.isOperator .semicolon || t.isOperator .newline then
    return some false
  else return none

/-- A command that may not be waited for. -/
def Node.apart (node : Node) (apart : Bool) : Node :=
  if apart then .background node else node

mutual

/-- Reads commands up to what ends a list. -/
def parseNodes : Nat → Reader (List Node)
  | 0 => unexpected
  | fuel + 1 => do
    skipNewlines
    if ← atListEnd then return []
    let node ← parseAndOr fuel
    match ← readSeparator with
    | none => return [node]
    | some apart => return node.apart apart :: (← parseNodes fuel)

/-- Reads a list with at least one command. -/
def parseBody : Nat → Reader Node
  | 0 => unexpected
  | fuel + 1 => do
    match ← parseNodes fuel with
    | [] => unexpected
    | nodes => return .sequence nodes

/-- Reads commands that hang on each other. -/
def parseAndOr : Nat → Reader Node
  | 0 => unexpected
  | fuel + 1 => do parseAndOrFrom fuel (← parsePipeline fuel)

/-- Reads what hangs on a command. -/
def parseAndOrFrom : Nat → Node → Reader Node
  | 0, _ => unexpected
  | fuel + 1, first => do
    if ← accept (·.isOperator .andThen) then
      skipNewlines
      parseAndOrFrom fuel (.both first (← parsePipeline fuel))
    else if ← accept (·.isOperator .orElse) then
      skipNewlines
      parseAndOrFrom fuel (.either first (← parsePipeline fuel))
    else return first

/-- Reads a pipeline. -/
def parsePipeline : Nat → Reader Node
  | 0 => unexpected
  | fuel + 1 => do
    if ← accept (·.isWord "!") then return .negated (← parsePipeline fuel)
    match ← parsePiped fuel with
    | [node] => return node
    | nodes => return .pipeline nodes

/-- Reads the commands of a pipeline. -/
def parsePiped : Nat → Reader (List Node)
  | 0 => unexpected
  | fuel + 1 => do
    let node ← parseCommand fuel
    if ← accept (·.isOperator .pipe) then
      skipNewlines
      return node :: (← parsePiped fuel)
    else return [node]

/-- Reads a command with its redirections. -/
def parseCommand : Nat → Reader Node
  | 0 => unexpected
  | fuel + 1 => do
    let line ← currentLine
    match ← parseCompound fuel with
    | some node =>
      match ← readRedirects with
      | [] => return node
      | redirects => return .redirected line node redirects
    | none =>
      match ← readFunctionName with
      | some name =>
        skipNewlines
        return .definition name (← parseCommand fuel)
      | none => readSimple

/-- Reads a compound command, if there is one. -/
def parseCompound : Nat → Reader (Option Node)
  | 0 => unexpected
  | fuel + 1 => do
    let line ← currentLine
    if ← accept (·.isOperator .leftParenthesis) then
      let body ← parseBody fuel
      expectOperator .rightParenthesis ")"
      return some (.subshell body)
    else if ← accept (·.isWord "\x7b") then
      let body ← parseBody fuel
      expectWord "\x7d"
      return some body
    else if ← accept (·.isWord "if") then return some (← parseIf fuel)
    else if ← accept (·.isWord "while") then
      let condition ← parseBody fuel
      return some (.repeated false condition (← parseDo fuel))
    else if ← accept (·.isWord "until") then
      let condition ← parseBody fuel
      return some (.repeated true condition (← parseDo fuel))
    else if ← accept (·.isWord "for") then
      let name ← readLoopName
      let words ← readLoopWords
      let _ ← accept (·.isOperator .semicolon)
      return some (.loop line name words (← parseDo fuel))
    else if ← accept (·.isWord "case") then
      let subject ← readWord
      skipNewlines
      expectWord "in"
      return some (.choice line subject (← parseArms fuel))
    else if ← atListEnd then unexpected
    else return none

/-- Reads what follows the start of a conditional. -/
def parseIf : Nat → Reader Node
  | 0 => unexpected
  | fuel + 1 => do
    let condition ← parseBody fuel
    expectWord "then"
    let consequent ← parseBody fuel
    if ← accept (·.isWord "elif") then
      return .conditional condition consequent (some (← parseIf fuel))
    else if ← accept (·.isWord "else") then
      let otherwise ← parseBody fuel
      expectWord "fi"
      return .conditional condition consequent (some otherwise)
    else
      expectWord "fi"
      return .conditional condition consequent none

/-- Reads the body of a loop. -/
def parseDo : Nat → Reader Node
  | 0 => unexpected
  | fuel + 1 => do
    skipNewlines
    expectWord "do"
    let body ← parseBody fuel
    expectWord "done"
    return body

/-- Reads the arms of a choice. -/
def parseArms : Nat → Reader (List (List Word × Node))
  | 0 => unexpected
  | fuel + 1 => do
    skipNewlines
    if ← accept (·.isWord "esac") then return []
    let _ ← accept (·.isOperator .leftParenthesis)
    let patterns ← readPatterns fuel
    let arm := (patterns, Node.sequence (← parseNodes fuel))
    if ← accept (·.isOperator .doubleSemicolon) then return arm :: (← parseArms fuel)
    else
      expectWord "esac"
      return [arm]

end

/-! ### Whole scripts -/

/-- Reads the commands of a line, `n` at most. -/
def parseLine (fuel : Nat) : Nat → Reader (List Node)
  | 0 => unexpected
  | n + 1 => do
    let node ← parseAndOr fuel
    if ← accept (·.isOperator .newline) then return [node]
    match ← readSeparator with
    | some apart =>
      if ← accept (·.isOperator .newline) then return [node.apart apart]
      else if ← accept (·.kind = .ending) then return [node.apart apart]
      else return node.apart apart :: (← parseLine fuel n)
    | none => if ← accept (·.kind = .ending) then return [node] else unexpected

/-- The commands of lines, `n` at most. -/
def parseLines (fuel : Nat) : Nat → List Token → List Node
  | 0, _ => []
  | n + 1, ts =>
    match ts.dropWhile (·.isOperator .newline) with
    | [] | ⟨_, .ending⟩ :: _ => []
    | ts =>
      match (parseLine fuel fuel).run ts with
      | .ok (nodes, ts) => nodes ++ parseLines fuel n ts
      | .error (line, message) => [.broken line message]

/-- The commands of a script whose first line has a number. -/
def parse (line : Nat) (script : List Char) : List Node :=
  let ts := tokens line script
  let fuel := 16 * (ts.length + 1)
  parseLines fuel fuel ts

end CallGuard.Script
