import CallGuard.Text.Quoted

/-!
The tokens of the intermediate representation.

* `Token`: names keep their text without sigil and quotes, numerals are kept as
  written.
* `Token.describe`: a token as messages show it.
* `Located`: a token with the place it was read from.
-/

namespace CallGuard.Ir

/-- A token. -/
inductive Token where
  /-- A keyword or a bare word. -/
  | word (text : String)
  /-- A global name, after its at sign. -/
  | globalName (name : String)
  /-- A local name, after its percent sign. -/
  | localName (name : String)
  /-- A label, before its colon. -/
  | label (name : String)
  /-- A metadata name, after its exclamation mark. -/
  | metadata (name : String)
  /-- An attribute group or debug record, after its hash. -/
  | hash (name : String)
  /-- A comdat name, after its dollar sign. -/
  | comdat (name : String)
  /-- A summary entry, after its caret. -/
  | summary (name : String)
  /-- An integer numeral as written. -/
  | integer (text : String)
  /-- Any other numeral as written. -/
  | float (text : String)
  /-- A string with its escapes decoded. -/
  | string (text : String)
  | lparen | rparen | lbracket | rbracket | lbrace | rbrace | less | greater
  | comma | equals | star | ellipsis | bang | pipe | colon
  /-- The end of the input. -/
  | eof
  deriving DecidableEq, Repr

namespace Token

/-- The text of a bare word. -/
def word? : Token → Option String
  | word text => some text
  | _ => none

/-- Whether a token is the given keyword. -/
def isKeyword (keyword : String) : Token → Bool
  | word text => text == keyword
  | _ => false

/-- Whether a token is a bare word. -/
def isWord : Token → Bool
  | word _ => true
  | _ => false

/-- Whether a token opens a bracketed group. -/
def opensGroup : Token → Bool
  | lparen | lbracket | lbrace | less => true
  | _ => false

/-- Whether a token closes a bracketed group. -/
def closesGroup : Token → Bool
  | rparen | rbracket | rbrace | greater => true
  | _ => false

/-- The text that a token carries; punctuation carries none. -/
def text : Token → String
  | word s | globalName s | localName s | label s | metadata s | hash s | comdat s | summary s
  | integer s | float s | string s => s
  | _ => ""

/-- A token as messages show it. -/
def describe : Token → String
  | word s => "'" ++ s ++ "'"
  | globalName s => "'@" ++ s ++ "'"
  | localName s => "'%" ++ s ++ "'"
  | label s => "label '" ++ s ++ ":'"
  | metadata s => "'!" ++ s ++ "'"
  | hash s => "'#" ++ s ++ "'"
  | comdat s => "'$" ++ s ++ "'"
  | summary s => "'^" ++ s ++ "'"
  | integer s | float s => "'" ++ s ++ "'"
  | string s => "string " ++ Text.quote s
  | lparen => "'('"
  | rparen => "')'"
  | lbracket => "'['"
  | rbracket => "']'"
  | lbrace => "'\x7b'"
  | rbrace => "'\x7d'"
  | less => "'<'"
  | greater => "'>'"
  | comma => "','"
  | equals => "'='"
  | star => "'*'"
  | ellipsis => "'...'"
  | bang => "'!'"
  | pipe => "'|'"
  | colon => "':'"
  | eof => "end of input"

end Token

/-- A token with the place it was read from. Lines and columns count from one,
columns and offsets in bytes. -/
structure Located where
  /-- The token. -/
  token : Token
  /-- The line it starts on. -/
  line : Nat
  /-- The column it starts in. -/
  column : Nat
  /-- The offset of its first byte. -/
  start : Nat
  /-- The offset after its last byte. -/
  stop : Nat
  deriving DecidableEq, Repr

end CallGuard.Ir
