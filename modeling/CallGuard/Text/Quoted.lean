import CallGuard.Text.Hidden

/-!
Quoted text: how a text is shown inside a message.

* `quote`: the text between double quotes, with line breaks, quotes and
  backslashes escaped and hidden characters written by their code points.
-/

namespace CallGuard.Text

/-- A character as it is shown between double quotes. -/
def quoteChar (c : Char) : List Char :=
  if c = '\x00' then ['\\', '0']
  else if c = '\t' then ['\\', 't']
  else if c = '\r' then ['\\', 'r']
  else if c = '\n' then ['\\', 'n']
  else if c = '"' then ['\\', '"']
  else if c = '\\' then ['\\', '\\']
  else if isHidden c then ['\\', 'u', '\x7b'] ++ Nat.toDigits 16 c.toNat ++ ['\x7d']
  else [c]

/-- A text between double quotes. -/
def quote (s : String) : String :=
  String.ofList ('"' :: (s.toList.flatMap quoteChar ++ ['"']))

end CallGuard.Text
