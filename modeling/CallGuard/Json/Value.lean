import CallGuard.Json.Text

/-!
JSON values as they are written, without blanks or with one member or element to
a line.

* `Value`: strings, arrays and objects.
* `Value.compact`, `Value.pretty`: the two ways to write a value.
-/

namespace CallGuard.Json

/-- A value. -/
inductive Value where
  /-- A string. -/
  | string (text : List Char)
  /-- An array. -/
  | array (elements : List Value)
  /-- An object, with its members in order. -/
  | object (members : List (List Char × Value))

namespace Value

mutual

/-- A value without blanks. -/
def compact : Value → List Char
  | .string text => quote text
  | .array [] => ['[', ']']
  | .array (v :: vs) => '[' :: (v.compact ++ compactElements vs ++ [']'])
  | .object [] => ['\x7b', '\x7d']
  | .object ((name, v) :: ms) =>
    '\x7b' :: (quote name ++ ':' :: (v.compact ++ compactMembers ms ++ ['\x7d']))

/-- Elements that each follow a comma. -/
def compactElements : List Value → List Char
  | [] => []
  | v :: vs => ',' :: (v.compact ++ compactElements vs)

/-- Members that each follow a comma. -/
def compactMembers : List (List Char × Value) → List Char
  | [] => []
  | (name, v) :: ms => ',' :: (quote name ++ ':' :: (v.compact ++ compactMembers ms))

end

/-- A line end and the blanks before the next line, two for each level. -/
def newline (level : Nat) : List Char :=
  '\n' :: List.replicate (2 * level) ' '

mutual

/-- A value with one member or element to a line; `level` is the number of
brackets around it. -/
def prettyAt (level : Nat) : Value → List Char
  | .string text => quote text
  | .array [] => ['[', ']']
  | .array (v :: vs) =>
    '[' :: (newline (level + 1) ++ v.prettyAt (level + 1) ++
      prettyElements (level + 1) vs ++ newline level ++ [']'])
  | .object [] => ['\x7b', '\x7d']
  | .object ((name, v) :: ms) =>
    '\x7b' :: (newline (level + 1) ++ quote name ++ [':', ' '] ++ v.prettyAt (level + 1) ++
      prettyMembers (level + 1) ms ++ newline level ++ ['\x7d'])

/-- Elements that each follow a comma and start a line. -/
def prettyElements (level : Nat) : List Value → List Char
  | [] => []
  | v :: vs => ',' :: (newline level ++ v.prettyAt level ++ prettyElements level vs)

/-- Members that each follow a comma and start a line. -/
def prettyMembers (level : Nat) : List (List Char × Value) → List Char
  | [] => []
  | (name, v) :: ms =>
    ',' :: (newline level ++ quote name ++ [':', ' '] ++ v.prettyAt level ++
      prettyMembers level ms)

end

/-- A value with one member or element to a line. -/
def pretty (v : Value) : List Char :=
  v.prettyAt 0

end Value

end CallGuard.Json
