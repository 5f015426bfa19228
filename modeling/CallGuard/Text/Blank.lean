/-!
White space. A character is blank when it has the Unicode property `White_Space`,
which twenty-five code points have; trimming is by this property.

* `isBlank`: the property, by code point.
* `trimStart`, `trimEnd`, `trim`: the text without the blanks at its ends.
* `lines`: the lines of a text without their line ends.
-/

namespace CallGuard.Text

/-- The Unicode property `White_Space`. -/
def isBlank (c : Char) : Bool :=
  let n := c.toNat
  (9 ≤ n && n ≤ 13) || n == 0x20 || n == 0x85 || n == 0xa0 || n == 0x1680 ||
    (0x2000 ≤ n && n ≤ 0x200a) || n == 0x2028 || n == 0x2029 || n == 0x202f ||
    n == 0x205f || n == 0x3000

/-- The text from its first character that is not blank. -/
def trimStart (s : List Char) : List Char :=
  s.dropWhile isBlank

/-- The text up to its last character that is not blank. -/
def trimEnd (s : List Char) : List Char :=
  (trimStart s.reverse).reverse

/-- The text without the blanks at both ends. -/
def trim (s : List Char) : List Char :=
  trimEnd (trimStart s)

/-- A line without the one carriage return that may stand before its line end. -/
def dropReturn (line : List Char) : List Char :=
  if line.getLast? = some '\r' then line.dropLast else line

/-- The lines of a text, where `line` holds the characters of the current line,
the last one first. A text that ends with a line end has no empty last line,
and only a line that a line end closes loses its carriage return. -/
def linesFrom (line : List Char) : List Char → List (List Char)
  | [] => if line.isEmpty then [] else [line.reverse]
  | c :: cs =>
    if c = '\n' then dropReturn line.reverse :: linesFrom [] cs else linesFrom (c :: line) cs

/-- The lines of a text, without their line ends. -/
def lines (s : List Char) : List (List Char) :=
  linesFrom [] s

/-! ### Small facts -/

/-- Trimming the start leaves nothing or a text that starts with a character that
is not blank. -/
theorem head_trimStart {s : List Char} {c : Char} {r : List Char} (h : trimStart s = c :: r) :
    isBlank c = false := by
  have hc := List.head?_dropWhile_not isBlank s
  rw [show s.dropWhile isBlank = c :: r from h] at hc
  simpa using hc

end CallGuard.Text
