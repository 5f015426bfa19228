import CallGuard.Text.Numeral
import CallGuard.Text.Utf8

/-!
The strings of JSON.

* `quote`: a text as a JSON string, and `quotePieces`: the same in pieces.
* `readChars`: the text of a JSON string after its opening quote.
* `skipChars`: the same for a string whose text is not wanted; it is looked at
  less closely, so halves of surrogate pairs pass.
* `Fault`: in which way a text fails to be the JSON that is wanted.
-/

namespace CallGuard.Json

/-- What a text can end inside of. -/
inductive Construct where
  | value
  | list
  | object
  | string
  deriving DecidableEq, Repr

/-- In which way a text fails to be the JSON that is wanted. -/
inductive Fault where
  /-- The text ends too early. -/
  | ended (inside : Construct)
  /-- The text is no JSON. -/
  | malformed
  /-- The text is JSON of another shape. -/
  | wrongShape
  deriving DecidableEq, Repr

/-! ### Writing -/

/-- A character as it stands inside a JSON string. -/
def quoteChar (c : Char) : List Char :=
  if c = '"' then ['\\', '"']
  else if c = '\\' then ['\\', '\\']
  else if c = '\x08' then ['\\', 'b']
  else if c = '\x0c' then ['\\', 'f']
  else if c = '\n' then ['\\', 'n']
  else if c = '\r' then ['\\', 'r']
  else if c = '\t' then ['\\', 't']
  else if c.toNat < 0x20 then "\\u00".toList ++ Text.lowerHex (UInt8.ofNat c.toNat)
  else [c]

/-- A text as a JSON string. -/
def quote (s : List Char) : List Char :=
  '"' :: (s.flatMap quoteChar ++ ['"'])

/-- Whether a character stands for itself inside a JSON string. -/
def isPlain (c : Char) : Bool :=
  quoteChar c == [c]

/-- The inside of a JSON string in pieces: characters that stand for themselves as far
as they go, and each other character. Of the first piece `run` has been read, last
character first. -/
def runs : List Char → List Char → List (List Char)
  | run, [] => [run.reverse]
  | run, c :: s =>
    if isPlain c then runs (c :: run) s else run.reverse :: quoteChar c :: runs [] s

/-- A text as a JSON string in pieces. -/
def quotePieces (s : List Char) : List (List Char) :=
  ['"'] :: (runs [] s ++ [['"']])

/-- The pieces of the inside make up all of it. -/
theorem flatten_runs (run s : List Char) :
    (runs run s).flatten = run.reverse ++ s.flatMap quoteChar := by
  induction s generalizing run with
  | nil => simp [runs]
  | cons c s ih =>
    rw [runs]
    split
    · rename_i h
      simp [ih, eq_of_beq h]
    · simp [ih]

/-- The pieces make up the string. -/
@[simp]
theorem flatten_quotePieces (s : List Char) : (quotePieces s).flatten = quote s := by
  simp [quotePieces, quote, flatten_runs]

/-! ### Reading -/

/-- The character that a letter after a backslash stands for. -/
def shortEscape? : Char → Option Char
  | '"' => some '"'
  | '\\' => some '\\'
  | '/' => some '/'
  | 'b' => some '\x08'
  | 'f' => some '\x0c'
  | 'n' => some '\n'
  | 'r' => some '\r'
  | 't' => some '\t'
  | _ => none

/-- Reads four hexadecimal digits. A text of less than four bytes ends too early. -/
def readHex4 (cs : List Char) : Except Fault (Nat × List Char) :=
  match cs with
  | a :: b :: c :: d :: rest =>
    match Text.hexValue? a, Text.hexValue? b, Text.hexValue? c, Text.hexValue? d with
    | some a, some b, some c, some d => .ok (((a * 16 + b) * 16 + c) * 16 + d, rest)
    | _, _, _, _ => .error .malformed
  | _ => if Text.byteLength cs < 4 then .error (.ended .string) else .error .malformed

/-- Whether a code unit is the first of a surrogate pair. -/
def isHighSurrogate (n : Nat) : Bool :=
  0xd800 ≤ n && n ≤ 0xdbff

/-- Whether a code unit is the second of a surrogate pair. -/
def isLowSurrogate (n : Nat) : Bool :=
  0xdc00 ≤ n && n ≤ 0xdfff

/-- Reads the second half of a surrogate pair, with the backslash and letter
before its digits. -/
def readLowSurrogate (cs : List Char) : Except Fault (Nat × List Char) :=
  match cs with
  | [] => .error (.ended .string)
  | '\\' :: [] => .error (.ended .string)
  | '\\' :: 'u' :: rest =>
    match readHex4 rest with
    | .ok (low, rest) => if isLowSurrogate low then .ok (low, rest) else .error .malformed
    | .error e => .error e
  | _ => .error .malformed

/-- Reads the character that an escape stands for, after its backslash. -/
def readEscape (cs : List Char) : Except Fault (Char × List Char) :=
  match cs with
  | [] => .error (.ended .string)
  | e :: rest =>
    if e = 'u' then
      match readHex4 rest with
      | .error e => .error e
      | .ok (n, rest) =>
        if isLowSurrogate n then .error .malformed
        else if isHighSurrogate n then
          match readLowSurrogate rest with
          | .error e => .error e
          | .ok (low, rest) =>
            .ok (Char.ofNat (0x10000 + (n - 0xd800) * 0x400 + (low - 0xdc00)), rest)
        else .ok (Char.ofNat n, rest)
    else
      match shortEscape? e with
      | some c => .ok (c, rest)
      | none => .error .malformed

theorem length_readHex4_le {cs rest : List Char} {n : Nat} (h : readHex4 cs = .ok (n, rest)) :
    rest.length ≤ cs.length := by
  unfold readHex4 at h
  split at h
  · split at h
    · cases h
      simp
      omega
    · cases h
  · split at h <;> cases h

theorem length_readLowSurrogate_le {cs rest : List Char} {n : Nat}
    (h : readLowSurrogate cs = .ok (n, rest)) : rest.length ≤ cs.length := by
  unfold readLowSurrogate at h
  split at h
  · cases h
  · cases h
  · split at h
    · rename_i h4
      split at h
      · cases h
        have := length_readHex4_le h4
        simp
        omega
      · cases h
    · cases h
  · cases h

/-- An escape has at least one character. -/
theorem length_readEscape_le {cs rest : List Char} {c : Char} (h : readEscape cs = .ok (c, rest)) :
    rest.length ≤ cs.length := by
  unfold readEscape at h
  split at h
  · cases h
  · split at h
    · split at h
      · cases h
      · rename_i h4
        have := length_readHex4_le h4
        split at h
        · cases h
        split at h
        · split at h
          · cases h
          · rename_i hs
            have := length_readLowSurrogate_le hs
            simp only [Except.ok.injEq, Prod.mk.injEq] at h
            obtain ⟨_, rfl⟩ := h
            simp
            omega
        · simp only [Except.ok.injEq, Prod.mk.injEq] at h
          obtain ⟨_, rfl⟩ := h
          simp
          omega
    · split at h <;> cases h
      simp

/-- Reads the characters of a string and its closing quote. -/
def readChars (cs : List Char) : Except Fault (List Char × List Char) :=
  match cs with
  | [] => .error (.ended .string)
  | c :: rest =>
    if c = '"' then .ok ([], rest)
    else if c = '\\' then
      match _h : readEscape rest with
      | .error e => .error e
      | .ok (d, rest') => do
        let (text, after) ← readChars rest'
        return (d :: text, after)
    else if c.toNat < 0x20 then .error .malformed
    else do
      let (text, after) ← readChars rest
      return (c :: text, after)
termination_by cs.length
decreasing_by
  · have := length_readEscape_le _h
    simp only [List.length_cons]
    omega
  · simp

/-- Moves over the characters of a string and its closing quote. -/
def skipChars (cs : List Char) : Except Fault (List Char) :=
  match cs with
  | [] => .error (.ended .string)
  | c :: rest =>
    if c = '"' then .ok rest
    else if c = '\\' then
      match rest with
      | [] => .error (.ended .string)
      | e :: rest' =>
        if e = 'u' then
          match _h : readHex4 rest' with
          | .error e => .error e
          | .ok (_, after) => skipChars after
        else if (shortEscape? e).isSome then skipChars rest'
        else .error .malformed
    else if c.toNat < 0x20 then .error .malformed
    else skipChars rest
termination_by cs.length
decreasing_by
  · have := length_readHex4_le _h
    simp only [List.length_cons]
    omega
  · simp only [List.length_cons]
    omega
  · simp

end CallGuard.Json
