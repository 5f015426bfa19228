import CallGuard.Text.Utf8

/-!
First lines of programs that are texts. Such a line names the program that runs the
file.

* `FirstLine.read?`: what the first line of a file names.
-/

namespace CallGuard.FirstLine

/-- How many bytes of a file are looked at. -/
def window : Nat := 256

/-- Whether a byte is a blank. -/
def isBlankByte (b : UInt8) : Bool :=
  b == 0x20 || b == 0x09

/-- Whether a byte ends a name. -/
def endsName (b : UInt8) : Bool :=
  isBlankByte b || b == 0

/-- The text of bytes. -/
def textOf (bytes : List UInt8) : String :=
  String.ofList (Text.decodeLossy bytes)

/-- The rest of the first line, after its two marks, without blanks at its end. If
the line does not end within the window, the file has to be shorter, and zero bytes
follow, or a name has to end there. -/
def body? (start : List UInt8) : Option (List UInt8) :=
  let trim (line : List UInt8) := (line.reverse.dropWhile isBlankByte).reverse
  if start.contains 0x0a then some (trim (start.takeWhile (· != 0x0a)))
  else if start.length + 2 < window then some (start ++ [0])
  else if (start.dropWhile isBlankByte).any endsName then some (trim start.dropLast)
  else none

/-- What the first line of a file names: a program, and at most one argument, which
may hold blanks. -/
def read? (bytes : List UInt8) : Option (String × Option String) :=
  match bytes.take window with
  | 0x23 :: 0x21 :: start => do
    let body := (← body? start).dropWhile isBlankByte
    let rest := body.dropWhile (!endsName ·)
    if body.isEmpty then none
    else
      return (textOf (body.takeWhile (!endsName ·)),
        if (rest.head?.map isBlankByte).getD false then
          some (textOf ((rest.dropWhile isBlankByte).takeWhile (· != 0)))
        else none)
  | _ => none

end CallGuard.FirstLine
