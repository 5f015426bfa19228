import CallGuard.Json.Reader
import CallGuard.Report
import CallGuard.Text.Blank

/-!
Reports from text. A report is a JSON object; its members may also stand alone,
without the braces around them.

* `Report.parse`: a report with or without its braces.
* `Report.ofFragment`: a report without its braces.
-/

namespace CallGuard

/-- Reads a signature. -/
def Signature.reader : Json.Reader Signature := do
  let shape : Json.PairShape String (List String) :=
    ⟨"ret", Json.readString, "args", Json.readArray Json.readString, []⟩
  let (ret, args) ← shape.read
  return ⟨ret, args⟩

/-- Reads a record. -/
def Record.reader : Json.Reader Record := do
  let shape : Json.PairShape Signature (List Signature) :=
    ⟨"Type", Signature.reader, "Calls", Json.readArray Signature.reader, []⟩
  let (type, calls) ← shape.read
  return ⟨type, calls⟩

namespace Report

/-- The report that a JSON object spells. -/
def ofObject (source : List Char) : Except Json.ReadError Report :=
  (Json.read (Json.readObject Record.reader) source).map OrderedMap.ofList

/-- The report whose members a text spells. -/
def ofFragment (source : List Char) : Except Json.ReadError Report :=
  ofObject ('\x7b' :: (source ++ ['\x7d']))

/-- The report that a text spells: an object if a brace comes first after blanks,
and else the members of one. -/
def parse (source : List Char) : Except Json.ReadError Report :=
  let trimmed := Text.trimStart source
  if trimmed.head? = some '\x7b' then ofObject trimmed else ofFragment source

end Report

end CallGuard
