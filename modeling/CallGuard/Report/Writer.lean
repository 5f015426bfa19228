import CallGuard.Json.Value
import CallGuard.Report

/-!
Reports as text.

* `Fragment`: records one after the other as they come, each after the first with
  a comma before it, so that braces around all of them make a JSON object.
* `Report.render`: a whole report as one JSON object, with a line end.
* `ReportFormat`: the names of the two forms.
-/

namespace CallGuard

/-- The two forms of a report. -/
inductive ReportFormat where
  /-- Records as they come. -/
  | fragment
  /-- One object at the end. -/
  | json
  deriving DecidableEq, Repr

namespace ReportFormat

/-- The name of a form. -/
def name : ReportFormat → String
  | fragment => "fragment"
  | json => "json"

/-- The form of a name. -/
def ofName? (s : String) : Option ReportFormat :=
  [fragment, json].find? (·.name == s)

/-- What is said about a name of no form. -/
def unknownMessage (s : String) : String :=
  s!"unknown report format '{s}'"

end ReportFormat

/-! ### Records as they come -/

namespace Fragment

/-- Types one to a line, each line after the first with a comma before the type, in
pieces. -/
def types (indent : List Char) : List String → List (List Char)
  | [] => []
  | t :: ts =>
    indent :: (Json.quotePieces t.toList ++ [['\n']]) ++
      ts.flatMap fun t => indent :: [','] :: (Json.quotePieces t.toList ++ [['\n']])

/-- The signature of a call, in pieces. -/
def call (s : Signature) : List (List Char) :=
  "\t\t\t\x7b\"ret\" : ".toList :: (Json.quotePieces s.ret.toList ++
    "\n\t\t\t,\"args\" : [\n".toList :: (types "\t\t\t\t".toList s.args ++
      ["\t\t\t]\n\t\t\t\x7d\n".toList]))

/-- The signatures of calls, with a comma before each but the first, in pieces. -/
def calls : List Signature → List (List Char)
  | [] => []
  | s :: ss => call s ++ ss.flatMap fun s => [','] :: call s

/-- A record with its name, in pieces. -/
def member (name : String) (r : Record) : List (List Char) :=
  Json.quotePieces name.toList ++
    [" : \x7b\n".toList, "\t\"Type\": \x7b\n".toList, "\t\t\"ret\" : ".toList] ++
    Json.quotePieces r.type.ret.toList ++ ["\n\t\t,\"args\" : [\n".toList] ++
    types "\t\t\t".toList r.type.args ++
    ["\t\t]\n\t\x7d\n".toList, "\t,\"Calls\": [\n".toList] ++
    calls r.calls ++ ["\t]\n\x7d\n".toList]

/-- The pieces that are written for a record; `first` says that nothing has been
written. -/
def pieces (first : Bool) (name : String) (r : Record) : List (List Char) :=
  if first then member name r else [','] :: member name r

/-- What is written for a record; `first` says that nothing has been written. -/
def next (first : Bool) (name : String) (r : Record) : List Char :=
  (pieces first name r).flatten

/-- What is written for records that come one after the other. -/
def write (first : Bool) : List (String × Record) → List Char
  | [] => []
  | (name, r) :: rs => next first name r ++ write false rs

end Fragment

/-! ### Whole reports -/

/-- A signature as a JSON value. -/
def Signature.value (s : Signature) : Json.Value :=
  .object [("ret".toList, .string s.ret.toList),
    ("args".toList, .array (s.args.map fun a => .string a.toList))]

/-- A record as a JSON value. -/
def Record.value (r : Record) : Json.Value :=
  .object [("Type".toList, r.type.value), ("Calls".toList, .array (r.calls.map (·.value)))]

namespace Report

/-- A report as a JSON value. -/
def value (r : Report) : Json.Value :=
  .object (r.entries.map fun (name, record) => (name.toList, record.value))

/-- A report as one JSON object with a line end. -/
def render (pretty : Bool) (r : Report) : List Char :=
  (if pretty then r.value.pretty else r.value.compact) ++ ['\n']

/-- The records of a report as they would be written one after the other. -/
def fragment (r : Report) : List Char :=
  Fragment.write true r.entries

end Report

end CallGuard
