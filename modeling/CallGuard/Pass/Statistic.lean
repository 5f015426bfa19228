import CallGuard.Text.Utf8

/-!
Counters of passes and their summary.

* `Statistic`: a named counter.
* `Statistics.collect`: the counters that are not zero, sorted.
* `Statistics.text`: the summary as a table.
-/

namespace CallGuard

/-- A named counter. -/
structure Statistic where
  /-- The component that it belongs to. -/
  component : String
  /-- The name. -/
  name : String
  /-- What it counts. -/
  description : String
  /-- The count. -/
  value : Nat := 0
  deriving DecidableEq, Repr

namespace Statistic

/-- Adds to a counter. -/
def add (s : Statistic) (n : Nat) : Statistic :=
  { s with value := s.value + n }

/-- Counts one more. -/
def inc (s : Statistic) : Statistic :=
  s.add 1

/-- The order of counters: by component, then name, then description. -/
def le (a b : Statistic) : Bool :=
  if a.component ≠ b.component then a.component ≤ b.component
  else if a.name ≠ b.name then a.name ≤ b.name
  else a.description ≤ b.description

end Statistic

/-- A summary of counters. -/
abbrev Statistics := List Statistic

namespace Statistics

/-- The counters that are not zero, sorted. Counters that the order does not tell
apart stay as they came. -/
def collect (all : List Statistic) : Statistics :=
  (all.filter (0 < ·.value)).mergeSort Statistic.le

/-- The sum of the counters of a name. -/
def valueOf (s : Statistics) (name : String) : Nat :=
  (s.filter (·.name == name)).foldr (fun x n => x.value + n) 0

/-- A text with blanks before it up to a width. -/
def padLeft (width : Nat) (s : String) : String :=
  String.ofList (List.replicate (width - s.length) ' ') ++ s

/-- A text with blanks after it up to a width. -/
def padRight (width : Nat) (s : String) : String :=
  s ++ String.ofList (List.replicate (width - s.length) ' ')

/-- The line above and below the title. -/
def rule : String :=
  "===" ++ String.ofList (List.replicate 73 '-') ++ "==="

/-- The title. -/
def title : String :=
  String.ofList (List.replicate 26 ' ') ++ "... Statistics Collected ..."

/-- The summary as a table. Its column of components is as wide as the longest of
them has bytes, and is filled up by characters. Without counters there is no
text. -/
def text (s : Statistics) : String :=
  if s.isEmpty then ""
  else
    let valueWidth := (s.map fun x => (toString x.value).length).foldl max 0
    let componentWidth := (s.map fun x => Text.byteLength x.component.toList).foldl max 0
    let line (x : Statistic) : String :=
      padLeft valueWidth (toString x.value) ++ " " ++ padRight componentWidth x.component ++
        " - " ++ x.description ++ "\n"
    rule ++ "\n" ++ title ++ "\n" ++ rule ++ "\n\n" ++ String.join (s.map line)

end Statistics

end CallGuard
