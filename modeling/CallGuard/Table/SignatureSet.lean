import CallGuard.Table.TypeCode

/-!
Signature sets: the functions of a table by their signatures. The entries of a
table are sorted by signature, and those with the same key make up a set. Every
set owns a range of indices, and the ranges lie one after the other from one on.

* `SignatureCode.key`: the key of a signature.
* `compareParams`: the order of parameter lists, with zeros after the shorter one.
* `SignatureSets.build`: the sets of a table.

Indices have no bound here. `Wat.Direct.ofTable` has them in 32 bits, which makes no difference to
a table with fewer than `2 ^ 32 - 1` references.
-/

namespace CallGuard

/-! ### Keys and order -/

/-- The key of a signature: its numbers with underscores between them. A list
without parameters counts as the one number that says so. -/
def SignatureCode.key (s : SignatureCode) : String :=
  let params := if s.params.isEmpty then [TypeCodes.nil] else s.params
  toString s.ret ++ String.join (params.map fun p => "_" ++ toString p)

/-- The key of the set for functions without a known signature. -/
def fallbackKey : String := "0_-1"

/-- Compares parameter lists from left to right, as if zeros followed the shorter
one. -/
def compareParams (a b : List Int) : Ordering :=
  ((a.zipWithAll (fun x y => compare (x.getD 0) (y.getD 0)) b).find? (· != .eq)).getD .eq

/-- Compares signatures by return type, then by parameters. -/
def SignatureCode.compare (a b : SignatureCode) : Ordering :=
  (Ord.compare a.ret b.ret).then (compareParams a.params b.params)

/-- A function in a table. -/
structure TableEntry where
  /-- The name. -/
  name : String
  /-- The index in the table, counted from one. -/
  index : Nat
  /-- The signature. -/
  code : SignatureCode
  deriving DecidableEq, Repr

/-- The order in which entries are sorted. -/
def TableEntry.le (a b : TableEntry) : Bool :=
  a.code.compare b.code != .gt

/-! ### Sets -/

/-- A function of a set. -/
structure SetMember where
  /-- The name. -/
  name : String
  /-- The index in the table, counted from one. -/
  index : Nat
  deriving DecidableEq, Repr

/-- The functions of one key, with the range of indices that they own. -/
structure SignatureSet where
  /-- The key. -/
  key : String
  /-- The functions. -/
  members : List SetMember
  /-- The first index of the range. -/
  lower : Nat
  /-- The index after the range. -/
  upper : Nat
  deriving DecidableEq, Repr

namespace SignatureSet

/-- The number of functions. -/
def count (s : SignatureSet) : Nat :=
  s.members.length

/-- Whether an index lies in the range. -/
def containsIndex (s : SignatureSet) (index : Nat) : Bool :=
  s.lower ≤ index && index < s.upper

/-- A function of a set in words. -/
def memberText (m : SetMember) : String :=
  s!"\t\t\x7b\n\t\t\tfuncName : {m.name}\n\t\t\toriginalIdx : {m.index}\n\t\t\x7d\n"

/-- A set in words. -/
def text (s : SignatureSet) : String :=
  s!"{s.key} : \x7b\tfuncMem : \x7b\n" ++ String.join (s.members.map memberText) ++
    s!"\t\x7d\n\tLB : {s.lower},\n\tUB : {s.upper},\n\tcount : {s.count}\x7d\n"

end SignatureSet

/-- The sets of a table, in the order of their ranges. -/
structure SignatureSets where
  /-- The sets. -/
  sets : List SignatureSet := []
  /-- The number of entries of the table. -/
  tableLength : Nat := 0
  deriving DecidableEq, Repr

namespace SignatureSets

/-- Adds an entry to the members of its key. -/
def addEntry (groups : OrderedMap (List SetMember)) (e : TableEntry) :
    OrderedMap (List SetMember) :=
  let key := e.code.key
  groups.insert key ((groups.find? key).getD [] ++ [⟨e.name, e.index⟩])

/-- The members of each key, in the order in which the keys come. -/
def group (entries : List TableEntry) : OrderedMap (List SetMember) :=
  entries.foldl addEntry .empty

/-- Gives ranges to groups, one after the other from `lower` on. -/
def assignRanges (lower : Nat) : List (String × List SetMember) → List SignatureSet
  | [] => []
  | (key, members) :: rest =>
    let upper := lower + members.length
    ⟨key, members, lower, upper⟩ :: assignRanges upper rest

/-- The sets of a table. -/
def build (entries : List TableEntry) : SignatureSets where
  sets := assignRanges 1 (group (entries.mergeSort TableEntry.le)).entries
  tableLength := entries.length

/-- The set of a key. -/
def find? (s : SignatureSets) (key : String) : Option SignatureSet :=
  s.sets.find? (·.key == key)

/-- Whether there is a set of a key. -/
def contains (s : SignatureSets) (key : String) : Bool :=
  (s.find? key).isSome

/-- The number of sets. -/
def size (s : SignatureSets) : Nat :=
  s.sets.length

/-- The sets in words. -/
def text (s : SignatureSets) : String :=
  String.join (s.sets.map (·.text))

end SignatureSets

end CallGuard
