import CallGuard.Files.Program
import Mathlib.Tactic

/-!
Writing at one path, and what there is at another. What is put at a place is there afterwards,
and a path that leads to a file goes on leading to it, if the other place does not lie below it.

* `get?_put`, `isDirectory_put`: the files and the directories after a file was put somewhere.
* `Arrives`, `Arrives.put`: the way of a path through directories.
* `locate_put`: a path that leads to a file.
* `WroteAtMost`: what a program leaves that writes at one path at most.
* `WroteAtMost.read`: what is read after writing elsewhere.
-/

namespace CallGuard

namespace Files

variable {files : Files}

/-! ### Files and directories after a file was put somewhere -/

lemma lookup_map_replace (entries : List (List String × File)) (key k : List String) (f : File) :
    (entries.map fun (k, g) => if k = key then (k, f) else (k, g)).lookup k =
      if k = key then (entries.lookup k).map fun _ => f else entries.lookup k := by
  induction entries with
  | nil => simp
  | cons e entries ih =>
      obtain ⟨place, g⟩ := e
      change ((if place = key then (place, f) else (place, g)) :: _).lookup k = _
      by_cases hplace : place = key
      · subst hplace
        by_cases hk : k = place
        · simp [hk]
        · have hne : (k == place) = false := beq_false_of_ne hk
          simp only [if_true, List.lookup_cons, hne, ih, hk, if_false]
      · rw [if_neg hplace, List.lookup_cons, List.lookup_cons, ih]
        by_cases hk : k = place
        · subst hk
          simp [hplace]
        · have hne : (k == place) = false := beq_false_of_ne hk
          simp only [hne]

lemma isSome_lookup (entries : List (List String × File)) (k : List String) :
    (entries.lookup k).isSome = entries.any (·.1 == k) := by
  induction entries with
  | nil => rfl
  | cons e entries ih =>
      rw [List.lookup_cons, List.any_cons, ← ih, Bool.beq_comm]
      cases e.1 == k <;> rfl

/-- The file at a place after one was put somewhere. -/
lemma get?_put (files : Files) (key k : List String) (f : File) :
    (files.put key f).get? k = if k = key then some f else files.get? k := by
  have hany := isSome_lookup files.entries key
  rw [put, get?, get?]
  dsimp only
  split_ifs with hmem hk hk
  · rw [lookup_map_replace, if_pos hk, hk]
    rw [hmem] at hany
    obtain ⟨g, hg⟩ := Option.isSome_iff_exists.mp hany
    rw [hg, Option.map_some]
  · rw [lookup_map_replace, if_neg hk]
  · rw [Bool.not_eq_true] at hmem
    rw [hmem, Option.isSome_eq_false_iff, Option.isNone_iff_eq_none] at hany
    rw [List.lookup_append, hk, hany]
    simp
  · have hne : (k == key) = false := beq_false_of_ne hk
    rw [List.lookup_append, List.lookup_cons, hne]
    simp

lemma below_put (files : Files) (key k : List String) (f : File) :
    (files.put key f).entries.any (fun e => k.length < e.1.length && k.isPrefixOf e.1) =
      (files.entries.any (fun e => k.length < e.1.length && k.isPrefixOf e.1) ||
        (decide (k.length < key.length) && k.isPrefixOf key)) := by
  rw [put]
  dsimp only
  split_ifs with hmem
  · obtain ⟨e, he, hkey⟩ := List.any_eq_true.mp hmem
    rw [beq_iff_eq] at hkey
    have hcomp : ((fun e : List String × File => decide (k.length < e.1.length) &&
        k.isPrefixOf e.1) ∘ fun e : List String × File =>
          if e.1 = key then (e.1, f) else (e.1, e.2)) =
        fun e => decide (k.length < e.1.length) && k.isPrefixOf e.1 := by
      funext e
      rw [Function.comp_apply]
      split_ifs <;> rfl
    rw [List.any_map]
    refine (congrArg files.entries.any hcomp).trans ?_
    rw [eq_comm, Bool.or_eq_left_iff_imp]
    intro hbelow
    exact List.any_eq_true.mpr ⟨e, he, by rw [hkey]; exact hbelow⟩
  · rw [List.any_append, List.any_cons, List.any_nil, Bool.or_false]

/-- A place is a directory after a file was put somewhere, if it was before, or if the file lies
below it. -/
lemma isDirectory_put (files : Files) (key k : List String) (f : File) :
    (files.put key f).isDirectory k =
      (files.isDirectory k || (decide (k.length < key.length) && k.isPrefixOf key)) := by
  change (_ || _ || _ || (files.put key f).entries.any _) = _
  rw [below_put, ← Bool.or_assoc]
  rfl

/-! ### Paths that lead to a place of a file -/

/-- What there is at a place of a file, or where one can be. -/
def leadAt (files : Files) (key : List String) : Lead :=
  match files.get? key with
  | some file => .found (.file key file)
  | none => .missing key

/-- From a directory, which is given by its names, last first, segments go through directories to
a place that is none. -/
inductive Arrives (files : Files) : List String → List String → List String → Prop
  | point {dir rest key} (h : Arrives files dir rest key) : Arrives files dir ("." :: rest) key
  | up {dir rest key} (h : Arrives files (above dir) rest key) :
      Arrives files dir (".." :: rest) key
  | enter {dir s rest key} (hpoint : s ≠ ".") (hup : s ≠ "..")
      (hshort : ¬ nameLimit < Text.byteLength s.toList)
      (hdir : files.isDirectory (s :: dir).reverse = true) (h : Arrives files (s :: dir) rest key) :
      Arrives files dir (s :: rest) key
  | last {dir s} (hpoint : s ≠ ".") (hup : s ≠ "..")
      (hshort : ¬ nameLimit < Text.byteLength s.toList)
      (hdir : files.isDirectory (s :: dir).reverse = false)
      (hdevice : Device.at? (s :: dir).reverse = none) : Arrives files dir [s] (s :: dir).reverse

lemma Arrives.follow_eq {dir segs key : List String} (h : files.Arrives dir segs key) :
    files.follow dir segs = .ok (files.leadAt key) := by
  induction h with
  | point _ ih => rw [follow, if_pos rfl, ih]
  | up _ ih => rw [follow, if_neg (by decide), if_pos rfl, ih]
  | enter hpoint hup hshort hdir _ ih =>
      rw [follow, if_neg hpoint, if_neg hup]
      dsimp only
      rw [if_neg hshort, if_pos hdir, ih]
  | @last dir s hpoint hup hshort hdir hdevice =>
      rw [follow, if_neg hpoint, if_neg hup]
      dsimp only
      rw [if_neg hshort, hdir, hdevice, leadAt]
      cases files.get? (s :: dir).reverse <;> rfl

/-- Paths that lead to a file, or to a place where one can be, arrive there. -/
lemma arrives_of_follow {dir segs key : List String} {lead : Lead}
    (h : files.follow dir segs = .ok lead)
    (hlead : lead = .missing key ∨ ∃ file, lead = .found (.file key file)) :
    files.Arrives dir segs key := by
  fun_induction follow files dir segs with
  | case2 dir rest ih => exact .point (ih h)
  | case3 dir rest _ ih => exact .up (ih h)
  | case6 dir s rest hpoint hup key hshort hdir ih => exact .enter hpoint hup hshort hdir (ih h)
  | case9 dir s rest hpoint hup place hshort hdir file hfile hdevice hrest =>
      obtain rfl := List.isEmpty_iff.mp hrest
      have hkey : place = key := by
        obtain rfl | ⟨g, rfl⟩ := hlead
        · exact absurd (Except.ok.inj h) nofun
        · exact (Place.file.inj (Lead.found.inj (Except.ok.inj h))).1
      rw [← hkey]
      exact .last hpoint hup hshort (Bool.eq_false_iff.mpr hdir) hdevice
  | case11 dir s rest hpoint hup place hshort hdir hfile hdevice hrest =>
      obtain rfl := List.isEmpty_iff.mp hrest
      have hkey : place = key := by
        obtain rfl | ⟨g, rfl⟩ := hlead
        · exact Lead.missing.inj (Except.ok.inj h)
        · exact absurd (Except.ok.inj h) nofun
      rw [← hkey]
      exact .last hpoint hup hshort (Bool.eq_false_iff.mpr hdir) hdevice
  | _ =>
      obtain hlead | ⟨file, hlead⟩ := hlead <;> subst hlead <;> cases h

/-- A file that was put where a path arrives, or where nothing of it is below, is not on the way. -/
lemma Arrives.put {dir segs key place : List String} (h : files.Arrives dir segs key) (f : File)
    (hlength : place.length ≤ key.length) : (files.put place f).Arrives dir segs key := by
  induction h with
  | point _ ih => exact .point (ih hlength)
  | up _ ih => exact .up (ih hlength)
  | enter hpoint hup hshort hdir _ ih =>
      refine .enter hpoint hup hshort ?_ (ih hlength)
      rw [isDirectory_put, hdir, Bool.true_or]
  | last hpoint hup hshort hdir hdevice =>
      refine .last hpoint hup hshort ?_ hdevice
      rw [isDirectory_put, hdir, decide_eq_false (not_lt.mpr hlength), Bool.false_or,
        Bool.false_and]

/-- Where a segment leads from a directory, whatever there is. -/
def turn (dir : List String) (s : String) : List String :=
  if s = "." then dir else if s = ".." then above dir else s :: dir

/-- The place where a path arrives is known from its segments. -/
lemma Arrives.eq_foldl {dir segs key : List String} (h : files.Arrives dir segs key) :
    key = (segs.foldl turn dir).reverse := by
  induction h with
  | point _ ih => exact ih
  | up _ ih => exact ih
  | enter hpoint hup _ _ _ ih => rwa [List.foldl_cons, turn, if_neg hpoint, if_neg hup]
  | last hpoint hup => rw [List.foldl_cons, turn, if_neg hpoint, if_neg hup, List.foldl_nil]

lemma foldl_turn_filter (segs dir : List String) :
    (segs.filter (· ≠ ".")).foldl turn dir = segs.foldl turn dir := by
  induction segs generalizing dir with
  | nil => rfl
  | cons s segs ih =>
      by_cases hpoint : s = "."
      · subst hpoint
        rw [List.filter_cons_of_neg (by decide), ih]
        rfl
      · rw [List.filter_cons_of_pos (by simpa using hpoint), List.foldl_cons, List.foldl_cons, ih]

/-! ### Reading and writing -/

/-- The directory that a path starts from, by its names, last first. -/
def base (files : Files) (path : String) : List String :=
  if Path.isAbsolute path then root else files.directory.reverse

/-- The segments of a path that are not empty. -/
def steps (path : String) : List String :=
  (Path.segments path).filter (· ≠ "")

/-- A path that leads somewhere is followed in any files. -/
lemma locate_eq_follow {path : String} {lead : Lead} (h : files.locate path = .ok lead)
    (other : Files) : other.locate path = other.follow (other.base path) (steps path) := by
  have hzero : ¬ path.toList.contains '\x00' = true := fun hc => by
    rw [locate, if_pos hc] at h
    cases h
  have hempty : ¬ path = "" := fun hc => by
    rw [locate, if_neg hzero, if_pos hc] at h
    cases h
  have hlong : ¬ pathLimit < Text.byteLength path.toList := fun hc => by
    rw [locate, if_neg hzero, if_neg hempty, if_pos hc] at h
    cases h
  rw [locate, if_neg hzero, if_neg hempty, if_neg hlong]
  rfl

lemma follow_of_locate {path : String} {lead : Lead} (h : files.locate path = .ok lead) :
    files.follow (files.base path) (steps path) = .ok lead := by
  rw [← locate_eq_follow h files, h]

/-- A path that leads to a file goes on leading to it when a file is put there, or at another
place that does not lie below it. -/
lemma locate_put {path : String} {key place : List String} {g : File}
    (h : files.locate path = .ok (.found (.file key g))) (f : File)
    (hlength : place.length ≤ key.length) :
    (files.put place f).locate path =
      .ok (.found (.file key (if key = place then f else g))) := by
  have harrives := arrives_of_follow (follow_of_locate h) (.inr ⟨g, rfl⟩)
  have hleads := (harrives.put f hlength).follow_eq
  have hget : files.leadAt key = .found (.file key g) :=
    Except.ok.inj (harrives.follow_eq.symm.trans (follow_of_locate h))
  have hlead : (files.put place f).leadAt key =
      .found (.file key (if key = place then f else g)) := by
    rw [leadAt] at hget ⊢
    rw [get?_put]
    split_ifs
    · rfl
    · cases hfile : files.get? key with
      | none => rw [hfile] at hget; cases hget
      | some file => rwa [hfile] at hget
  rw [locate_eq_follow h, ← hlead, ← hleads]
  rfl

lemma read_of_locate {path : String} {key : List String} {g : File}
    (h : files.locate path = .ok (.found (.file key g))) (hdir : asksDirectory path = false) :
    files.read path = .ok g.bytes := by
  rw [read, find, h]
  simp [hdir]

lemma decode?_device (device : Device) {text : List Char} (hne : text ≠ []) :
    Text.decode? device.bytes ≠ some text := by
  cases device with
  | program name => simp [Device.bytes, Text.decode?, Text.readChar]
  | _ => simpa [Device.bytes, Text.decode?] using hne.symm

/-- A text that is not empty is read from a file. -/
lemma exists_file_of_readText {path : String} {text : List Char}
    (h : files.readText path = .ok text) (hne : text ≠ []) :
    ∃ key file, files.locate path = .ok (.found (.file key file)) ∧
      asksDirectory path = false := by
  cases hread : files.read path with
  | error e =>
      rw [readText, hread] at h
      cases h
  | ok bytes =>
      have hbytes : Text.decode? bytes = some text := by
        simp only [readText, hread, bind, Except.bind] at h
        cases hdecode : Text.decode? bytes <;> rw [hdecode] at h <;> cases h
        rfl
      rw [read, find] at hread
      cases hlocate : files.locate path with
      | error e => rw [hlocate] at hread; cases hread
      | ok lead =>
          rw [hlocate] at hread
          cases lead with
          | missing | unnameable => cases hread
          | found place =>
              cases place with
              | directory => cases hread
              | file key file =>
                  refine ⟨key, file, rfl, Bool.eq_false_iff.mpr fun hdir => ?_⟩
                  simp [hdir] at hread
              | device device =>
                  cases hdir : asksDirectory path
                  · simp only [hdir] at hread
                    obtain rfl := Except.ok.inj hread
                    exact absurd hbytes (decode?_device device hne)
                  · simp [hdir] at hread

/-- What a program leaves that writes at one path at most. -/
def WroteAtMost (before : Files) (path : String) (after : Files) : Prop :=
  after = before ∨ ∃ bytes, before.write path bytes = .ok after

lemma write_of_locate {path : String} {key : List String} {g : File} (bytes : List UInt8)
    (h : files.locate path = .ok (.found (.file key g))) (hdir : asksDirectory path = false) :
    files.write path bytes = .ok (files.put key { g with bytes }) := by
  rw [write, h]
  simp [hdir]

/-- A file is written where the path arrives. -/
lemma write_eq_ok {path : String} {bytes : List UInt8} {after : Files}
    (h : files.write path bytes = .ok after) :
    after = files ∨ ∃ place f, files.Arrives (files.base path) (steps path) place ∧
      after = files.put place f := by
  rw [write] at h
  cases hlocate : files.locate path with
  | error e => rw [hlocate] at h; cases h
  | ok lead =>
      have hfollow := follow_of_locate hlocate
      have hdir : ¬ asksDirectory path = true := fun hc => by
        rw [hlocate] at h
        dsimp only at h
        rw [if_pos hc] at h
        cases h
      rw [hlocate] at h
      dsimp only at h
      rw [if_neg hdir] at h
      split at h
      · rename_i key file
        exact .inr ⟨key, _, arrives_of_follow hfollow (.inr ⟨file, rfl⟩), (Except.ok.inj h).symm⟩
      · split_ifs at h
        exact .inl (Except.ok.inj h).symm
      · exact .inl (Except.ok.inj h).symm
      · cases h
      · rename_i key
        exact .inr ⟨key, _, arrives_of_follow hfollow (.inl rfl), (Except.ok.inj h).symm⟩
      · cases h

/-- What is read at a path is not changed by a program that writes at another one at most. -/
lemma WroteAtMost.read {path other : String} {after : Files} {key : List String} {g : File}
    (h : files.WroteAtMost other after) (hlocate : files.locate path = .ok (.found (.file key g)))
    (hdir : asksDirectory path = false)
    (hapart : ∀ place, files.Arrives (files.base other) (steps other) place →
      place.length ≤ key.length ∧ key ≠ place) : after.read path = .ok g.bytes := by
  obtain rfl | ⟨bytes, hwrite⟩ := h
  · exact read_of_locate hlocate hdir
  obtain rfl | ⟨place, f, hplace, rfl⟩ := write_eq_ok hwrite
  · exact read_of_locate hlocate hdir
  obtain ⟨hlength, hne⟩ := hapart place hplace
  have hleads := locate_put hlocate f hlength
  rw [if_neg hne] at hleads
  exact read_of_locate hleads hdir

end Files

end CallGuard
