import CallGuard.Wat.Module
import Mathlib.Data.List.TakeWhile
import Mathlib.Tactic

/-!
The last line of a text. A module seems guarded if its last line that is not blank starts a
global, so what comes after this line must be blank.

* `Text.lines_append_newline`: a line end cuts the lines of a text in two.
* `isInstrumented_append_newline`: only the lines after a line end matter if they are not all
  blank, and only those before it if they are.
* `isInstrumented_of_globalStart`: a text whose last line starts a global.
-/

namespace CallGuard

namespace Text

/-! ### Blank texts -/

/-- A text of white space only. -/
def AllBlank (s : List Char) : Prop :=
  ∀ c ∈ s, isBlank c = true

instance (s : List Char) : Decidable (AllBlank s) :=
  inferInstanceAs (Decidable (∀ c ∈ s, isBlank c = true))

lemma trimStart_eq_nil_iff {s : List Char} : trimStart s = [] ↔ AllBlank s :=
  List.dropWhile_eq_nil_iff

lemma isEmpty_trim_iff {s : List Char} : (trim s).isEmpty = true ↔ AllBlank s := by
  rw [List.isEmpty_iff, trim, trimEnd, List.reverse_eq_nil_iff, trimStart_eq_nil_iff]
  constructor
  · intro h
    rw [← trimStart_eq_nil_iff, List.eq_nil_iff_forall_not_mem]
    intro c hc
    -- a text that is trimmed starts with a character that is not blank
    obtain ⟨d, ds, hds⟩ := List.exists_cons_of_ne_nil (List.ne_nil_of_mem hc)
    have hd : isBlank d = true := h d (by simp [hds])
    rw [head_trimStart hds] at hd
    cases hd
  · intro h c hc
    rw [trimStart_eq_nil_iff.mpr h] at hc
    cases hc

lemma allBlank_dropReturn {s : List Char} : AllBlank (dropReturn s) ↔ AllBlank s := by
  rw [dropReturn]
  split
  · rename_i hlast
    obtain ⟨t, rfl⟩ := List.getLast?_eq_some_iff.mp hlast
    have hreturn : isBlank '\r' = true := rfl
    simp [AllBlank, or_imp, forall_and, hreturn]
  · exact Iff.rfl

/-- Only what comes last can lose a carriage return. -/
lemma exists_dropReturn_append {s : List Char} (hs : s.getLast? ≠ some '\r') (t : List Char) :
    ∃ t', dropReturn (s ++ t) = s ++ t' := by
  rw [dropReturn]
  split
  · rename_i hlast
    have ht : t ≠ [] := by
      rintro rfl
      exact hs (by rwa [List.append_nil] at hlast)
    exact ⟨t.dropLast, List.dropLast_append_of_ne_nil ht⟩
  · exact ⟨t, rfl⟩

/-! ### Lines -/

lemma linesFrom_append_newline (line s rest : List Char) :
    linesFrom line (s ++ '\n' :: rest) = linesFrom line (s ++ ['\n']) ++ linesFrom [] rest := by
  induction s generalizing line with
  | nil => simp [linesFrom]
  | cons c s ih =>
      by_cases hc : c = '\n'
      · simp [linesFrom, hc, ih]
      · simp [linesFrom, hc, ih]

/-- A line end cuts the lines of a text in two. -/
lemma lines_append_newline (s rest : List Char) :
    lines (s ++ '\n' :: rest) = lines (s ++ ['\n']) ++ lines rest :=
  linesFrom_append_newline [] s rest

lemma linesFrom_of_notMem {s : List Char} (hs : '\n' ∉ s) (line : List Char) :
    linesFrom line s = linesFrom (s.reverse ++ line) [] := by
  induction s generalizing line with
  | nil => rfl
  | cons c s ih =>
      have hc : c ≠ '\n' := fun h => hs (h ▸ List.mem_cons_self)
      have hrest : '\n' ∉ s := fun h => hs (List.mem_cons_of_mem c h)
      calc linesFrom line (c :: s) = linesFrom (c :: line) s := if_neg hc
        _ = linesFrom (s.reverse ++ c :: line) [] := ih hrest _
        _ = linesFrom ((c :: s).reverse ++ line) [] := by simp

/-- A text without line ends is one line. -/
lemma lines_of_notMem {s : List Char} (hs : '\n' ∉ s) (hne : s ≠ []) : lines s = [s] := by
  rw [lines, linesFrom_of_notMem hs, linesFrom, if_neg (by simpa using hne)]
  simp

/-- So is one that a line end closes. -/
lemma lines_append_singleton {s : List Char} (hs : '\n' ∉ s) :
    lines (s ++ ['\n']) = [dropReturn s] := by
  have hline (line : List Char) :
      linesFrom line (s ++ ['\n']) = [dropReturn (line.reverse ++ s)] := by
    induction s generalizing line with
    | nil => simp [linesFrom]
    | cons c s ih =>
        have hc : c ≠ '\n' := fun h => hs (h ▸ List.mem_cons_self)
        rw [List.cons_append, linesFrom, if_neg hc, ih fun h => hs (List.mem_cons_of_mem c h)]
        simp
  exact hline []

/-- The lines of a text are all blank exactly if the text is. -/
lemma allBlank_lines_iff {s : List Char} : (∀ l ∈ lines s, AllBlank l) ↔ AllBlank s := by
  have hlines (line : List Char) :
      (∀ l ∈ linesFrom line s, AllBlank l) ↔ AllBlank line ∧ AllBlank s := by
    induction s generalizing line with
    | nil =>
        rw [linesFrom]
        cases line with
        | nil => simp [AllBlank]
        | cons c line => simp [AllBlank, or_comm]
    | cons c s ih =>
        have hnewline : isBlank '\n' = true := rfl
        by_cases hc : c = '\n'
        · rw [linesFrom, if_pos hc, List.forall_mem_cons, ih, allBlank_dropReturn]
          simp [AllBlank, hc, hnewline]
        · rw [linesFrom, if_neg hc, ih]
          simp [AllBlank, and_comm, and_left_comm, and_assoc]
  rw [lines, hlines]
  simp [AllBlank]

end Text

namespace Wat

open Text (AllBlank)

/-! ### The last line -/

/-- The last line of a text that is not blank. -/
def lastLine? (text : List Char) : Option (List Char) :=
  (Text.lines text).reverse.find? fun line => !(Text.trim line).isEmpty

lemma isInstrumented_eq (text : List Char) :
    isInstrumented text =
      (lastLine? text).any fun line => "(global".toList.isPrefixOf (Text.trimStart line) := by
  rw [isInstrumented, ← lastLine?]
  cases lastLine? text <;> rfl

lemma lastLine?_eq_none_iff {text : List Char} : lastLine? text = none ↔ AllBlank text := by
  rw [lastLine?, List.find?_eq_none, ← Text.allBlank_lines_iff]
  refine forall_congr' fun line => ?_
  rw [List.mem_reverse, ← Text.isEmpty_trim_iff]
  cases (Text.trim line).isEmpty <;> simp

lemma lastLine?_append_newline (s rest : List Char) :
    lastLine? (s ++ '\n' :: rest) = (lastLine? rest).or (lastLine? (s ++ ['\n'])) := by
  rw [lastLine?, Text.lines_append_newline, List.reverse_append, List.find?_append]
  rfl

/-- If something that is not blank comes after a line end, only that matters. -/
lemma isInstrumented_append_newline {s rest : List Char} (h : ¬AllBlank rest) :
    isInstrumented (s ++ '\n' :: rest) = isInstrumented rest := by
  obtain ⟨line, hline⟩ := Option.ne_none_iff_exists'.mp (mt lastLine?_eq_none_iff.mp h)
  rw [isInstrumented_eq, isInstrumented_eq, lastLine?_append_newline, hline, Option.some_or]

/-- If only blanks come after a line end, they do not matter. -/
lemma isInstrumented_append_blank {s rest : List Char} (h : AllBlank rest) :
    isInstrumented (s ++ '\n' :: rest) = isInstrumented (s ++ ['\n']) := by
  rw [isInstrumented_eq, isInstrumented_eq, lastLine?_append_newline, lastLine?_eq_none_iff.mpr h,
    Option.none_or]

/-- What comes after the first line end of a text. -/
def afterLine (text : List Char) : List Char :=
  (text.dropWhile (· != '\n')).tail

/-- A text is its first line, or has a line end before what comes after it. -/
lemma eq_or_append_afterLine (text : List Char) :
    '\n' ∉ text ∧ afterLine text = [] ∨
      ∃ line, '\n' ∉ line ∧ text = line ++ '\n' :: afterLine text := by
  have hmem : '\n' ∉ text.takeWhile (· != '\n') := fun h => by
    simpa using List.mem_takeWhile_imp h
  have hsplit := text.takeWhile_append_dropWhile (p := (· != '\n'))
  cases hdrop : text.dropWhile (· != '\n') with
  | nil =>
      rw [hdrop, List.append_nil] at hsplit
      exact Or.inl ⟨hsplit ▸ hmem, by rw [afterLine, hdrop, List.tail_nil]⟩
  | cons c cs =>
      obtain rfl : c = '\n' := by
        have := List.head?_dropWhile_not (· != '\n') text
        rw [hdrop] at this
        simpa using this
      refine Or.inr ⟨_, hmem, ?_⟩
      rw [afterLine, hdrop, List.tail_cons, ← hdrop, hsplit]

/-- The start of a line that starts a global. -/
def globalStart : List Char :=
  '\t' :: "(global".toList

/-- What is left of it when it is trimmed. -/
lemma trimStart_globalStart (line : List Char) :
    Text.trimStart (globalStart ++ line) = "(global".toList ++ line := by
  have hword : "(global".toList = '(' :: "global".toList := by decide
  rw [globalStart, hword]
  rfl

lemma not_allBlank_globalStart (line : List Char) : ¬AllBlank (globalStart ++ line) := by
  rw [← Text.trimStart_eq_nil_iff, trimStart_globalStart]
  exact List.append_ne_nil_of_left_ne_nil (by decide) _

/-- A line that starts a global, with or without its line end. -/
lemma isInstrumented_globalStart {line : List Char} (hline : '\n' ∉ line) :
    isInstrumented (globalStart ++ line) = true ∧
      isInstrumented (globalStart ++ line ++ ['\n']) = true := by
  have hmem : '\n' ∉ globalStart ++ line := fun h => by
    rcases List.mem_append.mp h with h | h
    · exact absurd h (by decide)
    · exact hline h
  have hlast (rest : List Char) (text : List Char)
      (hlines : Text.lines text = [globalStart ++ rest]) : isInstrumented text = true := by
    have hblank : (Text.trim (globalStart ++ rest)).isEmpty = false := by
      rw [Bool.eq_false_iff, Ne, Text.isEmpty_trim_iff]
      exact not_allBlank_globalStart rest
    rw [isInstrumented_eq, lastLine?, hlines, List.reverse_singleton,
      List.find?_cons_of_pos (by rw [hblank]; rfl), Option.any_some, trimStart_globalStart,
      List.isPrefixOf_iff_prefix]
    exact List.prefix_append _ _
  obtain ⟨rest, hrest⟩ := Text.exists_dropReturn_append (s := globalStart) (by decide) line
  refine ⟨hlast line _ (Text.lines_of_notMem hmem ?_), hlast rest _ ?_⟩
  · simp [globalStart]
  · rw [Text.lines_append_singleton hmem, hrest]

/-- A text whose last line starts a global, if only blanks come after it. -/
lemma isInstrumented_of_globalStart {front line rest : List Char} (hline : '\n' ∉ line)
    (hrest : rest = [] ∨ ∃ blank, rest = '\n' :: blank ∧ AllBlank blank) :
    isInstrumented (front ++ '\n' :: (globalStart ++ line ++ rest)) = true := by
  obtain ⟨hend, hnewline⟩ := isInstrumented_globalStart hline
  rcases hrest with rfl | ⟨blank, rfl, hblank⟩
  · rwa [List.append_nil, isInstrumented_append_newline (not_allBlank_globalStart line)]
  · rw [List.append_assoc, isInstrumented_append_newline (not_allBlank_globalStart _),
      ← List.append_assoc, isInstrumented_append_blank hblank, hnewline]

end Wat

end CallGuard
