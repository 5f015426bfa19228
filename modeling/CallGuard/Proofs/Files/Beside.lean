import CallGuard.Guard.Run
import CallGuard.Proofs.Files.Put

/-!
Paths of files that lie beside each other. A path is made from another by putting a name where
that has its last segment; both paths arrive in the same directory then, under their own names.

* `Path.segments_join_parent`: the segments of the new path.
* `Path.Beside`, `Path.beside_join_parent`: paths that differ in the last segment that counts.
* `Files.arrives_beside`: where two such paths arrive.
-/

namespace CallGuard

namespace Path

/-! ### Segments -/

lemma slash_notMem_of_mem_splitOn {cs part : List Char} (h : part ∈ cs.splitOn '/') :
    '/' ∉ part := by
  induction cs generalizing part with
  | nil =>
      rw [List.splitOn_nil, List.mem_singleton] at h
      simp [h]
  | cons c cs ih =>
      rw [List.splitOn_cons_eq_if_modifyHead] at h
      split_ifs at h with hc
      · obtain rfl | h := List.mem_cons.mp h
        · simp
        · exact ih h
      · obtain ⟨first, rest, hsplit⟩ := List.exists_cons_of_ne_nil (List.splitOn_ne_nil '/' cs)
        rw [hsplit, List.modifyHead_cons] at h
        obtain rfl | h := List.mem_cons.mp h
        · have hfirst : '/' ∉ first := ih (by rw [hsplit]; exact List.mem_cons_self)
          rw [List.mem_cons, not_or]
          exact ⟨fun heq => hc (by rw [heq]; exact beq_self_eq_true c), hfirst⟩
        · exact ih (by rw [hsplit]; exact List.mem_cons_of_mem _ h)

/-- A path without the slash of the root. -/
def body (path : String) : List Char :=
  if isAbsolute path then path.toList.tail else path.toList

lemma toList_eq_body (path : String) :
    path.toList = (if isAbsolute path then ['/'] else []) ++ body path := by
  rw [body]
  split_ifs with habs
  · rw [isAbsolute, decide_eq_true_eq] at habs
    obtain ⟨cs, hcs⟩ := List.head?_eq_some_iff.mp habs
    rw [hcs]
    rfl
  · rfl

lemma slash_notMem_of_mem_segments {path s : String} (h : s ∈ segments path) :
    '/' ∉ s.toList := by
  obtain ⟨part, hpart, rfl⟩ := List.mem_map.mp h
  rw [String.toList_ofList]
  exact slash_notMem_of_mem_splitOn hpart

lemma intercalate_segments (path : String) :
    ("/".intercalate (segments path)).toList = body path := by
  rw [String.toList_intercalate, segments, List.map_map]
  have hid : String.toList ∘ String.ofList = id := funext fun cs => String.toList_ofList
  rw [hid, List.map_id]
  exact List.intercalate_splitOn '/'

lemma segments_eq_of_body {path : String} {ss : List String} (hss : ss ≠ [])
    (hslash : ∀ s ∈ ss, '/' ∉ s.toList) (hbody : body path = ("/".intercalate ss).toList) :
    segments path = ss := by
  change ((body path).splitOn '/').map String.ofList = ss
  rw [hbody, String.toList_intercalate]
  change (List.splitOn '/' (['/'].intercalate (ss.map String.toList))).map String.ofList = ss
  rw [List.splitOn_intercalate, List.map_map]
  · have hid : String.ofList ∘ String.toList = id := funext fun s => String.ofList_toList
    rw [hid, List.map_id]
  · intro l hl
    obtain ⟨s, hs, rfl⟩ := List.mem_map.mp hl
    exact hslash s hs
  · exact fun h => hss (List.map_eq_nil_iff.mp h)

/-! ### Segments that count for nothing -/

/-- Segments that count for nothing wherever they stand, but for a point at the very start. -/
def IsIdle (s : String) : Prop :=
  s = "" ∨ s = "."

instance : DecidablePred IsIdle :=
  fun s => inferInstanceAs (Decidable (s = "" ∨ s = "."))

lemma exists_idle_append (absolute : Bool) (ss : List String) :
    ∃ idle, ss = idle ++ dropIdle absolute ss ∧ ∀ s ∈ idle, IsIdle s := by
  fun_induction dropIdle absolute ss with
  | case1 => exact ⟨[], rfl, by simp⟩
  | case2 s h =>
      refine ⟨[s], rfl, fun t ht => ?_⟩
      rw [List.mem_singleton.mp ht]
      exact h.imp_right And.left
  | case3 s h => exact ⟨[], rfl, by simp⟩
  | case4 s ss hss h ih =>
      obtain ⟨idle, heq, hidle⟩ := ih
      exact ⟨s :: idle, congrArg (s :: ·) heq, List.forall_mem_cons.mpr ⟨h, hidle⟩⟩
  | case5 s ss hss h => exact ⟨[], rfl, by simp⟩

lemma ne_empty_of_dropIdle {absolute : Bool} {ss rest : List String} {s : String}
    (h : dropIdle absolute ss = s :: rest) : s ≠ "" := by
  fun_induction dropIdle absolute ss with
  | case1 => cases h
  | case2 => cases h
  | case3 t hidle =>
      cases h
      exact fun hempty => hidle (.inl hempty)
  | case4 t ts hts hidle ih => exact ih h
  | case5 t ts hts hidle =>
      cases h
      exact fun hempty => hidle (.inl hempty)

lemma dropIdle_cons_of_not_isIdle (absolute : Bool) {s : String} (h : ¬ IsIdle s)
    (ss : List String) : dropIdle absolute (s :: ss) = s :: ss := by
  cases ss with
  | nil => exact if_neg fun hidle => h (hidle.imp_right And.left)
  | cons => exact if_neg h

lemma filter_idle {idle : List String} (h : ∀ s ∈ idle, IsIdle s) :
    idle.filter (¬ IsIdle ·) = [] :=
  List.filter_eq_nil_iff.mpr fun s hs => by simpa using h s hs

/-! ### A name in the place of the last segment -/

/-- The segments of a path are those that its parent is made of, segments that count for nothing,
its last segment that counts, and others that count for nothing. -/
lemma segments_of_fileName? {path name : String} (h : fileName? path = some name) :
    ¬ IsIdle name ∧ name ≠ ".." ∧ ∃ tail idle : List String, (∀ s ∈ idle, IsIdle s) ∧
      segments path = (dropIdle (isAbsolute path) (reversed path).tail).reverse ++
        (idle ++ name :: tail) ∧ ∀ s ∈ tail, IsIdle s := by
  rw [fileName?] at h
  cases hreversed : reversed path with
  | nil =>
      rw [hreversed] at h
      cases h
  | cons s rest =>
      rw [hreversed] at h
      change (if s = "." ∨ s = ".." then none else some s) = some name at h
      split_ifs at h with hdots
      obtain rfl := Option.some.inj h
      obtain ⟨hpoint, hup⟩ := not_or.mp hdots
      obtain ⟨tail, htail, htailIdle⟩ :=
        exists_idle_append (isAbsolute path) (segments path).reverse
      obtain ⟨idle, hidle, hidleIdle⟩ := exists_idle_append (isAbsolute path) rest
      change _ = tail ++ reversed path at htail
      refine ⟨not_or.mpr ⟨ne_empty_of_dropIdle hreversed, hpoint⟩, hup, tail.reverse,
        idle.reverse, fun t ht => hidleIdle t (List.mem_reverse.mp ht), ?_,
        fun t ht => htailIdle t (List.mem_reverse.mp ht)⟩
      rw [List.tail_cons, ← List.reverse_inj, htail, hreversed]
      conv_lhs => rw [hidle]
      simp

/-- A name that may stand in a path as a segment. -/
structure IsName (name : String) : Prop where
  slash : '/' ∉ name.toList
  idle : ¬ IsIdle name
  up : name ≠ ".."

variable {path name w : String}

lemma join_eq {dir s : String} (before : List Char) (hdir : dir.toList = before ++ s.toList)
    (hs : s ≠ "") (hslash : '/' ∉ s.toList) : join dir w = dir ++ "/" ++ w := by
  have hchars : s.toList ≠ [] := fun h => hs (String.toList_eq_nil_iff.mp h)
  have hne : dir ≠ "" := by
    rintro rfl
    exact hchars (List.append_eq_nil_iff.mp hdir.symm).2
  have hlast : ¬ dir.toList.getLast? = some '/' := by
    rw [hdir, List.getLast?_append_of_ne_nil _ hchars]
    exact fun h => hslash (List.mem_of_getLast? h)
  rw [join, if_neg hne, if_neg hlast]

/-- Where segments follow others, the path of a name below these has their segments. -/
lemma segments_append_slash {dir : String} {ups below : List String} (hups : ups ≠ [])
    (hbelow : below ≠ []) (hsegments : segments path = ups ++ below)
    (hdir : dir.toList = (if isAbsolute path then ['/'] else []) ++ ("/".intercalate ups).toList)
    (hw : IsName w) :
    isAbsolute (dir ++ "/" ++ w) = isAbsolute path ∧ segments (dir ++ "/" ++ w) = ups ++ [w] := by
  have hpath : path.toList = dir.toList ++ '/' :: ("/".intercalate below).toList := by
    have hbody := intercalate_segments path
    rw [hsegments, String.intercalate_append_of_ne_nil hups hbelow, String.toList_append,
      String.toList_append] at hbody
    rw [toList_eq_body, ← hbody, hdir]
    simp
  have hother : (dir ++ "/" ++ w).toList = dir.toList ++ '/' :: w.toList := by
    simp
  have habs : isAbsolute (dir ++ "/" ++ w) = isAbsolute path := by
    rw [isAbsolute, isAbsolute, hother, hpath]
    cases dir.toList <;> rfl
  refine ⟨habs, segments_eq_of_body (by simp) (fun s hs => ?_) ?_⟩
  · obtain hs | hs := List.mem_append.mp hs
    · exact slash_notMem_of_mem_segments (by rw [hsegments]; exact List.mem_append_left _ hs)
    · rw [List.mem_singleton.mp hs]
      exact hw.slash
  · have hbody := toList_eq_body (dir ++ "/" ++ w)
    rw [hother, hdir, habs, List.append_assoc, List.append_cancel_left_eq] at hbody
    rw [← hbody, String.intercalate_append_of_ne_nil hups (by simp), String.intercalate_singleton]
    simp

/-- A name in the directory of the root. -/
lemma segments_root (hw : IsName w) :
    isAbsolute ("/" ++ w) = true ∧ segments ("/" ++ w) = [w] := by
  have hroot : isAbsolute ("/" ++ w) = true := by simp [isAbsolute]
  refine ⟨hroot, segments_eq_of_body (by simp) ?_ ?_⟩
  · simpa using hw.slash
  · simp [body, hroot]

/-- A name in the directory where the program runs. -/
lemma segments_point (hw : IsName w) :
    isAbsolute ("." ++ "/" ++ w) = false ∧ segments ("." ++ "/" ++ w) = [".", w] := by
  have hpoint : isAbsolute ("." ++ "/" ++ w) = false := by simp [isAbsolute]
  refine ⟨hpoint, segments_eq_of_body (by simp) ?_ ?_⟩
  · simpa using hw.slash
  · rw [body, if_neg (by rw [hpoint]; decide)]
    simp

/-- Segments after others end with the last of them. -/
lemma exists_intercalate_reverse_cons (s : String) (ups : List String) :
    ∃ before, ("/".intercalate (s :: ups).reverse).toList = before ++ s.toList := by
  rw [List.reverse_cons]
  cases hrest : ups.reverse with
  | nil => exact ⟨[], by rw [List.nil_append, String.intercalate_singleton, List.nil_append]⟩
  | cons t ts =>
      rw [String.intercalate_append_of_ne_nil (by simp) (by simp), String.intercalate_singleton,
        String.toList_append]
      exact ⟨_, rfl⟩

/-- The path of a name below the parent of a path has the segments that this parent is made of. -/
lemma segments_join_parent (h : fileName? path = some name) (hw : IsName w) :
    isAbsolute (join (if parent path = "" then "." else parent path) w) = isAbsolute path ∧
      ∃ front, segments (join (if parent path = "" then "." else parent path) w) = front ++ [w] ∧
        front.filter (¬ IsIdle ·) =
          (dropIdle (isAbsolute path) (reversed path).tail).reverse.filter (¬ IsIdle ·) := by
  obtain ⟨-, -, tail, idle, hidle, hsegments, htail⟩ := segments_of_fileName? h
  have hparent : (parent path).toList = (if isAbsolute path then ['/'] else []) ++
      ("/".intercalate (dropIdle (isAbsolute path) (reversed path).tail).reverse).toList := by
    rw [parent]
    split_ifs
    · rw [String.toList_append]
      rfl
    · rw [List.nil_append]
  cases hups : dropIdle (isAbsolute path) (reversed path).tail with
  | nil =>
      rw [hups] at hparent
      cases habs : isAbsolute path with
      | true =>
          rw [habs] at hparent
          have hroot : parent path = "/" := String.toList_inj.mp hparent
          obtain ⟨hslash, hsegment⟩ := segments_root hw
          rw [hroot, if_neg (by decide)]
          exact ⟨hslash, [], hsegment, rfl⟩
      | false =>
          rw [habs] at hparent
          have hempty : parent path = "" := String.toList_inj.mp hparent
          have hjoin : join "." w = "." ++ "/" ++ w :=
            join_eq (s := ".") [] rfl (by decide) (by decide)
          obtain ⟨hpoint, hsegment⟩ := segments_point hw
          rw [hempty, if_pos rfl, hjoin]
          exact ⟨hpoint, ["."], hsegment, rfl⟩
  | cons s ups =>
      have hs : s ≠ "" := ne_empty_of_dropIdle hups
      have hslash : '/' ∉ s.toList := slash_notMem_of_mem_segments (by
        rw [hsegments, hups]
        simp)
      rw [hups] at hparent hsegments
      obtain ⟨before, hbefore⟩ := exists_intercalate_reverse_cons s ups
      have hends : (parent path).toList =
          ((if isAbsolute path then ['/'] else []) ++ before) ++ s.toList := by
        rw [hparent, hbefore, List.append_assoc]
      have hne : parent path ≠ "" := fun h => by
        rw [h] at hends
        exact hs (String.toList_eq_nil_iff.mp (List.append_eq_nil_iff.mp hends.symm).2)
      rw [if_neg hne, join_eq _ hends hs hslash]
      obtain ⟨habs, hother⟩ :=
        segments_append_slash (by simp) (by simp) hsegments hparent hw
      exact ⟨habs, _, hother, rfl⟩

/-- The last segment of a path is a name. -/
lemma isName_of_fileName? (h : fileName? path = some name) : IsName name := by
  obtain ⟨hidle, hup, tail, idle, -, hsegments, -⟩ := segments_of_fileName? h
  exact ⟨slash_notMem_of_mem_segments (by rw [hsegments]; simp), hidle, hup⟩

/-- The path of a name below the parent of a path, and this path, have the same segments that
count, but for the last. -/
structure Beside (path other : String) (name w : String) : Prop where
  absolute : isAbsolute other = isAbsolute path
  segments : ∃ ups : List String, (segments path).filter (¬ IsIdle ·) = ups ++ [name] ∧
    (Path.segments other).filter (¬ IsIdle ·) = ups ++ [w]
  fileName : fileName? path = some name
  otherName : fileName? other = some w

lemma beside_join_parent (h : fileName? path = some name) (hw : IsName w) :
    Beside path (join (if parent path = "" then "." else parent path) w) name w := by
  obtain ⟨habs, front, hother, hfront⟩ := segments_join_parent h hw
  obtain ⟨hname, -, tail, idle, hidle, hsegments, htail⟩ := segments_of_fileName? h
  refine ⟨habs, ⟨(dropIdle (isAbsolute path) (reversed path).tail).reverse.filter (¬ IsIdle ·),
    ?_, ?_⟩, h, ?_⟩
  · rw [hsegments, List.filter_append, List.filter_append, filter_idle hidle, List.nil_append,
      List.filter_cons_of_pos (by simpa using hname), filter_idle htail]
  · rw [hother, List.filter_append, hfront, List.filter_cons_of_pos (by simpa using hw.idle),
      List.filter_nil]
  · have hdots : ¬ (w = "." ∨ w = "..") := not_or.mpr ⟨fun h => hw.idle (.inr h), hw.up⟩
    rw [fileName?, reversed, hother, List.reverse_append, List.reverse_singleton,
      List.singleton_append, dropIdle_cons_of_not_isIdle _ hw.idle]
    exact if_neg hdots

end Path

namespace Files

variable {files : Files}

lemma foldl_turn_idle (segs dir : List String) :
    (segs.filter (¬ Path.IsIdle ·)).foldl turn dir = (segs.filter (· ≠ "")).foldl turn dir := by
  rw [← foldl_turn_filter (segs.filter (· ≠ "")), List.filter_filter]
  refine congrArg (List.foldl turn dir) (List.filter_congr fun s _ => ?_)
  simp [Path.IsIdle, Bool.and_comm]

/-- Paths beside each other arrive in the same directory, under their own names. -/
lemma arrives_beside {path other name w : String} (h : Path.Beside path other name w)
    (hname : Path.IsName name) (hw : Path.IsName w) {key place : List String}
    (hkey : files.Arrives (files.base path) (steps path) key)
    (hplace : files.Arrives (files.base other) (steps other) place) :
    ∃ up, key = up ++ [name] ∧ place = up ++ [w] := by
  obtain ⟨ups, hpath, hother⟩ := h.segments
  have hturn {s : String} (hs : Path.IsName s) (dir : List String) : turn dir s = s :: dir := by
    rw [turn, if_neg fun h => hs.idle (.inr h), if_neg hs.up]
  refine ⟨(ups.foldl turn (files.base path)).reverse, ?_, ?_⟩
  · rw [hkey.eq_foldl, steps, ← foldl_turn_idle, hpath, List.foldl_append, List.foldl_cons,
      List.foldl_nil, hturn hname, List.reverse_cons]
  · have hbase : files.base other = files.base path := by rw [base, base, h.absolute]
    rw [hplace.eq_foldl, steps, ← foldl_turn_idle, hother, List.foldl_append, List.foldl_cons,
      List.foldl_nil, hturn hw, List.reverse_cons, hbase]

end Files

end CallGuard
