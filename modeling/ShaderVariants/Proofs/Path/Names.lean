import Mathlib.Data.List.Basic
import Mathlib.Data.List.TakeWhile
import ShaderVariants.Path

/-!
# The names along a path

A path is cut at its slashes. What is written after a path changes its last name, unless it begins
with a slash (`names_append`); a file name joined to a directory becomes the last name
(`names_join`), and a path with another extension ends in that, unless it ends in points
(`lastSegment_withExtension`).
-/

namespace ShaderVariants.Path

/-! ## Segments -/

/-- There is always a segment. -/
theorem segments_ne_nil (cs : List Char) : segments cs ≠ [] := by
  induction cs with
  | nil => simp [segments]
  | cons c cs ih =>
    rw [segments]
    split
    · simp
    · split <;> simp

/-- A slash ends a segment. -/
theorem segments_append_slash (xs ys : List Char) :
    segments (xs ++ '/' :: ys) = segments xs ++ segments ys := by
  induction xs with
  | nil => simp [segments]
  | cons c xs ih =>
    rw [List.cons_append, segments, segments, ih]
    by_cases hc : c = '/'
    · rw [if_pos hc, if_pos hc, List.cons_append]
    · rw [if_neg hc, if_neg hc]
      cases hsegments : segments xs with
      | nil => exact absurd hsegments (segments_ne_nil xs)
      | cons s ss => rfl

/-- What holds no slash is one segment. -/
theorem segments_of_notMem {xs : List Char} (h : '/' ∉ xs) : segments xs = [xs] := by
  induction xs with
  | nil => rfl
  | cons c xs ih =>
    rw [List.mem_cons, not_or] at h
    rw [segments, if_neg (Ne.symm h.1), ih h.2]

/-- The last segment of a list of characters. -/
def lastSegment (cs : List Char) : List Char :=
  (segments cs).getLast (segments_ne_nil cs)

/-- The segments are those before the last, and the last. -/
theorem segments_eq (cs : List Char) : segments cs = (segments cs).dropLast ++ [lastSegment cs] :=
  (List.dropLast_append_getLast (segments_ne_nil cs)).symm

/-- What holds no slash makes the last segment longer. -/
theorem segments_append {xs ys : List Char} (h : '/' ∉ ys) :
    segments (xs ++ ys) = (segments xs).dropLast ++ [lastSegment xs ++ ys] := by
  induction xs with
  | nil => rw [List.nil_append, segments_of_notMem h]; rfl
  | cons c xs ih =>
    have hcons := segments_eq xs
    rw [List.cons_append, segments, ih]
    -- A slash leaves the segments after it, any other character joins the first of them.
    by_cases hc : c = '/'
    · have hxs : segments (c :: xs) = [] :: segments xs := by rw [segments, if_pos hc]
      have hlast : lastSegment (c :: xs) = lastSegment xs := by
        simp only [lastSegment, hxs, List.getLast_cons (segments_ne_nil xs)]
      rw [if_pos hc, hxs, hlast, List.dropLast_cons_of_ne_nil (segments_ne_nil xs),
        List.cons_append]
    · rw [if_neg hc]
      cases hdrop : (segments xs).dropLast with
      | nil =>
        rw [hdrop, List.nil_append] at hcons
        have hxs : segments (c :: xs) = [c :: lastSegment xs] := by
          rw [segments, if_neg hc, hcons]
        have hlast : lastSegment (c :: xs) = c :: lastSegment xs := by
          simp only [lastSegment, hxs, List.getLast_singleton]
        rw [hxs, hlast]
        rfl
      | cons s ss =>
        rw [hdrop, List.cons_append] at hcons
        have hxs : segments (c :: xs) = (c :: s) :: (ss ++ [lastSegment xs]) := by
          rw [segments, if_neg hc, hcons]
        have hlast : lastSegment (c :: xs) = lastSegment xs := by
          simp only [lastSegment, hxs]
          rw [List.getLast_cons (by simp), List.getLast_append_of_ne_nil _ (by simp)]
          rfl
        rw [hxs, hlast, ← List.cons_append, List.dropLast_concat]
        rfl

/-- The last segment is empty in an empty path, and after a slash at the end. -/
theorem lastSegment_eq_nil_iff (cs : List Char) :
    lastSegment cs = [] ↔ cs = [] ∨ cs.getLast? = some '/' := by
  rcases List.eq_nil_or_concat cs with rfl | ⟨xs, c, rfl⟩
  · simp [lastSegment, segments]
  · rw [List.concat_eq_append, List.getLast?_concat]
    by_cases hc : c = '/'
    · subst hc
      simp [lastSegment, segments_append_slash, segments]
    · have hmem : '/' ∉ [c] := by simpa using Ne.symm hc
      simp [lastSegment, segments_append hmem, hc]

/-! ## Names -/

/-- The names along a path but for the last segment. -/
def parents (p : Path) : List String :=
  ((segments p.toList).dropLast.filter (· ≠ [])).map String.ofList

/-- The name that the last segment stands for, if it stands for one. -/
def lastName (p : Path) : List String :=
  if lastSegment p.toList ≠ [] then [String.ofList (lastSegment p.toList)]
  else if p = "" then [] else ["."]

/-- The last segment stands for a name, but in the empty path. -/
theorem exists_lastName {p : Path} (h : p ≠ "") : ∃ name, lastName p = [name] := by
  unfold lastName
  by_cases hlast : lastSegment p.toList = []
  · exact ⟨".", by rw [if_neg (not_not.2 hlast), if_neg h]⟩
  · exact ⟨_, if_pos hlast⟩

/-- A path ends in a slash when there is nothing in its last segment, but something before. -/
theorem endsInSlash_eq_true_iff (p : Path) :
    endsInSlash p = true ↔ lastSegment p.toList = [] ∧ p ≠ "" := by
  rw [endsInSlash, beq_iff_eq, lastSegment_eq_nil_iff]
  constructor
  · intro h
    refine ⟨.inr h, ?_⟩
    rintro rfl
    cases h
  · rintro ⟨h | h, hne⟩
    · exact absurd (String.toList_eq_nil_iff.1 h) hne
    · exact h

/-- The names along a path: those of its parents, and its last one. -/
theorem names_eq (p : Path) : names p = parents p ++ lastName p := by
  unfold names parents lastName
  rw [segments_eq p.toList, List.dropLast_concat, List.filter_append, List.map_append,
    List.append_assoc]
  congr 1
  -- An empty last segment stands for a name after a slash, and for none in the empty path.
  by_cases hlast : lastSegment p.toList = []
  · by_cases hp : p = ""
    · subst hp
      rw [hlast]
      rfl
    · have hslash := (endsInSlash_eq_true_iff p).2 ⟨hlast, hp⟩
      simp [hlast, hp, hslash]
  · have hslash : endsInSlash p = false := by
      rw [Bool.eq_false_iff, Ne, endsInSlash_eq_true_iff]
      exact fun h => hlast h.1
    simp [hlast, hslash]

/-- Whether a path ends in a slash is for its last part to say. -/
theorem endsInSlash_append (p : Path) {x : String} (hx : x ≠ "") :
    endsInSlash (p ++ x) = endsInSlash x := by
  have hne : x.toList ≠ [] := fun h => hx (String.toList_eq_nil_iff.1 h)
  rw [endsInSlash, endsInSlash, String.toList_append, List.getLast?_append_of_ne_nil _ hne]

/-- What holds no slash does not end in one. -/
theorem endsInSlash_eq_false {x : String} (h : '/' ∉ x.toList) : endsInSlash x = false := by
  rw [endsInSlash, beq_eq_false_iff_ne]
  exact fun hlast => h (List.mem_of_getLast? hlast)

/-- What is written after a path, without a slash, makes its last name longer. -/
theorem names_append (p : Path) {x : String} (h : '/' ∉ x.toList) (hx : x ≠ "") :
    names (p ++ x) = parents p ++ [String.ofList (lastSegment p.toList ++ x.toList)] := by
  have hne : x.toList ≠ [] := fun h => hx (String.toList_eq_nil_iff.1 h)
  unfold names parents
  rw [endsInSlash_append p hx, endsInSlash_eq_false h, String.toList_append, segments_append h,
    List.filter_append, List.map_append]
  simp [hne]

/-- What holds no slash does not start at the root. -/
theorem isAbsolute_eq_false {x : String} (h : '/' ∉ x.toList) : isAbsolute x = false := by
  rw [isAbsolute, beq_eq_false_iff_ne]
  exact fun hhead => h (List.mem_of_head? hhead)

/-- A file name joined to a directory is written after it and a slash. -/
theorem join_eq {dir name : Path} (hdir : dir ≠ "") (hslash : endsInSlash dir = false)
    (hname : '/' ∉ name.toList) : join dir name = dir ++ "/" ++ name := by
  rw [join, if_neg (by rw [isAbsolute_eq_false hname]; decide), if_neg]
  rw [hslash, Bool.or_false, String.isEmpty_iff]
  exact hdir

/-- A file name joined to a directory is the last name. -/
theorem names_join {dir name : Path} (hdir : dir ≠ "") (hslash : endsInSlash dir = false)
    (hname : '/' ∉ name.toList) (hne : name ≠ "") :
    names (join dir name) = names dir ++ [name] := by
  have hnil : name.toList ≠ [] := fun h => hne (String.toList_eq_nil_iff.1 h)
  rw [join_eq hdir hslash hname]
  unfold names
  rw [endsInSlash_append _ hne, endsInSlash_eq_false hname, hslash]
  have hlist : (dir ++ "/" ++ name).toList = dir.toList ++ '/' :: name.toList := by
    simp [String.toList_append]
  rw [hlist, segments_append_slash, segments_of_notMem hname, List.filter_append, List.map_append]
  simp [hnil]

/-! ## Extensions -/

/-- A segment holds no slash. -/
theorem notMem_of_mem_segments {cs segment : List Char} (h : segment ∈ segments cs) :
    '/' ∉ segment := by
  induction cs generalizing segment with
  | nil =>
    rw [List.mem_singleton.1 h]
    exact List.not_mem_nil
  | cons c cs ih =>
    rw [segments] at h
    split at h
    · rcases List.mem_cons.1 h with rfl | h
      · exact List.not_mem_nil
      · exact ih h
    · rename_i hc
      cases hsegments : segments cs with
      | nil => exact absurd hsegments (segments_ne_nil cs)
      | cons first rest =>
        rw [hsegments] at h ih
        rcases List.mem_cons.1 h with rfl | h
        · rw [List.mem_cons, not_or]
          exact ⟨Ne.symm hc, ih List.mem_cons_self⟩
        · exact ih (List.mem_cons_of_mem _ h)

/-- The last segment is what follows the last slash. -/
theorem lastSegment_append_slash (xs ys : List Char) :
    lastSegment (xs ++ '/' :: ys) = lastSegment ys := by
  simp only [lastSegment, segments_append_slash]
  exact List.getLast_append_of_ne_nil _ (segments_ne_nil ys)

/-- The last of the segments that are made a path is the last segment of the path. -/
theorem lastSegment_unsegment (before : List (List Char)) {last : List Char} (h : '/' ∉ last) :
    lastSegment (unsegment (before ++ [last])) = last := by
  induction before with
  | nil =>
    have hlast : unsegment ([] ++ [last]) = last := by simp [unsegment, List.intercalate]
    simp only [lastSegment, hlast, segments_of_notMem h, List.getLast_singleton]
  | cons first before ih =>
    have hcons : unsegment (first :: before ++ [last]) =
        first ++ '/' :: unsegment (before ++ [last]) := by
      cases before <;> simp [unsegment, List.intercalate]
    rw [hcons, lastSegment_append_slash, ih]

/-- The stem of a file name is a part of it. -/
theorem mem_of_mem_fileStem {name : List Char} {c : Char} (h : c ∈ fileStem name) : c ∈ name := by
  unfold fileStem at h
  dsimp only at h
  split at h
  · exact h
  · rw [List.mem_reverse] at h
    exact List.mem_reverse.1 ((List.dropWhile_sublist _).mem (List.mem_of_mem_tail h))

/-- With another extension, the last segment of a path names nothing, or the directory above, or it
ends in the extension. -/
theorem lastSegment_withExtension (p : Path) {extension : String} (h : '/' ∉ extension.toList) :
    isIdle (lastSegment (withExtension p extension).toList) = true ∨
      lastSegment (withExtension p extension).toList = ['.', '.'] ∨
      ∃ stem, lastSegment (withExtension p extension).toList =
        stem ++ '.' :: extension.toList := by
  have hreverse : (segments p.toList).reverse =
      lastSegment p.toList :: (segments p.toList).dropLast.reverse := by
    conv_lhs => rw [segments_eq, List.reverse_append]
    rfl
  unfold withExtension
  dsimp only
  split
  · -- No segment names anything.
    rename_i hnone
    exact .inl (List.dropWhile_eq_nil_iff.1 hnone _ (by rw [hreverse]; exact List.mem_cons_self))
  · rename_i name before hsome
    have hname : '/' ∉ name := by
      have hmem : name ∈ (segments p.toList).reverse.dropWhile isIdle := by
        rw [hsome]
        exact List.mem_cons_self
      exact notMem_of_mem_segments (List.mem_reverse.1 ((List.dropWhile_sublist _).mem hmem))
    split
    · -- The path is left as it is: its last segment is idle, or it is the two points.
      rename_i hup
      rw [hreverse, List.dropWhile_cons] at hsome
      split at hsome
      · rename_i hidle
        exact .inl hidle
      · rw [(List.cons.inj hsome).1]
        exact .inr (.inl hup)
    split
    · rw [String.toList_ofList, lastSegment_unsegment _ (by decide)]
      exact .inr (.inl rfl)
    · have hlast : '/' ∉ fileStem name ++ '.' :: extension.toList := by
        simp only [List.mem_append, List.mem_cons, not_or]
        exact ⟨fun hmem => hname (mem_of_mem_fileStem hmem), by decide, h⟩
      rw [String.toList_ofList, lastSegment_unsegment _ hlast]
      exact .inr (.inr ⟨_, rfl⟩)

/-- The last name of a path is a point, or it is the last segment. -/
theorem eq_of_mem_lastName {p : Path} {name : String} (h : name ∈ lastName p) :
    name = "." ∨ name.toList = lastSegment p.toList := by
  unfold lastName at h
  split at h
  · rw [List.mem_singleton.1 h, String.toList_ofList]
    exact .inr rfl
  · split at h
    · cases h
    · exact .inl (List.mem_singleton.1 h)

end ShaderVariants.Path
