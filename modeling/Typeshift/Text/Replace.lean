/-! # Replacing text

Every occurrence of a pattern is replaced, from left to right; occurrences do not overlap, and what
was put in is not searched again. -/

namespace Typeshift.Text

/-- Replace every occurrence of a pattern in what follows; the next `skip` characters belong to an
occurrence that is already replaced. -/
def replaceFrom (pattern replacement : List Char) : Nat → List Char → List Char
  | _, [] => []
  | skip + 1, _ :: cs => replaceFrom pattern replacement skip cs
  | 0, c :: cs =>
    if pattern.isPrefixOf (c :: cs) then
      replacement ++ replaceFrom pattern replacement (pattern.length - 1) cs
    else c :: replaceFrom pattern replacement 0 cs

/-- Replace every occurrence of a non-empty pattern. -/
def replaceAll (pattern replacement s : String) : String :=
  String.ofList (replaceFrom pattern.toList replacement.toList 0 s.toList)

theorem replaceFrom_nil (p r : List Char) (n : Nat) : replaceFrom p r n [] = [] := by
  cases n <;> rfl

variable {c : Char} {p r s : List Char}

/-- The rest of an occurrence is left out. -/
theorem replaceFrom_skip (p r a s : List Char) :
    replaceFrom p r a.length (a ++ s) = replaceFrom p r 0 s := by
  induction a with
  | nil => rfl
  | cons b a ih => exact ih

/-- An occurrence is replaced, and the search goes on behind it. -/
theorem replaceFrom_occurrence (c : Char) (p r s : List Char) :
    replaceFrom (c :: p) r 0 (c :: (p ++ s)) = r ++ replaceFrom (c :: p) r 0 s := by
  have hprefix : (c :: p).isPrefixOf (c :: (p ++ s)) = true := by simp
  refine (if_pos hprefix).trans ?_
  rw [List.length_cons, Nat.add_sub_cancel, replaceFrom_skip]

/-- What begins no occurrence stays. -/
theorem replaceFrom_cons (h : ¬p <+: c :: s) :
    replaceFrom p r 0 (c :: s) = c :: replaceFrom p r 0 s :=
  if_neg fun hp => h (List.isPrefixOf_iff_prefix.mp hp)

/-- A text without the first character of the pattern stays. -/
theorem replaceFrom_append {a : List Char} (ha : c ∉ a) :
    replaceFrom (c :: p) r 0 (a ++ s) = a ++ replaceFrom (c :: p) r 0 s := by
  induction a with
  | nil => rfl
  | cons b a ih =>
    rw [List.mem_cons, not_or] at ha
    rw [List.cons_append, replaceFrom_cons (fun h => ha.1 (List.cons_prefix_cons.mp h).1), ih ha.2,
      List.cons_append]

end Typeshift.Text
