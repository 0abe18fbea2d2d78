import Mathlib.Algebra.Group.Nat.Defs
import Mathlib.Order.Bounds.Defs
import Typeshift.Proofs.Names

/-! # What a supply gives out

A supply is asked for names and told of names that are in use, in any order. For a base in use the
numbers from `2` up are tried one after the other. Finitely many names are in use and the numbered
names are distinct, so the search ends, at the least number that makes a free name. No name is given
out twice, whatever the bases are: `a` with `12` is `a1` with `2`.

* `Names.Search`: the search for a number. `search_of_isLeast`: it ends at the least one.
* `Names.Supplies`: what a supply gives for a base.
* `Names.after`, `Names.given`: a supply after some calls, and the names it gave out.
* `Names.supplies_after`: both together, for every supply that calls lead to. -/

namespace Typeshift.Names

variable {s : Names} {base : String}

/-! ### The search for a number -/

/-- The numbers from one on that make a free name. -/
def freeFrom (s : Names) (base : String) (k : Nat) : Set Nat :=
  {m | k ≤ m ∧ s.contains (base ++ Nat.repr m) = false}

/-- **The search for a number**: from one on they are tried one after the other, until one makes a
free name. Numbers have 32 bits, so there may be no next one. -/
inductive Search (s : Names) (base : String) : Nat → Nat → Prop where
  | found {k : Nat} (free : s.contains (base ++ Nat.repr k) = false) : Search s base k k
  | next {k m : Nat} (used : s.contains (base ++ Nat.repr k) = true) (bound : k + 1 < 2 ^ 32)
    (more : Search s base (k + 1) m) : Search s base k m

/-- The search ends at the least number. -/
theorem search_of_isLeast {k m : Nat} (h : IsLeast (s.freeFrom base k) m) (hm : m < 2 ^ 32) :
    Search s base k m := by
  obtain ⟨⟨hle, hfree⟩, hleast⟩ := h
  induction hd : m - k generalizing k with
  | zero =>
    obtain rfl : k = m := by omega
    exact .found hfree
  | succ d ih =>
    have hused : s.contains (base ++ Nat.repr k) = true := by
      by_contra hk
      have := hleast ⟨Nat.le_refl k, Bool.eq_false_iff.mpr hk⟩
      omega
    have hleast' : m ∈ lowerBounds (s.freeFrom base (k + 1)) := fun _ hj =>
      hleast ⟨Nat.le_of_succ_le hj.1, hj.2⟩
    exact .next hused (by omega) (ih hleast' (by omega) (by omega))

/-- **The name for a base in use** has the least number from `2` up that makes a free name. One of
the candidates makes one, so that number is at most the names in use and two. -/
theorem exists_isLeast_freshName (h : s.contains base = true) :
    ∃ k ≤ s.size + 2, IsLeast (s.freeFrom base 2) k ∧ s.freshName base = base ++ Nat.repr k := by
  obtain ⟨n, hn, hfree⟩ := exists_free_candidate s base
  obtain ⟨j, hj, rfl⟩ := List.mem_map.mp hn
  cases hfind : (List.range' 2 (s.size + 1)).find? fun k => !s.contains (base ++ Nat.repr k) with
  | none =>
    have := List.find?_eq_none.mp hfind j hj
    simp [hfree] at this
  | some k =>
    obtain ⟨hk, hmem, hbefore⟩ := List.find?_range'_eq_some.mp hfind
    rw [List.mem_range'_1] at hmem
    refine ⟨k, by omega, ⟨⟨hmem.1, by simpa using hk⟩, fun i hi => ?_⟩, ?_⟩
    · by_contra hlt
      have := hbefore i hi.1 (by omega)
      simp [hi.2] at this
    · rw [freshName, if_pos h, candidates, List.find?_map]
      show (((List.range' 2 (s.size + 1)).find? fun k => !s.contains (base ++ Nat.repr k)).map
        _).getD base = _
      rw [hfind]
      rfl

/-! ### One call -/

/-- **What a supply gives for a base**: the base if it is free, or else the base with the number at
which the search ends; and of all names, that one is put in use. -/
structure Supplies (s : Names) (base name : String) (s' : Names) : Prop where
  unnumbered : s.contains base = false → name = base
  numbered : s.contains base = true → ∃ k, Search s base 2 k ∧ IsLeast (s.freeFrom base 2) k ∧
    name = base ++ Nat.repr k
  used : ∀ n, s'.contains n = true ↔ s.contains n = true ∨ n = name
  size : s'.size = s.size + 1

theorem size_reserve {name : String} (h : s.contains name = false) :
    (s.reserve name).size = s.size + 1 := by
  rw [reserve, h]
  rfl

/-- A fresh name, as long as the numbers suffice. -/
theorem supplies_fresh (base : String) (hsize : s.size < 2 ^ 32 - 2) :
    s.Supplies base (s.fresh base).1 (s.fresh base).2 where
  unnumbered h := if_neg (Bool.eq_false_iff.mp h)
  numbered h := by
    obtain ⟨k, hk, hleast, hname⟩ := exists_isLeast_freshName h
    exact ⟨k, search_of_isLeast hleast (by omega), hleast, hname⟩
  used n := by rw [contains_fresh_snd, Bool.or_eq_true, beq_iff_eq, fresh_fst]
  size := size_reserve (contains_freshName s base)

/-! ### Many calls -/

/-- What is asked of a supply. -/
inductive Call where
  | reserve (name : String)
  | fresh (base : String)
  deriving DecidableEq, Repr

/-- The supply after some calls. -/
def after (s : Names) : List Call → Names
  | [] => s
  | .reserve name :: calls => (s.reserve name).after calls
  | .fresh base :: calls => (s.fresh base).2.after calls

/-- The names that are given out in some calls, in order. -/
def given (s : Names) : List Call → List String
  | [] => []
  | .reserve name :: calls => (s.reserve name).given calls
  | .fresh base :: calls => (s.fresh base).1 :: (s.fresh base).2.given calls

/-- **The names in use after some calls** are those from before, those reserved and those given
out. -/
theorem contains_after (calls : List Call) (n : String) :
    (s.after calls).contains n = true ↔
      s.contains n = true ∨ .reserve n ∈ calls ∨ n ∈ s.given calls := by
  induction calls generalizing s with
  | nil => simp [after, given]
  | cons call calls ih =>
    cases call with
    | reserve name =>
      simp only [after, given, ih, contains_reserve, Bool.or_eq_true, beq_iff_eq, List.mem_cons,
        Call.reserve.injEq]
      tauto
    | fresh base =>
      simp only [after, given, ih, contains_fresh_snd, Bool.or_eq_true, beq_iff_eq, List.mem_cons,
        reduceCtorEq, false_or, fresh_fst]
      tauto

/-- No name is given out that is in use. -/
theorem contains_of_mem_given {calls : List Call} {n : String} (h : n ∈ s.given calls) :
    s.contains n = false := by
  induction calls generalizing s with
  | nil => cases h
  | cons call calls ih =>
    cases call with
    | reserve name =>
      exact (Bool.or_eq_false_iff.mp ((contains_reserve s name n).symm.trans (ih h))).1
    | fresh base =>
      rcases List.mem_cons.mp h with rfl | h
      · exact contains_freshName s base
      · exact (Bool.or_eq_false_iff.mp ((contains_fresh_snd s base n).symm.trans (ih h))).1

theorem nodup_given (s : Names) (calls : List Call) : (s.given calls).Nodup := by
  induction calls generalizing s with
  | nil => exact List.nodup_nil
  | cons call calls ih =>
    cases call with
    | reserve name => exact ih _
    | fresh base =>
      refine List.nodup_cons.mpr ⟨fun h => ?_, ih _⟩
      have hfree := contains_of_mem_given h
      rw [contains_fresh_snd, fresh_fst, beq_self_eq_true, Bool.or_true] at hfree
      cases hfree

theorem nodup_reserve (h : s.used.Nodup) (name : String) : (s.reserve name).used.Nodup := by
  unfold reserve
  split
  · exact h
  · next hfree => exact List.nodup_cons.mpr ⟨by simpa [contains] using hfree, h⟩

theorem nodup_after (h : s.used.Nodup) (calls : List Call) : (s.after calls).used.Nodup := by
  induction calls generalizing s with
  | nil => exact h
  | cons call calls ih => cases call <;> exact ih (nodup_reserve h _)

theorem after_map_reserve (s : Names) (names : List String) :
    s.after (names.map .reserve) = names.foldl reserve s := by
  induction names generalizing s with
  | nil => rfl
  | cons name names ih => exact ih _

theorem nodup_ofList (names : List String) : (ofList names).used.Nodup := by
  rw [ofList, ← after_map_reserve]
  exact nodup_after List.nodup_nil _

/-- **Fresh names are new and least.** A supply starts with some names, and more are reserved and
given out in any order. Then the names in use are kept once each, and for every base the next name
is the base or has the least number that makes a free name, if there are numbers enough; that name
is in use then. All names given out on the way are distinct, and none was in use or reserved
before. -/
theorem supplies_after (names : List String) (calls : List Call) :
    let s := (ofList names).after calls
    s.used.Nodup ∧
      (∀ base, s.size < 2 ^ 32 - 2 → s.Supplies base (s.fresh base).1 (s.fresh base).2) ∧
      ((ofList names).given calls).Nodup ∧
      ∀ before base rest, calls = before ++ .fresh base :: rest →
        let name := (((ofList names).after before).fresh base).1
        name ∉ names ∧ .reserve name ∉ before ∧ name ∉ (ofList names).given before := by
  refine ⟨nodup_after (nodup_ofList names) calls, fun base => supplies_fresh base,
    nodup_given _ calls, ?_⟩
  rintro before base rest rfl name
  have hfree : ¬ ((ofList names).after before).contains name = true :=
    Bool.eq_false_iff.mp (contains_freshName _ base)
  rw [contains_after, contains_ofList, List.contains_iff_mem] at hfree
  push Not at hfree
  exact hfree

example : (ofList ("a" :: "a1" :: (List.range' 2 10).map fun k => "a" ++ Nat.repr k)).given
    [.fresh "a1", .fresh "a", .fresh "b"] = ["a12", "a13", "b"] := by decide

end Typeshift.Names
