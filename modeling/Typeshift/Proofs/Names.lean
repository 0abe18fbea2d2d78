import Mathlib.Data.List.Nodup
import Mathlib.Data.List.Perm.Subperm
import Typeshift.Proofs.Tree.Induction
import Typeshift.Tree.Names

/-! # Fresh names are fresh

There is one candidate more than there are names in use, and the candidates are distinct, so one of
them is free: `Names.contains_freshName`. Giving out a name keeps all names that are in use. -/

namespace Typeshift.Names

/-- Every name in use stays in use. -/
def Within (s s' : Names) : Prop := ∀ n, s.contains n = true → s'.contains n = true

theorem Within.refl (s : Names) : s.Within s := fun _ h => h

theorem Within.trans {a b c : Names} (h : a.Within b) (h' : b.Within c) : a.Within c :=
  fun n hn => h' n (h n hn)

theorem within_reserve (s : Names) (name : String) : s.Within (s.reserve name) := by
  intro n hn
  rw [contains_reserve, hn, Bool.true_or]

theorem within_fresh (s : Names) (base : String) : s.Within (s.fresh base).2 :=
  within_reserve s _

@[simp] theorem fresh_fst (s : Names) (base : String) : (s.fresh base).1 = s.freshName base := rfl

theorem contains_fresh_snd (s : Names) (base n : String) :
    (s.fresh base).2.contains n = (s.contains n || n == s.freshName base) :=
  contains_reserve s _ n

theorem numbered_injective (base : String) :
    Function.Injective fun k : Nat => base ++ Nat.repr k := by
  intro j k h
  have hr : Nat.repr j = Nat.repr k := (String.append_right_inj base).mp h
  have hd : Nat.toDigits 10 j = Nat.toDigits 10 k := by
    rw [← Nat.toList_repr, ← Nat.toList_repr, hr]
  have := congrArg (fun l => Nat.ofDigitChars 10 l 0) hd
  simpa using this

theorem nodup_candidates (s : Names) (base : String) : (s.candidates base).Nodup :=
  List.Nodup.map (numbered_injective base) (List.nodup_range')

theorem length_candidates (s : Names) (base : String) :
    (s.candidates base).length = s.size + 1 := by
  simp [candidates]

theorem exists_free_candidate (s : Names) (base : String) :
    ∃ n ∈ s.candidates base, s.contains n = false := by
  by_contra h
  push Not at h
  have hsub : s.candidates base ⊆ s.used := by
    intro n hn
    have := h n hn
    simpa [contains] using this
  have hle := (List.subperm_of_subset (nodup_candidates s base) hsub).length_le
  rw [length_candidates] at hle
  unfold size at hle
  omega

/-- **A fresh name is not in use.** -/
theorem contains_freshName (s : Names) (base : String) :
    s.contains (s.freshName base) = false := by
  unfold freshName
  split_ifs with hb
  · obtain ⟨n, hn, hfree⟩ := exists_free_candidate s base
    cases hf : (s.candidates base).find? fun n => !s.contains n with
    | none =>
      have := List.find?_eq_none.mp hf n hn
      simp [hfree] at this
    | some m =>
      have := List.find?_some hf
      simpa using this
  · simpa using hb

theorem contains_foldl_reserve (names : List String) (s : Names) (n : String) :
    (names.foldl reserve s).contains n = (s.contains n || names.contains n) := by
  induction names generalizing s with
  | nil => simp
  | cons m rest ih =>
    rw [List.foldl_cons, ih, contains_reserve, List.contains_cons, Bool.or_assoc]

@[simp] theorem contains_ofList (names : List String) (n : String) :
    (ofList names).contains n = names.contains n := by
  rw [ofList, contains_foldl_reserve, contains_empty, Bool.false_or]

end Typeshift.Names

namespace Typeshift

theorem Node.contains_names (t : Node) (n : String) :
    t.names.contains n = true ↔ n ∈ t.mentions := by
  rw [Node.names, Names.contains_ofList, List.contains_iff_mem]

theorem Node.preorder_mk (h : Head) (s : Slots Unit) :
    Node.preorder (.mk () h s) = h :: s.toList.flatMap Node.preorder := by
  unfold Node.preorder
  rw [Tree.synthesize_mk, Tree.toList_annotateSlots, List.flatMap_map]
  rfl

theorem Node.mem_mentions_mk {h : Head} {s : Slots Unit} {n : String} :
    n ∈ Node.mentions (.mk () h s) ↔ h.mention? = some n ∨ ∃ c ∈ s.toList, n ∈ Node.mentions c := by
  unfold Node.mentions
  rw [Node.preorder_mk, List.filterMap_cons, List.filterMap_flatMap]
  cases h.mention? <;> simp [eq_comm]

end Typeshift
