import Mathlib.Data.List.Nodup

/-! # Looking up keys

In a list with distinct keys the value that is found under a key is the one that stands there. -/

namespace Typeshift

variable {κ α : Type} [BEq κ] [LawfulBEq κ] {entries : List (κ × α)} {key : κ} {a : α}

theorem mem_of_lookup (h : entries.lookup key = some a) : (key, a) ∈ entries := by
  obtain ⟨before, after, rfl, -⟩ := List.lookup_eq_some_iff.mp h
  simp

theorem lookup_of_nodup (hn : (entries.map Prod.fst).Nodup) (h : (key, a) ∈ entries) :
    entries.lookup key = some a := by
  obtain ⟨before, after, rfl⟩ := List.append_of_mem h
  refine List.lookup_eq_some_iff.mpr ⟨before, after, rfl, fun e he => ?_⟩
  rw [List.map_append, List.nodup_append] at hn
  exact bne_iff_ne.mpr fun heq => hn.2.2 e.1 (List.mem_map_of_mem he) key (by simp) heq.symm

theorem exists_lookup_of_mem (h : key ∈ entries.map Prod.fst) :
    ∃ a, entries.lookup key = some a := by
  obtain ⟨e, he, rfl⟩ := List.mem_map.mp h
  exact Option.isSome_iff_exists.mp (List.lookup_isSome_iff.mpr ⟨e, he, by simp⟩)

end Typeshift
