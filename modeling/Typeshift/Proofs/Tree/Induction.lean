import Typeshift.Tree.Basic

/-! # Induction over trees

A property of trees holds of all of them if it holds of a node whenever it holds of the children in
its slots: `Tree.induct`. The children that a field gives are among the children of the node, and
annotating a node annotates what its fields give. -/

namespace Typeshift

namespace Slots

variable {ρ σ : Type}

@[simp] theorem toList_nil : Slots.toList ([] : Slots ρ) = [] := rfl

@[simp] theorem toList_cons (e : Field × Slot (Tree ρ)) (s : Slots ρ) :
    Slots.toList (e :: s) = e.2.toList ++ Slots.toList s := rfl

theorem mem_toList {s : Slots ρ} {t : Tree ρ} :
    t ∈ s.toList ↔ ∃ e ∈ s, t ∈ e.2.toList := List.mem_flatMap

theorem get?_mem {s : Slots ρ} {f : Field} {slot : Slot (Tree ρ)} (h : s.get? f = some slot) :
    (f, slot) ∈ s := by
  unfold get? at h
  obtain ⟨l₁, l₂, hs, -⟩ := List.lookup_eq_some_iff.mp h
  rw [hs]; simp

/-- If the fields are distinct, a field gives each slot. -/
theorem get?_of_nodup {s : Slots ρ} (hs : (s.map Prod.fst).Nodup) {f : Field}
    {slot : Slot (Tree ρ)} (h : (f, slot) ∈ s) : s.get? f = some slot := by
  unfold get?
  induction s with
  | nil => cases h
  | cons e rest ih =>
    obtain ⟨g, slot'⟩ := e
    rw [List.map_cons, List.nodup_cons] at hs
    rw [List.lookup_cons]
    rcases List.mem_cons.mp h with heq | h
    · cases heq
      rw [BEq.rfl]
    · have hne : f ≠ g := fun heq => hs.1 (List.mem_map.mpr ⟨_, h, heq⟩)
      rw [beq_false_of_ne hne]
      exact ih hs.2 h

theorem child?_mem_slot {s : Slots ρ} {f : Field} {t : Tree ρ} (h : s.child? f = some t) :
    ∃ slot, (f, slot) ∈ s ∧ t ∈ slot.toList := by
  unfold child? at h
  split at h
  · next a ha =>
    cases h
    exact ⟨_, get?_mem ha, by simp [Slot.toList]⟩
  · next a ha =>
    subst h
    exact ⟨_, get?_mem ha, by simp [Slot.toList]⟩
  · cases h

theorem child?_mem {s : Slots ρ} {f : Field} {t : Tree ρ} (h : s.child? f = some t) :
    t ∈ s.toList := by
  obtain ⟨slot, hslot, ht⟩ := child?_mem_slot h
  exact mem_toList.mpr ⟨_, hslot, ht⟩

theorem children_mem_slot {s : Slots ρ} {f : Field} {t : Tree ρ} (h : t ∈ s.children f) :
    ∃ slot, (f, slot) ∈ s ∧ t ∈ slot.toList := by
  unfold children at h
  split at h
  · next as ha => exact ⟨_, get?_mem ha, h⟩
  · simp at h

theorem children_mem {s : Slots ρ} {f : Field} {t : Tree ρ} (h : t ∈ s.children f) :
    t ∈ s.toList := by
  obtain ⟨slot, hslot, ht⟩ := children_mem_slot h
  exact mem_toList.mpr ⟨_, hslot, ht⟩

end Slots

namespace Tree

variable {ρ σ : Type}

mutual
theorem induct {P : Tree ρ → Prop}
    (step : ∀ n h (s : Slots ρ), (∀ c ∈ s.toList, P c) → P (.mk n h s)) : ∀ t : Tree ρ, P t
  | .mk n h s => step n h s (inductSlots step s)

theorem inductSlots {P : Tree ρ → Prop}
    (step : ∀ n h (s : Slots ρ), (∀ c ∈ s.toList, P c) → P (.mk n h s)) :
    ∀ s : Slots ρ, ∀ c ∈ s.toList, P c
  | [], _, hc => by cases hc
  | (_, .one a) :: rest, c, hc => by
    have ha := induct step a
    have hr := inductSlots step rest c
    rcases List.mem_append.mp hc with hc | hc
    · rw [List.mem_singleton.mp hc]; exact ha
    · exact hr hc
  | (_, .maybe none) :: rest, c, hc => inductSlots step rest c hc
  | (_, .maybe (some a)) :: rest, c, hc => by
    have ha := induct step a
    have hr := inductSlots step rest c
    rcases List.mem_append.mp hc with hc | hc
    · rw [List.mem_singleton.mp hc]; exact ha
    · exact hr hc
  | (_, .many as) :: rest, c, hc => by
    have ha := inductList step as c
    have hr := inductSlots step rest c
    rcases List.mem_append.mp hc with hc | hc
    · exact ha hc
    · exact hr hc
  | (_, .holes as) :: rest, c, hc => by
    have ha := inductGaps step as c
    have hr := inductSlots step rest c
    rcases List.mem_append.mp hc with hc | hc
    · exact ha (by simpa [Slot.toList] using hc)
    · exact hr hc

theorem inductList {P : Tree ρ → Prop}
    (step : ∀ n h (s : Slots ρ), (∀ c ∈ s.toList, P c) → P (.mk n h s)) :
    ∀ as : List (Tree ρ), ∀ c ∈ as, P c
  | [], _, hc => by cases hc
  | a :: rest, c, hc => by
    have ha := induct step a
    have hr := inductList step rest c
    rcases List.mem_cons.mp hc with hc | hc
    · rw [hc]; exact ha
    · exact hr hc

theorem inductGaps {P : Tree ρ → Prop}
    (step : ∀ n h (s : Slots ρ), (∀ c ∈ s.toList, P c) → P (.mk n h s)) :
    ∀ as : List (Option (Tree ρ)), ∀ c, some c ∈ as → P c
  | [], _, hc => by cases hc
  | none :: rest, c, hc => inductGaps step rest c (by simpa using hc)
  | some a :: rest, c, hc => by
    have ha := induct step a
    have hr := inductGaps step rest c
    rcases List.mem_cons.mp hc with hc | hc
    · rw [Option.some.inj hc]; exact ha
    · exact hr hc
end

theorem toList_annotateSlots (rule : Head → Slots σ → σ) (s : Slots ρ) :
    (annotateSlots rule s).toList = s.toList.map (annotate rule) := by
  rw [annotateSlots_eq_map]
  simp [Slots.toList, List.flatMap_map, List.map_flatMap]

theorem synthesize_mk (rule : Head → Slots σ → σ) (n : ρ) (h : Head) (s : Slots ρ) :
    (Tree.mk n h s).synthesize rule = rule h (annotateSlots rule s) := rfl

theorem note_annotate_eq (rule : Head → Slots σ → σ) (t : Tree ρ) :
    (t.annotate rule).note = t.synthesize rule := rfl

/-- Every node of a tree has a note with a property. -/
inductive All (Q : ρ → Prop) : Tree ρ → Prop where
  | mk {n : ρ} {h : Head} {s : Slots ρ} (note : Q n) (parts : ∀ c ∈ s.toList, All Q c) :
    All Q (.mk n h s)

theorem All.note {Q : ρ → Prop} {t : Tree ρ} (h : t.All Q) : Q t.note := by
  cases h with
  | mk note _ => exact note

theorem All.parts {Q : ρ → Prop} {t : Tree ρ} (h : t.All Q) : ∀ c ∈ t.slots.toList, c.All Q := by
  cases h with
  | mk _ parts => exact parts

/-- A rule that makes good notes of good notes makes good notes everywhere. -/
theorem all_annotate {Q : σ → Prop} {rule : Head → Slots σ → σ}
    (hrule : ∀ h s, (∀ c ∈ s.toList, c.All Q) → Q (rule h s)) (t : Tree ρ) :
    (t.annotate rule).All Q := by
  induction t using induct with
  | step n h s ih =>
    have hparts : ∀ c ∈ (annotateSlots rule s).toList, c.All Q := by
      intro c hc
      rw [toList_annotateSlots] at hc
      obtain ⟨a, ha, rfl⟩ := List.mem_map.mp hc
      exact ih a ha
    exact .mk (hrule h _ hparts) hparts

end Tree

/-! ### What the fields of good slots hold -/

section Slots

variable {ρ : Type} {Q : ρ → Prop} {s : Slots ρ} (hs : ∀ c ∈ s.toList, c.All Q)
include hs

theorem Slots.all_child? {f : Field} : ∀ t ∈ s.child? f, t.All Q :=
  fun t ht => hs t (child?_mem ht)

theorem Slots.all_children {f : Field} : ∀ t ∈ s.children f, t.All Q :=
  fun t ht => hs t (children_mem ht)

theorem Slots.all_child [Inhabited ρ] (hd : Q default) {f : Field} : (s.child f).All Q := by
  unfold child
  cases h : s.child? f with
  | none => exact .mk hd fun _ hc => by cases hc
  | some t => exact hs t (child?_mem h)

end Slots

end Typeshift
