import Typeshift.Proofs.Tree.Slots

/-! # Steps that keep an invariant

Passes over a tree are steps on a state. A step *ensures* a property of its result if it keeps an
invariant of the state and, from every state that has the invariant, gives a result with the
property. Going through a list or a slot ensures the property item by item. -/

namespace Typeshift

variable {σ α β : Type} {I : σ → Prop}

/-- From every state with the invariant, a step leads to one that has it, and gives a result with a
property. -/
def Ensures (I : σ → Prop) (p : StateM σ α) (Q : α → Prop) : Prop :=
  ∀ st, I st → I (p st).2 ∧ Q (p st).1

namespace Ensures

variable {p : StateM σ α} {Q : α → Prop}

theorem pure {a : α} (h : Q a) : Ensures I (Pure.pure a) Q := fun _ hst => ⟨hst, h⟩

theorem bind {f : α → StateM σ β} {R : β → Prop} (hp : Ensures I p Q)
    (hf : ∀ a, Q a → Ensures I (f a) R) : Ensures I (p >>= f) R := by
  intro st hst
  obtain ⟨hst', ha⟩ := hp st hst
  exact hf _ ha _ hst'

theorem mapM {f : α → StateM σ β} {R : α → β → Prop} : ∀ {as : List α},
    (∀ a ∈ as, Ensures I (f a) (R a)) → Ensures I (as.mapM f) (List.Forall₂ R as)
  | [], _ => by rw [List.mapM_nil]; exact pure .nil
  | a :: as, h => by
    rw [List.mapM_cons]
    have hrest := mapM fun b hb => h b (List.mem_cons_of_mem a hb)
    exact (h a List.mem_cons_self).bind fun b hab => hrest.bind fun bs hbs => pure (.cons hab hbs)

theorem slotMapM {f : α → StateM σ β} {R : α → β → Prop} {slot : Slot α}
    (h : ∀ a ∈ slot.toList, Ensures I (f a) (R a)) :
    Ensures I (slot.mapM f) (Slot.Rel R slot) := by
  cases slot with
  | one a => exact (h a (by simp [Slot.toList])).bind fun b hab => pure (.one hab)
  | maybe a =>
    cases a with
    | none => exact pure (.maybe .none)
    | some a => exact (h a (by simp [Slot.toList])).bind fun b hab => pure (.maybe (.some hab))
  | many as => exact (mapM h).bind fun bs hbs => pure (.many hbs)
  | holes as =>
    refine (mapM (R := Option.Rel R) fun a ha => ?_).bind fun bs hbs => pure (.holes hbs)
    cases a with
    | none => exact pure .none
    | some a => exact (h a (by simpa [Slot.toList] using ha)).bind fun b hab => pure (.some hab)

end Ensures

end Typeshift
