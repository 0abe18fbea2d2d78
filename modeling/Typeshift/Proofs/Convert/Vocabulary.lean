import Typeshift.Proofs.Convert.Upheld

/-! # The vocabulary of converted trees

A conversion builds nodes of the target, and copies what it takes from the source only if it is one
of the target. So no other construct is left in a converted tree, whatever the source is.

* `upheld_vocabulary`: a conversion upholds that all constructs are those of the target.
* `isIn_convert`: the constructs of a converted tree. -/

namespace Typeshift.Convert

/-- The construct of a node, if it is known, is one of the target. -/
def InTarget (h : Head) (_ : Slots Unit) : Prop := ∀ t ∈ h.tag?, t.isIn .target = true

theorem inTarget_ofTag {t : Tag} {attrs : List (Field × Attr)} {s : Slots Unit}
    (ht : t.isIn .target = true) : InTarget (.ofTag t attrs) s := by
  rintro _ ⟨⟩
  exact ht

/-- **A conversion upholds that all constructs are those of the target.** -/
theorem upheld_vocabulary : Upheld (·.isIn .target = true) (Node.Every InTarget) where
  built ht := (Bool.and_eq_true_iff.mp ht).1
  node hh hs := .mk hh hs
  dress {u v} hbare hu := by
    have htag := Node.tag?_eq_of_bare hbare
    have hslots := Node.slots_eq_of_bare hbare
    obtain ⟨_, h, s⟩ := u
    obtain ⟨_, k, s'⟩ := v
    obtain ⟨here, below⟩ := hu
    cases hslots
    refine .mk (fun t ht => here t ?_) below
    rwa [show k.tag? = h.tag? from htag] at ht
  part {u _ _ _} hu _ hslot hc := by
    cases hu with
    | mk _ below => exact below _ (Slots.mem_toList.mpr ⟨_, hslot, hc⟩)
  cast he hty _ :=
    .mk (inTarget_ofTag rfl) (List.forall_mem_singleton.mpr
      (.mk (inTarget_ofTag rfl) (List.forall_mem_cons.mpr
        ⟨he, List.forall_mem_singleton.mpr hty⟩)))

/-- **Every construct of a converted tree is one of the target**, whatever the tree is. -/
theorem isIn_convert (t : Node) :
    ∀ h ∈ t.convert.tree.preorder, ∀ tag ∈ h.tag?, tag.isIn .target = true := by
  have hsource : t.Every fun h _ => ∀ tag ∈ h.tag?, tag.isIn .target = true →
      tag.isIn .target = true := Node.every_of_forall (fun _ _ _ _ hin => hin) t
  have hbuilt : Node.Every InTarget t.convert.tree :=
    upheld_vocabulary.convertTree hsource (.start t.names)
  exact fun h hh => hbuilt.of_mem_preorder hh

end Typeshift.Convert
