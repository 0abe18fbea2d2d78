import Typeshift.Proofs.Chain.Form
import Typeshift.Proofs.Ensures
import Typeshift.Proofs.Tree.Bodies

/-! # Constructs of both vocabularies

A construct that the source and the target both have is built again, with the attributes and the
fields that it has in the target. What it is does not depend on what its parts become.

* `sharedAttrs`: the attributes that it has afterwards.
* `mem_slots_convertShared`: where what it holds afterwards comes from.
* `tag?_convertNode_origin`: what becomes of assignments, declarations and exports. -/

namespace Typeshift.Convert

variable {h : Head} {s : Slots Outcome} {t : Tag} {f : Field} {st : State}

theorem isAny_of_tag {tags : List Tag} (ht : h.tag? = some t) (hmem : t ∈ tags) :
    h.isAny tags = true :=
  List.any_eq_true.mpr ⟨t, hmem, beq_iff_eq.mpr ht⟩

/-- The functions are the constructs whose bodies have scopes. -/
theorem hasScope_eq (t : Tag) : hasScope t = t.isFunction := by cases t <;> rfl

/-- The attributes of a construct of both vocabularies. -/
def sharedAttrs (t : Tag) (h : Head) (s : Slots Outcome) : List (Field × Attr) :=
  ((t.fields .target).filter (!·.isSlot)).map fun spec => (spec.field, convertAttr h s spec.field)

theorem head_convertShared (t : Tag) (h : Head) (s : Slots Outcome) (st : State) :
    (convertShared t h s st).1.head = .ofTag t (sharedAttrs t h s) := rfl

theorem convertShared_eq (t : Tag) (h : Head) (s : Slots Outcome) (st : State) :
    (convertShared t h s st).1 = .of t (sharedAttrs t h s) (convertShared t h s st).1.slots := rfl

/-- A field of what is made of a construct of both vocabularies holds what was converted for it. -/
theorem mem_slots_convertShared {slot : Slot Node}
    (hslot : (f, slot) ∈ (convertShared t h s st).1.slots) :
    ∃ st', slot = (convertSlot t s f st').1 := by
  obtain ⟨f', -, hf'⟩ := List.mem_filterMap.mp hslot
  obtain ⟨slot', hlookup, heq⟩ := Option.map_eq_some_iff.mp hf'
  cases heq
  let specs := (t.fields .target).filter FieldSpec.isSlot
  have hslots : Ensures (fun _ : State => True)
      (specs.mapM fun spec => do return (spec.field, ← convertSlot t s spec.field))
      (List.Forall₂ (fun (spec : FieldSpec) (e : Field × Slot Node) =>
        ∃ st', e = (spec.field, (convertSlot t s spec.field st').1)) specs) :=
    .mapM fun spec _ st _ => ⟨True.intro, st, rfl⟩
  obtain ⟨spec, -, st', heq⟩ := exists_of_forall₂_left
    (R := fun (e : Field × Slot Node) (spec : FieldSpec) =>
      ∃ st', e = (spec.field, (convertSlot t s spec.field st').1))
    (hslots st True.intro).2.flip (Slots.get?_mem hlookup)
  cases heq
  exact ⟨st', rfl⟩

/-- The fields of the target that the form of a node depends on. -/
theorem get?_convertShared (ht : t = .blockStatement ∧ f = .body ∨
    t = .memberExpression ∧ (f = .object ∨ f = .property)) (st : State) :
    ∃ st', (convertShared t h s st).1.slots.get? f = some (convertSlot t s f st').1 := by
  obtain ⟨slot, hslot⟩ : ∃ slot, (convertShared t h s st).1.slots.get? f = some slot := by
    rcases ht with ⟨rfl, rfl⟩ | ⟨rfl, rfl | rfl⟩ <;> exact ⟨_, rfl⟩
  obtain ⟨st', rfl⟩ := mem_slots_convertShared (Slots.get?_mem hslot)
  exact ⟨st', hslot⟩

theorem convertSlot_eq {slot : Slot Part} (hslot : s.get? (sourceField t f) = some slot)
    (hp : (t = .program && f = .body) = false) (hb : (hasScope t && f = .body) = false) :
    convertSlot t s f = slot.mapM convertPart := by
  unfold convertSlot
  rw [hslot, hp, hb]
  rfl

/-- An access that is built again keeps its object and its property. -/
theorem child?_convertShared (h : Head) (hf : f = .object ∨ f = .property)
    (hc : (s.child? f).isSome = true) (st : State) :
    ((convertShared .memberExpression h s st).1.slots.child? f).isSome = true := by
  obtain ⟨st', hget⟩ := get?_convertShared (h := h) (s := s) (.inr ⟨rfl, hf⟩) st
  have hpart {slot : Slot Part} (hslot : s.get? f = some slot) :
      convertSlot .memberExpression s f = slot.mapM convertPart := by
    have hsource : sourceField .memberExpression f = f := if_neg (by simp)
    exact convertSlot_eq (t := .memberExpression) (hsource.symm ▸ hslot) rfl (Bool.false_and _)
  unfold Slots.child? at hc ⊢
  split at hc
  · next c hslot =>
    rw [hpart hslot] at hget
    rw [hget]
    rfl
  · next x hslot =>
    obtain ⟨c, rfl⟩ := Option.isSome_iff_exists.mp hc
    rw [hpart hslot] at hget
    rw [hget]
    rfl
  · cases hc

/-- An identifier keeps its name. -/
theorem identifier?_convertShared (ht : h.tag? = some .identifier) (st : State) :
    (convertShared .identifier h s st).1.head.identifier? = h.identifier? := by
  have htext : (Head.ofTag .identifier (sharedAttrs .identifier h s)).text .name = h.text .name :=
    Chain.text_of_convertAttr rfl (by decide) (by decide)
  have hi : h.is .identifier = true := beq_iff_eq.mpr ht
  unfold Head.identifier?
  rw [head_convertShared, htext]
  exact (if_pos hi).symm

/-- The constructs of the source that become assignments, declarations and exports. -/
def origins : List Tag :=
  [.assignmentExpression, .variableDeclaration, .declareVariable, .tsExportAssignment]

/-- What becomes of assignments, declarations and exports of the source. -/
theorem tag?_convertNode_origin (hany : h.isAny origins = true) (s : Slots Outcome) (st : State) :
    (convertNode h s st).1.head.tag? =
      if h.is .declareVariable then some .variableDeclaration else h.tag? := by
  obtain ⟨t, hmem, ht⟩ := List.any_eq_true.mp hany
  have ht : h.tag? = some t := beq_iff_eq.mp ht
  have hshared (htarget : t.isIn .target = true) : (convertNode h s st).1.head.tag? = some t := by
    rw [Chain.convertNode_shared ht htarget]
    rfl
  simp only [origins, List.mem_cons, List.not_mem_nil, or_false] at hmem
  unfold Head.is
  rw [ht]
  rcases hmem with rfl | rfl | rfl | rfl
  · exact hshared rfl
  · exact hshared rfl
  · unfold convertNode
    rw [ht]
    rfl
  · exact hshared rfl

end Typeshift.Convert
