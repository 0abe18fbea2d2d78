import Mathlib.Logic.Function.Basic
import Typeshift.Proofs.Tree.Loaded

/-! # The values of a node

What the reader makes of an object is given by one value for every field of its shape.

* `Given`: values of their kinds, and no others.
* `Filled.exists_given`: filled fields are given by a function of the field.
* `Given.get?_slots`, `Given.toList_slots`: what the slots of such a node hold.
* `Arranged`: the slots of a node are those of its construct; `Node.arranged_of_load`. -/

namespace Typeshift

/-! ### Fields -/

theorem nodup_jsonKeys (t : Tag) : (t.shape.map fun spec => spec.field.jsonKey).Nodup := by
  cases t <;> decide

theorem nodup_fields (side : Side) (t : Tag) : ((t.fields side).map FieldSpec.field).Nodup :=
  List.Nodup.of_map Field.jsonKey (by
    rw [List.map_map]
    exact (nodup_jsonKeys t).sublist (List.filter_sublist.map _))

/-- The fields of a vocabulary that hold nodes. -/
def slotFields (side : Side) (t : Tag) : List Field :=
  ((t.fields side).filter FieldSpec.isSlot).map FieldSpec.field

/-! ### Values -/

theorem lookup_fields {β : Type} (specs : List FieldSpec) (g : Field → β) (f : Field) :
    (specs.map fun spec => (spec.field, g spec.field)).lookup f =
      if f ∈ specs.map FieldSpec.field then some (g f) else none := by
  induction specs with
  | nil => rfl
  | cons spec specs ih =>
    rw [List.map_cons, List.lookup_cons, ih]
    by_cases hf : f = spec.field
    · simp [hf]
    · simp [hf, beq_false_of_ne hf]

/-- The values of the fields of a construct, given for each of its fields. -/
def valuesOf (t : Tag) (result : Field → FieldValue) : List (Field × FieldValue) :=
  (t.fields .source).map fun spec => (spec.field, result spec.field)

/-- The head of a construct with given values. -/
def headWith (t : Tag) (result : Field → FieldValue) (comments : Comments) (span : Option Span) :
    Head := ⟨.known t, attrsOf (valuesOf t result), comments, span⟩

/-- The slots of a construct with given values. -/
def slotsWith (t : Tag) (result : Field → FieldValue) : Slots Unit :=
  slotsOf t.slotOrder (valuesOf t result)

/-- The slot that a value is. -/
def FieldValue.slot? : FieldValue → Option (Slot Node)
  | .attr _ => none
  | .slot s => some s

/-- The values of the fields of a construct, given for every field. -/
structure Given (P : Node → Prop) (t : Tag) (result : Field → FieldValue) : Prop where
  holds : ∀ spec ∈ t.fields .source, spec.Holds P (result spec.field)
  other : ∀ f, f ∉ (t.fields .source).map FieldSpec.field → (result f).slot? = none

section Values

variable {P : Node → Prop} {t : Tag} {values : List (Field × FieldValue)}
  {result : Field → FieldValue} {f : Field} {spec : FieldSpec} {a : Attr}

theorem Filled.exists_result {shape : List FieldSpec} (h : Filled P shape values)
    (hn : (shape.map FieldSpec.field).Nodup) : ∃ result : Field → FieldValue,
      values = shape.map (fun spec => (spec.field, result spec.field)) ∧
      (∀ spec ∈ shape, spec.Holds P (result spec.field)) ∧
      ∀ f, f ∉ shape.map FieldSpec.field → (result f).slot? = none := by
  induction h with
  | nil => exact ⟨fun _ => .attr (.flag false), rfl, List.forall_mem_nil _, fun _ _ => rfl⟩
  | @cons first e shape values he _ ih =>
    obtain ⟨_, value⟩ := e
    obtain ⟨rfl, hvalue⟩ := he
    rw [List.map_cons, List.nodup_cons] at hn
    obtain ⟨result, rfl, hholds, hother⟩ := ih hn.2
    have hne : ∀ spec ∈ shape, spec.field ≠ first.field := fun spec hspec heq =>
      hn.1 (heq ▸ List.mem_map_of_mem hspec)
    refine ⟨Function.update result first.field value, ?_, ?_, fun f hf => ?_⟩
    · rw [List.map_cons, Function.update_self]
      refine congrArg _ (List.map_congr_left fun spec hspec => ?_)
      rw [Function.update_of_ne (hne spec hspec)]
    · refine List.forall_mem_cons.mpr ⟨by rwa [Function.update_self], fun spec hspec => ?_⟩
      rw [Function.update_of_ne (hne spec hspec)]
      exact hholds spec hspec
    · rw [List.map_cons, List.mem_cons, not_or] at hf
      rw [Function.update_of_ne hf.1]
      exact hother f hf.2

theorem Filled.exists_given (h : Filled P (t.fields .source) values) :
    ∃ result, values = valuesOf t result ∧ Given P t result := by
  obtain ⟨result, hvalues, hholds, hother⟩ := h.exists_result (nodup_fields .source t)
  exact ⟨result, hvalues, hholds, hother⟩

theorem lookup_filterMap {β : Type} {order : List Field} {g : Field → Option β} :
    (order.filterMap fun f => (g f).map (f, ·)).lookup f = if f ∈ order then g f else none := by
  induction order with
  | nil => rfl
  | cons k order ih =>
    rw [List.filterMap_cons]
    by_cases hf : f = k
    · subst hf
      cases hg : g f with
      | none => simp [hg, ih]
      | some b => simp
    · cases hg : g k with
      | none => simp [hf, ih]
      | some b => simp [List.lookup_cons, beq_false_of_ne hf, hf, ih]

namespace Given

variable (hg : Given P t result)
include hg

theorem slotsOf_eq (order : List Field) :
    slotsOf order (valuesOf t result) = order.filterMap fun f => (result f).slot?.map (f, ·) := by
  unfold slotsOf valuesOf
  refine List.filterMap_congr fun f _ => ?_
  rw [lookup_fields]
  split_ifs with hf
  · cases result f <;> rfl
  · rw [hg.other f hf]
    rfl

theorem mem_slotFields {slot : Slot Node} (h : (result f).slot? = some slot) :
    f ∈ slotFields .source t := by
  by_cases hf : f ∈ (t.fields .source).map FieldSpec.field
  · obtain ⟨spec, hspec, rfl⟩ := List.mem_map.mp hf
    have hadmits := (hg.holds spec hspec).1
    cases hr : result spec.field with
    | attr a => rw [hr] at h; cases h
    | slot s =>
      rw [hr] at hadmits
      exact List.mem_map_of_mem (List.mem_filter.mpr ⟨hspec, isSlot_of_admits hadmits⟩)
  · rw [hg.other f hf] at h
    cases h

theorem get?_slots (f : Field) :
    (slotsWith t result).get? f = (result f).slot? := by
  unfold Slots.get? slotsWith
  rw [hg.slotsOf_eq, lookup_filterMap]
  split_ifs with hf
  · rfl
  · refine (Option.eq_none_iff_forall_not_mem.mpr fun slot hslot => hf ?_).symm
    obtain ⟨spec, hspec, rfl⟩ := List.mem_map.mp (hg.mem_slotFields hslot)
    obtain ⟨hspec, hisSlot⟩ := List.mem_filter.mp hspec
    exact (slotOrder_fields t).1 spec hspec hisSlot

theorem toList_slots :
    (slotsWith t result).toList = t.slotOrder.flatMap fun f => (result f).nodes := by
  unfold slotsWith
  rw [hg.slotsOf_eq]
  induction t.slotOrder with
  | nil => rfl
  | cons f order ih =>
    rw [List.filterMap_cons, List.flatMap_cons, ← ih]
    cases result f <;> rfl

theorem forall_toList : ∀ c ∈ (slotsWith t result).toList, P c := by
  intro c hc
  rw [hg.toList_slots] at hc
  obtain ⟨f, -, hc⟩ := List.mem_flatMap.mp hc
  cases hr : result f with
  | attr a =>
    rw [hr] at hc
    cases hc
  | slot s =>
    obtain ⟨spec, hspec, rfl⟩ := List.mem_map.mp (hg.mem_slotFields (congrArg FieldValue.slot? hr))
    exact (hg.holds spec (List.mem_filter.mp hspec).1).2 c hc

theorem slot (hspec : spec ∈ t.fields .source) (hisSlot : spec.isSlot = true) :
    ∃ slot, result spec.field = .slot slot ∧ spec.admits (.slot slot) = true ∧
      ∀ c ∈ slot.toList, P c := by
  obtain ⟨hadmits, hnodes⟩ := hg.holds spec hspec
  cases hr : result spec.field with
  | slot slot =>
    rw [hr] at hadmits hnodes
    exact ⟨slot, rfl, hadmits, hnodes⟩
  | attr a =>
    rw [hr] at hadmits
    rw [not_isSlot_of_admits hadmits] at hisSlot
    cases hisSlot

/-- The fields of the slots, in their order. -/
theorem fields_slots :
    (slotsWith t result).map Prod.fst = t.slotOrder.filter (· ∈ slotFields .source t) := by
  unfold slotsWith
  rw [hg.slotsOf_eq]
  induction t.slotOrder with
  | nil => rfl
  | cons f order ih =>
    rw [List.filterMap_cons, List.filter_cons]
    cases hr : (result f).slot? with
    | none =>
      have hf : f ∉ slotFields .source t := fun hf => by
        obtain ⟨spec, hspec, rfl⟩ := List.mem_map.mp hf
        obtain ⟨hspec, hisSlot⟩ := List.mem_filter.mp hspec
        obtain ⟨slot, hslot, -⟩ := hg.slot hspec hisSlot
        rw [hslot] at hr
        cases hr
      rw [if_neg (by simpa using hf)]
      exact ih
    | some slot =>
      rw [if_pos (by simpa using hg.mem_slotFields hr), ← ih]
      rfl

theorem eq_empty (hspec : spec ∈ t.fields .source) (htype : spec.type = .node)
    (hchild : (slotsWith t result).child? spec.field = none) :
    result spec.field = .slot (.maybe none) := by
  have hisSlot : spec.isSlot = true := by
    unfold FieldSpec.isSlot
    rw [htype]
  obtain ⟨slot, hslot, hadmits, -⟩ := hg.slot hspec hisSlot
  unfold Slots.child? at hchild
  rw [hg.get?_slots, hslot] at hchild
  rw [hslot]
  cases slot with
  | one c => cases hchild
  | maybe c => rw [show c = none from hchild]
  | many | holes => simp [FieldSpec.admits, htype] at hadmits

theorem attr (hspec : spec ∈ t.fields .source) (hisSlot : spec.isSlot = false) :
    ∃ a, result spec.field = .attr a ∧ spec.admits (.attr a) = true ∧
      (attrsOf (valuesOf t result)).lookup spec.field = some a := by
  have hadmits := (hg.holds spec hspec).1
  cases hr : result spec.field with
  | slot slot =>
    rw [hr] at hadmits
    rw [isSlot_of_admits hadmits] at hisSlot
    cases hisSlot
  | attr a =>
    rw [hr] at hadmits
    refine ⟨a, rfl, hadmits, lookup_attrsOf ?_⟩
    unfold valuesOf
    rw [lookup_fields, if_pos (List.mem_map_of_mem hspec), hr]

end Given

end Values

/-! ### Slots in order -/

/-- The slots of a node of the source are those of its construct, in their order. -/
def Arranged (h : Head) (s : Slots Unit) : Prop :=
  ∀ t ∈ h.tag?, s.map Prod.fst = t.slotOrder.filter (· ∈ slotFields .source t)

instance (h : Head) (s : Slots Unit) : Decidable (Arranged h s) :=
  inferInstanceAs (Decidable (∀ _ ∈ _, _))

/-- **The slots of a tree from a JSON value are in order.** -/
theorem Node.arranged_of_load (v : Json) {t : Node} (h : Node.load v = .ok t) :
    t.Every Arranged := by
  refine Node.load_induct (fun hkind _ _ => ?_) (fun _ _ hfilled => ?_) v h
  · refine .mk (fun tag htag => ?_) (fun _ hc => by cases hc)
    unfold Head.tag? at htag
    rw [hkind] at htag
    cases htag
  · obtain ⟨result, rfl, hg⟩ := hfilled.exists_given
    refine .mk (fun tag htag => ?_) hg.forall_toList
    cases htag
    exact hg.fields_slots

end Typeshift
