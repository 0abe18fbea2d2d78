import Typeshift.Proofs.Tree.Slots
import Typeshift.Tree.Load

/-! # Well-formed trees

In a well-formed tree every node has the fields of its shape, and each holds a value of its kind.

* `Node.WellFormed`: the fields of every node are there and of their kinds.
* `Sourced`: a node of the source vocabulary. -/

namespace Typeshift

/-- Whether a value is of the kind that a field holds. -/
def FieldSpec.admits (s : FieldSpec) : FieldValue → Bool
  | .slot (.one _) => s.type == .node && s.presence == .required
  | .slot (.maybe _) => s.type == .node && s.presence != .required
  | .slot (.many _) => s.type == .nodes
  | .slot (.holes _) => s.type == .holes
  | .attr (.text _) => s.type == .text && s.presence != .optional
  | .attr (.textOrNone _) => s.type == .text && s.presence == .optional
  | .attr (.flag _) => s.type == .flag
  | .attr (.number _) => s.type == .number
  | .attr (.extra _) => s.type == .extra
  | .attr (.template _ _) => s.type == .template
  | .attr (.word w) =>
    match s.type with
    | .word choices => choices.contains w && s.presence != .optional
    | _ => false
  | .attr (.wordOrNone w) =>
    match s.type with
    | .word choices => w.all choices.contains && s.presence == .optional
    | _ => false

/-- Whether a field of a node holds a value of its kind. -/
def FieldSpec.isFilled (spec : FieldSpec) (h : Head) (s : Slots Unit) : Bool :=
  (h.attr? spec.field).any (fun a => spec.admits (.attr a)) ||
    (s.get? spec.field).any fun slot => spec.admits (.slot slot)

/-- A node of a vocabulary has values of their kinds in the fields of its shape, and no child in
another field. -/
def Fits (side : Side) (h : Head) (s : Slots Unit) : Prop :=
  ∀ t ∈ h.tag?, (∀ spec ∈ t.fields side, spec.isFilled h s = true) ∧
    ∀ e ∈ s, e.1 ∈ (t.fields side).map FieldSpec.field

instance (side : Side) (h : Head) (s : Slots Unit) : Decidable (Fits side h s) :=
  inferInstanceAs (Decidable (∀ _ ∈ _, _))

/-- **A well-formed tree**: every node has the fields of its shape. -/
def Node.WellFormed (side : Side) (t : Node) : Prop := t.Every (Fits side)

instance (side : Side) (t : Node) : Decidable (t.WellFormed side) :=
  inferInstanceAs (Decidable (t.Every _))

/-- A node of the source vocabulary, with the fields of its shape. -/
def Sourced (h : Head) (s : Slots Unit) : Prop :=
  Fits .source h s ∧ ∀ tag ∈ h.tag?, tag.isIn .source = true

instance (h : Head) (s : Slots Unit) : Decidable (Sourced h s) :=
  inferInstanceAs (Decidable (_ ∧ ∀ _ ∈ _, _))

section Fields

variable {side : Side} {h : Head} {s : Slots Unit} {t : Tag} {spec : FieldSpec}
  (hfits : Fits side h s) (ht : h.tag? = some t) (hspec : spec ∈ t.fields side)
include hfits ht hspec

theorem Fits.value : (∃ a, h.attr? spec.field = some a ∧ spec.admits (.attr a) = true) ∨
    ∃ slot, s.get? spec.field = some slot ∧ spec.admits (.slot slot) = true := by
  have hfilled := (hfits t ht).1 spec hspec
  unfold FieldSpec.isFilled at hfilled
  rwa [Bool.or_eq_true, Option.any_eq_true, Option.any_eq_true] at hfilled

theorem Fits.flag (htype : spec.type = .flag) : ∃ b, h.attr? spec.field = some (.flag b) := by
  rcases hfits.value ht hspec with ⟨a, ha, hv⟩ | ⟨slot, ha, hv⟩
  · cases a <;> simp [FieldSpec.admits, htype] at hv
    exact ⟨_, ha⟩
  · cases slot <;> simp [FieldSpec.admits, htype] at hv

theorem Fits.one (htype : spec.type = .node) (hp : spec.presence = .required) :
    ∃ c, s.get? spec.field = some (.one c) := by
  rcases hfits.value ht hspec with ⟨a, ha, hv⟩ | ⟨slot, ha, hv⟩
  · cases a <;> simp [FieldSpec.admits, htype] at hv
  · cases slot <;> simp [FieldSpec.admits, htype, hp] at hv
    exact ⟨_, ha⟩

theorem Fits.many (htype : spec.type = .nodes) : ∃ cs, s.get? spec.field = some (.many cs) := by
  rcases hfits.value ht hspec with ⟨a, ha, hv⟩ | ⟨slot, ha, hv⟩
  · cases a <;> simp [FieldSpec.admits, htype] at hv
  · cases slot <;> simp [FieldSpec.admits, htype] at hv
    exact ⟨_, ha⟩

end Fields

/-- The children that the shape of a node requires are there. -/
def HasRequired {ρ : Type} (h : Head) (s : Slots ρ) : Prop :=
  ∀ t ∈ h.tag?, ∀ spec ∈ t.fields .source, spec.type = .node → spec.presence = .required →
    (s.child? spec.field).isSome = true

theorem Fits.hasRequired {h : Head} {s : Slots Unit} (hfits : Fits .source h s) :
    HasRequired h s := by
  intro t ht spec hspec htype hp
  obtain ⟨c, hc⟩ := hfits.one ht hspec htype hp
  unfold Slots.child?
  rw [hc]
  rfl

end Typeshift
