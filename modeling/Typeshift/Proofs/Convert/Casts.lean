import Typeshift.Proofs.Convert.Upheld
import Typeshift.Proofs.Tree.WellFormed
import Typeshift.Tree.Source

/-! # Casts go through `any`

A cast between types that have nothing in common is only accepted by way of `any`. A converted cast
casts to `any`, or what it casts is such a cast already, in any number of parentheses; and it stands
in parentheses itself. Whether the step through `any` is there already is seen in the converted
expression, and it stays there: no later rule looks inside of parentheses.

* `CastsToAny`: a cast to `any`, in parentheses or not; `isAnyCast_iff`.
* `ThroughAny`, `Enclosed`: what is said of a cast, and of the node around it.
* `upheld_routed`: a conversion upholds this; `casts_convert`: the casts of a converted tree. -/

namespace Typeshift.Convert

/-- A cast to `any`, in any number of parentheses. -/
inductive CastsToAny : Node → Prop where
  | cast {t ty : Node} (ht : t.head.is .tsAsExpression = true) (hty : t.slots.child? .ty = some ty)
    (hany : ty.head.is .tsAnyKeyword = true) : CastsToAny t
  | paren {t e : Node} (ht : t.head.is .parenthesizedExpression = true)
    (he : t.slots.child? .expression = some e) (hcast : CastsToAny e) : CastsToAny t

/-- The conversion recognizes casts to `any`. -/
theorem isAnyCast_iff {t : Node} : isAnyCast t = true ↔ CastsToAny t := by
  induction t using Tree.induct with
  | step n h s ih =>
    unfold isAnyCast at ih ⊢
    rw [Tree.synthesize_mk, anyCastRule]
    have tag {u : Tag} (hu : h.tag? = some u) {v : Tag} (hv : h.is v = true) : v = u :=
      Option.some.inj ((beq_iff_eq.mp hv).symm.trans hu)
    split
    · next ht =>
      rw [Slots.child?_annotateSlots]
      constructor
      · intro hcast
        cases he : s.child? .expression with
        | none =>
          rw [he] at hcast
          cases hcast
        | some e =>
          rw [he] at hcast
          exact .paren (beq_iff_eq.mpr ht) he ((ih e (Slots.child?_mem he)).mp hcast)
      · rintro (⟨hcast, -, -⟩ | ⟨-, he, hcast⟩)
        · cases tag ht hcast
        · rw [show s.child? .expression = _ from he]
          exact (ih _ (Slots.child?_mem he)).mpr hcast
    · next ht =>
      rw [Slots.child?_annotateSlots]
      constructor
      · intro hcast
        cases hty : s.child? .ty with
        | none =>
          rw [hty] at hcast
          cases hcast
        | some ty =>
          rw [hty, Option.map_some, Option.map_some, Option.getD_some, Tree.head_annotate] at hcast
          exact .cast (beq_iff_eq.mpr ht) hty hcast
      · rintro (⟨-, hty, hany⟩ | ⟨hparen, -, -⟩)
        · rw [show s.child? .ty = _ from hty, Option.map_some, Option.map_some, Option.getD_some,
            Tree.head_annotate]
          exact hany
        · cases tag ht hparen
    · next hparen hcast =>
      refine iff_of_false Bool.false_ne_true ?_
      rintro (⟨ht, -, -⟩ | ⟨ht, -, -⟩)
      · exact hcast (beq_iff_eq.mp ht)
      · exact hparen (beq_iff_eq.mp ht)

/-- **A cast goes through `any`**: it casts to `any`, or what it casts does. -/
def ThroughAny (c : Node) : Prop :=
  CastsToAny c ∨ ∃ e, c.slots.child? .expression = some e ∧ CastsToAny e

/-- The casts directly in a node go through `any`, and the node is their parentheses. -/
def Enclosed (h : Head) (s : Slots Unit) : Prop :=
  ∀ f slot, (f, slot) ∈ s → ∀ c ∈ slot.toList, c.head.is .tsAsExpression = true →
    h.is .parenthesizedExpression = true ∧ f = .expression ∧ ThroughAny c

/-- All casts of a tree are enclosed, and it is no cast itself. -/
structure Routed (u : Node) : Prop where
  root : u.head.is .tsAsExpression = false
  inside : u.Every Enclosed

/-- A node without casts directly in it encloses them. -/
theorem enclosed_of_roots {h : Head} {s : Slots Unit} (hs : ∀ c ∈ s.toList, Routed c) :
    Enclosed h s := fun _ _ hslot c hc hcast =>
  absurd ((hs c (Slots.mem_toList.mpr ⟨_, hslot, hc⟩)).root.symm.trans hcast) Bool.false_ne_true

theorem Routed.cast {e ty : Node} (he : Routed e) (hty : Routed ty)
    (hwide : ty.head.is .tsAnyKeyword = true ∨ isAnyCast e = true) :
    Routed (Target.paren (Target.cast e ty)) := by
  have hthrough : ThroughAny (Target.cast e ty) := by
    rcases hwide with hany | hcast
    · exact .inl (.cast rfl rfl hany)
    · exact .inr ⟨e, rfl, isAnyCast_iff.mp hcast⟩
  have hparts : ∀ c ∈ Slots.toList [(.expression, .one e), (.ty, .one ty)], Routed c :=
    List.forall_mem_cons.mpr ⟨he, List.forall_mem_singleton.mpr hty⟩
  refine ⟨rfl, .mk ?_ (List.forall_mem_singleton.mpr ?_)⟩
  · rintro f slot hslot c hc -
    cases List.mem_singleton.mp hslot
    cases List.mem_singleton.mp hc
    exact ⟨rfl, rfl, hthrough⟩
  · exact .mk (enclosed_of_roots hparts) fun c hc => (hparts c hc).inside

/-- **A conversion upholds that casts go through `any`**, in parentheses. -/
theorem upheld_routed : Upheld (· ≠ .tsAsExpression) Routed where
  built := by
    rintro _ ht rfl
    cases ht
  node hh hs := ⟨Bool.eq_false_iff.mpr fun hcast => hh _ (beq_iff_eq.mp hcast) rfl,
    .mk (enclosed_of_roots hs) fun c hc => (hs c hc).inside⟩
  dress {u v} hbare hu := by
    obtain ⟨hroot, hinside⟩ := hu
    refine ⟨(Node.is_eq_of_bare hbare _).trans hroot, ?_⟩
    have his := Node.is_eq_of_bare hbare .parenthesizedExpression
    have hslots := Node.slots_eq_of_bare hbare
    obtain ⟨_, h, s⟩ := u
    obtain ⟨_, k, s'⟩ := v
    obtain ⟨here, below⟩ := hinside
    cases hslots
    refine .mk (fun f slot hslot c hc hcast => ?_) below
    rw [show k.is .parenthesizedExpression = _ from his]
    exact here f slot hslot c hc hcast
  part {u c f slot} hu hf hslot hc := by
    obtain ⟨_, h, s⟩ := u
    obtain ⟨-, here, below⟩ := hu
    refine ⟨Bool.eq_false_iff.mpr fun hcast => ?_, below c (Slots.mem_toList.mpr ⟨_, hslot, hc⟩)⟩
    obtain ⟨hparen, hexpression, -⟩ := here f slot hslot c hc hcast
    rcases hf with hf | hf
    · exact hf hexpression
    · exact Bool.false_ne_true (hf.symm.trans hparen)
  cast := Routed.cast

/-- The source has no casts of the target. -/
theorem ne_tsAsExpression_of_sourced {h : Head} {s : Slots Unit} (hs : Sourced h s) :
    ∀ tag ∈ h.tag?, tag ≠ .tsAsExpression := by
  rintro _ htag rfl
  cases hs.2 _ htag

/-- From whatever state a source tree is converted, casts go through `any`. -/
theorem routed_convertTree {t : Node} (ht : t.Every Sourced) (st : State) :
    Routed (convertTree t st).1 :=
  upheld_routed.convertTree (ht.imp₂ ht fun _ _ hs _ tag htag _ =>
    ne_tsAsExpression_of_sourced hs tag htag) st

/-- **Every cast of a converted tree goes through `any`, and is directly inside of parentheses.** -/
theorem casts_convert {t : Node} (ht : t.Every Sourced) :
    t.convert.tree.head.is .tsAsExpression = false ∧ t.convert.tree.Every Enclosed := by
  have hrouted : Routed t.convert.tree := routed_convertTree ht (.start t.names)
  exact ⟨hrouted.root, hrouted.inside⟩

/-- `((((f(): any): T)?.b): U)`. -/
def castsInChain : Node :=
  let cast := Source.typeCast (Source.call (Source.ident "f") []) (.leaf .anyType)
  Source.typeCast (Source.optionalMember (Source.typeCast cast (Source.generic "T" [])) "b" true)
    (Source.generic "U" [])

/-- The inner casts are bound to a temporary, and the outer one is of the whole chain:
`((((_a = ((f() as any) as T)) && _a.b) as any) as U)`. -/
theorem casts_convert_inChain :
    castsInChain.Every Sourced ∧
      castsInChain.convert.tree.preorder.countP (·.is .tsAsExpression) = 4 ∧
      castsInChain.convert.tree.head.is .tsAsExpression = false ∧
      castsInChain.convert.tree.Every Enclosed :=
  ⟨by decide, by decide, casts_convert (by decide)⟩

end Typeshift.Convert
