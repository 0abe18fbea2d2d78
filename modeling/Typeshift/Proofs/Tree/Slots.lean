import Mathlib.Data.List.Forall2
import Mathlib.Data.Option.Defs
import Typeshift.Proofs.Tree.Induction

/-! # Comparing nodes slot by slot

Two lists of slots are related if they have the same fields with slots of the same kind, and the
children in them are related one by one. This is how a pass that keeps the shape of a tree relates
what it reads to what it makes.

* `Slot.Rel`, `Slots.Rel`: related slots; `Slots.RelIn` for a relation that depends on the field.
* `Slots.Rel.child?`, `Slots.Rel.children`: what a field gives is related.
* `Node.Every`: every node of a tree has a property of its head and slots; `Node.every` decides
  it. -/

namespace Typeshift

variable {α β γ ρ σ τ : Type}

/-- Only identifiers have names of their own. -/
theorem Head.tag?_of_identifier? {h : Head} {n : String} (hn : h.identifier? = some n) :
    h.tag? = some .identifier := by
  unfold Head.identifier? at hn
  split at hn
  · next hi => exact beq_iff_eq.mp hi
  · cases hn

theorem exists_of_forall₂_left {R : α → β → Prop} {as : List α} {bs : List β}
    (h : List.Forall₂ R as bs) {a : α} (ha : a ∈ as) : ∃ b ∈ bs, R a b := by
  induction h with
  | nil => cases ha
  | cons hab _ ih =>
    rcases List.mem_cons.mp ha with rfl | ha
    · exact ⟨_, List.mem_cons_self, hab⟩
    · obtain ⟨b, hb, hr⟩ := ih ha
      exact ⟨b, List.mem_cons_of_mem _ hb, hr⟩

/-- Slots of one kind whose children are related one by one. -/
inductive Slot.Rel (R : α → β → Prop) : Slot α → Slot β → Prop where
  | one {a : α} {b : β} (h : R a b) : Rel R (.one a) (.one b)
  | maybe {a : Option α} {b : Option β} (h : Option.Rel R a b) : Rel R (.maybe a) (.maybe b)
  | many {as : List α} {bs : List β} (h : List.Forall₂ R as bs) : Rel R (.many as) (.many bs)
  | holes {as : List (Option α)} {bs : List (Option β)} (h : List.Forall₂ (Option.Rel R) as bs) :
    Rel R (.holes as) (.holes bs)

/-- The same fields with related slots. -/
def Slots.Rel (R : Tree ρ → Tree σ → Prop) (s : Slots ρ) (s' : Slots σ) : Prop :=
  List.Forall₂ (fun e e' => e.1 = e'.1 ∧ Slot.Rel R e.2 e'.2) s s'

namespace Slot

theorem Rel.toList {R : α → β → Prop} {s : Slot α} {s' : Slot β} (h : s.Rel R s') :
    List.Forall₂ R s.toList s'.toList := by
  cases h with
  | one h => exact .cons h .nil
  | maybe h =>
    cases h with
    | none => exact .nil
    | some h => exact .cons h .nil
  | many h => exact h
  | holes h =>
    induction h with
    | nil => exact .nil
    | cons h _ ih =>
      cases h with
      | none => exact ih
      | some h => exact .cons h ih

theorem Rel.mem_left {R : α → β → Prop} {s : Slot α} {s' : Slot β} (h : s.Rel R s') {a : α}
    (ha : a ∈ s.toList) : ∃ b, R a b := by
  obtain ⟨b, -, hab⟩ := exists_of_forall₂_left h.toList ha
  exact ⟨b, hab⟩

/-- A property that related children have together is one of the slots. -/
theorem Rel.exists_iff {P : α → Prop} {Q : β → Prop} {s : Slot α} {s' : Slot β}
    (h : s.Rel (fun a b => Q b ↔ P a) s') : (∃ b ∈ s'.toList, Q b) ↔ ∃ a ∈ s.toList, P a := by
  constructor
  · rintro ⟨b, hb, hq⟩
    obtain ⟨a, ha, hab⟩ := exists_of_forall₂_left (R := flip fun a b => Q b ↔ P a) h.toList.flip hb
    exact ⟨a, ha, hab.mp hq⟩
  · rintro ⟨a, ha, hp⟩
    obtain ⟨b, hb, hab⟩ := exists_of_forall₂_left h.toList ha
    exact ⟨b, hb, hab.mpr hp⟩

theorem Rel.imp {R S : α → β → Prop} {s : Slot α} {s' : Slot β} (h : s.Rel R s')
    (hRS : ∀ a b, R a b → S a b) : s.Rel S s' := by
  have hopt : ∀ a b, Option.Rel R a b → Option.Rel S a b := by
    rintro _ _ (h | _)
    · exact .some (hRS _ _ h)
    · exact .none
  cases h with
  | one h => exact .one (hRS _ _ h)
  | maybe h => exact .maybe (hopt _ _ h)
  | many h => exact .many (h.imp hRS)
  | holes h => exact .holes (h.imp hopt)

/-- A function that leads from the second slot back to the first. -/
theorem Rel.map_eq {f : β → γ} {g : α → γ} {s : Slot α} {s' : Slot β}
    (h : s.Rel (fun a b => f b = g a) s') : s'.map f = s.map g := by
  have hopt : ∀ a b, Option.Rel (fun a b => f b = g a) a b → Option.map f b = Option.map g a := by
    rintro _ _ (h | _)
    · exact congrArg some h
    · rfl
  cases h with
  | one h => exact congrArg Slot.one h
  | maybe h => exact congrArg Slot.maybe (hopt _ _ h)
  | many h =>
    refine congrArg Slot.many ?_
    induction h with
    | nil => rfl
    | cons h _ ih => rw [List.map_cons, List.map_cons, h, ih]
  | holes h =>
    refine congrArg Slot.holes ?_
    induction h with
    | nil => rfl
    | cons h _ ih => rw [List.map_cons, List.map_cons, hopt _ _ h, ih]

@[simp] theorem map_id (s : Slot α) : s.map id = s := by
  cases s with
  | one a => rfl
  | maybe a => cases a <;> rfl
  | many as => simp [map]
  | holes as => simp [map]

theorem mapM_map {m : Type → Type} [Monad m] [LawfulMonad m] (f : α → β) (g : β → m γ)
    (s : Slot α) : (s.map f).mapM g = s.mapM fun a => g (f a) := by
  cases s with
  | one a => rfl
  | maybe a => cases a <;> rfl
  | many as => simp only [map, mapM, List.mapM_map]; rfl
  | holes as =>
    simp only [map, mapM, List.mapM_map]
    congr 2
    funext a
    cases a <;> rfl

/-- The images of a slot under two functions are related. -/
theorem rel_map_map {R : β → γ → Prop} {f : α → β} {g : α → γ} {s : Slot α}
    (h : ∀ a ∈ s.toList, R (f a) (g a)) : (s.map f).Rel R (s.map g) := by
  cases s with
  | one a => exact .one (h a (by simp [Slot.toList]))
  | maybe a =>
    cases a with
    | none => exact .maybe .none
    | some a => exact .maybe (.some (h a (by simp [Slot.toList])))
  | many as =>
    refine .many ?_
    rw [List.forall₂_map_left_iff, List.forall₂_map_right_iff, List.forall₂_same]
    exact h
  | holes as =>
    refine .holes ?_
    rw [List.forall₂_map_left_iff, List.forall₂_map_right_iff, List.forall₂_same]
    intro a ha
    cases a with
    | none => exact .none
    | some a => exact .some (h a (by simpa [Slot.toList] using ha))

/-- A slot is related to its image. -/
theorem rel_map {R : α → β → Prop} {f : α → β} {s : Slot α} (h : ∀ a ∈ s.toList, R a (f a)) :
    s.Rel R (s.map f) := by
  have hmap := rel_map_map (f := id) h
  rwa [map_id] at hmap

theorem map_map (f : α → β) (g : β → γ) (s : Slot α) : (s.map f).map g = s.map fun a => g (f a) :=
  Rel.map_eq (rel_map fun _ _ => rfl)

theorem rel_refl {R : α → α → Prop} {s : Slot α} (h : ∀ a ∈ s.toList, R a a) : s.Rel R s := by
  have hmap := rel_map (f := id) h
  rwa [map_id] at hmap

end Slot

/-- The same fields with slots whose children are related in a way that depends on the field. -/
def Slots.RelIn (R : Field → Tree ρ → Tree σ → Prop) (s : Slots ρ) (s' : Slots σ) : Prop :=
  List.Forall₂ (fun e e' => e.1 = e'.1 ∧ Slot.Rel (R e.1) e.2 e'.2) s s'

namespace Slots.RelIn

variable {R : Field → Tree ρ → Tree σ → Prop} {s : Slots ρ} {s' : Slots σ}

/-- The slots of one field are related as the field says. -/
theorem get? (h : s.RelIn R s') (f : Field) :
    (s.get? f = none ∧ s'.get? f = none) ∨
      ∃ a b, s.get? f = some a ∧ s'.get? f = some b ∧ Slot.Rel (R f) a b := by
  unfold Slots.get?
  induction h with
  | nil => exact .inl ⟨rfl, rfl⟩
  | @cons e e' _ _ he _ ih =>
    obtain ⟨g, a⟩ := e
    obtain ⟨g', b⟩ := e'
    obtain ⟨rfl, hab⟩ : g = g' ∧ a.Rel (R g) b := he
    rw [List.lookup_cons, List.lookup_cons]
    cases hfg : f == g with
    | true =>
      rw [beq_iff_eq.mp hfg]
      exact .inr ⟨a, b, rfl, rfl, hab⟩
    | false => exact ih

theorem child? (h : s.RelIn R s') (f : Field) :
    Option.Rel (R f) (s.child? f) (s'.child? f) := by
  unfold Slots.child?
  rcases h.get? f with ⟨hs, hs'⟩ | ⟨a, b, hs, hs', hab⟩ <;> rw [hs, hs']
  · exact .none
  · cases hab with
    | one h => exact .some h
    | maybe h => exact h
    | many h => exact .none
    | holes h => exact .none

theorem children (h : s.RelIn R s') (f : Field) :
    List.Forall₂ (R f) (s.children f) (s'.children f) := by
  unfold Slots.children
  rcases h.get? f with ⟨hs, hs'⟩ | ⟨a, b, hs, hs', hab⟩ <;> rw [hs, hs']
  · exact .nil
  · cases hab with
    | one h => exact .nil
    | maybe h => exact .nil
    | many h => exact h
    | holes h => exact .nil

theorem mem_right (h : s.RelIn R s') {e' : Field × Slot (Tree σ)} (he' : e' ∈ s') {b : Tree σ}
    (hb : b ∈ e'.2.toList) : ∃ e ∈ s, e.1 = e'.1 ∧ ∃ a ∈ e.2.toList, R e.1 a b := by
  induction h with
  | nil => cases he'
  | cons he _ ih =>
    rcases List.mem_cons.mp he' with rfl | he'
    · obtain ⟨a, ha, hab⟩ := exists_of_forall₂_left (R := flip _) he.2.toList.flip hb
      exact ⟨_, List.mem_cons_self, he.1, a, ha, hab⟩
    · obtain ⟨e, hmem, hrest⟩ := ih he'
      exact ⟨e, List.mem_cons_of_mem _ hmem, hrest⟩

end Slots.RelIn

namespace Slots.Rel

variable {R : Tree ρ → Tree σ → Prop} {s : Slots ρ} {s' : Slots σ}

theorem imp {S : Tree ρ → Tree σ → Prop} (h : s.Rel R s') (hRS : ∀ a b, R a b → S a b) :
    s.Rel S s' := List.Forall₂.imp (fun _ _ he => ⟨he.1, he.2.imp hRS⟩) h

theorem toList (h : s.Rel R s') : List.Forall₂ R s.toList s'.toList := by
  induction h with
  | nil => exact .nil
  | cons he _ ih => exact List.rel_append he.2.toList ih

theorem mem_left (h : s.Rel R s') {a : Tree ρ} (ha : a ∈ s.toList) : ∃ b ∈ s'.toList, R a b :=
  exists_of_forall₂_left h.toList ha

theorem mem_right (h : s.Rel R s') {b : Tree σ} (hb : b ∈ s'.toList) : ∃ a ∈ s.toList, R a b :=
  exists_of_forall₂_left (R := flip R) h.toList.flip hb

theorem get? (h : s.Rel R s') (f : Field) :
    (s.get? f = none ∧ s'.get? f = none) ∨
      ∃ a b, s.get? f = some a ∧ s'.get? f = some b ∧ Slot.Rel R a b :=
  RelIn.get? (R := fun _ => R) h f

theorem child? (h : s.Rel R s') (f : Field) : Option.Rel R (s.child? f) (s'.child? f) :=
  RelIn.child? (R := fun _ => R) h f

theorem children (h : s.Rel R s') (f : Field) : List.Forall₂ R (s.children f) (s'.children f) :=
  RelIn.children (R := fun _ => R) h f

end Slots.Rel

/-- The slots with a function applied to every child. -/
def Slots.mapTrees (f : Tree ρ → Tree σ) (s : Slots ρ) : Slots σ :=
  s.map fun e => (e.1, e.2.map f)

namespace Slots

variable {s : Slots ρ}

theorem rel_mapTrees {R : Tree ρ → Tree σ → Prop} {f : Tree ρ → Tree σ}
    (h : ∀ t ∈ s.toList, R t (f t)) : s.Rel R (s.mapTrees f) := by
  unfold Slots.Rel mapTrees
  rw [List.forall₂_map_right_iff, List.forall₂_same]
  intro e he
  exact ⟨rfl, Slot.rel_map fun a ha => h a (mem_toList.mpr ⟨e, he, ha⟩)⟩

theorem Rel.mapTrees_eq {s' : Slots σ} {f : Tree σ → Tree τ} {g : Tree ρ → Tree τ}
    (h : s.Rel (fun a b => f b = g a) s') : s'.mapTrees f = s.mapTrees g := by
  induction h with
  | nil => rfl
  | @cons e e' _ _ he _ ih =>
    refine List.cons_eq_cons.mpr ⟨Prod.ext he.1.symm he.2.map_eq, ih⟩

theorem toList_mapTrees (f : Tree ρ → Tree σ) : (s.mapTrees f).toList = s.toList.map f := by
  simp [mapTrees, Slots.toList, List.flatMap_map, List.map_flatMap]

theorem mapTrees_id : s.mapTrees (fun t => t) = s := by
  have hid : (fun t : Tree ρ => t) = id := rfl
  simp [mapTrees, hid]

theorem mapTrees_congr {f g : Tree ρ → Tree σ} (h : ∀ t ∈ s.toList, f t = g t) :
    s.mapTrees f = s.mapTrees g := by
  have hrel := rel_mapTrees (f := fun t => t) (R := fun a b => f b = g a) h
  rw [mapTrees_id] at hrel
  exact hrel.mapTrees_eq

theorem mapTrees_mapTrees (f : Tree ρ → Tree σ) (g : Tree σ → Tree τ) :
    (s.mapTrees f).mapTrees g = s.mapTrees fun t => g (f t) :=
  Rel.mapTrees_eq (rel_mapTrees fun _ _ => rfl)

theorem annotateSlots_eq_mapTrees (rule : Head → Slots σ → σ) :
    Tree.annotateSlots rule s = s.mapTrees (Tree.annotate rule) :=
  Tree.annotateSlots_eq_map rule s

/-- The trees that a rule writes on the children of a node. -/
theorem mapTrees_note (rule : Head → Slots (Tree τ) → Tree τ) :
    (Tree.annotateSlots rule s).mapTrees Tree.note = s.mapTrees (Tree.synthesize rule) := by
  rw [annotateSlots_eq_mapTrees, mapTrees_mapTrees]
  rfl

theorem get?_mapTrees (f : Tree ρ → Tree σ) (g : Field) :
    (s.mapTrees f).get? g = (s.get? g).map (Slot.map f) := by
  unfold mapTrees get?
  induction s with
  | nil => rfl
  | cons e rest ih =>
    rw [List.map_cons, List.lookup_cons, List.lookup_cons]
    cases g == e.1 with
    | true => rfl
    | false => exact ih

theorem child?_mapTrees (f : Tree ρ → Tree σ) (g : Field) :
    (s.mapTrees f).child? g = (s.child? g).map f := by
  have h := (rel_mapTrees (s := s) (R := fun a b => f a = b) fun _ _ => rfl).child? g
  cases ha : s.child? g <;> cases hb : (s.mapTrees f).child? g <;> rw [ha, hb] at h <;> cases h
  · rfl
  · next h => exact congrArg some h.symm

theorem children_mapTrees (f : Tree ρ → Tree σ) (g : Field) :
    (s.mapTrees f).children g = (s.children g).map f := by
  have h := (rel_mapTrees (s := s) (R := fun a b => f a = b) fun _ _ => rfl).children g
  rw [← List.forall₂_map_left_iff, List.forall₂_eq_eq_eq] at h
  exact h.symm

theorem gaps_mapTrees (f : Tree ρ → Tree σ) (g : Field) :
    (s.mapTrees f).gaps g = (s.gaps g).map (Option.map f) := by
  unfold gaps
  rw [get?_mapTrees]
  cases s.get? g with
  | none => rfl
  | some slot => cases slot <;> rfl

end Slots

theorem Tree.child?_slots_annotate (rule : Head → Slots σ → σ) (t : Tree ρ) (f : Field) :
    (t.annotate rule).slots.child? f = (t.slots.child? f).map (Tree.annotate rule) := by
  rw [Tree.slots_annotate]
  exact Slots.child?_mapTrees (Tree.annotate rule) f

theorem Tree.child_slots_annotate [Inhabited σ] (rule : Head → Slots σ → σ) {t c : Tree ρ}
    {f : Field}
    (hc : t.slots.child? f = some c) : (t.annotate rule).slots.child f = c.annotate rule := by
  rw [Slots.child, Tree.child?_slots_annotate, hc]
  rfl

theorem Tree.children_slots_annotate (rule : Head → Slots σ → σ) (t : Tree ρ) (f : Field) :
    (t.annotate rule).slots.children f = (t.slots.children f).map (Tree.annotate rule) := by
  rw [Tree.slots_annotate]
  exact Slots.children_mapTrees (Tree.annotate rule) f

theorem Slots.child?_annotateSlots (rule : Head → Slots σ → σ) (s : Slots ρ) (f : Field) :
    Slots.child? (Tree.annotateSlots rule s) f = (s.child? f).map (Tree.annotate rule) := by
  rw [Slots.annotateSlots_eq_mapTrees, Slots.child?_mapTrees]

theorem Slots.child_annotateSlots [Inhabited σ] (rule : Head → Slots σ → σ) {s : Slots ρ}
    {f : Field} {t : Tree ρ} (h : s.child? f = some t) :
    Slots.child (Tree.annotateSlots rule s) f = t.annotate rule := by
  rw [Slots.child, Slots.child?_annotateSlots, h]
  rfl

theorem Slots.children_annotateSlots (rule : Head → Slots σ → σ) (s : Slots ρ) (f : Field) :
    Slots.children (Tree.annotateSlots rule s) f = (s.children f).map (Tree.annotate rule) := by
  rw [Slots.annotateSlots_eq_mapTrees, Slots.children_mapTrees]

theorem Slots.gaps_annotateSlots (rule : Head → Slots σ → σ) (s : Slots ρ) (f : Field) :
    Slots.gaps (Tree.annotateSlots rule s) f =
      (s.gaps f).map (Option.map (Tree.annotate rule)) := by
  rw [Slots.annotateSlots_eq_mapTrees, Slots.gaps_mapTrees]

/-- Notes do not matter to a rule. -/
theorem Tree.annotate_annotate (rule : Head → Slots σ → σ) (rule' : Head → Slots τ → τ)
    (t : Tree ρ) : (t.annotate rule').annotate rule = t.annotate rule := by
  induction t using Tree.induct with
  | step n h s ih =>
    have hs : annotateSlots rule (annotateSlots rule' s) = annotateSlots rule s := by
      rw [Slots.annotateSlots_eq_mapTrees, Slots.annotateSlots_eq_mapTrees,
        Slots.mapTrees_mapTrees, Slots.annotateSlots_eq_mapTrees]
      exact Slots.mapTrees_congr ih
    show Tree.mk (rule h (annotateSlots rule (annotateSlots rule' s))) h
      (annotateSlots rule (annotateSlots rule' s)) = _
    rw [hs]
    rfl

theorem Tree.synthesize_annotate (rule : Head → Slots σ → σ) (rule' : Head → Slots τ → τ)
    (t : Tree ρ) : (t.annotate rule').synthesize rule = t.synthesize rule :=
  congrArg Tree.note (Tree.annotate_annotate rule rule' t)

/-- Every node has a property of its head and its slots. -/
inductive Node.Every (Q : Head → Slots Unit → Prop) : Node → Prop where
  | mk {h : Head} {s : Slots Unit} (here : Q h s) (below : ∀ c ∈ s.toList, Node.Every Q c) :
    Node.Every Q (.mk () h s)

theorem Node.every_of_forall {Q : Head → Slots Unit → Prop} (hQ : ∀ h s, Q h s) (t : Node) :
    t.Every Q := by
  induction t using Tree.induct with
  | step n h s ih => exact .mk (hQ h s) ih

theorem Node.Every.imp₂ {Q Q' R : Head → Slots Unit → Prop} {t : Node} (h : t.Every Q)
    (h' : t.Every Q')
    (himp : ∀ k s, Q k s → Q' k s → R k s) : t.Every R := by
  induction h with
  | mk here _ ih =>
    cases h' with
    | mk here' below' => exact .mk (himp _ _ here here') fun c hc => ih c hc (below' c hc)

/-- Whether every node has a property. -/
def Node.every (q : Head → Slots Unit → Bool) (t : Node) : Bool :=
  t.synthesize fun h s => q h (s.mapTrees Tree.forget) && s.toList.all Tree.note

theorem Node.forget_eq (t : Node) : t.forget = t := by
  induction t using Tree.induct with
  | step n h s ih =>
    unfold Tree.forget at ih ⊢
    show Tree.mk () h (Tree.annotateSlots _ s) = _
    rw [Slots.annotateSlots_eq_mapTrees, Slots.mapTrees_congr ih, Slots.mapTrees_id]

theorem Node.every_iff {Q : Head → Slots Unit → Prop} [∀ h s, Decidable (Q h s)] {t : Node} :
    t.every (fun h s => decide (Q h s)) = true ↔ t.Every Q := by
  induction t using Tree.induct with
  | step n h s ih =>
    have hmk : Node.every (fun h s => decide (Q h s)) (.mk n h s) =
        (decide (Q h s) && s.toList.all (Node.every fun h s => decide (Q h s))) := by
      unfold Node.every
      rw [Tree.synthesize_mk, Tree.toList_annotateSlots, List.all_map,
        Slots.annotateSlots_eq_mapTrees, Slots.mapTrees_mapTrees]
      have hforget : ∀ t ∈ s.toList, (t.annotate fun h s =>
          decide (Q h (s.mapTrees Tree.forget)) && s.toList.all Tree.note).forget = t :=
        fun t _ => (Tree.annotate_annotate _ _ t).trans (Node.forget_eq t)
      rw [Slots.mapTrees_congr hforget, Slots.mapTrees_id]
      rfl
    rw [hmk, Bool.and_eq_true, decide_eq_true_iff, List.all_eq_true]
    constructor
    · rintro ⟨here, below⟩
      exact .mk here fun c hc => (ih c hc).mp (below c hc)
    · rintro (⟨here, below⟩)
      exact ⟨here, fun c hc => (ih c hc).mpr (below c hc)⟩

instance (Q : Head → Slots Unit → Prop) [∀ h s, Decidable (Q h s)] (t : Node) :
    Decidable (t.Every Q) := decidable_of_iff _ Node.every_iff

end Typeshift
