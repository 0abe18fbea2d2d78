import Typeshift.Proofs.Convert.Walk
import Typeshift.Proofs.Names

/-! # What a conversion does to its state

A property of steps is *closed* if the elementary steps have it and steps made of them inherit it.
Then every conversion has it, whatever the tree: it is a logic in which nothing has to be known.

* `Closed`: properties that the elementary steps have and that go over to what is made of them.
* `Closed.obeys_outcome`: every answer of every node has a closed property.
* `Stable.closed`: a relation between states that the elementary steps respect gives one.
* `closed_grows`: names that are in use stay in use. -/

namespace Typeshift.Convert

/-- **A property of steps that all conversions have**, for the elementary steps have it and it goes
over to what is made of them. -/
structure Closed (C : ∀ ⦃α : Type⦄, Pass α → Prop) : Prop where
  pure : ∀ {α : Type} (a : α), C (Pure.pure a)
  bind : ∀ {α β : Type} {p : Pass α} {f : α → Pass β}, C p → (∀ a, C (f a)) → C (p >>= f)
  report : ∀ (f : Finding) (h : Head) (args : List String), C (Convert.report f h args)
  freshName : ∀ base : String, C (Convert.freshName base)
  freshTemporary : C Convert.freshTemporary
  declares : C Convert.declares
  inScope : ∀ {α : Type} {p : Pass α}, C p → C (Convert.inScope p)
  inAmbient : ∀ {α : Type} {p : Pass α}, C p → C (Convert.inAmbient p)

/-- Every answer of a node has a property of steps. -/
structure Outcome.Obeys (C : ∀ ⦃α : Type⦄, Pass α → Prop) (o : Outcome) : Prop where
  convert : C o.convert
  chain : C o.chain
  access : C o.access
  entity : C o.entity

namespace Closed

variable {α β : Type} {C : ∀ ⦃α : Type⦄, Pass α → Prop} (hC : Closed C)
include hC

/-! ### The logic of a property of steps -/

/-- Everything is known. -/
def View.all : View where
  convert _ _ := True
  chain _ _ := True
  access _ _ := True
  entity _ _ := True
  exported _ _ := True
  body _ _ := True
  program _ _ := True
  temporary _ := True
  exports _ := True
  refused _ := True

/-- The logic in which steps are only said to have the property. -/
def logic : Logic where
  World V := V = View.all
  Gives _ _ p _ := C p
  pure _ := hC.pure _
  bind hp hf := hC.bind hp hf
  ran hp := hp
  declares := hC.declares
  inAmbient hp := hC.inAmbient (hp .none)

/-- The property, for the conversions of all trees. -/
def survey : Survey where
  toLogic := hC.logic
  Source _ _ := True
  Speaks _ := True
  lenient := True
  part _ _ _ := True.intro
  required _ := .inl True.intro
  vacant _ := by
    refine ⟨True.intro, fun V hV => ?_⟩
    cases hV
    exact ⟨True.intro, True.intro, True.intro, True.intro⟩
  speaks _ _ _ _ _ := True.intro
  speaks_statement _ _ _ _ _ := True.intro
  report h args _ := hC.report _ h args
  drop _ _ _ _ _ := hC.report _ _ _
  refuse _ _ _ := hC.bind (hC.report _ _ _) fun _ => hC.pure _
  temporary _ _ := hC.freshTemporary
  exports := hC.freshName _
  body hp := hC.bind (hC.inScope (hp .none)) fun _ => hC.pure _
  program hp := hC.bind (hC.inScope (hp .none)) fun _ => hC.pure _
  convert _ _ hV _ _ := hV ▸ True.intro
  chain _ _ hV _ _ := hV ▸ True.intro
  access _ _ hV _ _ := hV ▸ True.intro
  entity _ _ hV _ _ := hV ▸ True.intro
  chain_of hV _ _ := hV ▸ True.intro
  access_of hV _ _ := hV ▸ True.intro
  entity_of hV _ _ := hV ▸ True.intro
  exported _ _ hV _ _ _ := hV ▸ True.intro

/-- Every part of a tree is ready. -/
theorem ready (t : Node) : hC.survey.Ready 0 (t.annotate outcome) :=
  Survey.ready_annotate True.intro

/-- **Every answer of every node has a closed property.** -/
theorem obeys_outcome (t : Node) : (t.synthesize outcome).Obeys C := by
  have hanswers : hC.survey.Answers 0 (t.annotate outcome) :=
    Survey.Usable.answers ⟨hC.ready t, True.intro⟩
  exact ⟨hanswers.convert .none, hanswers.chain .none, hanswers.access .none,
    hanswers.entity .none⟩

/-- The member of a class that a property becomes is made by steps with the property. -/
theorem classMember {t : Node} (ht : t.head.is .objectTypeProperty = true) :
    C (convertClassMember (t.annotate outcome)) := by
  have his : (t.annotate outcome).head.is .objectTypeProperty = true := by
    rwa [Tree.head_annotate]
  have hgives : hC.logic.Gives 0 .none (convertClassMember (t.annotate outcome))
      (.member (t.annotate outcome).head (t.annotate outcome).slots) :=
    Survey.Sound.convertClassMember ((hC.ready t).sound his)
  exact hgives

/-! ### Parts -/

/-- The note of every node below has the property. -/
abbrev Good (C : ∀ ⦃α : Type⦄, Pass α → Prop) (t : Part) : Prop := t.All (Outcome.Obeys C)

theorem good_annotate (t : Node) : Good C (t.annotate outcome) := by
  induction t using Tree.induct with
  | step n h s ih =>
    refine .mk (hC.obeys_outcome (.mk n h s)) fun c hc => ?_
    rw [Tree.toList_annotateSlots] at hc
    obtain ⟨a, ha, rfl⟩ := List.mem_map.mp hc
    exact ih a ha

theorem obeys_default : (default : Outcome).Obeys C :=
  ⟨hC.pure _, hC.pure _, hC.pure _, hC.pure _⟩

section Slots

variable {s : Slots Outcome} (hs : ∀ c ∈ s.toList, Good C c)
include hs

theorem good_child (f : Field) : Good C (s.child f) := Slots.all_child hs hC.obeys_default

theorem child (f : Field) : C (Convert.child s f) := (hC.good_child hs f).note.convert

theorem child? (f : Field) : C (Convert.child? s f) := by
  unfold Convert.child?
  cases h : s.child? f with
  | none => exact hC.pure _
  | some t => exact hC.bind (Slots.all_child? hs t h).note.convert fun _ => hC.pure _

theorem children (f : Field) : C (Convert.children s f) := by
  have hgives : hC.logic.Gives 0 .none ((s.children f).mapM convertPart) (.all fun _ => .none) :=
    .mapM fun t ht _ => (Slots.all_children hs t ht).note.convert
  exact hgives

end Slots

end Closed

/-! ### Relations between states -/

/-- A relation between states that the elementary steps of a conversion respect. -/
structure Stable (R : State → State → Prop) : Prop where
  refl : ∀ st, R st st
  trans : ∀ {a b c}, R a b → R b c → R a c
  report : ∀ st d, R st { st with diagnostics := st.diagnostics ++ [d] }
  freshName : ∀ st base, R st { st with names := (st.names.fresh base).2 }
  temporary : ∀ st name, R st { st with scopes := st.scopes.modifyHead (· ++ [name]) }
  scope : ∀ {st st'}, R { st with scopes := [] :: st.scopes } st' →
    R st { st' with scopes := st'.scopes.tail }
  ambient : ∀ {st st'}, R { st with depth := st.depth + 1 } st' →
    R st { st' with depth := st'.depth - 1 }

/-- A step leads to related states. -/
def Keeps (R : State → State → Prop) ⦃α : Type⦄ (p : Pass α) : Prop := ∀ st, R st (p st).2

/-- Every conversion respects a stable relation. -/
theorem Stable.closed {R : State → State → Prop} (hR : Stable R) : Closed (Keeps R) where
  pure _ st := hR.refl st
  bind hp hf st := hR.trans (hp st) (hf _ _)
  report _ _ _ st := hR.report st _
  freshName base st := hR.freshName st base
  freshTemporary st := hR.trans (hR.freshName st temporaryBase) (hR.temporary _ _)
  declares st := hR.refl st
  inScope hp _ := hR.scope (hp _)
  inAmbient hp _ := hR.ambient (hp _)

/-- The names in use stay in use. -/
def Grows (st st' : State) : Prop := st.names.Within st'.names

theorem stable_grows : Stable Grows where
  refl st := Names.Within.refl st.names
  trans := Names.Within.trans
  report st _ := Names.Within.refl st.names
  freshName st base := Names.within_fresh st.names base
  temporary st _ := Names.Within.refl st.names
  scope := id
  ambient := id

theorem closed_grows : Closed (Keeps Grows) := stable_grows.closed

end Typeshift.Convert
