import Mathlib.Tactic.SplitIfs
import Typeshift.Proofs.Names
import Typeshift.Proofs.Tree.Slots

/-! # Bodies

Code stands in the body of a function or among the statements of a program, and what is declared
there is seen in all of it. The parameters, decorators and computed keys of a function lie outside
of its body.

* `Body`: the body of a function, or the statements of a program.
* `Occurs`: a node of a tree, together with the nearest body around it.
* `Node.Each`: a condition on every node of a tree and its nearest body.
* `Node.bare`: a node without its own comments and span. -/

namespace Typeshift

/-- Whether a construct is a function with a body. -/
def Tag.isFunction : Tag → Bool
  | .functionDeclaration | .functionExpression | .arrowFunctionExpression | .classMethod
  | .classPrivateMethod | .objectMethod => true
  | _ => false

/-- Whether a construct has a body. -/
def Tag.hasBody (t : Tag) : Bool := t.isFunction || t == .program

/-- The body of a function, or the statements of a program. -/
inductive Body where
  | function (body : Node)
  | program (statements : List Node)

/-- The statements of a body; an expression has none. -/
def Body.statements : Body → List Node
  | .function body => if body.head.is .blockStatement then body.slots.children .body else []
  | .program statements => statements

/-- The body that a child in a field of a construct is, or stands in. -/
def bodyAt (t : Option Tag) (f : Field) (slot : Slot Node) (c : Node) : Option Body :=
  if f = .body then
    if t.any Tag.isFunction then some (.function c)
    else if t = some .program then some (.program slot.toList)
    else none
  else none

theorem bodyAt_eq_none {t : Option Tag} (ht : t.any Tag.hasBody = false) (f : Field)
    (slot : Slot Node) (c : Node) : bodyAt t f slot c = none := by
  have hfunction : t.any Tag.isFunction = false := by
    cases t <;> simp_all [Tag.hasBody]
  have hprogram : t ≠ some .program := by
    rintro rfl
    cases ht
  simp [bodyAt, hfunction, hprogram]

theorem bodyAt_of_ne {t : Option Tag} {f : Field} (hf : f ≠ .body) (slot : Slot Node) (c : Node) :
    bodyAt t f slot c = none := if_neg hf

theorem bodyAt_eq_some {t : Option Tag} {f : Field} {slot : Slot Node} {c : Node} {B : Body}
    (h : bodyAt t f slot c = some B) : B = .function c ∨
      B = .program slot.toList ∧ ∀ c', bodyAt t f slot c' = some (.program slot.toList) := by
  unfold bodyAt at h ⊢
  split_ifs at h ⊢
  · exact .inl (Option.some.inj h).symm
  · exact .inr ⟨(Option.some.inj h).symm, fun _ => rfl⟩

/-- A node occurs in a tree, and the body is the nearest one around it in the tree. -/
inductive Occurs (a : Node) : Node → Option Body → Prop where
  | here : Occurs a a none
  | within {h : Head} {s : Slots Unit} {f : Field} {slot : Slot Node} {c : Node} {o : Option Body}
    (hslot : (f, slot) ∈ s) (hc : c ∈ slot.toList) (inner : Occurs a c o) :
    Occurs a (.mk () h s) (o.or (bodyAt h.tag? f slot c))

namespace Occurs

variable {a b t : Node} {o o' : Option Body} {B : Body}

theorem child {h : Head} {s : Slots Unit} {c : Node} (hc : c ∈ s.toList) :
    ∃ o, Occurs c (.mk () h s) o := by
  obtain ⟨⟨f, slot⟩, hslot, hc⟩ := Slots.mem_toList.mp hc
  exact ⟨_, .within hslot hc .here⟩

theorem trans (h : Occurs a b o) (h' : Occurs b t o') : Occurs a t (o.or o') := by
  induction h' with
  | here => rwa [Option.or_none]
  | within hslot hc _ ih =>
    rw [← Option.or_assoc]
    exact .within hslot hc ih

theorem head_mem_preorder (h : Occurs a t o) : a.head ∈ t.preorder := by
  induction h with
  | here =>
    cases a
    rw [Node.preorder_mk]
    exact List.mem_cons_self
  | within hslot hc _ ih =>
    rw [Node.preorder_mk]
    refine List.mem_cons_of_mem _ (List.mem_flatMap.mpr ⟨_, ?_, ih⟩)
    exact Slots.mem_toList.mpr ⟨_, hslot, hc⟩

/-- The statements of a function body stand in no body inside of it. -/
theorem of_mem_statements {body s : Node} (hs : s ∈ (Body.function body).statements) :
    Occurs s body none := by
  cases body with
  | mk n h slots =>
    have hs : s ∈ if h.is .blockStatement then Slots.children slots .body else [] := hs
    split_ifs at hs with hblock
    · obtain ⟨slot, hslot, hmem⟩ := Slots.children_mem_slot hs
      have hnone : bodyAt h.tag? .body slot s = none := by
        rw [show h.tag? = some .blockStatement from beq_iff_eq.mp hblock]
        exact bodyAt_eq_none rfl _ _ _
      have hin : Occurs s (.mk () h slots) (none.or (bodyAt h.tag? .body slot s)) :=
        .within hslot hmem .here
      rwa [hnone] at hin
    · cases hs

/-- The statements of a body stand in it. -/
theorem statement (h : Occurs a t (some B)) {s : Node} (hs : s ∈ B.statements) :
    Occurs s t (some B) := by
  generalize ho : some B = o at h
  induction h with
  | here => cases ho
  | @within h slots f slot c o hslot hc _ ih =>
    cases o with
    | some B' =>
      cases ho
      exact .within hslot hc (ih rfl)
    | none =>
      rw [Option.none_or] at ho ⊢
      rcases bodyAt_eq_some ho.symm with rfl | ⟨rfl, hall⟩
      · exact .within hslot hc (of_mem_statements hs)
      · rw [← ho, ← hall s]
        exact .within hslot hs .here

/-- What holds in a tree holds in every tree that occurs in it. -/
theorem every {Q : Head → Slots Unit → Prop} (h : Occurs a t o) (ht : t.Every Q) : a.Every Q := by
  induction h with
  | here => exact ht
  | within hslot hc _ ih =>
    cases ht with
    | mk _ below => exact ih (below _ (Slots.mem_toList.mpr ⟨_, hslot, hc⟩))

end Occurs

/-- The heads of the nodes of a tree are those of its traversal. -/
theorem exists_occurs_of_mem_preorder {t : Node} {k : Head} (hk : k ∈ t.preorder) :
    ∃ a o, Occurs a t o ∧ a.head = k := by
  induction t using Tree.induct with
  | step n h s ih =>
    rw [Node.preorder_mk] at hk
    rcases List.mem_cons.mp hk with rfl | hk
    · exact ⟨_, none, .here, rfl⟩
    · obtain ⟨c, hc, hk⟩ := List.mem_flatMap.mp hk
      obtain ⟨a, o, ha, rfl⟩ := ih c hc hk
      obtain ⟨⟨f, slot⟩, hslot, hc⟩ := Slots.mem_toList.mp hc
      exact ⟨a, _, .within hslot hc ha, rfl⟩

/-- What holds of the heads of all nodes holds of those of the traversal. -/
theorem Node.Every.of_mem_preorder {Q : Head → Prop} {t : Node} (ht : t.Every fun h _ => Q h)
    {k : Head} (hk : k ∈ t.preorder) : Q k := by
  obtain ⟨a, o, ha, rfl⟩ := exists_occurs_of_mem_preorder hk
  cases ha.every ht with
  | mk here _ => exact here

/-! ### Bare nodes -/

namespace Node

/-- The node without its own comments and span. -/
def bare : Node → Node
  | .mk n h s => .mk n { h with comments := .none, span := none } s

@[simp] theorem bare_withComments (t : Node) (c : Comments) : (t.withComments c).bare = t.bare := by
  cases t; rfl

@[simp] theorem bare_withSpan (t : Node) (span : Option Span) :
    (t.withSpan span).bare = t.bare := by
  cases t; rfl

@[simp] theorem bare_wrapComments (t : Node) (c : Comments) :
    (Node.wrapComments c t).bare = t.bare := t.bare_withComments _

theorem slots_eq_of_bare {t t' : Node} (h : t.bare = t'.bare) : t'.slots = t.slots := by
  cases t; cases t'
  injection h with _ _ hs
  exact hs.symm

theorem kind_eq_of_bare {t t' : Node} (h : t.bare = t'.bare) : t'.head.kind = t.head.kind := by
  cases t; cases t'
  injection h with _ hh _
  injection hh with hk
  exact hk.symm

theorem attrs_eq_of_bare {t t' : Node} (h : t.bare = t'.bare) : t'.head.attrs = t.head.attrs := by
  cases t; cases t'
  injection h with _ hh _
  injection hh with _ ha
  exact ha.symm

theorem tag?_eq_of_bare {t t' : Node} (h : t.bare = t'.bare) : t'.head.tag? = t.head.tag? := by
  unfold Head.tag?
  rw [kind_eq_of_bare h]

theorem is_eq_of_bare {t t' : Node} (h : t.bare = t'.bare) (tag : Tag) :
    t'.head.is tag = t.head.is tag := by
  unfold Head.is
  rw [tag?_eq_of_bare h]

theorem isAny_eq_of_bare {t t' : Node} (h : t.bare = t'.bare) (tags : List Tag) :
    t'.head.isAny tags = t.head.isAny tags := by
  unfold Head.isAny
  rw [funext (is_eq_of_bare h)]

theorem flag_eq_of_bare {t t' : Node} (h : t.bare = t'.bare) (f : Field) :
    t'.head.flag f = t.head.flag f := by
  unfold Head.flag Head.attr?
  rw [attrs_eq_of_bare h]

theorem identifier?_eq_of_bare {t t' : Node} (h : t.bare = t'.bare) :
    t'.head.identifier? = t.head.identifier? := by
  unfold Head.identifier? Head.text Head.attr?
  rw [is_eq_of_bare h, attrs_eq_of_bare h]

theorem bare_of {h : Head} {tag : Tag} (ht : h.tag? = some tag) (s : Slots Unit) :
    (of tag h.attrs s).bare = bare (.mk () h s) := by
  cases h with
  | mk kind attrs comments span =>
    cases kind with
    | known t =>
      cases ht
      rfl
    | foreign name raw => cases ht

/-! ### Conditions on every node -/

/-- Every node of a tree, with the nearest body around it, meets a condition. -/
def Each (P : Node → Option Body → Prop) (t : Node) : Prop := ∀ a o, Occurs a t o → P a o

variable {P Q : Node → Option Body → Prop} {h : Head} {s : Slots Unit} {t : Node}

theorem each_mk (here : P (.mk () h s) none) (below : ∀ f slot, (f, slot) ∈ s →
    ∀ c ∈ slot.toList, Each (fun a o => P a (o.or (bodyAt h.tag? f slot c))) c) :
    Each P (.mk () h s) := by
  intro a o ha
  cases ha with
  | here => exact here
  | within hslot hc inner => exact below _ _ hslot _ hc a _ inner

theorem each_of {tag : Tag} {attrs : List (Field × Attr)} (ht : tag.hasBody = false)
    (here : P (.of tag attrs s) none) (hs : ∀ c ∈ s.toList, Each P c) :
    Each P (.of tag attrs s) := by
  refine each_mk here fun f slot hslot c hc a o ha => ?_
  have hnone : bodyAt (some tag) f slot c = none := bodyAt_eq_none (t := some tag) ht _ _ _
  show P a (o.or (bodyAt (some tag) f slot c))
  rw [hnone, Option.or_none]
  exact hs c (Slots.mem_toList.mpr ⟨_, hslot, hc⟩) a o ha

namespace Each

theorem here (ht : Each P t) : P t none := ht t none .here

theorem imp (ht : Each P t) (h : ∀ a o, P a o → Q a o) : Each Q t :=
  fun a o ha => h a o (ht a o ha)

theorem below (ht : Each P t) {f : Field} {slot : Slot Node} (hslot : (f, slot) ∈ t.slots)
    {c : Node} (hc : c ∈ slot.toList) :
    Each (fun a o => P a (o.or (bodyAt t.head.tag? f slot c))) c := by
  cases t
  exact fun a o ha => ht a _ (.within hslot hc ha)

/-- What holds in a tree holds in its children, if they are no bodies. -/
theorem child (ht : Each P t) {f : Field} {slot : Slot Node} (hslot : (f, slot) ∈ t.slots)
    (hno : f ≠ .body ∨ t.head.tag?.any Tag.hasBody = false) {c : Node} (hc : c ∈ slot.toList) :
    Each P c := by
  refine (ht.below hslot hc).imp fun a o ha => ?_
  have hnone : bodyAt t.head.tag? f slot c = none := by
    rcases hno with hf | ht
    · exact bodyAt_of_ne hf _ _
    · exact bodyAt_eq_none ht _ _ _
  rwa [hnone, Option.or_none] at ha

/-- Comments and spans do not matter to a condition that does not look at them. -/
theorem dress (hP : ∀ (a a' : Node) o, a.bare = a'.bare → P a o → P a' o) {t t' : Node}
    (h : t.bare = t'.bare) (ht : Each P t) : Each P t' := by
  cases t' with
  | mk n k s =>
    have htag := tag?_eq_of_bare h
    have hslots := slots_eq_of_bare h
    refine each_mk (hP _ _ _ h ht.here) fun f slot hslot c hc => ?_
    rw [show k.tag? = t.head.tag? from htag]
    rw [show s = t.slots from hslots] at hslot
    exact ht.below hslot hc

end Each

end Node

end Typeshift
