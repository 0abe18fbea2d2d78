import Typeshift.Proofs.Chain.Form
import Typeshift.Proofs.Convert.Shared

/-! # The comments of a tree

A conversion rebuilds a tree of plain JavaScript and hands the comments on. An optional chain is
taken apart: the conjunction that it becomes takes the place of its last link and has the comments
of that link, and the links before it become accesses and calls inside of the conjunction that are
made without theirs. An access that an optional call binds to a temporary is split, and its own
comments go too.

* `Node.HasComment`: a comment stands at a node of a tree.
* `IsJavaScript`: constructs of both vocabularies, and links of optional chains.
* `sheds`: a part whose own comments are not taken over.
* `Carries`, `Drops`: a comment stands at a node that keeps its comments, or at one that does not.
* `hasComment_iff`: there are no other comments. -/

namespace Typeshift

/-! ### The comments of a tree -/

/-- The three lists of comments of a node. -/
inductive CommentPlace where
  | leading
  | trailing
  | inner
  deriving DecidableEq, Repr

/-- The comments in one of the lists. -/
def Comments.list (c : Comments) : CommentPlace → List Comment
  | .leading => c.leading
  | .trailing => c.trailing
  | .inner => c.inner

theorem Comments.mem_list_none (p : CommentPlace) (c : Comment) : c ∉ Comments.none.list p := by
  cases p <;> exact List.not_mem_nil

theorem Comments.mem_list_wrap {a b : Comments} {p : CommentPlace} {c : Comment} :
    c ∈ (a.wrap b).list p ↔ c ∈ a.list p ∨ c ∈ b.list p := by
  cases p <;> simp [list, wrap, or_comm]

namespace Node

/-- **A comment stands in a list of some node of a tree.** -/
def HasComment (p : CommentPlace) (c : Comment) (t : Node) : Prop :=
  ∃ h ∈ t.preorder, c ∈ h.comments.list p

instance (p : CommentPlace) (c : Comment) (t : Node) : Decidable (t.HasComment p c) :=
  inferInstanceAs (Decidable (∃ _ ∈ _, _))

variable {p : CommentPlace} {c : Comment} {h : Head} {s : Slots Unit} {t : Node}

theorem hasComment_mk : HasComment p c (.mk () h s) ↔
    c ∈ h.comments.list p ∨ ∃ a ∈ s.toList, HasComment p c a := by
  unfold HasComment
  rw [preorder_mk]
  constructor
  · rintro ⟨k, hk, hc⟩
    rcases List.mem_cons.mp hk with rfl | hk
    · exact .inl hc
    · obtain ⟨a, ha, hk⟩ := List.mem_flatMap.mp hk
      exact .inr ⟨a, ha, k, hk, hc⟩
  · rintro (hc | ⟨a, ha, k, hk, hc⟩)
    · exact ⟨h, List.mem_cons_self, hc⟩
    · exact ⟨k, List.mem_cons_of_mem _ (List.mem_flatMap.mpr ⟨a, ha, hk⟩), hc⟩

/-- A node that is made without comments has those of its parts. -/
theorem hasComment_bare (hbare : t.head.comments = .none) :
    t.HasComment p c ↔ ∃ a ∈ Slots.toList t.slots, HasComment p c a := by
  obtain ⟨_, h, s⟩ := t
  rw [hasComment_mk, show h.comments = Comments.none from hbare]
  exact or_iff_right (Comments.mem_list_none p c)

theorem hasComment_own : t.HasComment p c ↔
    c ∈ t.head.comments.list p ∨ ∃ a ∈ Slots.toList t.slots, HasComment p c a := by
  cases t
  exact hasComment_mk

theorem hasComment_attach (h : Head) (t : Node) :
    (Convert.attach h t).HasComment p c ↔ c ∈ h.comments.list p ∨ t.HasComment p c := by
  obtain ⟨_, k, s⟩ := t
  have hmade : Convert.attach h (.mk () k s) =
      .mk () { k with comments := k.comments.wrap h.comments, span := k.span <|> h.span } s := rfl
  rw [hmade, hasComment_mk, hasComment_mk, Comments.mem_list_wrap, or_assoc, or_left_comm]

end Node

namespace Convert

open Chain (isLink)

variable {p : CommentPlace} {c : Comment} {h : Head} {s : Slots Unit} {t : Tag} {a : Node}

/-! ### Effects -/

/-- Whether a construct has an effect whatever its parts are. -/
def actsAlone (h : Head) : Bool :=
  h.isAny [.callExpression, .newExpression, .assignmentExpression, .updateExpression,
    .awaitExpression, .yieldExpression, .taggedTemplateExpression, .jsxElement, .jsxFragment] ||
    h.is .unaryExpression && h.text .operator == "delete"

/-- Whether the effects of the parts of a construct are effects of the construct. -/
def exposes (h : Head) : Bool := !h.isAny [.functionExpression, .arrowFunctionExpression]

theorem effectRule_eq (h : Head) (s : Slots Bool) :
    effectRule h s = (actsAlone h || exposes h && s.toList.any Tree.note) := by
  have his (t : Tag) : h.is t = decide (h.tag? = some t) := beq_eq_decide _ _
  unfold effectRule actsAlone exposes
  simp only [Head.isAny, List.any_cons, List.any_nil, his]
  split <;> simp_all

theorem hasEffects_mk : hasEffects (.mk () h s) =
    (actsAlone h || exposes h && s.toList.any hasEffects) := by
  unfold hasEffects
  rw [Tree.synthesize_mk, effectRule_eq, Tree.toList_annotateSlots, List.any_map]
  rfl

/-- Whether an expression of the source has effects. A call may also be a link of a chain. -/
def mayAct (t : Node) : Bool :=
  t.synthesize fun h s => h.is .optionalCallExpression || effectRule h s

theorem mayAct_mk : mayAct (.mk () h s) =
    (h.is .optionalCallExpression || (actsAlone h || exposes h && s.toList.any mayAct)) := by
  unfold mayAct
  rw [Tree.synthesize_mk, effectRule_eq, Tree.toList_annotateSlots, List.any_map]
  rfl

/-! ### Plain JavaScript -/

/-- A construct of both vocabularies, or a link of an optional chain. Nothing stands in the fields
for types, variances and predicates. -/
def IsPlain (h : Head) (s : Slots Unit) : Prop :=
  ((∃ t ∈ h.tag?, t.isIn .source = true ∧ t.isIn .target = true) ∨ isLink h = true) ∧
    ∀ f ∈ sourceFields, s.child? f = none

/-- **A construct of plain JavaScript**, with the fields of its shape in their order. -/
structure IsJavaScript (h : Head) (s : Slots Unit) : Prop where
  fits : Fits .source h s
  arranged : Arranged h s
  plain : IsPlain h s

instance (h : Head) (s : Slots Unit) : Decidable (IsPlain h s) :=
  inferInstanceAs (Decidable (_ ∧ ∀ _ ∈ _, _))

instance (h : Head) (s : Slots Unit) : Decidable (IsJavaScript h s) :=
  decidable_of_iff (Fits .source h s ∧ Arranged h s ∧ IsPlain h s)
    ⟨fun ⟨hf, ha, hp⟩ => ⟨hf, ha, hp⟩, fun hs => ⟨hs.fits, hs.arranged, hs.plain⟩⟩

/-- What is read from JSON has the fields of its shape in their order. -/
theorem isJavaScript_of_load {v : Json} {t : Node} (hload : Node.load v = .ok t)
    (hplain : t.Every IsPlain) : t.Every IsJavaScript := by
  have hshape := Node.Every.imp₂ (Node.wellFormed_of_load v hload) (Node.arranged_of_load v hload)
    fun _ _ hfits harranged => And.intro hfits harranged
  exact Node.Every.imp₂ hshape hplain fun _ _ hs hp => ⟨hs.1, hs.2, hp⟩

section Fields

variable (hs : IsJavaScript h s) (ht : h.tag? = some t)
include hs ht

theorem IsJavaScript.nodup : (s.map Prod.fst).Nodup := by
  rw [hs.arranged t ht]
  refine (slotOrder_perm t).nodup_iff.mpr ?_
  exact (slotOrder_fields t).2.sublist (List.filter_sublist.map _)

theorem IsJavaScript.spec {f : Field} {slot : Slot Node} (hslot : (f, slot) ∈ s) :
    s.get? f = some slot ∧
      ∃ spec ∈ t.fields .source, spec.field = f ∧ spec.admits (.slot slot) = true := by
  have hget : s.get? f = some slot := Slots.get?_of_nodup (hs.nodup ht) hslot
  refine ⟨hget, ?_⟩
  have hf : f ∈ s.map Prod.fst := List.mem_map.mpr ⟨_, hslot, rfl⟩
  rw [hs.arranged t ht, List.mem_filter, decide_eq_true_iff] at hf
  obtain ⟨spec, hspec, rfl⟩ := List.mem_map.mp hf.2
  obtain ⟨hspec, hisSlot⟩ := List.mem_filter.mp hspec
  rcases hs.fits.value ht hspec with ⟨x, -, hx⟩ | ⟨slot', hslot', hx⟩
  · rw [not_isSlot_of_admits hx] at hisSlot
    cases hisSlot
  · cases hget.symm.trans hslot'
    exact ⟨spec, hspec, rfl, hx⟩

/-- A part stands in a field that both vocabularies have. -/
theorem IsJavaScript.shared {f : Field} {slot : Slot Node} (hslot : (f, slot) ∈ s)
    (ha : a ∈ slot.toList) :
    s.get? f = some slot ∧ f ∈ slotFields .target t ∧ sourceField t f = f := by
  obtain ⟨hget, spec, hspec, rfl, hadmits⟩ := hs.spec ht hslot
  obtain ⟨hshape, hsource⟩ := List.mem_filter.mp hspec
  obtain ⟨honly, hoptional⟩ := sourceFields_spec t spec hshape
  have htarget : spec.isIn .target = true := by
    by_contra hno
    have hfield := honly (Bool.eq_false_iff.mpr hno)
    obtain ⟨htype, hpresence⟩ := hoptional hfield
    have hnone := hs.plain.2 _ hfield
    unfold Slots.child? at hnone
    rw [hget] at hnone
    cases slot with
    | one | many | holes => simp [FieldSpec.admits, htype, hpresence] at hadmits
    | maybe x =>
      cases hnone
      cases ha
  refine ⟨hget, ?_, sourceField_eq t spec hshape hsource htarget⟩
  exact List.mem_map.mpr ⟨spec, List.mem_filter.mpr
    ⟨List.mem_filter.mpr ⟨hshape, htarget⟩, isSlot_of_admits hadmits⟩, rfl⟩

end Fields

/-- The slots of an access, as a link of a chain or not. -/
theorem IsJavaScript.slots_access (hs : IsJavaScript h s)
    (ht : h.tag? = some .memberExpression ∨ h.tag? = some .optionalMemberExpression) :
    ∃ o k, s = [(.object, .one o), (.property, .one k)] := by
  have hone (t : Tag) (ht : h.tag? = some t) (hobject : FieldSpec.one .object ∈ t.fields .source)
      (hproperty : FieldSpec.one .property ∈ t.fields .source)
      (horder : t.slotOrder.filter (· ∈ slotFields .source t) = [.object, .property]) :
      ∃ o k, s = [(.object, .one o), (.property, .one k)] := by
    obtain ⟨o, ho⟩ := hs.fits.one ht hobject rfl rfl
    obtain ⟨k, hk⟩ := hs.fits.one ht hproperty rfl rfl
    have hfields := (hs.arranged t ht).trans horder
    obtain ⟨⟨_, x⟩, _, rfl, rfl, hrest⟩ := List.map_eq_cons_iff.mp hfields
    obtain ⟨⟨_, y⟩, _, rfl, rfl, hnil⟩ := List.map_eq_cons_iff.mp hrest
    cases List.map_eq_nil_iff.mp hnil
    cases ho
    cases hk
    exact ⟨o, k, rfl⟩
  rcases ht with ht | ht
  · exact hone _ ht (by decide) (by decide) (by decide)
  · exact hone _ ht (by decide) (by decide) (by decide)

/-- The slots of a call that is a link of a chain. -/
theorem IsJavaScript.slots_call (hs : IsJavaScript h s)
    (ht : h.tag? = some .optionalCallExpression) :
    ∃ o args, s = [(.callee, .one o), (.typeArguments, .maybe none), (.arguments, .many args)] := by
  have hcallee : FieldSpec.one .callee ∈ Tag.optionalCallExpression.fields .source := by decide
  have harguments : FieldSpec.many .arguments ∈ Tag.optionalCallExpression.fields .source := by
    decide
  obtain ⟨o, ho⟩ := hs.fits.one ht hcallee rfl rfl
  obtain ⟨args, hargs⟩ := hs.fits.many ht harguments rfl
  have hfields : s.map Prod.fst = [.callee, .typeArguments, .arguments] := hs.arranged _ ht
  obtain ⟨⟨_, x⟩, _, rfl, rfl, hrest⟩ := List.map_eq_cons_iff.mp hfields
  obtain ⟨⟨_, y⟩, _, rfl, rfl, hlast⟩ := List.map_eq_cons_iff.mp hrest
  obtain ⟨⟨_, z⟩, _, rfl, rfl, hnil⟩ := List.map_eq_cons_iff.mp hlast
  cases List.map_eq_nil_iff.mp hnil
  cases ho
  cases hargs
  obtain ⟨-, spec, hspec, hfield, hadmits⟩ :=
    hs.spec ht (List.mem_cons_of_mem _ List.mem_cons_self)
  obtain ⟨htype, hpresence⟩ := (sourceFields_spec _ spec (List.mem_filter.mp hspec).1).2
    (by rw [hfield]; decide)
  have huntyped := hs.plain.2 .typeArguments (by decide)
  cases y with
  | one | many | holes => simp [FieldSpec.admits, htype, hpresence] at hadmits
  | maybe y =>
    cases huntyped
    exact ⟨o, args, rfl⟩

/-! ### What is carried over -/

/-- The field of a link that holds the chain before it. -/
def baseField (h : Head) : Field := if h.is .optionalCallExpression then .callee else .object

/-- **A part whose own comments are not taken over**: of a link of a chain, the link before it, and
an access with effects that is called after a guard. -/
def sheds (h : Head) (f : Field) (a : Node) : Bool :=
  isLink h && f == baseField h && (isLink a.head ||
    h.is .optionalCallExpression && h.flag .isOptional && a.head.is .memberExpression && mayAct a)

/-- A comment stands at a node that keeps its comments. The flag says whether the root does. -/
inductive Carried (p : CommentPlace) (c : Comment) : Bool → Node → Prop where
  | here {h : Head} {s : Slots Unit} (hc : c ∈ h.comments.list p) : Carried p c true (.mk () h s)
  | part {own : Bool} {h : Head} {s : Slots Unit} {f : Field} {slot : Slot Node} {a : Node}
    (hslot : (f, slot) ∈ s) (ha : a ∈ slot.toList) (inner : Carried p c (!sheds h f a) a) :
    Carried p c own (.mk () h s)

/-- **A comment stands at a node of the source that keeps its comments.** -/
def Carries (p : CommentPlace) (c : Comment) (t : Node) : Prop := Carried p c true t

theorem carried_mk {own : Bool} : Carried p c own (.mk () h s) ↔
    (own = true ∧ c ∈ h.comments.list p) ∨
      ∃ e ∈ s, ∃ a ∈ e.2.toList, Carried p c (!sheds h e.1 a) a := by
  constructor
  · rintro (hc | ⟨hslot, ha, inner⟩)
    · exact .inl ⟨rfl, hc⟩
    · exact .inr ⟨_, hslot, _, ha, inner⟩
  · rintro (⟨rfl, hc⟩ | ⟨_, hslot, a, ha, inner⟩)
    · exact .here hc
    · exact .part hslot ha inner

theorem sheds_of_not_isLink (hlink : isLink h = false) (f : Field) (a : Node) :
    sheds h f a = false := by
  rw [sheds, hlink, Bool.false_and, Bool.false_and]

theorem sheds_of_ne {f : Field} (hf : f ≠ baseField h) (a : Node) : sheds h f a = false := by
  rw [sheds, beq_false_of_ne hf, Bool.and_false, Bool.false_and]

/-- A construct that is no link takes over the comments of all its parts. -/
theorem carried_plain {own : Bool} (hlink : isLink h = false) : Carried p c own (.mk () h s) ↔
    (own = true ∧ c ∈ h.comments.list p) ∨ ∃ a ∈ s.toList, Carries p c a := by
  simp only [carried_mk, sheds_of_not_isLink hlink, Bool.not_false, Slots.mem_toList, Carries]
  refine or_congr_right ⟨?_, ?_⟩
  · rintro ⟨e, he, a, ha, inner⟩
    exact ⟨a, ⟨e, he, ha⟩, inner⟩
  · rintro ⟨a, ⟨e, he, ha⟩, inner⟩
    exact ⟨e, he, a, ha, inner⟩

/-- A comment stands at a part whose own comments are not taken over. -/
inductive Drops (p : CommentPlace) (c : Comment) : Node → Prop where
  | here {h : Head} {s : Slots Unit} {e : Field × Slot Node} {a : Node} (he : e ∈ s)
    (ha : a ∈ e.2.toList) (hsheds : sheds h e.1 a = true) (hc : c ∈ a.head.comments.list p) :
    Drops p c (.mk () h s)
  | part {h : Head} {s : Slots Unit} {a : Node} (ha : a ∈ s.toList) (inner : Drops p c a) :
    Drops p c (.mk () h s)

theorem Carried.hasComment {own : Bool} {t : Node} (hc : Carried p c own t) :
    t.HasComment p c := by
  induction hc with
  | here hc => exact Node.hasComment_mk.mpr (.inl hc)
  | part hslot ha _ ih =>
    exact Node.hasComment_mk.mpr (.inr ⟨_, Slots.mem_toList.mpr ⟨_, hslot, ha⟩, ih⟩)

theorem Drops.hasComment {t : Node} (hc : Drops p c t) : t.HasComment p c := by
  induction hc with
  | here he ha _ hc =>
    refine Node.hasComment_mk.mpr (.inr ⟨_, Slots.mem_toList.mpr ⟨_, he, ha⟩, ?_⟩)
    exact Node.hasComment_own.mpr (.inl hc)
  | part ha _ ih => exact Node.hasComment_mk.mpr (.inr ⟨_, ha, ih⟩)

/-- Every comment of a tree is carried, or stands at a part that sheds it. -/
theorem hasComment_iff {t : Node} : t.HasComment p c ↔ Carries p c t ∨ Drops p c t := by
  refine ⟨fun hc => ?_, fun hc => hc.elim Carried.hasComment Drops.hasComment⟩
  induction t using Tree.induct with
  | step n h s ih =>
    rcases Node.hasComment_mk.mp hc with hc | ⟨a, ha, hc⟩
    · exact .inl (.here hc)
    · obtain ⟨e, he, hae⟩ := Slots.mem_toList.mp ha
      rcases ih a ha hc with hcarries | hdrops
      · cases hsheds : sheds h e.1 a with
        | false =>
          refine .inl (.part he hae ?_)
          rw [hsheds]
          exact hcarries
        | true =>
          cases hcarries with
          | here hown => exact .inr (.here he hae hsheds hown)
          | part hslot hb inner =>
            refine .inl (.part he hae ?_)
            rw [hsheds]
            exact .part hslot hb inner
      · exact .inr (.part ha hdrops)

end Convert

end Typeshift
