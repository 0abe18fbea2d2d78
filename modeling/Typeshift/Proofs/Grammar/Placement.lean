import Typeshift.Normalize.Hoist
import Typeshift.Proofs.Tree.WellFormed

/-! # Grammatical trees

Shapes say which fields a node has, but not which constructs may stand in them. A tree is
*grammatical* if the constructs that mean nothing by themselves stand where the construct around
them reads them, and function types, classes and members stand where nothing else will do.

* `Grammatical`: a node and its children stand as the grammar of types and declarations has them.
* `Face`: what a grammatical parent sees of a node, before and after a pass.
* `Stands.transport`: a pass that keeps the faces of the parts keeps the node grammatical. -/

namespace Typeshift

variable {ρ τ : Type}

/-! ### Where constructs may stand -/

/-- A block with a statement that says what a module exports as a whole. -/
def isExportsBlock (t : Tree ρ) : Bool :=
  t.head.is .blockStatement &&
    (t.slots.get? .body).any fun slot => slot.toList.any (·.head.is .declareModuleExports)

/-- Whether a node may stand in a field of a construct. Parameters of function types, variances,
predicates, internal slots, spreads and what a module exports have places of their own. -/
def mayStand (h : Head) (f : Field) (t : Tree ρ) : Bool :=
  match t.head.tag? with
  | some .functionTypeParam => h.is .functionType && (f == .params || f == .rest || f == .receiver)
  | some .variance => f == .variance
  | some .declaredPredicate | some .inferredPredicate => f == .predicate
  | some .objectTypeInternalSlot => f == .internalSlots
  | some .objectTypeSpreadProperty => h.is .objectType && f == .properties
  | some .declareModuleExports => h.isAny [.program, .blockStatement] && f == .body
  | _ => !isExportsBlock t || h.is .declareModule && f == .body

/-- Whether a body has properties only, no spreads; other nodes are no such bodies. -/
def hasPlainProperties (t : Tree ρ) : Bool :=
  !t.head.is .objectType || (t.slots.children .properties).all (·.head.is .objectTypeProperty)

/-- Whether a type is a function type, directly or in an ascription. -/
def ascribesFunction (t : Tree ρ) : Bool :=
  t.head.is .functionType ||
    t.head.is .ascription && (t.slots.child? .ty).any (·.head.is .functionType)

/-- Whether a node is an identifier that is annotated with a function type. -/
def declaresFunction (t : Tree ρ) : Bool :=
  t.head.is .identifier && (t.slots.child? .ty).any ascribesFunction

/-- Whether a property is an accessor. -/
def isAccessor (h : Head) : Bool := h.word? .kind == some .get || h.word? .kind == some .set

/-- Whether a construct holds function types, parameters, members and declarations where nothing
else will do. -/
def holdsOwn (h : Head) (s : Slots ρ) : Bool :=
  match h.tag? with
  | some .functionType => (s.child? .rest).all (·.head.is .functionTypeParam)
  | some .objectTypeProperty => !isAccessor h || (s.child? .value).any (·.head.is .functionType)
  | some .objectTypeCallProperty => (s.child? .value).any (·.head.is .functionType)
  | some .declareFunction => (s.child? .id).any declaresFunction
  | some .interfaceDeclaration | some .declareInterface | some .declareClass =>
    (s.child? .body).all hasPlainProperties
  | some .declareExportDeclaration => !h.flag .default || (s.child? .declaration).any
    (·.head.isAny [.declareFunction, .declareClass, .functionDeclaration, .classDeclaration])
  | _ => true

/-- **A grammatical node**: it belongs to the source vocabulary, its children stand where they may,
and it holds what it has to. -/
def Grammatical (h : Head) (s : Slots ρ) : Prop :=
  h.tag?.any (Tag.isIn .source) = true ∧ (∀ e ∈ s, ∀ c ∈ e.2.toList, mayStand h e.1 c = true) ∧
    holdsOwn h s = true

instance (h : Head) (s : Slots ρ) : Decidable (Grammatical h s) :=
  inferInstanceAs (Decidable (_ ∧ _ ∧ _))

theorem hasRequired_of_all {h : Head} {t : Tag} {s : Slots ρ} (ht : h.tag? = some t)
    (hs : ((t.fields .source).filter fun spec => spec.type = .node ∧ spec.presence = .required).all
      (fun spec => (s.child? spec.field).isSome) = true) : HasRequired h s := by
  intro t' ht' spec hspec htype hp
  cases ht.symm.trans ht'
  exact List.all_eq_true.mp hs spec (List.mem_filter.mpr ⟨hspec, by simp [htype, hp]⟩)

/-- A node that stands as it should, with what it needs. -/
structure Stands (h : Head) (s : Slots ρ) : Prop where
  grammatical : Grammatical h s
  required : HasRequired h s

namespace Stands

variable {h : Head} {s : Slots ρ}

theorem exists_tag (hs : Stands h s) : ∃ t, h.tag? = some t ∧ t.isIn .source = true := by
  have htag := hs.grammatical.1
  rwa [Option.any_eq_true] at htag

end Stands

/-! ### Faces -/

/-- Heads that grammar cannot tell apart. -/
structure Similar (h h' : Head) : Prop where
  tag : h'.tag? = h.tag?
  kind : h'.word? .kind = h.word? .kind
  default : h'.flag .default = h.flag .default

theorem Similar.refl (h : Head) : Similar h h := ⟨rfl, rfl, rfl⟩

theorem Similar.trans {a b c : Head} (h : Similar a b) (h' : Similar b c) : Similar a c :=
  ⟨h'.tag.trans h.tag, h'.kind.trans h.kind, h'.default.trans h.default⟩

theorem Similar.is {h h' : Head} (hh : Similar h h') (t : Tag) : h'.is t = h.is t := by
  unfold Head.is
  rw [hh.tag]

theorem Similar.isAny {h h' : Head} (hh : Similar h h') (ts : List Tag) :
    h'.isAny ts = h.isAny ts := by
  unfold Head.isAny
  simp only [funext hh.is]

/-- **The face of a node** at a position, before and after a pass: what the construct around it sees
of it. A function type may turn into a reference where function types are hoisted. -/
structure Face (p : Normalize.Position) (t : Tree ρ) (t' : Tree τ) : Prop where
  tag : t'.head.tag? = t.head.tag? ∨ p = .other ∧ t.head.tag? = some .functionType ∧
    t'.head.tag? = some .genericType
  exports : isExportsBlock t' = isExportsBlock t
  plain : hasPlainProperties t = true → hasPlainProperties t' = true
  ascribes : p = .signature → ascribesFunction t = true → ascribesFunction t' = true
  declares : p = .signature → declaresFunction t = true → declaresFunction t' = true

namespace Face

variable {p : Normalize.Position} {t : Tree ρ} {t' : Tree τ}

theorem refl (p : Normalize.Position) (t : Tree ρ) : Face p t t :=
  ⟨.inl rfl, rfl, id, fun _ => id, fun _ => id⟩

/-- Hoisting changes no other tag. -/
theorem is_eq (h : Face p t t') {tag : Tag} (hf : tag ≠ .functionType) (hg : tag ≠ .genericType) :
    t'.head.is tag = t.head.is tag := by
  unfold Head.is
  rcases h.tag with htag | ⟨-, ht, ht'⟩
  · rw [htag]
  · rw [ht, ht', Bool.eq_iff_iff, beq_iff_eq, beq_iff_eq]
    exact ⟨fun h => absurd (Option.some.inj h).symm hg, fun h => absurd (Option.some.inj h).symm hf⟩

theorem isAny_eq (h : Face p t t') {tags : List Tag} (hf : Tag.functionType ∉ tags)
    (hg : Tag.genericType ∉ tags) : t'.head.isAny tags = t.head.isAny tags := by
  unfold Head.isAny
  induction tags with
  | nil => rfl
  | cons tag tags ih =>
    rw [List.mem_cons, not_or] at hf hg
    rw [List.any_cons, List.any_cons, h.is_eq (Ne.symm hf.1) (Ne.symm hg.1), ih hf.2 hg.2]

/-- A function type that is not hoisted stays one. -/
theorem isFunction (h : Face p t t') (hp : p ≠ .other) (ht : t.head.is .functionType = true) :
    t'.head.is .functionType = true := by
  rcases h.tag with htag | ⟨hp', -⟩
  · unfold Head.is at ht ⊢
    rw [htag]; exact ht
  · exact absurd hp' hp

theorem mayStand (h : Face p t t') {k k' : Head} (hk : Similar k k') {f : Field}
    (ht : Typeshift.mayStand k f t = true) : Typeshift.mayStand k' f t' = true := by
  rcases h.tag with htag | ⟨-, htag, htag'⟩
  · unfold Typeshift.mayStand at ht ⊢
    simp only [htag, h.exports, hk.is, hk.isAny]
    exact ht
  · have hblock : isExportsBlock t' = false := by
      rw [h.exports]
      simp [isExportsBlock, Head.is, htag]
    unfold Typeshift.mayStand
    rw [htag', hblock]
    rfl

end Face

theorem all_of_forall₂ {α β : Type} {R : α → β → Prop} {as : List α} {bs : List β} {q : α → Bool}
    {q' : β → Bool} (h : List.Forall₂ R as bs) (hq : ∀ a b, R a b → q a = true → q' b = true)
    (ha : as.all q = true) : bs.all q' = true := by
  induction h with
  | nil => rfl
  | cons hab _ ih =>
    rw [List.all_cons, Bool.and_eq_true] at ha ⊢
    exact ⟨hq _ _ hab ha.1, ih ha.2⟩

theorem any_of_forall₂ {α β : Type} {R : α → β → Prop} {as : List α} {bs : List β} {q : α → Bool}
    {q' : β → Bool} (h : List.Forall₂ R as bs) (hq : ∀ a b, R a b → q' b = q a) :
    bs.any q' = as.any q := by
  induction h with
  | nil => rfl
  | cons hab _ ih => rw [List.any_cons, List.any_cons, hq _ _ hab, ih]

theorem any_of_optionRel {α β : Type} {R : α → β → Prop} {a : Option α} {b : Option β}
    {q : α → Bool} {q' : β → Bool} (h : Option.Rel R a b)
    (hq : ∀ a b, R a b → q a = true → q' b = true) (ha : a.any q = true) : b.any q' = true := by
  cases h with
  | none => exact ha
  | some hab => exact hq _ _ hab ha

theorem all_of_optionRel {α β : Type} {R : α → β → Prop} {a : Option α} {b : Option β}
    {q : α → Bool} {q' : β → Bool} (h : Option.Rel R a b)
    (hq : ∀ a b, R a b → q a = true → q' b = true) (ha : a.all q = true) : b.all q' = true := by
  cases h with
  | none => exact ha
  | some hab => exact hq _ _ hab ha

section Transport

variable {p : Normalize.Position} {h h' : Head} {s : Slots ρ} {s' : Slots τ}
  (hh : Similar h h') (hs : s.RelIn (fun f => Face (p.child h f)) s')
include hh hs

/-- **The face of a node** is kept if those of its parts are. -/
theorem face_mk (n : ρ) (n' : τ) : Face p (.mk n h s) (.mk n' h' s') where
  tag := .inl hh.tag
  exports := by
    unfold isExportsBlock
    simp only [Tree.head_mk, Tree.slots_mk]
    rw [hh.is]
    rcases hs.get? .body with ⟨hnone, hnone'⟩ | ⟨slot, slot', hsome, hsome', hrel⟩
    · rw [hnone, hnone']
      rfl
    · rw [hsome, hsome', Option.any_some, Option.any_some,
        any_of_forall₂ hrel.toList fun a b hab => hab.is_eq (by decide) (by decide)]
  plain hp := by
    unfold hasPlainProperties at hp ⊢
    simp only [Tree.head_mk, Tree.slots_mk, Bool.or_eq_true] at hp ⊢
    rw [hh.is]
    refine hp.imp id (all_of_forall₂ (hs.children .properties) fun a b hab ha => ?_)
    rw [hab.is_eq (by decide) (by decide)]
    exact ha
  ascribes hp ha := by
    subst hp
    unfold ascribesFunction at ha ⊢
    simp only [Tree.head_mk, Tree.slots_mk, Bool.or_eq_true, Bool.and_eq_true] at ha ⊢
    rw [hh.is, hh.is]
    refine ha.imp id fun ⟨ht, ha⟩ => ⟨ht, ?_⟩
    have hchild := hs.child? .ty
    rw [show Normalize.Position.child .signature h .ty = .signature by
      unfold Normalize.Position.child
      rw [show h.tag? = some .ascription by simpa [Head.is] using ht]] at hchild
    exact any_of_optionRel hchild (fun a b hab => hab.isFunction (by decide)) ha
  declares hp ha := by
    subst hp
    unfold declaresFunction at ha ⊢
    simp only [Tree.head_mk, Tree.slots_mk, Bool.and_eq_true] at ha ⊢
    rw [hh.is]
    refine ⟨ha.1, ?_⟩
    have hchild := hs.child? .ty
    rw [show Normalize.Position.child .signature h .ty = .signature by
      unfold Normalize.Position.child
      rw [show h.tag? = some .identifier by simpa [Head.is] using ha.1]] at hchild
    exact any_of_optionRel hchild (fun a b hab => hab.ascribes rfl) ha.2

theorem holdsOwn_transport (ho : holdsOwn h s = true) : holdsOwn h' s' = true := by
  have hvalue (ht : h.tag? = some .objectTypeProperty ∨ h.tag? = some .objectTypeCallProperty)
      (hv : (s.child? .value).any (·.head.is .functionType) = true) :
      (s'.child? .value).any (·.head.is .functionType) = true := by
    have hp : p.child h .value ≠ .other := by
      unfold Normalize.Position.child
      rcases ht with ht | ht <;> rw [ht] <;> exact fun h => by cases h
    exact any_of_optionRel (hs.child? .value) (fun a b hab => hab.isFunction hp) hv
  have hbody : (s.child? .body).all hasPlainProperties = true →
      (s'.child? .body).all hasPlainProperties = true :=
    all_of_optionRel (hs.child? .body) fun a b hab => hab.plain
  unfold holdsOwn at ho ⊢
  rw [hh.tag]
  split at ho <;> rename_i ht
  · refine all_of_optionRel (hs.child? .rest) (fun a b hab ha => ?_) ho
    rw [hab.is_eq (by decide) (by decide)]
    exact ha
  · unfold isAccessor at ho ⊢
    rw [hh.kind]
    rw [Bool.or_eq_true] at ho ⊢
    exact ho.imp id (hvalue (.inl ht))
  · exact hvalue (.inr ht) ho
  · have hp : p.child h .id = .signature := by
      unfold Normalize.Position.child
      rw [ht]
    exact any_of_optionRel (hs.child? .id) (fun a b hab => hab.declares hp) ho
  · exact hbody ho
  · exact hbody ho
  · exact hbody ho
  · rw [Bool.or_eq_true] at ho ⊢
    rw [hh.default]
    refine ho.imp id (any_of_optionRel (hs.child? .declaration) fun a b hab ha => ?_)
    rw [hab.isAny_eq (by decide) (by decide)]
    exact ha
  · rfl

/-- **A node stays as it should** if a pass keeps the faces of its parts. -/
theorem Stands.transport (hst : Stands h s) : Stands h' s' where
  grammatical := by
    refine ⟨?_, fun e' he' c' hc' => ?_, holdsOwn_transport hh hs hst.grammatical.2.2⟩
    · rw [hh.tag]; exact hst.grammatical.1
    · obtain ⟨e, he, hf, c, hc, hface⟩ := hs.mem_right he' hc'
      rw [← hf]
      exact hface.mayStand hh (hst.grammatical.2.1 e he c hc)
  required t ht spec hspec htype hp := by
    rw [hh.tag] at ht
    have hsome := hst.required t ht spec hspec htype hp
    have hrel := hs.child? spec.field
    generalize s.child? spec.field = a at hsome hrel
    generalize s'.child? spec.field = b at hrel ⊢
    cases hrel with
    | none => exact hsome
    | some _ => rfl

end Transport

end Typeshift
