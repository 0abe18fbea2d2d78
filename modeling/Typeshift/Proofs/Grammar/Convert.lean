import Typeshift.Proofs.Convert.Rebuilt
import Typeshift.Proofs.Convert.Static
import Typeshift.Proofs.Grammar.Placement

/-! # Conversion of grammatical trees

Some constructs mean nothing by themselves: asked for their counterpart, they are passed through and
reported. In a grammatical tree nobody asks them. Every other construct has a rule that succeeds, as
it holds function types, members and declarations where its rule looks for them.

* `Clean`: a tree of known nodes.
* `isDependent`: the constructs that are read by the construct around them.
* `not_refused`: no other construct of a grammatical tree is refused.
* `clean_convert`: a grammatical tree becomes a clean one. -/

namespace Typeshift.Convert

/-! ### Clean trees -/

/-- A node is known, and an access has an object and a property. -/
def Known (h : Head) (s : Slots Unit) : Prop :=
  h.tag?.isSome = true ∧ (h.is .memberExpression = true →
    (s.child? .object).isSome = true ∧ (s.child? .property).isSome = true)

/-- A tree of known nodes. -/
abbrev Clean (t : Node) : Prop := t.Every Known

theorem clean_of {t : Tag} {attrs : List (Field × Attr)} {s : Slots Unit}
    (ht : t ≠ .memberExpression) (hs : Holds Clean s) : Clean (.of t attrs s) :=
  .mk ⟨rfl, fun h => absurd (of_decide_eq_true h) ht⟩ hs

namespace Clean

variable {u v : Node}

theorem known (hu : Clean u) : Known u.head u.slots := by
  cases hu with
  | mk here _ => exact here

theorem parts (hu : Clean u) : ∀ c ∈ u.slots.toList, Clean c := by
  cases hu with
  | mk _ below => exact below

theorem dress (hu : Clean u) (hbare : u.bare = v.bare) : Clean v := by
  obtain ⟨n, h, s⟩ := v
  have hslots : s = u.slots := Node.slots_eq_of_bare hbare
  have htag : h.tag? = u.head.tag? := Node.tag?_eq_of_bare hbare
  subst hslots
  obtain ⟨hsome, hparts⟩ := hu.known
  refine .mk ⟨by rwa [htag], fun hm => hparts ?_⟩ hu.parts
  unfold Head.is at hm ⊢
  rwa [← htag]

/-- An access has an object and a property. -/
theorem piece (hu : Clean u) (hm : u.head.is .memberExpression = true) {f : Field}
    (hf : f ∈ [Field.object, .property]) : Clean (u.slots.child f) := by
  have hsome : (u.slots.child? f).isSome = true := by
    rcases List.mem_pair.mp hf with rfl | rfl
    · exact (hu.known.2 hm).1
    · exact (hu.known.2 hm).2
  obtain ⟨c, hc⟩ := Option.isSome_iff_exists.mp hsome
  unfold Slots.child
  rw [hc]
  exact hu.parts c (Slots.child?_mem hc)

end Clean

/-! ### Dependent constructs -/

/-- Whether a construct is read by the construct around it, and has no counterpart of its own. -/
def isDependent {ρ : Type} (t : Tree ρ) : Bool := t.head.isAny dependents || isExportsBlock t

/-- A dependent construct stands in a field that is made for it. -/
theorem exists_guest {ρ : Type} {h : Head} {t : Tag} {f : Field} {c : Tree ρ}
    (ht : h.tag? = some t) (hc : mayStand h f c = true) (hd : isDependent c = true) :
    ∃ tag ∈ guests t f, c.head.is tag = true := by
  have his {tag : Tag} (htag : h.is tag = true) : t = tag := by
    unfold Head.is at htag
    rw [ht] at htag
    exact Option.some.inj (beq_iff_eq.mp htag)
  have hself {tag : Tag} (htag : c.head.tag? = some tag) : c.head.is tag = true := by
    unfold Head.is
    rw [htag]
    exact beq_self_eq_true _
  unfold mayStand at hc
  split at hc <;> rename_i htag
  · simp only [Bool.and_eq_true, Bool.or_eq_true, beq_iff_eq] at hc
    obtain ⟨hfun, (rfl | rfl) | rfl⟩ := hc <;> cases his hfun <;>
      exact ⟨_, List.mem_singleton_self _, hself htag⟩
  · cases beq_iff_eq.mp hc
    exact ⟨_, by simp [guests], hself htag⟩
  · cases beq_iff_eq.mp hc
    exact ⟨_, by simp [guests], hself htag⟩
  · cases beq_iff_eq.mp hc
    exact ⟨_, by simp [guests], hself htag⟩
  · cases beq_iff_eq.mp hc
    exact ⟨_, by simp [guests], hself htag⟩
  · simp only [Bool.and_eq_true, beq_iff_eq] at hc
    obtain ⟨hobj, rfl⟩ := hc
    cases his hobj
    exact ⟨_, List.mem_singleton_self _, hself htag⟩
  · simp only [Head.isAny, List.any_cons, List.any_nil, Bool.or_false, Bool.and_eq_true,
      Bool.or_eq_true, beq_iff_eq] at hc
    obtain ⟨hany | hany, rfl⟩ := hc <;> cases his hany <;>
      exact ⟨_, List.mem_singleton_self _, hself htag⟩
  · -- no dependent tag is left, so the node is a block with what a module exports
    have hblock : isExportsBlock c = true := by
      unfold isDependent at hd
      simp_all [Head.isAny, Head.is, dependents]
    simp only [hblock, Bool.not_true, Bool.false_or, Bool.and_eq_true, beq_iff_eq] at hc
    obtain ⟨hmod, rfl⟩ := hc
    cases his hmod
    exact ⟨_, List.mem_singleton_self _, (Bool.and_eq_true_iff.mp hblock).1⟩

theorem isDependent_eq_false {ρ : Type} {h : Head} {t : Tag} {f : Field} {c : Tree ρ}
    (ht : h.tag? = some t) (hc : mayStand h f c = true)
    (hg : ∀ tag ∈ guests t f, c.head.is tag = false) : isDependent c = false := by
  by_contra hd
  obtain ⟨tag, htag, his⟩ := exists_guest ht hc (Bool.not_eq_false _ |>.mp hd)
  rw [hg tag htag] at his
  cases his

/-! ### Grammatical parts -/

theorem relIn_annotateSlots {R : Field → Node → Part → Prop} {rule : Head → Slots Outcome → Outcome}
    {s : Slots Unit} (hR : ∀ c ∈ s.toList, ∀ f, R f c (c.annotate rule)) :
    s.RelIn R (Tree.annotateSlots rule s) := by
  rw [Slots.annotateSlots_eq_mapTrees]
  unfold Slots.RelIn Slots.mapTrees
  rw [List.forall₂_map_right_iff, List.forall₂_same]
  intro e he
  exact ⟨rfl, Slot.rel_map fun c hc => hR c (Slots.mem_toList.mpr ⟨e, he, hc⟩) _⟩

theorem face_annotate (rule : Head → Slots Outcome → Outcome) (t : Node) (p : Normalize.Position) :
    Face p t (t.annotate rule) := by
  induction t using Tree.induct generalizing p with
  | step n h s ih => exact face_mk (.refl h) (relIn_annotateSlots fun c hc f => ih c hc _) _ _

variable {d : Nat} {h : Head} {s : Slots Outcome} {p c : Part} {v : Node}

/-- The source trees: they are grammatical, wherever they stand. -/
def Standing (_ : Nat) (t : Node) : Prop := t.Every Stands

/-- A part of a grammatical tree. -/
def IsStanding (p : Part) : Prop := ∃ t : Node, p = t.annotate outcome ∧ t.Every Stands

theorem isStanding_asPart (hstems : Stems Standing d h s) : IsStanding (asPart h s) := by
  obtain ⟨s₀, rfl, ht⟩ := hstems
  exact ⟨.mk () h s₀, rfl, ht⟩

namespace IsStanding

theorem stands (hp : IsStanding p) : Stands p.head p.slots := by
  obtain ⟨⟨n, h, s⟩, rfl, ht⟩ := hp
  have hstands : Stands h s := by
    cases ht with
    | mk here _ => exact here
  exact hstands.transport (p := .other) (.refl h)
    (relIn_annotateSlots fun c _ f => face_annotate _ c _)

theorem part (hp : IsStanding p) (hc : c ∈ p.slots.toList) : IsStanding c := by
  obtain ⟨⟨n, h, s⟩, rfl, ht⟩ := hp
  have hc : c ∈ (Tree.annotateSlots outcome s).toList := hc
  rw [Tree.toList_annotateSlots] at hc
  obtain ⟨a, ha, rfl⟩ := List.mem_map.mp hc
  cases ht with
  | mk _ below => exact ⟨a, rfl, below a ha⟩

/-- What a part has to hold. -/
theorem own (hp : IsStanding p) : holdsOwn p.head p.slots = true := hp.stands.grammatical.2.2

end IsStanding

/-! ### What is refused -/

/-- A step that gives something in every state. -/
def Succeeds {α : Type} (p : Pass (Option α)) : Prop := ∀ st, (p st).1.isSome = true

namespace Succeeds

variable {α β : Type}

theorem some (a : α) : Succeeds (pure (some a)) := fun _ => rfl

theorem after {p : Pass β} {f : β → Pass (Option α)} (hf : ∀ b, Succeeds (f b)) :
    Succeeds (p >>= f) := fun _ => hf _ _

theorem bind {p : Pass (Option β)} {f : Option β → Pass (Option α)} (hp : Succeeds p)
    (hf : ∀ b, Succeeds (f (Option.some b))) : Succeeds (p >>= f) := by
  intro st
  obtain ⟨b, hb⟩ := Option.isSome_iff_exists.mp (hp st)
  show ((f (p st).1) (p st).2).1.isSome = true
  rw [hb]
  exact hf b _

theorem ne_none {p : Pass (Option α)} (hp : Succeeds p) (st : State) : (p st).1 ≠ none := by
  intro hnone
  have hsome := hp st
  rw [hnone] at hsome
  cases hsome

end Succeeds

/-- A rest parameter that is a parameter is converted. -/
theorem succeeds_convertRest (names : Names) {x : Option Part}
    (hx : x.all (·.head.is .functionTypeParam) = true) : Succeeds (convertRest names x) := by
  cases x with
  | none => exact .some _
  | some c =>
    have hc : c.head.is .functionTypeParam = true := hx
    unfold convertRest
    dsimp only
    rw [if_pos hc]
    exact .after fun ty => .some _

/-- **A function type has a signature**, as its rest parameter is a parameter. -/
theorem succeeds_signature? (hs : Stands p.head p.slots) (hp : p.head.is .functionType = true) :
    Succeeds (signature? p) := by
  have hown := hs.grammatical.2.2
  unfold holdsOwn at hown
  rw [beq_iff_eq.mp hp] at hown
  unfold signature?
  rw [hp]
  refine .after fun receiver => .after fun x => ?_
  exact (succeeds_convertRest _ hown).bind fun rest => .after fun ps => .after fun ty => .some _

theorem succeeds_convertFunction? (hs : Stands p.head p.slots)
    (hp : p.head.is .functionType = true) : Succeeds (convertFunction? p) :=
  (succeeds_signature? hs hp).bind fun _ => .some _

/-- What a child is known for is known of the part that a rule asks. -/
theorem exists_child {f : Field} {q : Part → Bool} {s : Slots Outcome}
    (hf : (s.child? f).any q = true) : s.child f ∈ s.toList ∧ q (s.child f) = true := by
  obtain ⟨c, hc, hq⟩ := (Option.any_eq_true _ _).mp hf
  unfold Slots.child
  rw [hc]
  exact ⟨Slots.child?_mem hc, hq⟩

namespace IsStanding

/-- A function type that a field holds has a signature. -/
theorem succeeds_child (hp : IsStanding p) {f : Field}
    (hf : (p.slots.child? f).any (·.head.is .functionType) = true) :
    Succeeds (signature? (p.slots.child f)) := by
  obtain ⟨hmem, hfunction⟩ := exists_child hf
  exact succeeds_signature? (hp.part hmem).stands hfunction

/-- The function type that a declared function is annotated with has a signature. -/
theorem succeeds_ascribed (hp : IsStanding p) (ha : ascribesFunction p = true) :
    Succeeds (signature? (if p.head.is .ascription then p.slots.child .ty else p)) := by
  rcases Bool.or_eq_true_iff.mp ha with hfunction | ha
  · have hascription : ¬p.head.is .ascription = true := by
      unfold Head.is at hfunction ⊢
      rw [beq_iff_eq.mp hfunction]
      decide
    rw [if_neg hascription]
    exact succeeds_signature? hp.stands hfunction
  · obtain ⟨hascription, hty⟩ := Bool.and_eq_true_iff.mp ha
    rw [if_pos hascription]
    exact hp.succeeds_child hty

theorem succeeds_convertDeclaredFunction? (hp : IsStanding p)
    (ht : p.head.is .declareFunction = true) : Succeeds (convertDeclaredFunction? p.slots) := by
  have hown := hp.own
  unfold holdsOwn at hown
  rw [beq_iff_eq.mp ht] at hown
  obtain ⟨hid, hdeclares⟩ := exists_child hown
  obtain ⟨hidentifier, hty⟩ := Bool.and_eq_true_iff.mp hdeclares
  obtain ⟨ty, hchild, hascribes⟩ := (Option.any_eq_true _ _).mp hty
  have hty : IsStanding ty := (hp.part hid).part (Slots.child?_mem hchild)
  have hname : (p.slots.child .id).head.identifier? =
      some ((p.slots.child .id).head.text .name) := if_pos hidentifier
  unfold convertDeclaredFunction?
  dsimp only
  rw [hname, hchild]
  exact (hty.succeeds_ascribed hascribes).bind fun sig => .after fun _ => .some _

theorem succeeds_convertExport? (hp : IsStanding p)
    (ht : p.head.is .declareExportDeclaration = true) :
    Succeeds (convertExport? p.head p.slots) := by
  have hown := hp.own
  unfold holdsOwn at hown
  rw [beq_iff_eq.mp ht] at hown
  unfold convertExport?
  split_ifs with hdefault
  · rw [hdefault] at hown
    obtain ⟨c, hc, hexportable⟩ := (Option.any_eq_true _ _).mp hown
    have hexportable : isDefaultExportable c.head = true := hexportable
    rw [hc]
    dsimp only
    rw [if_pos hexportable]
    exact .after fun _ => .some _
  · exact .after fun _ => .after fun _ => .after fun _ => .some _

theorem succeeds_convertProperty? (hp : IsStanding p)
    (ht : p.head.is .objectTypeProperty = true) :
    Succeeds (convertProperty? p.head p.slots) := by
  have hown := hp.own
  unfold holdsOwn at hown
  rw [beq_iff_eq.mp ht] at hown
  have hvalue (hkind : isAccessor p.head = true) :
      Succeeds (signature? (p.slots.child .value)) := by
    rw [hkind] at hown
    exact hp.succeeds_child hown
  unfold convertProperty?
  dsimp only
  split
  · next hkind =>
    refine (hvalue (by simp [isAccessor, hkind])).bind fun sig => ?_
    exact .after fun _ => .some _
  · next hkind =>
    refine (hvalue (by simp [isAccessor, hkind])).bind fun sig => ?_
    exact .after fun _ => .some _
  · exact .after fun _ => .after fun _ => .some _

theorem succeeds_convertCall? (hp : IsStanding p)
    (ht : p.head.is .objectTypeCallProperty = true) : Succeeds (convertCall? p.slots) := by
  have hown := hp.own
  unfold holdsOwn at hown
  rw [beq_iff_eq.mp ht] at hown
  exact (hp.succeeds_child hown).bind fun _ => .some _

end IsStanding

/-- **No construct of a grammatical tree is refused**, if it is not dependent. -/
theorem not_refused (hstems : Stems Standing d h s) (hd : isDependent (asPart h s) = false) :
    ¬Refused h s := by
  have hp := isStanding_asPart hstems
  intro hrefused
  cases hrefused with
  | unknown ht =>
    obtain ⟨t, ht', -⟩ := hp.stands.exists_tag
    cases ht.symm.trans ht'
  | dependent ht hmem =>
    have hany : (asPart h s).head.isAny dependents = true := isAny_of_tag ht hmem
    exact Bool.false_ne_true ((Bool.or_eq_false_iff.mp hd).1.symm.trans hany)
  | declaredFunction hh st hnone => exact (hp.succeeds_convertDeclaredFunction? hh).ne_none st hnone
  | declaredExport hh st hnone => exact (hp.succeeds_convertExport? hh).ne_none st hnone
  | functionType hh st hnone =>
    exact (succeeds_convertFunction? (p := .mk default h s) hp.stands hh).ne_none st hnone
  | property hh st hnone => exact (hp.succeeds_convertProperty? hh).ne_none st hnone
  | call hh st hnone => exact (hp.succeeds_convertCall? hh).ne_none st hnone

/-- A body that cannot be split has properties only. -/
theorem is_property (hstems : Stems Standing d h s) (hh : h.isAny unsplitTags = true)
    (hbody : (s.child .body).head.is .objectType = true)
    (hc : c ∈ (s.child .body).slots.children .properties) :
    c.head.is .objectTypeProperty = true := by
  have hown : holdsOwn h s = true := (isStanding_asPart hstems).own
  have hall : (s.child? .body).all hasPlainProperties = true := by
    obtain ⟨t, hmem, ht⟩ := List.any_eq_true.mp hh
    unfold holdsOwn at hown
    rw [beq_iff_eq.mp ht] at hown
    simp only [unsplitTags, List.mem_cons, List.not_mem_nil, or_false] at hmem
    rcases hmem with rfl | rfl | rfl <;> exact hown
  unfold Slots.child at hbody hc
  cases hchild : s.child? .body with
  | none =>
    rw [hchild] at hbody
    cases hbody
  | some b =>
    rw [hchild] at hbody hc hall
    have hplain : hasPlainProperties b = true := hall
    unfold hasPlainProperties at hplain
    rw [show b.head.is .objectType = true from hbody] at hplain
    exact List.all_eq_true.mp hplain c hc

/-! ### What the rules make -/

/-- What is said of the answers of parts: they are clean, and nothing is refused. -/
def cleanPromise : Promise := .ofAll Clean fun _ => False

/-- Cleanness passes from answers to what is built of them. -/
theorem clean_inherits : Inherits cleanPromise.view Clean where
  convert hv := hv
  exported hv := hv
  chain hx := hx
  piece hx hm hk := hx.1.piece hm hk
  access hx := by
    unfold baseOf
    split_ifs
    · exact hx.dress (by simp)
    · exact hx
  entity hv := hv
  taken hv hu := hv.parts _ (Slots.children_mem hu)
  node ht hs := by
    refine clean_of ?_ hs
    rintro rfl
    exact absurd ht (by decide)
  member ha hb _ := .mk ⟨rfl, fun _ => ⟨rfl, rfl⟩⟩ (Holds.one ha (.one hb .nil))
  cast he hty _ := clean_of (by decide) (.one (clean_of (by decide) (.one he (.one hty .nil))) .nil)
  assign _ hv := clean_of (by decide) (.one (clean_of (by decide) (.none .nil)) (.one hv .nil))
  declarator hv := clean_of (by decide) (.one hv (.none .nil))
  dress _ hbare hu := hu.dress hbare
  comments c hu := hu.dress (by simp)

theorem clean_wraps (names : List String) : Wraps names Clean where
  declaration :=
    clean_of (by decide) (clean_inherits.holds_temporaries (clean_of (by decide)) names)
  comments c hu := hu.dress (by simp)
  node {t s} ht hs := by
    refine clean_of ?_ hs
    rintro rfl
    exact absurd ht (by decide)
  block {u s} hb _ hs := by
    refine .mk ⟨?_, fun hm => ?_⟩ hs
    · rw [beq_iff_eq.mp hb]
      rfl
    · unfold Head.is at hb hm
      rw [beq_iff_eq.mp hb] at hm
      exact absurd hm (by decide)
  parts _ hu := hu.parts

/-- **What the rule of a construct makes is clean**, if its parts are. -/
theorem clean_made (hstems : Stems Standing d h s) (hv : Made cleanPromise.view d h s v) :
    Clean v := by
  cases clean_inherits.outline hv with
  | simple _ hv => exact hv
  | declaration hrule _ _ hslots =>
    have hrules : ∀ r ∈ declarationRules, r.1 ≠ .memberExpression := by decide
    exact clean_of (hrules _ hrule) hslots
  | passed hh => exact hh.elim
  | @shared t ht _ st hslots =>
    have hs : Stands h s := (isStanding_asPart hstems).stands
    refine .mk ⟨rfl, fun hm => ?_⟩ fun c hc => ?_
    · cases of_decide_eq_true hm
      have hchild {f : Field} (hf : FieldSpec.one f ∈ Tag.memberExpression.fields .source) :
          (s.child? f).isSome = true := hs.required _ (beq_iff_eq.mp ht) _ hf rfl rfl
      exact ⟨child?_convertShared h (.inl rfl) (hchild (by decide)) st,
        child?_convertShared h (.inr rfl) (hchild (by decide)) st⟩
    · obtain ⟨e, he, hc⟩ := Slots.mem_toList.mp hc
      exact clean_inherits.filled clean_wraps (hslots e he) c hc

theorem clean_exported (hv : Exported cleanPromise.view d h s v) : Clean v :=
  clean_inherits.ofExported (fun {t _ _} ht => clean_of (by revert t; decide))
    (fun hbare hu => hu.dress hbare) hv

/-! ### Whole trees -/

theorem code_ofFinding (f : Finding) (span : Option Span) (args : List String) :
    (Diagnostic.ofFinding f span args).code = f.code := by
  unfold Diagnostic.ofFinding Diagnostic.ofCode
  cases Message.find? f.code <;> rfl

/-- Nothing is reported as passed through. -/
def Tidy (ds : List Diagnostic) : Prop := ∀ d ∈ ds, d.code ≠ Finding.unsupportedNode.code

theorem tidy_report {ds : List Diagnostic} {f : Finding} (hf : f ≠ .unsupportedNode) (h : Head)
    (args : List String) (hds : Tidy ds) : Tidy (ds ++ [.ofFinding f h.span args]) := by
  refine List.forall_mem_append.mpr ⟨hds, List.forall_mem_singleton.mpr ?_⟩
  rw [code_ofFinding]
  cases f <;> first | contradiction | decide

/-- A statement of a block that is not dependent is not dependent. -/
theorem isDependent_statement (hstems : Stems Standing d h s) (ht : h.tag? = some .blockStatement)
    (hd : isDependent (asPart h s) = false) {slot : Slot Part} (hslot : s.get? .body = some slot)
    (hc : c ∈ slot.toList) : isDependent c = false := by
  have hexports : slot.toList.any (·.head.is .declareModuleExports) = false := by
    have hblock : isExportsBlock (asPart h s) = false := (Bool.or_eq_false_iff.mp hd).2
    unfold isExportsBlock at hblock
    rw [show (asPart h s).head.is .blockStatement = true from beq_iff_eq.mpr ht,
      show (asPart h s).slots.get? .body = some slot from hslot] at hblock
    exact hblock
  have hstands : Stands h s := (isStanding_asPart hstems).stands
  refine isDependent_eq_false ht (hstands.grammatical.2.1 _ (Slots.get?_mem hslot) c hc) ?_
  exact List.forall_mem_singleton.mpr
    (Bool.not_eq_true _ |>.mp (List.any_eq_false.mp hexports c hc))

/-- Cleanness, said of what becomes of grammatical trees. -/
def cleanStatic : Static where
  toPromise := cleanPromise
  Clear := Tidy
  Source := Standing
  Speaks p := isDependent p = false
  lenient := False
  part ht hslot hc := by
    cases ht with
    | mk _ below => exact below _ (Slots.mem_toList.mpr ⟨_, hslot, hc⟩)
  required ht := by
    cases ht with
    | mk here _ => exact .inr here.required
  vacant := False.elim
  speaks {_ h s _ _ _ _} hstems ht hslot hc hg := by
    have hstands : Stands h s := (isStanding_asPart hstems).stands
    exact isDependent_eq_false ht (hstands.grammatical.2.1 _ hslot _ hc) hg
  speaks_statement hstems ht hd hslot hc := isDependent_statement hstems ht hd hslot hc
  report h args hf := tidy_report hf h args
  drop hstems hh hbody hc hproperty _ :=
    absurd (hproperty.symm.trans (is_property hstems hh hbody hc)) Bool.false_ne_true
  refuse hstems hd hrefused _ := absurd hrefused (not_refused hstems hd)
  converts hstems _ _ hmade := (clean_made hstems hmade).dress (by simp [attach])
  chains _ _ hx hg :=
    ⟨clean_inherits.simple hx, fun g hmem => clean_inherits.composed (hg g hmem)⟩
  accesses _ _ ha hb := clean_of (by decide)
    (.one (clean_inherits.composed ha) (.one (clean_inherits.composed hb) .nil))
  entities {_ _ _ a b} _ _ ha hb := by
    have hmember : Clean (Target.member a b false) :=
      clean_inherits.member (clean_inherits.composed ha) (clean_inherits.composed hb) false
    exact hmember.dress (by simp)
  chain_of _ hv := ⟨hv, nofun⟩
  access_of _ hv := hv
  entity_of _ hv := hv
  exports _ _ _ _ hmade := clean_exported hmade

/-- **The conversion of a grammatical tree**, if its root is not dependent: nothing is passed
through. -/
theorem clean_convert {t : Node} (ht : t.Every Stands) (hd : isDependent t = false) :
    Clean t.convert.tree ∧
      ∀ d ∈ t.convert.diagnostics, d.code ≠ Finding.unsupportedNode.code := by
  have hd' : isDependent (t.annotate outcome) = false := by
    unfold isDependent at hd ⊢
    rwa [Tree.head_annotate, (face_annotate outcome t .other).exports]
  have hstart : Tidy (State.start t.names).diagnostics := nofun
  obtain ⟨htidy, hclean⟩ := cleanStatic.convertTree (.start t.names) ht hd' hstart rfl
  exact ⟨hclean, htidy⟩

end Typeshift.Convert
