import Typeshift.Proofs.Convert.Rebuilt
import Typeshift.Proofs.Convert.Static

/-! # What is built inside of ambient contexts

A *trait* is said of the nodes that are built: it is plain of all nodes but declarations, and of a
declaration it is said where the declaration is built, when the state is known. It then holds of all
nodes that a conversion builds.

* `Builds`: a source node at some depth builds a node.
* `Trait`: what is said of the nodes that are built.
* `Trait.good_convert`: all nodes that the conversion of a source tree builds have the trait. -/

namespace Typeshift.Ambient

open Typeshift.Convert

/-- A node that is no declaration. -/
abbrev Plain (u : Node) : Prop := ∀ t ∈ u.head.tag?, t ∉ declarationTags

/-- A construct is one of the source, and has only attributes that it has there. -/
def IsSource (h : Head) : Prop :=
  ∀ t ∈ h.tag?, t.isIn .source = true ∧ ∀ e ∈ h.attrs, e.1 ∈ (t.fields .source).map FieldSpec.field

instance (h : Head) : Decidable (IsSource h) :=
  inferInstanceAs (Decidable (∀ t ∈ h.tag?, t.isIn .source = true ∧
    ∀ e ∈ h.attrs, e.1 ∈ (t.fields .source).map FieldSpec.field))

/-- **A source node at some depth builds a node**, which says that it is ambient as it has to. -/
structure Builds (d : Nat) (t u : Node) : Prop where
  result : ∃ st : State, st.depth = d ∧ u ∈ (convertStatements [t.annotate outcome] st).1
  flag : u.head.flag .isDeclare = (t.head.isAny declareTags && d == 0)
  fromModule : u.head.is .tsModuleDeclaration = true → t.head.is .declareModule = true
  span : u.head.span = t.head.span

/-- **What is said of the nodes that are built**, for some source trees with ambient contexts
around. -/
structure Trait where
  /-- The source trees, and the depth at which they stand. -/
  Source : Nat → Node → Prop
  Ok : Node → Prop
  source : ∀ {d t}, Source d t → IsSource t.head
  part : ∀ {d t f slot c}, Source d t → (f, slot) ∈ t.slots → c ∈ slot.toList →
    Source (depthAt d t.head f) c
  plain : ∀ {u}, Plain u → Ok u
  comments : ∀ {u} c, Ok u → Ok (u.withComments c)
  attach : ∀ {u} h, Ok u → Ok (attach h u)
  temporaries : ∀ names, Ok (temporaryDeclaration names)
  built : ∀ {d t u}, Source d t → Builds d t u → Ok u

/-! ### Statements -/

theorem statements_of_exports {p : Part} (hp : p.head.is .declareModuleExports = true)
    (st : State) :
    (convertStatements [p] st).1 = (convertModuleExports p.head p.slots st).1 := by
  rw [convertStatements, if_pos hp]
  exact List.append_nil _

theorem statements_of_not_exports {p : Part} (hp : p.head.is .declareModuleExports = false)
    (st : State) : (convertStatements [p] st).1 = [(convertPart p st).1] := by
  rw [convertStatements, if_neg (by simp [hp])]
  rfl

/-! ### Flags -/

/-- No declaration of the source says that it is ambient in the way of the target. -/
theorem isDeclare_not_mem_source {t : Tag} (ht : t ∈ declarationTags)
    (hin : t.isIn .source = true) :
    Field.isDeclare ∉ (t.fields .source).map FieldSpec.field := by
  have hall : ∀ t ∈ declarationTags, t.isIn .source = true →
      Field.isDeclare ∉ (t.fields .source).map FieldSpec.field := by decide
  exact hall t ht hin

/-- **A declaration that both vocabularies have never says that it is ambient.** -/
theorem flag_sharedAttrs {t : Tag} {h : Head} (hsource : IsSource h) (ht : h.tag? = some t)
    (hdeclaration : t ∈ declarationTags) (s : Slots Outcome) :
    (Head.ofTag t (sharedAttrs t h s)).flag .isDeclare = false := by
  have hattr : h.attr? .isDeclare = none := by
    unfold Head.attr?
    rw [List.lookup_eq_none_iff]
    intro e he
    have hmem := (hsource t ht).2 e he
    rw [bne_iff_ne]
    intro hkey
    exact isDeclare_not_mem_source hdeclaration (hsource t ht).1 (hkey ▸ hmem)
  unfold Head.flag
  split
  · next b hb =>
    obtain ⟨before, after, hsplit, -⟩ := List.lookup_eq_some_iff.mp hb
    have hmem : (Field.isDeclare, Attr.flag b) ∈ (Head.ofTag t (sharedAttrs t h s)).attrs :=
      hsplit ▸ List.mem_append_right before List.mem_cons_self
    obtain ⟨spec, -, hspec⟩ := List.mem_map.mp hmem
    obtain ⟨hfield, hconvert⟩ := Prod.mk.inj hspec
    rw [hfield, Chain.convertAttr_of_ne (by decide) (by decide), hattr] at hconvert
    cases hconvert
    rfl
  · rfl

/-- What both vocabularies have declares nothing that is defined elsewhere. -/
theorem isAny_declareTags_of_target {h : Head} {t : Tag} (ht : h.is t = true)
    (hin : t.isIn .target = true) : h.isAny declareTags = false := by
  unfold Head.isAny Head.is
  rw [beq_iff_eq.mp ht]
  revert hin
  cases t <;> decide

namespace Trait

variable {T : Trait} {d : Nat} {h : Head} {s : Slots Outcome} {u v : Node} {f : Field}

/-! ### Good trees -/

/-- A trait is said of every node of a tree. -/
def Good (T : Trait) (u : Node) : Prop := Node.Each (fun a _ => T.Ok a) u

/-- A trait is said of everything below a node. -/
def Below (T : Trait) (u : Node) : Prop := Holds T.Good u.slots

theorem good_of_below (hu : T.Ok u) (hbelow : T.Below u) : T.Good u := by
  obtain ⟨n, h, s⟩ := u
  exact Node.each_mk hu fun f slot hslot c hc =>
    hbelow c (Slots.mem_toList.mpr ⟨_, hslot, hc⟩)

theorem Good.ok (hu : T.Good u) : T.Ok u := Node.Each.here hu

theorem Good.below (hu : T.Good u) : T.Below u := by
  intro c hc
  obtain ⟨⟨f, slot⟩, hslot, hc⟩ := Slots.mem_toList.mp hc
  exact Node.Each.below hu hslot hc

/-- What is not a declaration is good if everything below is. -/
theorem good_plain (hplain : Plain u) (hbelow : T.Below u) : T.Good u :=
  good_of_below (T.plain hplain) hbelow

theorem good_default : T.Good default := good_plain nofun nofun

theorem Good.withComments (hu : T.Good u) (c : Comments) : T.Good (u.withComments c) := by
  refine good_of_below (T.comments c hu.ok) ?_
  cases u
  exact hu.below

theorem Good.child (hu : T.Good u) (f : Field) : T.Good (u.slots.child f) := by
  unfold Slots.child
  cases hc : u.slots.child? f with
  | none => exact good_default
  | some c => exact hu.below c (Slots.child?_mem hc)

theorem good_of {t : Tag} {attrs : List (Field × Attr)} {s : Slots Unit} (ht : t ∉ declarationTags)
    (hs : Holds T.Good s) : T.Good (.of t attrs s) := good_plain (not_mem_of_tag? rfl ht) hs

/-- A node that is no declaration may get any comments and span. -/
theorem Good.dress (hu : T.Good u) (hplain : Plain u) (hbare : u.bare = v.bare) : T.Good v := by
  refine good_plain ?_ ?_
  · unfold Plain
    rwa [Node.tag?_eq_of_bare hbare]
  · unfold Below
    rw [Node.slots_eq_of_bare hbare]
    exact hu.below

/-- What is said of the answers of parts. A type that is an access is no declaration. -/
def promise (T : Trait) : Promise where
  convert _ v := T.Good v
  chain _ x := T.Good x.1 ∧ ∀ g ∈ x.2, T.Good g
  access c x := T.Good x.1 ∧ (c.head.is .optionalIndexedAccessType = true → Plain x.1)
  entity _ v := T.Good v
  exported _ v := T.Good v
  refused _ := True

/-- A trait passes from answers to what is built of them, declarations apart. -/
theorem inherits (T : Trait) : Inherits T.promise.view T.Good where
  convert hv := hv
  exported hv := hv
  chain hx := hx
  piece hx _ _ := hx.1.child _
  access hx := by
    unfold baseOf
    split_ifs with hc
    · exact hx.1.dress (hx.2 hc) (by simp)
    · exact hx.1
  entity hv := hv
  taken hv hu := hv.below _ (Slots.children_mem hu)
  node {t _ _} ht hs := by
    have htags : ∀ t ∈ builtTags, t ∉ declarationTags := by decide
    exact good_of (htags t ht) hs
  member ha hb _ := good_of (by decide) (.one ha (.one hb .nil))
  cast he hty _ := good_of (by decide) (.one (good_of (by decide) (.one he (.one hty .nil))) .nil)
  assign _ hv := good_of (by decide) (.one (good_of (by decide) (.none .nil)) (.one hv .nil))
  declarator hv := good_of (by decide) (.one hv (.none .nil))
  dress hplain hbare hu := hu.dress hplain hbare
  comments c hu := hu.withComments _

theorem wraps (T : Trait) (names : List String) : Wraps names T.Good where
  declaration :=
    good_of_below (T.temporaries names) (T.inherits.holds_temporaries (good_of (by decide)) names)
  comments c hu := hu.withComments c
  node {t s} ht hs := good_of (by revert t; decide) hs
  block {u s} hb _ hs := by
    refine good_plain (fun t ht => ?_) hs
    cases (beq_iff_eq.mp hb).symm.trans ht
    decide
  parts _ hu := hu.below

/-! ### What the rules make -/

theorem below_attach (h : Head) (hu : T.Below u) : T.Below (Convert.attach h u) := by
  cases u
  exact hu

theorem span_attach {h : Head} (hu : u.head.span = none) :
    (Convert.attach h u).head.span = h.span := by
  cases u
  show (_ <|> h.span) = h.span
  rw [show _ = none from hu]
  rfl

/-- A declaration that takes the place of a construct is good if everything below is. -/
theorem good_declaration {s₀ : Slots Unit} {st : State} (hsource : T.Source st.depth (.mk () h s₀))
    (hexports : h.is .declareModuleExports = false)
    (hu : (convertNode h (Tree.annotateSlots outcome s₀) st).1 = u) (hspan : u.head.span = none)
    (hflag : u.head.flag .isDeclare = (h.isAny declareTags && st.depth == 0))
    (hmodule : u.head.is .tsModuleDeclaration = true → h.is .declareModule = true)
    (hbelow : T.Below u) : T.Good (Convert.attach h u) := by
  have hbare : u.bare = (Convert.attach h u).bare := by simp [Convert.attach]
  refine good_of_below (T.built hsource ⟨⟨st, rfl, ?_⟩, ?_, ?_, span_attach hspan⟩)
    (below_attach h hbelow)
  · rw [statements_of_not_exports (p := (Tree.mk () h s₀).annotate outcome) hexports]
    exact List.mem_singleton.mpr (congrArg (Convert.attach h) hu.symm)
  · rw [Node.flag_eq_of_bare hbare]
    exact hflag
  · rw [Node.is_eq_of_bare hbare]
    exact hmodule

/-- **What takes the place of a construct is good.** -/
theorem good_made {st : State} (hstems : Stems T.Source st.depth h s)
    (hmade : Made T.promise.view st.depth h s (convertNode h s st).1) :
    T.Good (Convert.attach h (convertNode h s st).1) := by
  obtain ⟨s₀, rfl, hsource⟩ := hstems
  have htag {t : Tag} (ht : h.is t = true) (hne : t ≠ .declareModuleExports) :
      h.is .declareModuleExports = false := by
    unfold Head.is
    rw [beq_iff_eq.mp ht]
    exact beq_false_of_ne fun heq => hne (Option.some.inj heq)
  generalize hu : (convertNode h (Tree.annotateSlots outcome s₀) st).1 = u at hmade ⊢
  cases T.inherits.outline hmade with
  | simple _ hgood => exact good_of_below (T.attach h hgood.ok) (below_attach h hgood.below)
  | @declaration tag t attrs slots hrule ht hflag hslots =>
    have hrules : ∀ r ∈ declarationRules, r.2 ≠ .declareModuleExports ∧
        (r.1 = .tsModuleDeclaration → r.2 = .declareModule) := by decide
    obtain ⟨hne, hmodule⟩ := hrules _ hrule
    refine good_declaration hsource (htag ht hne) hu rfl hflag (fun his => ?_) hslots
    have heq : t = .declareModule := hmodule (Option.some.inj (beq_iff_eq.mp his))
    rwa [heq] at ht
  | passed =>
    exact (good_plain nofun nofun : T.Good (passed h)).dress nofun (by simp [Convert.attach])
  | @shared t ht htarget st' hslots =>
    have hbelow : T.Below (convertShared t h (Tree.annotateSlots outcome s₀) st').1 := by
      intro c hc
      obtain ⟨e, he, hc⟩ := Slots.mem_toList.mp hc
      exact T.inherits.filled T.wraps (hslots e he) c hc
    by_cases hd : t ∈ declarationTags
    · have hne : t ≠ .declareModuleExports := by
        rintro rfl
        exact absurd hd (by decide)
      refine good_declaration hsource (htag ht hne) hu rfl ?_ (fun his => ?_) hbelow
      · rw [isAny_declareTags_of_target ht htarget]
        exact flag_sharedAttrs (T.source hsource) (beq_iff_eq.mp ht) hd _
      · have heq : t = .tsModuleDeclaration := Option.some.inj (beq_iff_eq.mp his)
        subst heq
        cases (T.source hsource _ (beq_iff_eq.mp ht)).1
    · have hplain : Plain (convertShared t h (Tree.annotateSlots outcome s₀) st').1 :=
        not_mem_of_tag? rfl hd
      exact (good_plain hplain hbelow).dress hplain (by simp [Convert.attach])

/-- **The constant that stands for what a module exports, and its export, are good.** -/
theorem good_exported {st : State} (hstems : Stems T.Source st.depth h s)
    (hh : h.is .declareModuleExports = true) (hu : u ∈ (convertModuleExports h s st).1)
    (hmade : Exported T.promise.view st.depth h s u) : T.Good u := by
  obtain ⟨s₀, rfl, hsource⟩ := hstems
  have hdeclares : h.isAny declareTags = true :=
    List.any_eq_true.mpr ⟨.declareModuleExports, by decide, hh⟩
  cases hmade with
  | @constant name ty _ hty =>
    have hbare : (exportsDeclaration name (Target.ascribe ty) (st.depth == 0)).bare =
        (atOrigin h (exportsDeclaration name (Target.ascribe ty) (st.depth == 0))).bare := by
      simp [atOrigin]
    refine good_of_below (T.built hsource ⟨⟨st, rfl, ?_⟩, ?_, ?_, rfl⟩) ?_
    · rwa [statements_of_exports (p := (Tree.mk () h s₀).annotate outcome) hh]
    · rw [Node.flag_eq_of_bare hbare, show (Tree.mk () h s₀).head = h from rfl, hdeclares]
      exact (Bool.true_and _).symm
    · intro his
      cases his
    · exact .many (List.forall_mem_singleton.mpr
        (T.inherits.constant (good_of (by decide)) (T.inherits.held hty) name)) .nil
  | @assignment name =>
    have hassignment : T.Good (Target.exportAssignment (Target.ident name)) :=
      good_of (by decide) (.one (T.inherits.ident name) .nil)
    exact hassignment.dress (not_mem_of_tag? rfl (by decide)) (by simp)

/-- The trait, said of what becomes of the source trees. -/
def static (T : Trait) : Static where
  toPromise := T.promise
  Clear _ := True
  Source := T.Source
  Speaks _ := True
  lenient := True
  part ht hslot hc := T.part ht hslot hc
  required _ := .inl True.intro
  vacant _ := ⟨True.intro, good_default, ⟨good_default, nofun⟩, ⟨good_default, nofun⟩, good_default⟩
  speaks _ _ _ _ _ := True.intro
  speaks_statement _ _ _ _ _ := True.intro
  report _ _ _ _ := True.intro
  drop _ _ _ _ _ _ := True.intro
  refuse _ _ _ _ := ⟨True.intro, True.intro⟩
  converts hstems _ hd hmade := by
    subst hd
    exact good_made hstems hmade
  chains _ _ hx hg := ⟨T.inherits.simple hx, fun g hmem => T.inherits.composed (hg g hmem)⟩
  accesses {d h s a b o} _ _ ha hb :=
    ⟨good_of (by decide) (.one (T.inherits.composed ha) (.one (T.inherits.composed hb) .nil)),
      fun _ => not_mem_of_tag? rfl (by decide)⟩
  entities {d h s a b} _ _ ha hb := by
    have hmember : T.Good (Target.member a b false) :=
      T.inherits.member (T.inherits.composed ha) (T.inherits.composed hb) false
    exact hmember.dress (not_mem_of_tag? rfl (by decide)) (by simp)
  chain_of _ hv := ⟨hv, nofun⟩
  access_of hh hv := ⟨hv, fun his => absurd (hh.symm.trans his) Bool.false_ne_true⟩
  entity_of _ hv := hv
  exports hstems hh hd hu hmade := by
    subst hd
    exact good_exported hstems hh hu hmade

/-- **All nodes that the conversion of a source tree builds have the trait.** -/
theorem good_convert {t : Node} (ht : T.Source 0 t) : T.Good t.convert.tree :=
  (T.static.convertTree (.start t.names) ht True.intro True.intro rfl).2

/-- The statements of the body of a module have the trait, if it does not matter what is around. -/
theorem good_statements {st : State}
    (hbody : T.static.survey.Ready st.depth (s.child .body)) :
    ∀ u ∈ (convertStatements (moduleStatements s) st).1, T.Good u := by
  have hgives : T.static.Gives st.depth .none (convertStatements (moduleStatements s))
      (Fact.all (Fact.becomes (moduleStatements s))) :=
    Survey.gives_convertStatements (S := T.static.survey)
      (Survey.Admitted.statements ⟨hbody, fun _ => True.intro⟩)
  intro u hu
  obtain ⟨c, -, hu | hu⟩ := (hgives True.intro st True.intro rfl).2.2 u hu
  · exact hu
  · exact hu

end Trait

end Typeshift.Ambient
