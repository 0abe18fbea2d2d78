import Typeshift.Proofs.Convert.Shape
import Typeshift.Proofs.Scope.Reference

/-! # Counterparts and their references

What a conversion makes of a part may refer only to what the part refers to, and the types that are
declared around a reference must be declared around it in the part too. Each reference is made of a
node of the part: the name and the arguments come from there. Building a node keeps this if the node
declares no types for its own parts, or if they are declared by the part as well.

* `StandsFor`: a reference is made of a node of the source.
* `Fine`: a tree refers to what a part refers to, with some types declared around it.
* `Mirrors`: what the counterpart of a part has of it: its references, its names and, if it is a
  name, the place where it is written.
* `mirrors_plain`, `fine_scoped`: how nodes are built of fine trees. -/

namespace Typeshift.Scope

open Typeshift.Convert

/-! ### Fine trees -/

/-- **A reference is made of a part**: of the name of the part and its arguments, of what a utility
or an optional link is applied to, or of a reference that the source has already. -/
inductive StandsFor (p : Part) (k : Node) : Prop where
  | name {u : Node} {x : Option Node} (hu : ∃ st, u = (child p.slots .id st).1)
    (hx : ∃ st, x = (child? p.slots .typeParameters st).1)
    (hk : k.bare = (Target.typeReference u x).bare)
  | introduced {n : String} {u : Node} (hh : Introduces p.head p.slots n u)
    (hk : k.bare = (Target.namedReference n [u]).bare)
  | kept (ht : p.head.is .tsTypeReference = true)
    (hk : ∃ st, k.bare = (convertShared .tsTypeReference p.head p.slots st).1.bare)

theorem StandsFor.dress {p : Part} {k k' : Node} (h : StandsFor p k) (hbare : k.bare = k'.bare) :
    StandsFor p k' := by
  cases h with
  | name hu hx hk => exact .name hu hx (hbare ▸ hk)
  | introduced hh hk => exact .introduced hh (hbare ▸ hk)
  | kept ht hk => exact .kept ht (hbare ▸ hk)

section Fine

variable {ρ : Type} {p c : Part} {t : Tree ρ} {u v k : Node} {F G : List String} {f : Field}

/-- A tree refers only to what a part refers to, with some types declared around it. -/
def Fine (p : Part) (F : List String) (v : Node) : Prop :=
  ∀ k x, RefersAt v k x → ∃ c y, RefersAt p c y ∧ StandsFor c k ∧ y.Covers (x.inside F)

/-- A tree refers only to what another one refers to, at the same nodes but for their comments and
spans. -/
def Retains (v u : Node) : Prop :=
  ∀ (k : Node) (x : Reference), RefersAt u k x →
    ∃ (k' : Node) (y : Reference), RefersAt v k' y ∧ k'.bare = k.bare ∧ y.Covers x

namespace Fine

theorem mono (hv : Fine p G v) (h : F ⊆ G) : Fine p F v := by
  intro k x hx
  obtain ⟨c, y, hy, hk, hyx⟩ := hv k x hx
  exact ⟨c, y, hy, hk, hyx.trans ((Reference.Covers.refl x).inside h)⟩

theorem free (hv : Fine p F v) : Fine p [] v := hv.mono (List.nil_subset F)

/-- The part that a field of a construct holds has the types of the construct around it. -/
theorem lift (hc : c ∈ held p.slots f) (hv : Fine c F v) :
    Fine p (scope p.head p.slots f ++ F) v := by
  intro k x hx
  obtain ⟨b, y, hy, hk, hyx⟩ := hv k x hx
  refine ⟨b, _, .part hc hy, hk, ?_⟩
  rw [← Reference.inside_inside]
  exact hyx.inside (List.Subset.refl _)

theorem of_retains (hv : Fine p F v) (h : Retains v u) : Fine p F u := by
  intro k x hx
  obtain ⟨k', y, hy, hbare, hyx⟩ := h k x hx
  obtain ⟨c, z, hz, hk, hzy⟩ := hv k' y hy
  exact ⟨c, z, hz, hk.dress hbare, hzy.trans (hyx.inside (List.Subset.refl F))⟩

theorem part {w : Node} (hv : Fine p F v) (hw : w ∈ held v.slots f) : Fine p F w :=
  hv.of_retains fun k x hx =>
    ⟨k, _, .part hw hx, rfl, (Reference.Covers.refl x).inside_left _⟩

end Fine

/-- A node without parts of an unknown construct refers to nothing. -/
theorem not_refersAt {a : Tree ρ} {x : Reference} (htag : t.head.tag? = none)
    (hslots : t.slots = []) :
    ¬ RefersAt t a x := by
  rintro (hr | ⟨hc, -⟩)
  · unfold own at hr
    rw [htag] at hr
    cases hr
  · rw [hslots] at hc
    cases hc

theorem fine_default : Fine p F (default : Node) := fun _ _ hx => absurd hx (not_refersAt rfl rfl)

/-- What is fine for a missing part is fine anywhere. -/
theorem Fine.of_default (hv : Fine default F v) : Fine p G v := by
  intro k x hx
  obtain ⟨c, y, hy, -⟩ := hv k x hx
  exact absurd hy (not_refersAt rfl rfl)

end Fine

/-! ### Dressing a node -/

section Dress

variable {p : Part} {u v : Node} {F : List String}

/-- Comments and the span of a node make no difference to its references. -/
theorem retains_of_bare (h : u.bare = v.bare) : Retains u v := by
  have hown : own v.head v.slots = own u.head u.slots := by
    unfold own
    rw [Node.tag?_eq_of_bare h, Node.slots_eq_of_bare h, Node.flag_eq_of_bare h]
  have hscope f : scope v.head v.slots f = scope u.head u.slots f := by
    unfold scope inner
    rw [Node.tag?_eq_of_bare h, Node.slots_eq_of_bare h]
  rintro k x (hr | ⟨hc, hr⟩)
  · exact ⟨u, x, .here (hown ▸ hr), h, .refl x⟩
  · rw [Node.slots_eq_of_bare h] at hc
    rw [hscope]
    exact ⟨k, _, .part hc hr, rfl, .refl _⟩

theorem Fine.dress (hu : Fine p F u) (h : u.bare = v.bare) : Fine p F v :=
  hu.of_retains (retains_of_bare h)

theorem names_dress (h : u.bare = v.bare) : names v = names u := by
  obtain ⟨⟨⟩, hu, su⟩ := u
  obtain ⟨⟨⟩, hv, sv⟩ := v
  have htag : hv.tag? = hu.tag? := Node.tag?_eq_of_bare h
  have hslots : sv = su := Node.slots_eq_of_bare h
  have hattrs : hv.attrs = hu.attrs := Node.attrs_eq_of_bare h
  rw [names_mk, names_mk, hslots, htag]
  unfold Head.isAny Head.is Head.text Head.attr?
  rw [htag, hattrs]

end Dress

/-! ### Building nodes -/

section Build

variable {p : Part} {t : Tag} {attrs : List (Field × Attr)} {s : Slots Unit}
  {S : Field → List String} {F : List String} {f : Field} {u : Node} {us : List Node}
  {x : Option Node} {o : Option Span}

/-- Slots of fine trees, with the types that are declared around a field. -/
def FineSlots (p : Part) (S : Field → List String) (s : Slots Unit) : Prop :=
  ∀ e ∈ s, ∀ c ∈ e.2.toList, Fine p (S e.1) c

namespace FineSlots

theorem nil : FineSlots p S [] := List.forall_mem_nil _

theorem one (hu : Fine p (S f) u) (hs : FineSlots p S s) : FineSlots p S ((f, .one u) :: s) :=
  List.forall_mem_cons.mpr ⟨List.forall_mem_singleton.mpr hu, hs⟩

theorem maybe (hx : ∀ u ∈ x, Fine p (S f) u) (hs : FineSlots p S s) :
    FineSlots p S ((f, .maybe x) :: s) :=
  List.forall_mem_cons.mpr ⟨fun u hu => hx u (Option.mem_toList.mp hu), hs⟩

theorem some (hu : Fine p (S f) u) (hs : FineSlots p S s) :
    FineSlots p S ((f, .maybe u) :: s) := maybe (fun _ h => Option.some.inj h ▸ hu) hs

theorem none (hs : FineSlots p S s) : FineSlots p S ((f, .maybe .none) :: s) := maybe nofun hs

theorem many (hus : ∀ u ∈ us, Fine p (S f) u) (hs : FineSlots p S s) :
    FineSlots p S ((f, .many us) :: s) := List.forall_mem_cons.mpr ⟨hus, hs⟩

end FineSlots

/-- The constructs that may refer to a type themselves. -/
def referenceTags : List Tag :=
  [.tsTypeReference, .interfaceExtends, .genericType, .optionalIndexedAccessType]

theorem own_eq_nil (ht : t ∉ referenceTags) : own (.ofTag t attrs) s = [] := by
  have hne (tag : Tag) (hmem : tag ∈ referenceTags) : (Head.ofTag t attrs).tag? ≠ some tag :=
    fun heq => ht (Option.some.inj heq ▸ hmem)
  unfold own
  split <;> rename_i heq
  · exact absurd heq (hne _ (by decide))
  · exact absurd heq (hne _ (by decide))
  · exact absurd heq (hne _ (by decide))
  · exact absurd heq (hne _ (by decide))
  · rfl

theorem fine_of (hown : ∀ r ∈ own (.ofTag t attrs) s,
      ∃ c y, RefersAt p c y ∧ StandsFor c (.of t attrs s) ∧ y.Covers (r.inside F))
    (hs : FineSlots p (fun f => F ++ scope (.ofTag t attrs) s f) s) : Fine p F (.of t attrs s) := by
  rintro k x (hr | ⟨hc, hr⟩)
  · exact hown x hr
  · obtain ⟨slot, hslot, hmem⟩ := mem_slot_of_held hc
    obtain ⟨c, y, hy, hk, hyx⟩ := hs _ hslot _ hmem k _ hr
    exact ⟨c, y, hy, hk, by rwa [Reference.inside_inside]⟩

/-- Whether a construct neither declares types for its parts nor refers to one itself. -/
def isNeutral (t : Tag) : Bool := (scopeFields t).isEmpty && !referenceTags.contains t

theorem fine_neutral (ht : isNeutral t = true) (hs : FineSlots p (fun _ => F) s) :
    Fine p F (.of t attrs s) := by
  simp only [isNeutral, Bool.and_eq_true, List.isEmpty_iff, Bool.not_eq_true',
    List.contains_eq_mem, decide_eq_false_iff_not] at ht
  refine fine_of (by rw [own_eq_nil ht.2]; exact nofun) ?_
  have hinner : inner (.ofTag t attrs) s = [] := by
    rw [inner_of_is is_ofTag, ht.1]
    rfl
  have hempty (f : Field) : F ++ scope (.ofTag t attrs) s f = F := by
    unfold scope
    rw [hinner, ite_self, List.append_nil]
  simp only [hempty]
  exact hs

/-- A construct that declares types for its own parts. -/
theorem fine_scoped {S : List String} (ht : t ∉ referenceTags)
    (hS : ∀ f ∈ scopeFields t, ∀ u ∈ held s f, names u ⊆ S)
    (hs : FineSlots p (fun f => F ++ if isOutside f then [] else S) s) :
    Fine p F (.of t attrs s) := by
  refine fine_of (by rw [own_eq_nil ht]; exact nofun) fun e he c hc => (hs e he c hc).mono ?_
  refine List.append_subset.mpr ⟨List.subset_append_left _ _, ?_⟩
  refine List.Subset.trans ?_ (List.subset_append_right _ _)
  unfold scope
  split_ifs
  · exact List.Subset.refl _
  · rw [inner_of_is is_ofTag]
    exact namesIn_subset hS

/-- **What the counterpart of a part has of it**: its references, its names, and, if it is a name,
the place where that is written. -/
structure Mirrors (p : Part) (o : Option Span) (v : Node) : Prop where
  fine : Fine p [] v
  names : names v ⊆ names p
  name : ∀ n, v.head.identifier? = some n → p.head.identifier? = some n ∧ v.head.span = o

theorem mirrors_of (ht : t ∉ nameTags) (hfine : Fine p [] (.of t attrs s))
    (hnames : ∀ f ∈ namingFields t, ∀ u ∈ held s f, names u ⊆ names p) :
    Mirrors p o (.of t attrs s) where
  fine := hfine
  names := by
    rw [names_of_not_mem (p := Node.of t attrs s) is_ofTag ht]
    exact namesIn_subset hnames
  name n hn := by
    cases Head.tag?_of_identifier? hn
    exact absurd (by decide) ht

/-- Whether a construct declares no types at all and refers to none itself. -/
def isPlain (t : Tag) : Bool :=
  isNeutral t && (namingFields t).isEmpty && !nameTags.contains t

theorem mirrors_plain (ht : isPlain t = true) (hs : FineSlots p (fun _ => []) s) :
    Mirrors p o (.of t attrs s) := by
  simp only [isPlain, Bool.and_eq_true, List.isEmpty_iff, Bool.not_eq_true',
    List.contains_eq_mem, decide_eq_false_iff_not] at ht
  refine mirrors_of ht.2 (fine_neutral ht.1.1 hs) ?_
  rw [ht.1.2]
  exact nofun

theorem Mirrors.dress {v : Node} {o' : Option Span} (hu : Mirrors p o u) (h : u.bare = v.bare)
    (hspan : ∀ n, u.head.identifier? = some n → u.head.span = o → v.head.span = o') :
    Mirrors p o' v where
  fine := hu.fine.dress h
  names := names_dress h ▸ hu.names
  name n hn := by
    rw [Node.identifier?_eq_of_bare h] at hn
    obtain ⟨hname, ho⟩ := hu.name n hn
    exact ⟨hname, hspan n hn ho⟩

theorem Mirrors.wrapComments (hu : Mirrors p o u) (c : Comments) :
    Mirrors p o (Node.wrapComments c u) := by
  refine hu.dress (by simp) fun _ _ hspan => ?_
  cases u
  exact hspan

/-- A node that takes the place of a part is written where the part is written. -/
theorem Mirrors.attach (hu : Mirrors p none u) (h : Head) : Mirrors p h.span (attach h u) := by
  refine hu.dress (by simp [Convert.attach]) fun _ _ hspan => ?_
  cases u
  show (_ <|> _) = _
  rw [show _ = none from hspan]
  rfl

end Build

end Typeshift.Scope
