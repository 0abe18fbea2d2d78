import Typeshift.Proofs.Convert.Static

/-! # What a conversion upholds

A conversion puts nodes around converted nodes, gives them other comments and spans, and takes few
of them apart again. The nodes are those of the target vocabulary, and only a cast has a rule of its
own. A property of trees that survives all this is one of every converted tree, wherever its parts
are copied to, bound, or taken from.

* `isBuilt`: the constructs that are built.
* `Upheld`: properties that the rules of a conversion keep up.
* `Upheld.made`: the rule of every construct keeps it up.
* `Upheld.convertTree`: a converted tree has the property. -/

namespace Typeshift.Convert

/-- The constructs that the rules of a conversion build, casts apart. -/
def isBuilt (t : Tag) : Bool := t.isIn .target && t != .tsAsExpression

/-- **A property of trees that a conversion upholds**, if the constructs of the target that the
source holds already are some given ones. A node of such a construct has it if all its children
have, and so has one of no known construct; what is taken from a node has it, but the expression of
parentheses need not. -/
structure Upheld (B : Tag → Prop) (G : Node → Prop) : Prop where
  built : ∀ {t : Tag}, isBuilt t = true → B t
  node : ∀ {h : Head} {s : Slots Unit}, (∀ t ∈ h.tag?, B t) → (∀ c ∈ s.toList, G c) →
    G (.mk () h s)
  dress : ∀ {u v : Node}, u.bare = v.bare → G u → G v
  part : ∀ {u c : Node} {f : Field} {slot : Slot Node}, G u →
    f ≠ .expression ∨ u.head.is .parenthesizedExpression = false → (f, slot) ∈ u.slots →
    c ∈ slot.toList → G c
  cast : ∀ {e ty : Node}, G e → G ty → ty.head.is .tsAnyKeyword = true ∨ isAnyCast e = true →
    G (Target.paren (Target.cast e ty))

namespace Upheld

variable {B : Tag → Prop} {G : Node → Prop} {d : Nat} {h : Head} {s : Slots Outcome} {f : Field}
  {u v : Node}

theorem isBuilt_of_mem {t : Tag} (ht : t ∈ builtTags ++ Ambient.declarationTags) :
    isBuilt t = true := by
  revert t
  decide

/-! ### Nodes -/

/-- What is said of the answers of parts. -/
def promise (G : Node → Prop) : Promise := .ofAll G fun _ => True

section Nodes

variable (hG : Upheld B G)
include hG

theorem of {t : Tag} {attrs : List (Field × Attr)} {s : Slots Unit} (ht : B t)
    (hs : Holds G s) : G (.of t attrs s) := hG.node (forall_mem_some ht) hs

theorem of_built {t : Tag} {attrs : List (Field × Attr)} {s : Slots Unit} (ht : isBuilt t = true)
    (hs : Holds G s) : G (.of t attrs s) := hG.of (hG.built ht) hs

theorem default_node : G default := hG.node nofun nofun

theorem slot (hu : G u) (hf : f ≠ .expression) : G (u.slots.child f) := by
  unfold Slots.child
  cases hc : u.slots.child? f with
  | none => exact hG.default_node
  | some c =>
    obtain ⟨slot, hslot, hmem⟩ := Slots.child?_mem_slot hc
    exact hG.part hu (.inl hf) hslot hmem

/-- What is upheld passes from answers to what is built of them. -/
theorem inherits : Inherits (promise G).view G where
  convert hv := hv
  exported hv := hv
  chain hx := hx
  piece {_ _ k} hx _ hk := by
    refine hG.slot hx.1 ?_
    rintro rfl
    exact absurd hk (by decide)
  access hx := by
    unfold baseOf
    split_ifs
    · exact hG.dress (by simp) hx
    · exact hx
  entity hv := hv
  taken hv hu := by
    obtain ⟨slot, hslot, hmem⟩ := Slots.children_mem_slot hu
    exact hG.part hv (.inl (by decide)) hslot hmem
  node ht hs := hG.of_built (isBuilt_of_mem (List.mem_append_left _ ht)) hs
  member ha hb _ := hG.of_built (by decide) (.one ha (.one hb .nil))
  cast := hG.cast
  assign _ hv :=
    hG.of_built (by decide) (.one (hG.of_built (by decide) (.none .nil)) (.one hv .nil))
  declarator hv := hG.of_built (by decide) (.one hv (.none .nil))
  dress _ hbare hu := hG.dress hbare hu
  comments c hu := hG.dress (by simp) hu

theorem wraps (names : List String) : Wraps names G where
  declaration :=
    hG.of_built (by decide) (hG.inherits.holds_temporaries (hG.of_built (by decide)) names)
  comments c hu := hG.dress (by simp) hu
  node {t s} ht hs := hG.of_built (by revert t; decide) hs
  block {u s} hb _ hs := by
    refine hG.node (fun t ht => ?_) hs
    cases (beq_iff_eq.mp hb).symm.trans ht
    exact hG.built rfl
  parts {u} hb hu c hc := by
    obtain ⟨e, he, hc⟩ := Slots.mem_toList.mp hc
    refine hG.part hu (.inr ?_) he hc
    unfold Head.is at hb ⊢
    rw [beq_iff_eq.mp hb]
    rfl

/-! ### What the rules make -/

/-- **What the rule of a construct makes has the property**, if the construct may stand in the
source. -/
theorem made (hh : ∀ t ∈ h.tag?, t.isIn .target = true → B t)
    (hv : Made (promise G).view d h s v) : G v := by
  cases hG.inherits.outline hv with
  | simple _ hv => exact hv
  | declaration hrule _ _ hslots =>
    have htags : ∀ r ∈ declarationRules, r.1 ∈ Ambient.declarationTags := by decide
    exact hG.of_built (isBuilt_of_mem (List.mem_append_right _ (htags _ hrule))) hslots
  | passed => exact hG.node nofun nofun
  | shared ht htarget st hslots =>
    refine hG.of (hh _ (beq_iff_eq.mp ht) htarget) fun c hc => ?_
    obtain ⟨e, he, hc⟩ := Slots.mem_toList.mp hc
    exact hG.inherits.filled hG.wraps (hslots e he) c hc

theorem exported (hv : Exported (promise G).view d h s v) : G v :=
  hG.inherits.ofExported (fun {t _ _} ht => hG.of_built (by revert t; decide)) hG.dress hv

end Nodes

/-- The property, said of what becomes of all trees whose constructs may stand in the source. -/
def static (hG : Upheld B G) : Static where
  toPromise := promise G
  Clear _ := True
  Source _ t := t.Every fun h _ => ∀ tag ∈ h.tag?, tag.isIn .target = true → B tag
  Speaks _ := True
  lenient := True
  part ht hslot hc := by
    cases ht with
    | mk _ below => exact below _ (Slots.mem_toList.mpr ⟨_, hslot, hc⟩)
  required _ := .inl True.intro
  vacant _ := ⟨True.intro, hG.default_node, ⟨hG.default_node, nofun⟩, hG.default_node,
    hG.default_node⟩
  speaks _ _ _ _ _ := True.intro
  speaks_statement _ _ _ _ _ := True.intro
  report _ _ _ _ := True.intro
  drop _ _ _ _ _ _ := True.intro
  refuse _ _ _ _ := ⟨True.intro, True.intro⟩
  converts {d h s st} hstems _ _ hmade := by
    obtain ⟨s₀, -, ht⟩ := hstems
    cases ht with
    | mk here _ => exact hG.dress (by simp [attach]) (hG.made here hmade)
  chains _ _ hx hg := ⟨hG.inherits.simple hx, fun g hmem => hG.inherits.composed (hg g hmem)⟩
  accesses _ _ ha hb :=
    hG.of_built (by decide) (.one (hG.inherits.composed ha) (.one (hG.inherits.composed hb) .nil))
  entities {d h s a b} _ _ ha hb := by
    have hmember : G (Target.member a b false) :=
      hG.inherits.member (hG.inherits.composed ha) (hG.inherits.composed hb) false
    exact hG.dress (by simp) hmember
  chain_of _ hv := ⟨hv, nofun⟩
  access_of _ hv := hv
  entity_of _ hv := hv
  exports _ _ _ _ hmade := hG.exported hmade

/-- **A converted tree has the property**, from whatever state it is converted. -/
theorem convertTree (hG : Upheld B G) {t : Node}
    (ht : t.Every fun h _ => ∀ tag ∈ h.tag?, tag.isIn .target = true → B tag) (st : State) :
    G (Convert.convertTree t st).1 :=
  (hG.static.convertTree (d := st.depth) st ht True.intro True.intro rfl).2

end Upheld

end Typeshift.Convert
