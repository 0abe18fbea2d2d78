import Typeshift.Proofs.Convert.Logic

/-! # What nodes inherit from the answers they are made of

Many properties of nodes pass from answers to all that is built of them. One that is kept by the few
ways to build a node is then one of everything that the rules make; only declarations, and what both
vocabularies have, are left to be looked at.

* `Inherits`: a property that passes from answers to what is built of them.
* `Outline`: what is left to be looked at. -/

namespace Typeshift.Convert

open Ambient (declareTags declarationTags)

/-- The constructs that are built in one way only. -/
def builtTags : List Tag :=
  plainTags ++ [.tsTypeReference, .tsFunctionType, .tsCallSignatureDeclaration, .tsMethodSignature,
    .tsDeclareMethod, .tsTypeParameterDeclaration, .tsTypeParameter, .exportDefaultDeclaration,
    .exportNamedDeclaration, .classBody, .tsModuleBlock]

/-- **A property that nodes inherit** from the answers that they are built of. -/
structure Inherits (V : View) (G : Node → Prop) : Prop where
  convert : ∀ {c : Part} {v : Node}, V.convert c v → G v
  exported : ∀ {c : Part} {v : Node}, V.exported c v → G v
  chain : ∀ {c : Part} {x : Node × Option Node}, V.chain c x → G x.1 ∧ ∀ g ∈ x.2, G g
  piece : ∀ {c : Part} {x : Node × Option Node} {k : Field}, V.chain c x →
    x.1.head.is .memberExpression = true → k ∈ [Field.object, .property] → G (x.1.slots.child k)
  access : ∀ {c : Part} {x : Node × Bool}, V.access c x →
    G (baseOf c x.1)
  entity : ∀ {c : Part} {v : Node}, V.entity c v → G v
  taken : ∀ {c : Part} {v u : Node}, V.convert c v → u ∈ v.slots.children .members → G u
  node : ∀ {t : Tag} {attrs : List (Field × Attr)} {s : Slots Unit}, t ∈ builtTags → Holds G s →
    G (.of t attrs s)
  member : ∀ {a b : Node}, G a → G b → ∀ isComputed, G (Target.member a b isComputed)
  cast : ∀ {e ty : Node}, G e → G ty → ty.head.is .tsAnyKeyword = true ∨ isAnyCast e = true →
    G (Target.paren (Target.cast e ty))
  assign : ∀ {n : String} {v : Node}, V.temporary n → G v → G (Target.assign (Target.ident n) v)
  declarator : ∀ {c : Part} {v : Node}, V.convert c v → G (Target.declarator v none)
  dress : ∀ {u v : Node}, (∀ t ∈ u.head.tag?, t ∉ declarationTags) → u.bare = v.bare → G u → G v
  comments : ∀ {u : Node} (c : Comments), G u → G (.wrapComments c u)

/-- The declarations, with the constructs of the source that become them. -/
def declarationRules : List (Tag × Tag) :=
  [(.tsTypeAliasDeclaration, .typeAlias), (.tsTypeAliasDeclaration, .opaqueType),
    (.tsTypeAliasDeclaration, .declareTypeAlias), (.tsTypeAliasDeclaration, .declareOpaqueType),
    (.tsInterfaceDeclaration, .interfaceDeclaration), (.tsInterfaceDeclaration, .declareInterface),
    (.classDeclaration, .declareClass), (.variableDeclaration, .declareVariable),
    (.tsDeclareFunction, .declareFunction), (.tsModuleDeclaration, .declareModule)]

/-- **What is left to be looked at** of what a rule makes, if its parts have a property. -/
inductive Outline (V : View) (G : Node → Prop) (d : Nat) (h : Head) (s : Slots Outcome) :
    Node → Prop where
  | simple {v} (hsimple : Simple V h s v) (hv : G v) : Outline V G d h s v
  | declaration {tag t attrs} {slots : Slots Unit} (hrule : (tag, t) ∈ declarationRules)
    (ht : h.is t = true)
    (hflag : (Head.ofTag tag attrs).flag .isDeclare = (h.isAny declareTags && d == 0))
    (hslots : Holds G slots) : Outline V G d h s (.of tag attrs slots)
  | passed (hh : V.refused h) : Outline V G d h s (passed h)
  | shared {t : Tag} (ht : h.is t = true) (htarget : t.isIn .target = true) (st : State)
    (hslots : ∀ e ∈ (convertShared t h s st).1.slots, Filled V t s e.1 e.2) :
    Outline V G d h s (convertShared t h s st).1

/-- A declaration of what is declared elsewhere is ambient unless something around it is. -/
theorem isAmbient_eq {d : Nat} {h : Head} {t : Tag} (hh : h.is t = true) (ht : t ∈ declareTags) :
    (d == 0) = (h.isAny declareTags && d == 0) := by
  have hany : h.isAny declareTags = true := List.any_eq_true.mpr ⟨t, ht, hh⟩
  rw [hany, Bool.true_and]

namespace Inherits

variable {V : View} {G : Node → Prop} (hG : Inherits V G) {d : Nat} {h : Head} {s : Slots Outcome}
  {F : Field → Prop} {f : Field} {u v : Node} {us : List Node} {x : Option Node} {sig : Signature}
include hG

theorem held (hv : Held V s f v) : G v := by
  obtain ⟨c, -, hv⟩ := hv
  exact hG.convert hv

theorem all (hus : ∀ u ∈ us, Held V s f u) : ∀ u ∈ us, G u := fun u hu => hG.held (hus u hu)

theorem option (hx : ∀ u ∈ x, Held V s f u) : ∀ u ∈ x, G u := fun u hu => hG.held (hx u hu)

theorem ident (name : String) : G (Target.ident name) := hG.node (by decide) (.none .nil)

theorem atOrigin {tag : Tag} {attrs : List (Field × Attr)} {slots : Slots Unit}
    (hu : G (.of tag attrs slots)) (htag : tag ∉ declarationTags) (k : Head) :
    G (Convert.atOrigin k (.of tag attrs slots)) :=
  hG.dress (Ambient.not_mem_of_tag? rfl htag) (by simp [Convert.atOrigin]) hu

theorem ascribe (hu : G u) : G (Target.ascribe u) := by
  unfold Target.ascribe
  split_ifs
  · exact hu
  · exact hG.node (by decide) (.one hu .nil)

theorem param (hu : G u) (name : String) (isOptional : Bool) :
    G (Target.param name (some u) isOptional) := hG.node (by decide) (.some hu .nil)

theorem typeReference (hu : G u) (hx : ∀ u ∈ x, G u) : G (Target.typeReference u x) :=
  hG.node (by decide) (.one hu (.maybe hx .nil))

theorem namedReference (name : String) (hu : G u) : G (Target.namedReference name [u]) := by
  refine hG.typeReference (hG.ident name) (forall_mem_some (hG.node (by decide) ?_))
  exact .many (List.forall_mem_singleton.mpr hu) .nil

theorem intersect (hus : ∀ u ∈ us, G u) : G (Convert.intersect us) := by
  unfold Convert.intersect
  split
  · exact hus _ List.mem_cons_self
  · exact hG.node (by decide) (.many hus .nil)

/-- **Composed nodes** have the property. -/
theorem composed (hv : Composed V h s F v) : G v := by
  induction hv with
  | part _ hv => exact hG.held hv
  | value _ _ hx => exact (hG.chain hx).1
  | guard _ _ hx hg => exact (hG.chain hx).2 _ hg
  | piece _ _ hx hm hk => exact hG.piece hx hm hk
  | object _ _ hx => exact hG.access hx
  | entity _ _ hv => exact hG.entity hv
  | taken _ hv hu =>
    obtain ⟨c, -, hv⟩ := hv
    exact hG.taken hv hu
  | within _ _ _ ih => exact ih
  | node htag _ ih => exact hG.node (List.mem_append_left _ htag) ih
  | member _ _ isComputed iha ihb => exact hG.member iha ihb isComputed
  | cast _ _ hany ihe ihty => exact hG.cast ihe ihty hany
  | assign hn _ ih => exact hG.assign hn ih
  | reference hh => exact hG.typeReference (hG.held hh.name) (hG.option hh.arguments)
  | introduced _ _ ih => exact hG.namedReference _ ih
  | dress _ htag hbare ih => exact hG.dress htag hbare ih
  | wrap _ c ih => exact hG.comments c ih

theorem all_composed (hus : ∀ u ∈ us, Composed V h s F u) : ∀ u ∈ us, G u :=
  fun u hu => hG.composed (hus u hu)

theorem option_composed (hx : ∀ u ∈ x, Composed V h s F u) : ∀ u ∈ x, G u :=
  fun u hu => hG.composed (hx u hu)

/-- A variable of a type. -/
theorem constant (hnode : ∀ {s : Slots Unit}, Holds G s → G (.of .variableDeclarator [] s))
    (hu : G u) (name : String) :
    G (Target.declarator (Target.param name (some (Target.ascribe u)) false) none) :=
  hnode (.one (hG.param (hG.ascribe hu) name false) (.none .nil))

theorem holds_temporaries
    (hnode : ∀ {s : Slots Unit}, Holds G s → G (.of .variableDeclarator [] s))
    (names : List String) : Holds G (temporaryDeclaration names).slots := by
  refine .many (fun u hu => ?_) .nil
  obtain ⟨name, -, rfl⟩ := List.mem_map.mp hu
  exact hG.constant hnode (hG.node (by decide) .nil) name

/-- **What an export of a module becomes** has the property, if variables and exports get it from
what they hold. -/
theorem ofExported (hnode : ∀ {t : Tag} {attrs : List (Field × Attr)} {s : Slots Unit},
      t ∈ [.variableDeclaration, .variableDeclarator, .tsExportAssignment] → Holds G s →
      G (.of t attrs s))
    (hdress : ∀ {u v : Node}, u.bare = v.bare → G u → G v) (hv : Exported V d h s v) : G v := by
  cases hv with
  | @constant name ty _ hty =>
    have hdeclarator := hG.constant (hnode (by decide)) (hG.held hty) name
    have hconstant : G (exportsDeclaration name (Target.ascribe ty) (d == 0)) :=
      hnode (by decide) (.many (List.forall_mem_singleton.mpr hdeclarator) .nil)
    exact hdress (by simp [Convert.atOrigin]) hconstant
  | @assignment name =>
    have hassignment : G (Target.exportAssignment (Target.ident name)) :=
      hnode (by decide) (.one (hG.ident name) .nil)
    exact hdress (by simp) hassignment

/-- A node with the signature of a function type between other slots. -/
theorem signature (hsig : SignatureOf V h s sig) :
    (∀ u ∈ sig.typeParameters, G u) ∧ (∀ u ∈ sig.parameters, G u) ∧ G sig.returnType := by
  induction hsig with
  | here _ hps hparameters hreturn =>
    exact ⟨hG.option hps, hG.all_composed hparameters, hG.composed hreturn⟩
  | part _ _ ih => exact ih

theorem result (hsig : SignatureOf V h s sig) (hx : x = none ∨ x = some sig.returnType) :
    ∀ u ∈ x, G u := by
  rcases hx with rfl | rfl
  · exact nofun
  · exact forall_mem_some (hG.signature hsig).2.2

theorem memberOf (hv : MemberOf V h s v) : G v := by
  induction hv with
  | plain hu => exact hG.composed hu
  | method isStatic isOptional hkey hsig hx =>
    obtain ⟨hps, hparameters, -⟩ := hG.signature hsig
    refine hG.atOrigin (hG.node (by decide) ?_) (by decide) _
    exact .one (hG.held hkey) (.maybe hps (.many hparameters (.maybe (hG.result hsig hx) .nil)))
  | part _ _ ih => exact ih

/-- **What declares nothing** has the property. -/
theorem simple (hv : Simple V h s v) : G v := by
  induction hv with
  | node htag _ hs => exact hG.node (List.mem_append_left _ htag) fun c hc => hG.composed (hs c hc)
  | member ha hb isComputed => exact hG.member (hG.composed ha) (hG.composed hb) isComputed
  | cast he hty hany => exact hG.cast (hG.composed he) (hG.composed hty) hany
  | dress _ htag hbare ih => exact hG.dress (fun t ht => (htag t ht).1) hbare ih
  | wrap _ c ih => exact hG.comments c ih
  | type _ _ hv => exact hG.held hv
  | typeBelow _ _ _ hv => exact hG.held hv
  | intersect _ ih => exact hG.intersect ih
  | guarded hg _ ih => exact hG.node (by decide) (.one (hG.composed hg) (.one ih .nil))
  | maybeUndefined _ ih =>
    refine hG.node (by decide) (.many (List.forall_mem_cons.mpr ⟨ih, ?_⟩) .nil)
    exact List.forall_mem_singleton.mpr (hG.node (by decide) .nil)
  | reference hh => exact hG.typeReference (hG.held hh.name) (hG.option hh.arguments)
  | introduced _ hu => exact hG.namedReference _ (hG.composed hu)
  | functionType hsig =>
    obtain ⟨hps, hparameters, hreturn⟩ := hG.signature hsig
    exact hG.node (by decide) (.maybe hps (.many hparameters (.one hreturn .nil)))
  | callSignature hsig =>
    obtain ⟨hps, hparameters, hreturn⟩ := hG.signature hsig
    exact hG.node (by decide) (.maybe hps (.many hparameters (.some hreturn .nil)))
  | accessor _ hkey hsig hx =>
    obtain ⟨hps, hparameters, -⟩ := hG.signature hsig
    exact hG.node (by decide) (.one (hG.held hkey) (.maybe hps (.many hparameters
      (.maybe (hG.result hsig hx) .nil))))
  | typeParameters _ hus => exact hG.node (by decide) (.many (hG.all hus) .nil)
  | typeParameter _ hx hy =>
    exact hG.node (by decide) (.maybe (hG.option_composed hx)
      (.maybe (hG.option_composed hy) .nil))
  | exportDefault _ hu => exact hG.node (by decide) (.one (hG.held hu) .nil)
  | exportNamed _ hx hus hy =>
    exact hG.node (by decide) (.maybe (hG.option hx) (.many (hG.all_composed hus)
      (.maybe (hG.option_composed hy) .nil)))

/-- **What the rule of a construct makes**, if its parts have the property. -/
theorem outline (hv : Made V d h s v) : Outline V G d h s v := by
  cases hv with
  | simple hv => exact .simple hv (hG.simple hv)
  | typeAlias hh ht hid hps hty =>
    have hrules : ∀ t ∈ [Tag.typeAlias, .opaqueType, .declareTypeAlias, .declareOpaqueType],
        (Tag.tsTypeAliasDeclaration, t) ∈ declarationRules := by decide
    exact .declaration (hrules _ ht) hh rfl
      (.one (hG.held hid) (.maybe (hG.option hps) (.one (hG.composed hty) .nil)))
  | @interfaceDeclaration _ _ _ _ us hh ht hid hps hparents hus =>
    have hrules : ∀ t ∈ [Tag.interfaceDeclaration, .declareInterface],
        (Tag.tsInterfaceDeclaration, t) ∈ declarationRules := by decide
    have hbody : G (Target.interfaceBody us) :=
      hG.node (by decide) (.many (hG.all_composed hus) .nil)
    exact .declaration (hrules _ ht) hh rfl (.one (hG.held hid) (.maybe (hG.option hps)
      (.many (hG.all hparents) (.one (hG.atOrigin hbody (by decide) _) .nil))))
  | @classDeclaration _ _ _ us _ _ hh hid hx hy hps hcontracts hus =>
    have hbody : G (Target.classBody us) := by
      refine hG.node (by decide) (.many (fun u hu => ?_) .nil)
      obtain ⟨c, -, hu⟩ := hus u hu
      exact hG.memberOf hu
    refine .declaration (t := .declareClass) (by decide) hh (isAmbient_eq hh (by decide)) ?_
    exact .many nofun (.some (hG.held hid) (.maybe (hG.option hps)
      (.maybe (hG.option_composed hx) (.maybe (hG.option_composed hy)
        (.many (hG.all hcontracts) (.one (hG.atOrigin hbody (by decide) _) .nil))))))
  | declaredVariable hh hid =>
    obtain ⟨c, -, hid⟩ := hid
    exact .declaration (t := .declareVariable) (by decide) hh (isAmbient_eq hh (by decide))
      (.many (List.forall_mem_singleton.mpr (hG.declarator hid)) .nil)
  | declaredFunction hh hsig =>
    obtain ⟨hps, hparameters, hreturn⟩ := hG.signature hsig
    refine .declaration (t := .declareFunction) (by decide) hh (isAmbient_eq hh (by decide)) ?_
    exact .one (hG.atOrigin (hG.ident _) (by decide) _)
      (.maybe hps (.many hparameters (.some hreturn .nil)))
  | @declaredModule _ us hh hid hus =>
    have hblock : G (Target.moduleBlock us) := by
      refine hG.node (by decide) (.many (fun u hu => ?_) .nil)
      obtain ⟨c, -, hu | hu⟩ := hus u hu
      · exact hG.convert hu
      · exact hG.exported hu
    exact .declaration (t := .declareModule) (by decide) hh (isAmbient_eq hh (by decide))
      (.one (hG.held hid) (.one (hG.atOrigin hblock (by decide) _) .nil))
  | passed hh => exact .passed hh
  | shared ht htarget st hs => exact .shared ht htarget st hs

end Inherits

end Typeshift.Convert
