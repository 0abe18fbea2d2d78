import Typeshift.Proofs.Convert.Rebuilt
import Typeshift.Proofs.Normalize.Lossless
import Typeshift.Proofs.Scope.Shapes

/-! # Conversion keeps scopes

A conversion brings no type into scope. Every reference of the converted program stands for one of
the source, of which it is made, and the types that are declared around it in the converted program
are declared around it in the source.

* `mirrors_declaration`: a declaration of a type becomes a declaration of the same type.
* `mirrors_convertShared`: the constructs of both vocabularies.
* `mirrors_made`: what the rule of a construct makes mirrors it.
* `refers_convert`: the references of a converted tree. -/

namespace Typeshift.Scope

open Typeshift.Convert

variable {p c : Part} {h : Head} {s : Slots Outcome} {t : Tag} {f : Field} {u v : Node}
  {us : List Node} {F S : List String} {o : Option Span}

/-! ### Declarations -/

/-- Whether a construct declares a type by its name, with type parameters for its own parts. -/
def isDeclaration (t : Tag) : Bool :=
  scopeFields t == [.id, .typeParameters] && namingFields t == [.id] &&
    !(referenceTags ++ nameTags).contains t

/-- **A declaration of a type** becomes a declaration of the same type. -/
theorem mirrors_declaration {t' : Tag} {attrs : List (Field × Attr)} {s : Slots Unit}
    (ht : p.head.is t = true) (hd : isDeclaration t = true) (hd' : isDeclaration t' = true)
    (hid : ∀ u ∈ held s .id, In p .id u)
    (hps : ∀ u ∈ held s .typeParameters, In p .typeParameters u)
    (hs : FineSlots p (fun f => if isOutside f then [] else inner p.head p.slots) s) :
    Mirrors p o (.of t' attrs s) := by
  simp only [isDeclaration, Bool.and_eq_true, beq_iff_eq, Bool.not_eq_true',
    List.contains_eq_mem, decide_eq_false_iff_not, List.mem_append, not_or] at hd hd'
  obtain ⟨⟨hscope, hnaming⟩, -, hname⟩ := hd
  obtain ⟨⟨hscope', hnaming'⟩, hreference', hname'⟩ := hd'
  refine mirrors_of hname' (fine_scoped hreference' ?_ hs) ?_
  · rw [hscope', List.forall_mem_cons, List.forall_mem_singleton]
    exact ⟨fun u hu => (hid u hu).subset_inner ht (hscope ▸ List.mem_cons_self),
      fun u hu => (hps u hu).subset_inner ht (hscope ▸ .tail _ List.mem_cons_self)⟩
  · rw [hnaming', List.forall_mem_singleton]
    exact fun u hu => (hid u hu).subset_names ht hname (hnaming ▸ List.mem_cons_self)

/-- The counterparts of what declares the types of a declaration of a type stand for that. -/
theorem mirrors_typed {t' : Tag} {attrs : List (Field × Attr)} {s : Slots Unit} {id : Node}
    {ps : Option Node} (ht : p.head.is t = true) (hd : isDeclaration t = true)
    (hd' : isDeclaration t' = true) (hid : Held promise.view p.slots .id id)
    (hps : ∀ u ∈ ps, Held promise.view p.slots .typeParameters u)
    (hheldId : held s .id = [id]) (hheldPs : held s .typeParameters = ps.toList)
    (hs : FineSlots p (fun f => if isOutside f then [] else inner p.head p.slots) s) :
    Mirrors p o (.of t' attrs s) := by
  refine mirrors_declaration ht hd hd' ?_ ?_ hs
  · rw [hheldId]
    exact List.forall_mem_singleton.mpr (in_of_held hid)
  · rw [hheldPs]
    exact fun u hu => in_of_held (hps u (Option.mem_toList.mp hu))

/-- What a declaration is made of has the types that it declares around it. -/
theorem fine_declared (hu : Composed promise.view p.head p.slots (· ∈ declarationFields) u) :
    Fine p (inner p.head p.slots) u := by
  have houtside : ∀ f ∈ declarationFields, isOutside f = false := by decide
  refine fine_composed hu rfl rfl fun f hf => ?_
  unfold scope
  rw [houtside f hf]
  exact List.Subset.refl _

theorem fine_held (hf : isOutside f = false) (hu : Held promise.view p.slots f u) :
    Fine p (inner p.head p.slots) u := by
  have hfine := (in_of_held hu).fine
  unfold scope at hfine
  rwa [if_neg (Bool.not_eq_true _ ▸ hf)] at hfine

/-- **A declared class** becomes a class. -/
theorem mirrors_class {id : Node} {ps x y : Option Node} {contracts : List Node} (b : Bool)
    (ht : p.head.is .declareClass = true) (hid : Held promise.view p.slots .id id)
    (hx : ∀ u ∈ x, Composed promise.view p.head p.slots (· ∈ declarationFields) u)
    (hy : ∀ u ∈ y, Composed promise.view p.head p.slots (· ∈ declarationFields) u)
    (hps : ∀ u ∈ ps, Held promise.view p.slots .typeParameters u)
    (hcontracts : ∀ u ∈ contracts, Held promise.view p.slots .implements u)
    (hus : ∀ u ∈ us, ∃ c, Fills p.slots .body c ∧ MemberOf promise.view c.head c.slots u) :
    Mirrors p o (Target.classDeclaration (some id) x y ps contracts
      (atOrigin (p.slots.child .body).head (Target.classBody us)) b) := by
  have hbody : Fine p (inner p.head p.slots) (Target.classBody us) := by
    refine fine_neutral rfl (.many (fun u hu => ?_) .nil)
    obtain ⟨c, hc, hu⟩ := hus u hu
    exact (fine_memberOf hu rfl rfl).fill_scope hc
  exact mirrors_typed ht rfl rfl hid hps rfl rfl
    (.many nofun (.some (fine_held rfl hid) (.maybe (fun u hu => fine_held rfl (hps u hu))
      (.maybe (fun u hu => fine_declared (hx u hu)) (.maybe (fun u hu => fine_declared (hy u hu))
        (.many (fun u hu => fine_held rfl (hcontracts u hu))
          (.one (hbody.dress (by simp [atOrigin])) .nil)))))))

/-- A statement that stands in a field is a counterpart of what the field holds. -/
theorem in_listing (hc : Fills p.slots f c) (hu : Listing promise.view c u) : In p f u := by
  rcases hu with hu | hu
  · exact Mirrors.isIn hu hc
  · exact Mirrors.isIn hu hc

/-- **A declared module** becomes a module. Its statements have the types of the module around them,
and no others. -/
theorem mirrors_module {id : Node} (b : Bool) (ht : p.head.is .declareModule = true)
    (hid : Held promise.view p.slots .id id)
    (hus : ∀ u ∈ us, ∃ c ∈ moduleStatements p.slots, Listing promise.view c u) :
    Mirrors p o (Target.moduleDeclaration id
      (atOrigin (p.slots.child .body).head (Target.moduleBlock us)) b) := by
  have hstatements : ∃ S, ∀ u ∈ us, Fine p S u ∧ names u ⊆ S := by
    unfold moduleStatements at hus
    split_ifs at hus with hb
    · refine ⟨scope p.head p.slots .body ++ inner (p.slots.child .body).head
        (p.slots.child .body).slots, fun u hu => ?_⟩
      obtain ⟨c, hc, hu⟩ := hus u hu
      have hin := in_listing (fills_children hc) hu
      refine ⟨hin.fine.fill (fills_child p.slots .body), ?_⟩
      exact List.Subset.trans (hin.subset_inner hb List.mem_cons_self)
        (List.subset_append_right _ _)
    · refine ⟨inner p.head p.slots, fun u hu => ?_⟩
      obtain ⟨c, hc, hu⟩ := hus u hu
      cases List.mem_singleton.mp hc
      have hin := in_listing (fills_child p.slots .body) hu
      exact ⟨hin.fine, hin.subset_inner ht List.mem_cons_self⟩
  obtain ⟨S, hus⟩ := hstatements
  have hblock : Fine p [] (Target.moduleBlock us) := by
    refine fine_scoped (S := S) (by decide) ?_ (.many (fun u hu => (hus u hu).1) .nil)
    exact List.forall_mem_singleton.mpr fun u hu => (hus u hu).2
  exact mirrors_plain rfl
    (.one (in_of_held hid).free (.one (hblock.dress (by simp [atOrigin])) .nil))

/-- What stands for what a module exports mirrors that. -/
theorem mirrors_exported {d : Nat} (hv : Exported promise.view d p.head p.slots v) :
    Mirrors p o v := by
  cases hv with
  | @constant name ty _ hty =>
    have hascribe : Fine p [] (Target.ascribe ty) := by
      unfold Target.ascribe
      split_ifs
      · exact (in_of_held hty).free
      · exact fine_neutral rfl (.one (in_of_held hty).free .nil)
    have hparam : Fine p [] (Target.param name (some (Target.ascribe ty)) false) :=
      fine_neutral rfl (.some hascribe .nil)
    have hdeclarator : Fine p [] (Target.declarator
        (Target.param name (some (Target.ascribe ty)) false) none) :=
      fine_neutral rfl (.one hparam (.none .nil))
    have hconstant : Mirrors p none (exportsDeclaration name (Target.ascribe ty) (d == 0)) :=
      mirrors_plain rfl (.many (List.forall_mem_singleton.mpr hdeclarator) .nil)
    exact hconstant.dress (by simp [atOrigin]) fun n hn => by cases hn
  | @assignment name =>
    have hassignment : Mirrors p none (Target.exportAssignment (Target.ident name)) :=
      mirrors_plain rfl (.one (fine_neutral rfl (.none .nil)) .nil)
    exact hassignment.dress (by simp) fun n hn => by cases hn

/-! ### Bodies -/

section Bodies

theorem not_refersAt_temporary (declared : List String) (k : Node) (x : Reference) :
    ¬ RefersAt (temporaryDeclaration declared) k x := by
  intro hx
  have hfine : Fine default [] (temporaryDeclaration declared) := by
    refine fine_neutral rfl (.many (fun u hu => ?_) .nil)
    obtain ⟨name, -, rfl⟩ := List.mem_map.mp hu
    refine fine_neutral rfl (.one (fine_neutral rfl (.some ?_ .nil)) (.none .nil))
    exact fine_neutral rfl (.one (fine_neutral rfl .nil) .nil)
  obtain ⟨c, y, hy, -⟩ := hfine k x hx
  exact not_refersAt rfl rfl hy

theorem names_temporary (declared : List String) : names (temporaryDeclaration declared) = [] :=
  names_of_not_mem (t := .variableDeclaration) rfl (by decide)

/-- Temporaries are no types. -/
theorem in_temporary (declared : List String) : In p f (temporaryDeclaration declared) where
  fine k x hx := absurd hx (not_refersAt_temporary declared k x)
  names := by
    rw [names_temporary]
    exact List.nil_subset _
  name := nofun

theorem held_onBody (d : Node) {s : Slots Unit} :
    ∀ u ∈ held (s.map (Normalize.onBody (d :: ·))) f, u = d ∨ u ∈ held s f := by
  unfold held Slots.get?
  induction s with
  | nil => exact nofun
  | cons e s ih =>
    rw [List.map_cons]
    rcases Normalize.onBody_cases e with ⟨body, rfl⟩ | he
    · simp only [Normalize.onBody, List.lookup_cons]
      cases f == Field.body with
      | true => exact fun u hu => List.mem_cons.mp hu
      | false => exact ih
    · rw [he, List.lookup_cons, List.lookup_cons]
      cases f == e.1 with
      | true => exact fun u hu => .inr hu
      | false => exact ih

/-- A block with a declaration of temporaries refers to what it referred to before. -/
theorem retains_declareInBlock (declared : List String) {h : Head} {s : Slots Unit}
    (hblock : h.is .blockStatement = true) : Retains (.mk () h s)
      (.mk () h (s.map (Normalize.onBody (temporaryDeclaration declared :: ·)))) := by
  have hinner : inner h (s.map (Normalize.onBody (temporaryDeclaration declared :: ·))) ⊆
      inner h s := by
    rw [inner_of_is hblock, inner_of_is hblock]
    refine namesIn_subset fun f hf u hu => ?_
    rcases held_onBody _ u hu with rfl | hu
    · rw [names_temporary]
      exact List.nil_subset _
    · exact fun n hn => subset_namesIn hf (List.mem_flatMap.mpr ⟨u, hu, hn⟩)
  rintro k x (hr | ⟨hc, hr⟩)
  · rw [Tree.head_mk, own_of_is hblock] at hr
    cases hr
  · rcases held_onBody _ _ hc with rfl | hc
    · exact absurd hr (not_refersAt_temporary declared k _)
    · refine ⟨k, _, .part (t := .mk () h s) hc hr, rfl, (Reference.Covers.refl _).inside ?_⟩
      unfold scope
      split_ifs
      · exact List.Subset.refl _
      · exact hinner

theorem names_block {h : Head} (s : Slots Unit) (hblock : h.is .blockStatement = true) :
    names (.mk () h s : Node) = [] := names_of_not_mem (p := .mk () h s) hblock (by decide)

/-- **A body in which temporaries are declared** refers to what it referred to before. -/
theorem In.declareInBody (hv : In p f v) (declared : List String) :
    In p f (declareInBody declared v) := by
  unfold Convert.declareInBody
  split_ifs with hnone hblock
  · exact hv
  · obtain ⟨⟨⟩, h, s⟩ := v
    refine ⟨hv.fine.of_retains (retains_declareInBlock declared hblock), ?_, fun n hn => ?_⟩
    · rw [names_block _ hblock]
      exact List.nil_subset _
    · cases (beq_iff_eq.mp hblock).symm.trans (Head.tag?_of_identifier? hn)
  · have hblock : Fine p (scope p.head p.slots f) (Target.block
        [temporaryDeclaration declared, Target.returnStatement (some v)]) := by
      refine fine_scoped (S := []) (by decide) ?_ ?_
      · refine List.forall_mem_singleton.mpr (List.forall_mem_cons.mpr
          ⟨?_, List.forall_mem_singleton.mpr ?_⟩)
        · exact List.subset_nil.mpr (names_temporary declared)
        · exact List.subset_nil.mpr
            (names_of_not_mem (p := Target.returnStatement (some v)) (t := .returnStatement) rfl
              (by decide))
      · simp only [ite_self, List.append_nil]
        refine .many nofun (.many (List.forall_mem_cons.mpr
          ⟨?_, List.forall_mem_singleton.mpr ?_⟩) .nil)
        · exact (in_temporary declared).fine
        · exact fine_neutral rfl (.some hv.fine .nil)
    refine ⟨hblock, ?_, nofun⟩
    unfold Target.block Node.of
    rw [names_block _ rfl]
    exact List.nil_subset _

/-- A node with other comments is written where it was. -/
theorem In.withComments (hv : In p f v) (c : Comments) : In p f (v.withComments c) where
  fine := hv.fine.dress (by simp)
  names := by
    rw [names_dress (u := v) (by simp)]
    exact hv.names
  name n hn := by
    rw [Node.identifier?_eq_of_bare (t := v) (by simp)] at hn
    cases v
    exact hv.name n hn

/-- Temporaries may be declared among statements. -/
theorem admits (declared : List String) : Admits declared (In p f) where
  declaration := in_temporary declared
  comments c hv := hv.withComments c

end Bodies

/-! ### Constructs of both vocabularies -/

section Shared

/-- What a field of a construct of both vocabularies holds afterwards. -/
theorem in_filled {slot : Slot Node} (hslot : Convert.Filled promise.view t p.slots f slot) :
    ∀ u ∈ slot.toList, In p (sourceField t f) u := by
  have hbody : sourceField t .body = .body := if_neg (by simp)
  intro u hu
  cases hslot with
  | empty => cases hu
  | parts _ hus => exact in_of_held (hus u hu)
  | bodies _ hf hus =>
    subst hf
    obtain ⟨c, hc, v, declared, hv, rfl⟩ := hus u hu
    rw [hbody]
    exact (Mirrors.isIn hv hc).declareInBody declared
  | statements ht hf hcs hus =>
    subst hf
    obtain ⟨vs, declared, hvs, rfl⟩ := hus
    rw [hbody]
    refine (admits declared).declareInProgram (fun v hv => ?_) u hu
    obtain ⟨c, hc, hv⟩ := hvs v hv
    exact in_listing (hcs c hc) hv

/-- The constructs whose fields have other names in the target declare nothing. -/
theorem sourceField_eq {f : Field} (hf : f ∈ namingFields t ++ scopeFields t) :
    sourceField t f = f := by
  unfold sourceField
  refine if_neg fun hcall => ?_
  simp only [Bool.and_eq_true, Bool.or_eq_true, decide_eq_true_eq] at hcall
  obtain ⟨rfl | rfl, -⟩ := hcall
  · cases hf
  · cases hf

theorem isOutside_sourceField {f : Field} (hf : isOutside f = false) :
    isOutside (sourceField t f) = false := by
  unfold sourceField
  split_ifs
  · rfl
  · exact hf

/-- **A construct of both vocabularies** refers to what the parts refer to. -/
theorem fine_convertShared (ht : p.head.is t = true) (htarget : t.isIn .target = true) {st : State}
    (hin : ∀ e ∈ (convertShared t p.head p.slots st).1.slots, ∀ u ∈ e.2.toList,
      In p (sourceField t e.1) u) : Fine p [] (convertShared t p.head p.slots st).1 := by
  rw [convertShared_eq]
  have hheld {f : Field} {u : Node} (hu : u ∈ held (convertShared t p.head p.slots st).1.slots f) :
      In p (sourceField t f) u := by
    obtain ⟨slot, hslot, hmem⟩ := mem_slot_of_held hu
    exact hin _ hslot u hmem
  refine fine_of ?_ fun e he c hc => (hin e he c hc).fine.mono ?_
  · by_cases hreference : t ∈ referenceTags
    · simp only [referenceTags, List.mem_cons, List.not_mem_nil, or_false] at hreference
      -- the only one of both vocabularies is a reference, which the source may hold already
      rcases hreference with rfl | rfl | rfl | rfl
      · intro r hr
        obtain ⟨c, hc, hr⟩ := List.mem_flatMap.mp hr
        obtain ⟨n, hn, rfl⟩ := List.mem_map.mp hr
        obtain ⟨k, hk, hname, hspan⟩ := (hheld hc).name n (Option.mem_toList.mp hn)
        refine ⟨p, ⟨n, c.head.span, []⟩, .here ?_, .kept ht ⟨st, rfl⟩, .refl _⟩
        rw [own_of_is ht, hspan]
        exact List.mem_flatMap.mpr ⟨k, hk, List.mem_map.mpr ⟨n, Option.mem_toList.mpr hname, rfl⟩⟩
      all_goals exact absurd htarget (by decide)
    · rw [own_eq_nil hreference]
      exact nofun
  · simp only [List.nil_append]
    unfold scope
    cases hout : isOutside e.1 with
    | true => exact List.nil_subset _
    | false =>
      rw [isOutside_sourceField hout, inner_of_is is_ofTag]
      refine namesIn_subset fun f hf u hu => ?_
      have hin := hheld hu
      rw [sourceField_eq (List.mem_append_right _ hf)] at hin
      exact hin.subset_inner ht hf

/-- **A construct of both vocabularies** mirrors what it was. -/
theorem mirrors_convertShared (ht : p.head.is t = true) (htarget : t.isIn .target = true)
    {st : State}
    (hslots : ∀ e ∈ (convertShared t p.head p.slots st).1.slots,
      Convert.Filled promise.view t p.slots e.1 e.2) :
    Mirrors p none (convertShared t p.head p.slots st).1 := by
  have hin : ∀ e ∈ (convertShared t p.head p.slots st).1.slots, ∀ u ∈ e.2.toList,
      In p (sourceField t e.1) u := fun e he => in_filled (hslots e he)
  have hfine := fine_convertShared ht htarget hin
  by_cases hname : t ∈ nameTags
  · have htext : (Head.ofTag t (sharedAttrs t p.head p.slots)).text .name =
        p.head.text .name := by
      simp only [nameTags, List.mem_cons, List.not_mem_nil, or_false] at hname
      rcases hname with rfl | rfl | rfl
      · exact Chain.text_of_convertAttr rfl (by decide) (by decide)
      · exact absurd htarget (by decide)
      · exact Chain.text_of_convertAttr rfl (by decide) (by decide)
    refine ⟨hfine, ?_, fun n hn => ⟨?_, rfl⟩⟩
    · rw [convertShared_eq, names_of_mem (p := Node.of t _ _) is_ofTag hname,
        names_of_mem ht hname, ← htext]
      exact List.Subset.refl _
    · have htag : p.head.tag? = some .identifier := by
        rw [beq_iff_eq.mp ht]
        exact Head.tag?_of_identifier? hn
      cases htag.symm.trans (beq_iff_eq.mp ht)
      rw [← hn, identifier?_convertShared htag]
  -- a construct has the names of what it holds, and the counterparts of that have no others
  · refine mirrors_of hname hfine fun f hf u hu => ?_
    obtain ⟨slot, hslot, hmem⟩ := mem_slot_of_held hu
    have hin := hin _ hslot u hmem
    rw [sourceField_eq (List.mem_append_left _ hf)] at hin
    exact hin.subset_names ht hname hf

end Shared

/-! ### Whole trees -/

section Trees

/-- **What the rule of a construct makes mirrors it.** -/
theorem mirrors_made {d : Nat} (hp : Typed p) (hv : Made promise.view d p.head p.slots v) :
    Mirrors p none v := by
  cases hv with
  | simple hv => exact mirrors_simple hp hv
  | @typeAlias t _ _ _ ht hmem hid hps hty =>
    have hdeclaration : ∀ t ∈ [Tag.typeAlias, .opaqueType, .declareTypeAlias, .declareOpaqueType],
        isDeclaration t = true := by decide
    exact mirrors_typed ht (hdeclaration t hmem) rfl hid hps rfl rfl
      (.one (fine_held rfl hid) (.maybe (fun u hu => fine_held rfl (hps u hu))
        (.one (fine_declared hty) .nil)))
  | @interfaceDeclaration t _ _ _ us ht hmem hid hps hparents hus =>
    have hdeclaration : ∀ t ∈ [Tag.interfaceDeclaration, .declareInterface],
        isDeclaration t = true := by decide
    have hbody : Fine p (inner p.head p.slots) (Target.interfaceBody us) :=
      fine_neutral rfl (.many (fun u hu => fine_declared (hus u hu)) .nil)
    exact mirrors_typed ht (hdeclaration t hmem) rfl hid hps rfl rfl
      (.one (fine_held rfl hid) (.maybe (fun u hu => fine_held rfl (hps u hu))
        (.many (fun u hu => fine_held rfl (hparents u hu))
          (.one (hbody.dress (by simp [atOrigin])) .nil))))
  | classDeclaration ht hid hx hy hps hcontracts hus =>
    exact mirrors_class _ ht hid hx hy hps hcontracts hus
  | @declaredVariable id _ hid =>
    have hdeclarator : Fine p [] (Target.declarator id none) :=
      fine_neutral rfl (.one (in_of_held hid).free (.none .nil))
    exact mirrors_plain rfl (.many (List.forall_mem_singleton.mpr hdeclarator) .nil)
  | @declaredFunction name sig _ hsig =>
    obtain ⟨S, hS⟩ := signed_of hsig rfl rfl
    have hname (F : List String) : Fine p F (Target.ident name) := fine_neutral rfl (.none .nil)
    exact hS.mirrors rfl rfl (.one ((hname _).dress (by simp [atOrigin]))
      (.maybe hS.fine_typeParameters (.many hS.parameters (.some hS.returnType .nil))))
  | declaredModule ht hid hus => exact mirrors_module _ ht hid hus
  | passed =>
    refine ⟨fun k x hx => absurd hx (not_refersAt rfl rfl), List.nil_subset _, fun n hn => ?_⟩
    cases hn
  | shared ht htarget st hslots => exact mirrors_convertShared ht htarget hslots

/-- In a source tree types stand where they may. -/
theorem typed_of_stems {d : Nat} (hstems : Stems (fun _ t => t.Every HoldsTypes) d h s) :
    Typed (asPart h s) := by
  obtain ⟨s₀, rfl, hsource⟩ := hstems
  cases hsource with
  | mk here below =>
    refine ⟨(holdsTypes_annotateSlots _ _ _).mpr here, fun f c hc => ?_⟩
    cases hc with
    | vacant => exact nofun
    | held hslot hmem =>
      have hmem : c ∈ (Tree.annotateSlots outcome s₀).toList :=
        Slots.mem_toList.mpr ⟨_, Slots.get?_mem hslot, hmem⟩
      rw [Tree.toList_annotateSlots] at hmem
      obtain ⟨⟨⟨⟩, k, ks⟩, ha, rfl⟩ := List.mem_map.mp hmem
      have hhere : HoldsTypes k ks := by
        cases below _ ha with
        | mk here _ => exact here
      exact (holdsTypes_annotateSlots _ _ _).mpr hhere

theorem mirrors_default : Mirrors default none (default : Node) := ⟨fine_default, nofun, nofun⟩

/-- That the answers of all parts of a source tree mirror them. -/
def static : Static where
  toPromise := promise
  Clear _ := True
  Source _ t := t.Every HoldsTypes
  Speaks _ := True
  lenient := True
  part ht hslot hc := by
    cases ht with
    | mk _ below => exact below _ (Slots.mem_toList.mpr ⟨_, hslot, hc⟩)
  required _ := .inl True.intro
  vacant _ := ⟨True.intro, mirrors_default, ⟨mirrors_default, nofun⟩, fine_default, fine_default⟩
  speaks _ _ _ _ _ := True.intro
  speaks_statement _ _ _ _ _ := True.intro
  report _ _ _ _ := True.intro
  drop _ _ _ _ _ _ := True.intro
  refuse _ _ _ _ := ⟨True.intro, True.intro⟩
  converts {d h s st} hstems _ _ hmade := (mirrors_made (typed_of_stems hstems) hmade).attach h
  chains hstems _ hx hg :=
    ⟨mirrors_simple (typed_of_stems hstems) hx, fun g hmem => free_composed (hg g hmem)⟩
  accesses {d h s a b o} _ _ ha hb :=
    fine_neutral rfl (.one (free_composed (p := asPart h s) ha)
      (.one (free_composed (p := asPart h s) hb) .nil))
  entities {d h s a b} _ _ ha hb := by
    have hmember : Fine (asPart h s) [] (Target.member a b false) :=
      fine_neutral rfl (.one (free_composed (p := asPart h s) ha)
        (.one (free_composed (p := asPart h s) hb) .nil))
    exact hmember.dress (by simp)
  chain_of _ hv := ⟨hv, nofun⟩
  access_of _ hv := hv.fine
  entity_of _ hv := hv.fine
  exports {d h s st u} _ _ _ _ hmade := mirrors_exported (p := asPart h s) hmade

end Trees

/-- **A conversion brings no type into scope.** Every reference of the converted tree stands for one
of the source: an introduced one, which is written nowhere, for the utility or the optional link
that it takes the place of, and any other for itself. A type that is declared around it in the
converted tree is declared around it in the source, so a built-in type is hidden only where the
source hides it.

The node that makes the reference is made of the node of the source that it stands for: of what that
gives for its name and its arguments, or for what the built-in type is applied to. So it is known
which utility or link it is also where spans are missing or repeated, up to source nodes whose parts
become the same. -/
theorem refers_convert {t : Node} (ht : t.Every HoldsTypes) {x : Reference}
    (hx : Refers t.convert.tree x) :
    (∃ y, Refers t y ∧ y.name = x.name ∧ y.span = x.span ∧ x.scope ⊆ y.scope) ∧
    ∀ k, RefersAt t.convert.tree k x → ∃ c y, RefersAt t c y ∧
      StandsFor (c.annotate outcome) k ∧ y.name = x.name ∧ y.span = x.span ∧
      x.scope ⊆ y.scope := by
  have hmirrors : Mirrors (t.annotate outcome) _ t.convert.tree :=
    (static.convertTree (.start t.names) ht True.intro True.intro rfl).2
  have hstands : ∀ k, RefersAt t.convert.tree k x → ∃ c y, RefersAt t c y ∧
      StandsFor (c.annotate outcome) k ∧ y.name = x.name ∧ y.span = x.span ∧
      x.scope ⊆ y.scope := by
    intro k hk
    obtain ⟨_, y, hy, hstands, hyx⟩ := hmirrors.fine k x hk
    obtain ⟨c, rfl, hc⟩ := hy.of_annotate
    exact ⟨c, y, hc, hstands, hyx.name, hyx.span, hyx.scope⟩
  obtain ⟨k, hk⟩ := hx.exists_at
  obtain ⟨c, y, hy, -, hyx⟩ := hstands k hk
  exact ⟨⟨y, hy.refers, hyx⟩, hstands⟩

/-- `type name<T> = $ReadOnly<T>;`. -/
def readOnlyAlias (name : String) : Node :=
  Source.program [.of .typeAlias []
    [(.id, .one (Source.ident name)),
      (.typeParameters, .maybe (some (Node.of .typeParameterDeclaration []
        [(.params, .many [Node.of .typeParameter [(.name, .text "T")]
          [(.bound, .maybe none), (.variance, .maybe none), (.default, .maybe none)]])]))),
      (.right, .one (Source.generic "$ReadOnly" [Source.generic "T" []]))]]

/-- `type name<T> = Readonly<T>;`. -/
def builtinAlias (name : String) : Node :=
  Target.typeAlias (Target.ident name)
    (some (Target.typeParameters [Target.typeParameter "T" none none]))
    (Target.namedReference "Readonly" [Target.namedReference "T" []]) false

theorem convert_readOnlyAlias (name : String) :
    (readOnlyAlias name).convert.tree = Source.program [builtinAlias name] := rfl

/-- `Readonly<T>`, as a conversion introduces it. -/
def introducedReadonly : Node := Target.namedReference "Readonly" [Target.namedReference "T" []]

/-- The introduced reference has the alias and its parameter around it. -/
theorem refersAt_readOnlyAlias (name : String) :
    RefersAt (readOnlyAlias name).convert.tree introducedReadonly
      ⟨"Readonly", none, [name, name, "T"]⟩ := by
  have hreference : RefersAt introducedReadonly introducedReadonly (made "Readonly") :=
    .here List.mem_cons_self
  have halias : RefersAt (builtinAlias name) introducedReadonly ⟨"Readonly", none, [name, "T"]⟩ :=
    .part (t := builtinAlias name) (f := .ty) List.mem_cons_self hreference
  rw [convert_readOnlyAlias]
  exact .part (t := Source.program [builtinAlias name]) (f := .body) List.mem_cons_self halias

/-- The reference that `type A<T> = $ReadOnly<T>;` gets stands for the utility, around which `A` and
`T` are declared as well. -/
theorem refers_convert_readOnlyAlias :
    (readOnlyAlias "A").Every HoldsTypes ∧
      Refers (readOnlyAlias "A").convert.tree ⟨"Readonly", none, ["A", "A", "T"]⟩ ∧
      (∃ y, Refers (readOnlyAlias "A") y ∧ y.name = "Readonly" ∧ y.span = none ∧
        ["A", "A", "T"] ⊆ y.scope) ∧
      ∃ c y, RefersAt (readOnlyAlias "A") c y ∧
        StandsFor (c.annotate outcome) introducedReadonly ∧ y.name = "Readonly" ∧
        y.span = none ∧ ["A", "A", "T"] ⊆ y.scope := by
  have hholds : (readOnlyAlias "A").Every HoldsTypes := by decide
  have hrefers := refersAt_readOnlyAlias "A"
  obtain ⟨hstands, hmade⟩ := refers_convert hholds hrefers.refers
  exact ⟨hholds, hrefers.refers, hstands, hmade _ hrefers⟩

/-- The alias `type Readonly<T> = $ReadOnly<T>;` becomes `type Readonly<T> = Readonly<T>;`. The
introduced reference, which the source nowhere writes, is bound by the alias itself. -/
theorem not_introduced_unbound :
    ¬ ∀ (t : Node) (x : Reference), t.Every HoldsTypes →
      (t.Every fun h s => h.is .genericType = true → x.name ∉ (written s .id).map (·.name)) →
      x.name ∈ ["Readonly", "ReadonlyArray", "Partial", "NonNullable"] →
      Refers t.convert.tree x → x.name ∉ x.scope := by
  intro h
  have hunbound := h (readOnlyAlias "Readonly") ⟨"Readonly", none, ["Readonly", "Readonly", "T"]⟩
    (by decide) (by decide) List.mem_cons_self (refersAt_readOnlyAlias "Readonly").refers
  exact hunbound List.mem_cons_self

end Typeshift.Scope
