import Typeshift.Proofs.Normalize.Lossless

/-! # Hoisting and type parameters

A declaration that has type parameters binds their names in all of its parts. A hoisted type leaves
the declarations it stands in, so a type parameter of one of them that it refers to is no longer
bound.

* `free`: the types that a tree refers to and does not bind.
* `Scoped`: every reference to a type parameter is in a declaration that binds it.
* `Liftable`: no hoisted type refers to a type parameter of a declaration around it.
* `scoped_normalize_iff`: normalization keeps references in scope for exactly these trees. -/

namespace Typeshift.Normalize

/-! ### Names of types -/

section Names

variable {ρ σ : Type}

/-- The name of a type parameter. -/
def parameterName? (h : Head) : Option String :=
  if h.is .typeParameter then some (h.text .name) else none

/-- The names that a list of type parameters declares. -/
def declared (t : Tree ρ) : List String :=
  if t.head.is .typeParameterDeclaration then
    (t.slots.children .params).filterMap fun c => parameterName? c.head
  else []

/-- Whether a construct may have type parameters. -/
def isDeclaration (h : Head) : Bool :=
  h.isAny [.functionDeclaration, .functionExpression, .arrowFunctionExpression, .classDeclaration,
    .classExpression, .classMethod, .classPrivateMethod, .objectMethod, .typeAlias,
    .declareTypeAlias, .opaqueType, .declareOpaqueType, .interfaceDeclaration, .declareInterface,
    .declareClass, .functionType]

/-- The names that a node binds in its parts. -/
def bound (h : Head) (s : Slots ρ) : List String :=
  if isDeclaration h then ((s.child? .typeParameters).map declared).getD [] else []

/-- The free names of a node, given those of its parts. -/
def freeRule (h : Head) (s : Slots (List String)) : List String :=
  ((reference? h s).toList ++ s.toList.flatMap Tree.note).filter fun n => n ∉ bound h s

/-- **The types that a tree refers to by name** and does not bind. -/
def free (t : Node) : List String := t.synthesize freeRule

/-- The names of all type parameters of a tree. -/
def typeParameters (t : Node) : List String := t.preorder.filterMap parameterName?

/-- **Every reference to a type parameter is in a declaration that binds it.** -/
def Scoped (t : Node) : Prop := ∀ n ∈ free t, n ∉ typeParameters t

/-- **No hoisted type refers to a type parameter of a declaration around it.** -/
def Liftable (t : Node) : Prop :=
  ∀ around F, HoistedIn .other t around F → ∀ n ∈ free F, ∀ d ∈ around, n ∉ bound d.head d.slots

/-- Nodes that look the same to the node around them. -/
structure SameFace (t : Tree ρ) (t' : Tree σ) : Prop where
  identifier : t'.head.identifier? = t.head.identifier?
  parameter : parameterName? t'.head = parameterName? t.head
  declared : declared t' = declared t

section Face

variable {h h' : Head} {s : Slots ρ} {s' : Slots σ}

theorem reference?_of_face (hs : s.Rel SameFace s') : reference? h s' = reference? h s := by
  unfold reference?
  have hid := hs.child? .id
  generalize s.child? .id = a, s'.child? .id = b at hid
  cases hid with
  | some hf => simp only [Option.bind_some, hf.identifier]
  | none => rfl

theorem bound_of_face (hs : s.Rel SameFace s') : bound h s' = bound h s := by
  unfold bound
  have hp := hs.child? .typeParameters
  generalize s.child? .typeParameters = a, s'.child? .typeParameters = b at hp
  cases hp with
  | some hf => simp only [Option.map_some, hf.declared]
  | none => rfl

theorem filterMap_parameterName? {as : List (Tree ρ)} {bs : List (Tree σ)}
    (h : List.Forall₂ SameFace as bs) : (bs.filterMap fun c => parameterName? c.head) =
      as.filterMap fun c => parameterName? c.head := by
  induction h with
  | nil => rfl
  | cons hf _ ih => rw [List.filterMap_cons, List.filterMap_cons, hf.parameter, ih]

theorem sameFace_mk (n : ρ) (n' : σ) (hs : s.Rel SameFace s') :
    SameFace (.mk n h s : Tree ρ) (.mk n' h s' : Tree σ) where
  identifier := rfl
  parameter := rfl
  declared := by
    unfold Normalize.declared
    rw [Tree.head_mk, Tree.head_mk, Tree.slots_mk, Tree.slots_mk,
      filterMap_parameterName? (hs.children .params)]

end Face

theorem sameFace_annotate (rule : Head → Slots σ → σ) (t : Tree ρ) :
    SameFace t (t.annotate rule) := by
  induction t using Tree.induct with
  | step n h s ih =>
    show SameFace _ (Tree.mk _ h (Tree.annotateSlots rule s))
    rw [Slots.annotateSlots_eq_mapTrees]
    exact sameFace_mk n _ (Slots.rel_mapTrees ih)

theorem mem_free_mk {h : Head} {s : Slots Unit} {n : String} : n ∈ free (.mk () h s) ↔
    (reference? h s = some n ∨ ∃ c ∈ s.toList, n ∈ free c) ∧ n ∉ bound h s := by
  have hface : s.Rel SameFace (Tree.annotateSlots freeRule s) := by
    rw [Slots.annotateSlots_eq_mapTrees]
    exact Slots.rel_mapTrees fun t _ => sameFace_annotate freeRule t
  show n ∈ freeRule h (Tree.annotateSlots freeRule s) ↔ _
  rw [freeRule, reference?_of_face hface, bound_of_face hface, Tree.toList_annotateSlots,
    List.mem_filter, List.mem_append, Option.mem_toList, List.flatMap_map, List.mem_flatMap,
    decide_eq_true_iff]
  rfl

theorem mem_typeParameters_mk {h : Head} {s : Slots Unit} {n : String} :
    n ∈ typeParameters (.mk () h s) ↔
      parameterName? h = some n ∨ ∃ c ∈ s.toList, n ∈ typeParameters c := by
  unfold typeParameters
  rw [Node.preorder_mk, List.filterMap_cons, List.filterMap_flatMap]
  cases parameterName? h <;> simp [eq_comm]

/-- A tree mentions the names of its type parameters. -/
theorem mem_mentions_of_typeParameters {t : Node} {n : String} (h : n ∈ typeParameters t) :
    n ∈ Node.mentions t := by
  obtain ⟨k, hk, hn⟩ := List.mem_filterMap.mp h
  refine List.mem_filterMap.mpr ⟨k, hk, ?_⟩
  unfold parameterName? at hn
  split_ifs at hn with hp
  unfold Head.mention?
  rw [if_pos (by simp [Head.isAny, hp])]
  exact hn

/-- The names that a node binds are names of type parameters of it. -/
theorem mem_typeParameters_of_bound {h : Head} {s : Slots Unit} {n : String} (hn : n ∈ bound h s) :
    n ∈ typeParameters (.mk () h s) := by
  unfold bound at hn
  split_ifs at hn
  · cases hd : s.child? .typeParameters with
    | none => rw [hd] at hn; cases hn
    | some d =>
      rw [hd, Option.map_some, Option.getD_some] at hn
      refine mem_typeParameters_mk.mpr (.inr ⟨d, Slots.child?_mem hd, ?_⟩)
      unfold declared at hn
      split_ifs at hn
      · obtain ⟨⟨_, k, s'⟩, hc, hk⟩ := List.mem_filterMap.mp hn
        obtain ⟨_, kd, sd⟩ := d
        exact mem_typeParameters_mk.mpr (.inr ⟨_, Slots.children_mem hc,
          mem_typeParameters_mk.mpr (.inl hk)⟩)
      · cases hn
  · cases hn

end Names

/-! ### Hoisted types in a tree -/

section HoistedIn

variable {p : Position} {t F : Node} {around : List Node} {n : String}

/-- What a hoisted type refers to is free in the tree, or bound around it. -/
theorem HoistedIn.free_or_bound (hF : HoistedIn p t around F) (hn : n ∈ free F) :
    n ∈ free t ∨ ∃ d ∈ around, n ∈ bound d.head d.slots := by
  induction hF with
  | here => exact .inl hn
  | @inside p h s e c F around he hc _ ih =>
    rcases ih hn with hfree | ⟨d, hd, hbound⟩
    · by_cases hb : n ∈ bound h s
      · exact .inr ⟨_, List.mem_cons_self, hb⟩
      · exact .inl (mem_free_mk.mpr ⟨.inr ⟨c, Slots.mem_toList.mpr ⟨e, he, hc⟩, hfree⟩, hb⟩)
    · exact .inr ⟨d, List.mem_cons_of_mem _ hd, hbound⟩

/-- The names bound around a hoisted type are names of type parameters of the tree. -/
theorem HoistedIn.mem_typeParameters (hF : HoistedIn p t around F) {d : Node} (hd : d ∈ around)
    (hn : n ∈ bound d.head d.slots) : n ∈ typeParameters t := by
  induction hF with
  | here => cases hd
  | @inside p h s e c F around he hc _ ih =>
    rcases List.mem_cons.mp hd with rfl | hd
    · exact mem_typeParameters_of_bound hn
    · exact mem_typeParameters_mk.mpr (.inr ⟨c, Slots.mem_toList.mpr ⟨e, he, hc⟩, ih hd⟩)

theorem HoistedIn.typeParameters_subset (hF : HoistedIn p t around F)
    (hn : n ∈ typeParameters F) : n ∈ typeParameters t := by
  induction hF with
  | here => exact hn
  | @inside p h s e c F around he hc _ ih =>
    exact mem_typeParameters_mk.mpr (.inr ⟨c, Slots.mem_toList.mpr ⟨e, he, hc⟩, ih hn⟩)

end HoistedIn

/-! ### What hoisting does to names -/

/-- What becomes of the names of types in a node when it is hoisted: none of the names `T` of the
tree is new, and one that is gone is in a hoisted type. -/
structure Matches (T : List String) (st : Hoisting) (t t' : Node) : Prop where
  face : SameFace t t'
  free : ∀ n ∈ T, n ∈ free t' → n ∈ free t
  free_of : ∀ n ∈ Normalize.free t,
    n ∈ Normalize.free t' ∨ ∃ x ∈ st.hoisted, n ∈ Normalize.free x.type
  parameters : ∀ n ∈ typeParameters t', n ∈ typeParameters t
  parameters_of : ∀ n ∈ typeParameters t,
    n ∈ typeParameters t' ∨ ∃ x ∈ st.hoisted, n ∈ typeParameters x.type

section Matches

variable {T : List String} {st st' : Hoisting} {t t' : Node}

theorem Matches.lifts (h : Matches T st t t') (hrun : Lifts st st') : Matches T st' t t' where
  face := h.face
  free := h.free
  free_of n hn := (h.free_of n hn).imp_right fun ⟨x, hx, hf⟩ => ⟨x, hrun.mem hx, hf⟩
  parameters := h.parameters
  parameters_of n hn := (h.parameters_of n hn).imp_right fun ⟨x, hx, hf⟩ => ⟨x, hrun.mem hx, hf⟩

theorem matches_mk {h : Head} {s s' : Slots Unit} (hs : s.Rel (Matches T st) s') :
    Matches T st (.mk () h s) (.mk () h s') := by
  have hface : s.Rel SameFace s' := hs.imp fun _ _ hm => hm.face
  refine ⟨sameFace_mk _ _ hface, fun n hT hn => ?_, fun n hn => ?_, fun n hn => ?_, fun n hn => ?_⟩
  · rw [mem_free_mk, reference?_of_face hface, bound_of_face hface] at hn
    refine mem_free_mk.mpr ⟨hn.1.imp_right ?_, hn.2⟩
    rintro ⟨c', hc', hn'⟩
    obtain ⟨c, hc, hm⟩ := hs.mem_right hc'
    exact ⟨c, hc, hm.free n hT hn'⟩
  · obtain ⟨hr | ⟨c, hc, hn⟩, hb⟩ := mem_free_mk.mp hn
    · refine .inl (mem_free_mk.mpr ?_)
      rw [reference?_of_face hface, bound_of_face hface]
      exact ⟨.inl hr, hb⟩
    · obtain ⟨c', hc', hm⟩ := hs.mem_left hc
      refine (hm.free_of n hn).imp_left fun hn' => mem_free_mk.mpr ?_
      rw [bound_of_face hface]
      exact ⟨.inr ⟨c', hc', hn'⟩, hb⟩
  · rw [mem_typeParameters_mk] at hn ⊢
    refine hn.imp_right ?_
    rintro ⟨c', hc', hn'⟩
    obtain ⟨c, hc, hm⟩ := hs.mem_right hc'
    exact ⟨c, hc, hm.parameters n hn'⟩
  · rcases mem_typeParameters_mk.mp hn with hp | ⟨c, hc, hn⟩
    · exact .inl (mem_typeParameters_mk.mpr (.inl hp))
    · obtain ⟨c', hc', hm⟩ := hs.mem_left hc
      exact (hm.parameters_of n hn).imp_left fun hn' =>
        mem_typeParameters_mk.mpr (.inr ⟨c', hc', hn'⟩)

theorem free_reference (n : String) (span : Option Span) :
    free ((Source.generic n []).withSpan span) = [n] := rfl

theorem typeParameters_reference (n : String) (span : Option Span) :
    typeParameters ((Source.generic n []).withSpan span) = [] := rfl

/-- A function type and a reference look the same to the node around them: neither is a name. -/
theorem sameFace_reference (hf : t.head.is .functionType = true) (n : String)
    (span : Option Span) : SameFace t ((Source.generic n []).withSpan span) := by
  have htag : t.head.tag? = some .functionType := by simpa [Head.is] using hf
  refine ⟨?_, ?_, ?_⟩
  · show none = t.head.identifier?
    simp [Head.identifier?, Head.is, htag]
  · show none = parameterName? t.head
    simp [parameterName?, Head.is, htag]
  · show [] = declared t
    simp [declared, Head.is, htag]

theorem Matches.lifted (hst : Supply T st) (hf : t.head.is .functionType = true)
    (h : Matches T st t t') (span : Option Span) : Matches T (st.lifted t') t
      ((Source.generic (st.names.freshName baseName) []).withSpan span) := by
  have hself : ∃ x ∈ (st.lifted t').hoisted, x.type = t' :=
    ⟨_, List.mem_append.mpr (.inr (List.mem_singleton.mpr rfl)), rfl⟩
  refine ⟨sameFace_reference hf _ span, fun n hT hn => ?_, fun n hn => .inr ?_, fun n hn => ?_,
    fun n hn => .inr ?_⟩
  · rw [free_reference, List.mem_singleton] at hn
    exact absurd hT (hn ▸ (hst.not_mem_freshName baseName).1)
  · rcases h.free_of n hn with hn | ⟨x, hx, hn⟩
    · obtain ⟨x, hx, rfl⟩ := hself
      exact ⟨x, hx, hn⟩
    · exact ⟨x, List.mem_append.mpr (.inl hx), hn⟩
  · rw [typeParameters_reference] at hn
    cases hn
  · rcases h.parameters_of n hn with hn | ⟨x, hx, hn⟩
    · obtain ⟨x, hx, rfl⟩ := hself
      exact ⟨x, hx, hn⟩
    · exact ⟨x, List.mem_append.mpr (.inl hx), hn⟩

theorem carries_matches (T : List String) : Carries T (Matches T) where
  lasting _ _ _ _ hrun h := h.lifts hrun
  node _ _ hrel := matches_mk hrel
  lift span hst hf h := h.lifted hst hf span

end Matches

/-! ### Names do not depend on flags -/

section Clear

variable {n : String} {t : Node}

theorem sameFace_clearOptional (t : Node) : SameFace t t.clearOptional := by
  induction t using Tree.induct with
  | step _ h s ih =>
    rw [Node.clearOptional_mk]
    refine ⟨?_, ?_, (sameFace_mk () () (Slots.rel_mapTrees ih)).declared⟩
    · rw [Tree.head_mk, Tree.head_mk, Head.identifier?, Head.text_setAttr_of_ne h (by decide)]
      rfl
    · rw [Tree.head_mk, Tree.head_mk, parameterName?, Head.text_setAttr_of_ne h (by decide)]
      rfl

theorem rel_clearOptional (s : Slots Unit) : s.Rel SameFace (s.mapTrees Node.clearOptional) :=
  Slots.rel_mapTrees fun t _ => sameFace_clearOptional t

theorem mem_free_clearOptional : n ∈ free t.clearOptional ↔ n ∈ free t := by
  induction t using Tree.induct with
  | step _ h s ih =>
    have href : reference? (h.setAttr .isOptional (.flag false)) s = reference? h s := rfl
    have hbound : bound (h.setAttr .isOptional (.flag false)) s = bound h s := rfl
    rw [Node.clearOptional_mk, mem_free_mk, mem_free_mk, Slots.toList_mapTrees,
      bound_of_face (rel_clearOptional s), reference?_of_face (rel_clearOptional s), href, hbound]
    have hparts : (∃ c ∈ s.toList.map Node.clearOptional, n ∈ free c) ↔
        ∃ c ∈ s.toList, n ∈ free c := by
      simp only [List.mem_map, exists_exists_and_eq_and]
      exact exists_congr fun c => and_congr_right (ih c)
    rw [hparts]

theorem typeParameters_clearOptional (t : Node) :
    typeParameters t.clearOptional = typeParameters t := by
  unfold typeParameters
  rw [Node.preorder_clearOptional, List.filterMap_map]
  congr 1
  funext h
  show parameterName? (h.setAttr _ _) = _
  rw [parameterName?, Head.text_setAttr_of_ne h (by decide)]
  rfl

theorem scoped_clearOptional : Scoped t.clearOptional ↔ Scoped t := by
  unfold Scoped
  rw [typeParameters_clearOptional]
  exact forall_congr' fun n => imp_congr_left mem_free_clearOptional

theorem HoistedIn.clearOptional {p : Position} {F : Node} {around : List Node}
    (h : HoistedIn p t around F) :
    HoistedIn p t.clearOptional (around.map Node.clearOptional) F.clearOptional := by
  induction h with
  | here hf =>
    rw [Node.clearOptional_mk]
    exact .here hf
  | @inside p h s e c F around he hc _ ih =>
    rw [List.map_cons, Node.clearOptional_mk]
    refine .inside (List.mem_map_of_mem he) ?_ ih
    rw [Slot.toList_map]
    exact List.mem_map_of_mem hc

theorem HoistedIn.of_clearOptional {p : Position} {F' : Node} {around' : List Node}
    (h : HoistedIn p t.clearOptional around' F') : ∃ around F, HoistedIn p t around F ∧
      around.map Node.clearOptional = around' ∧ F.clearOptional = F' := by
  induction t using Tree.induct generalizing p around' F' with
  | step _ k s ih =>
    rw [Node.clearOptional_mk] at h
    cases h with
    | here hf => exact ⟨[], _, .here hf, rfl, Node.clearOptional_mk k s⟩
    | inside he' hc' hF' =>
      obtain ⟨e, he, rfl⟩ := List.mem_map.mp he'
      rw [Slot.toList_map] at hc'
      obtain ⟨c, hc, rfl⟩ := List.mem_map.mp hc'
      obtain ⟨around, F, hF, rfl, rfl⟩ := ih c (Slots.mem_toList.mpr ⟨e, he, hc⟩) hF'
      exact ⟨_, F, .inside he hc hF, by rw [List.map_cons, Node.clearOptional_mk], rfl⟩

theorem bound_clearOptional (d : Node) :
    bound d.clearOptional.head d.clearOptional.slots = bound d.head d.slots := by
  obtain ⟨_, h, s⟩ := d
  rw [Node.clearOptional_mk]
  exact bound_of_face (rel_clearOptional s)

theorem liftable_clearOptional : Liftable t.clearOptional ↔ Liftable t := by
  constructor
  · intro h around F hF n hn d hd
    rw [← bound_clearOptional]
    exact h _ _ hF.clearOptional n (mem_free_clearOptional.mpr hn) _ (List.mem_map_of_mem hd)
  · intro h around' F' hF' n hn d' hd'
    obtain ⟨around, F, hF, rfl, rfl⟩ := hF'.of_clearOptional
    obtain ⟨d, hd, rfl⟩ := List.mem_map.mp hd'
    rw [bound_clearOptional]
    exact h around F hF n (mem_free_clearOptional.mp hn) d hd

end Clear

/-! ### Names in a program with more statements -/

section Append

variable {n : String} {xs : List Node}

theorem get?_map_onBody_of_ne {s : Slots Unit} {f : Field} (hf : f ≠ .body)
    (g : List Node → List Node) : Slots.get? (s.map (onBody g)) f = s.get? f := by
  have hkept (slot : Slot Node) : (onBody g (f, slot)).2 = slot := by
    rcases onBody_cases (f, slot) with ⟨body, heq⟩ | he
    · exact absurd (congrArg Prod.fst heq) hf
    · rw [he]
  rw [get?_map (fst_onBody g)]
  simp only [hkept]
  exact Option.map_id'

theorem child?_map_onBody_of_ne {s : Slots Unit} {f : Field} (hf : f ≠ .body)
    (g : List Node → List Node) : Slots.child? (s.map (onBody g)) f = s.child? f := by
  unfold Slots.child?
  rw [get?_map_onBody_of_ne hf]

/-- The parts of a program with more statements. -/
theorem mem_toList_onBody {s : Slots Unit} {c : Node}
    (h : c ∈ Slots.toList (s.map (onBody (· ++ xs)))) : c ∈ s.toList ∨ c ∈ xs := by
  obtain ⟨e', he', hc⟩ := Slots.mem_toList.mp h
  obtain ⟨e, he, rfl⟩ := List.mem_map.mp he'
  rcases onBody_cases e with ⟨body, rfl⟩ | hid
  · exact (List.mem_append.mp hc).imp_left fun hc => Slots.mem_toList.mpr ⟨_, he, hc⟩
  · rw [hid] at hc
    exact .inl (Slots.mem_toList.mpr ⟨e, he, hc⟩)

theorem mem_toList_onBody_of_mem {s : Slots Unit} {c : Node} (h : c ∈ s.toList) :
    c ∈ Slots.toList (s.map (onBody (· ++ xs))) := by
  obtain ⟨e, he, hc⟩ := Slots.mem_toList.mp h
  refine Slots.mem_toList.mpr ⟨_, List.mem_map_of_mem he, ?_⟩
  rcases onBody_cases e with ⟨body, rfl⟩ | hid
  · exact List.mem_append.mpr (.inl hc)
  · rw [hid]; exact hc

theorem mem_toList_onBody_of_get? {s : Slots Unit} {body : List Node} {c : Node}
    (h : s.get? .body = some (.many body)) (hc : c ∈ xs) :
    c ∈ Slots.toList (s.map (onBody (· ++ xs))) :=
  Slots.mem_toList.mpr ⟨_, Slots.get?_mem (get?_map_onBody (· ++ xs) h),
    List.mem_append.mpr (.inr hc)⟩

/-- Names that a program gathers from its parts, more of them if it has more statements. -/
structure Gathers (g : Node → List String) : Prop where
  top : ∀ {h : Head} {s : Slots Unit} {n : String}, h.is .program = true ∨ h.is .file = true →
    (n ∈ g (.mk () h s) ↔ ∃ c ∈ s.toList, n ∈ g c)
  kept : ∀ {xs : List Node} {t : Node} {n : String}, n ∈ g t → n ∈ g (appendToProgram xs t)
  added : ∀ {xs : List Node} {t : Node} {n : String}, n ∈ g (appendToProgram xs t) →
    n ∈ g t ∨ ∃ x ∈ xs, n ∈ g x

theorem gathers_typeParameters : Gathers typeParameters where
  top {h s n} hh := by
    have hnone : parameterName? h = none := by
      simp only [Head.is, beq_iff_eq] at hh
      rcases hh with hh | hh <;> simp [parameterName?, Head.is, hh]
    rw [mem_typeParameters_mk, hnone]
    simp
  kept {xs t n} hn := by
    obtain ⟨_, k, s⟩ := t
    rw [appendToProgram_eq]
    refine mem_typeParameters_mk.mpr ((mem_typeParameters_mk.mp hn).imp_right ?_)
    rintro ⟨c, hc, hn⟩
    exact ⟨c, mem_toList_onBody_of_mem hc, hn⟩
  added {xs t n} hn := by
    obtain ⟨_, k, s⟩ := t
    rw [appendToProgram_eq] at hn
    rcases mem_typeParameters_mk.mp hn with hk | ⟨c, hc, hn⟩
    · exact .inl (mem_typeParameters_mk.mpr (.inl hk))
    · rcases mem_toList_onBody hc with hc | hx
      · exact .inl (mem_typeParameters_mk.mpr (.inr ⟨c, hc, hn⟩))
      · exact .inr ⟨c, hx, hn⟩

section Body

variable {h : Head} {s : Slots Unit} (g : List Node → List Node)

theorem reference?_onBody : reference? h (s.map (onBody g)) = reference? h s := by
  unfold reference?
  rw [child?_map_onBody_of_ne (by decide)]

theorem bound_onBody : bound h (s.map (onBody g)) = bound h s := by
  unfold bound
  rw [child?_map_onBody_of_ne (by decide)]

end Body

theorem gathers_free : Gathers free where
  top {h s n} hh := by
    simp only [Head.is, beq_iff_eq] at hh
    have href : reference? h s = none := by
      rcases hh with hh | hh <;> simp [reference?, Head.is, hh]
    have hbound : bound h s = [] := by
      rcases hh with hh | hh <;> simp [bound, isDeclaration, Head.isAny, Head.is, hh]
    rw [mem_free_mk, href, hbound]
    simp
  kept {xs t n} hn := by
    obtain ⟨_, k, s⟩ := t
    rw [appendToProgram_eq]
    obtain ⟨hr, hb⟩ := mem_free_mk.mp hn
    refine mem_free_mk.mpr ?_
    rw [Tree.slots_mk, reference?_onBody, bound_onBody]
    refine ⟨hr.imp_right ?_, hb⟩
    rintro ⟨c, hc, hn⟩
    exact ⟨c, mem_toList_onBody_of_mem hc, hn⟩
  added {xs t n} hn := by
    obtain ⟨_, k, s⟩ := t
    rw [appendToProgram_eq] at hn
    obtain ⟨hr, hb⟩ := mem_free_mk.mp hn
    rw [Tree.slots_mk, reference?_onBody] at hr
    rw [Tree.slots_mk, bound_onBody] at hb
    rcases hr with hr | ⟨c, hc, hn⟩
    · exact .inl (mem_free_mk.mpr ⟨.inl hr, hb⟩)
    · rcases mem_toList_onBody hc with hc | hx
      · exact .inl (mem_free_mk.mpr ⟨.inr ⟨c, hc, hn⟩, hb⟩)
      · exact .inr ⟨c, hx, hn⟩

section Statements

variable {g : Node → List String} (hg : Gathers g) {t : Node} {body : List Node}
include hg

theorem Gathers.mem_appendToProgram (h : programBody? t = some body) :
    n ∈ g (appendToProgram xs t) ↔ n ∈ g t ∨ ∃ x ∈ xs, n ∈ g x := by
  refine ⟨hg.added, ?_⟩
  rintro (hn | ⟨x, hx, hn⟩)
  · exact hg.kept hn
  · obtain ⟨hp, hb⟩ := programBody?_eq_some.mp h
    rw [appendToProgram_eq]
    exact (hg.top (.inl hp)).mpr ⟨x, mem_toList_onBody_of_get? hb hx, hn⟩

/-- **The names of a program with more statements** are its names and those of the statements. -/
theorem Gathers.mem_appendStatements (h : statements? t = some body) :
    n ∈ g (appendStatements xs t) ↔ n ∈ g t ∨ ∃ x ∈ xs, n ∈ g x := by
  rw [appendStatements_eq]
  rcases statements?_eq_some.mp h with ⟨hf, hb⟩ | ⟨hf, p, hp, hb⟩
  · rw [if_neg (by rw [hf]; exact Bool.false_ne_true)]
    exact hg.mem_appendToProgram hb
  obtain ⟨_, k, s⟩ := t
  rw [Tree.head_mk] at hf
  rw [Tree.head_mk, if_pos hf, hg.top (.inr hf), hg.top (.inr hf), Tree.slots_mk]
  constructor
  · rintro ⟨c', hc', hn⟩
    obtain ⟨e', he', hc'⟩ := Slots.mem_toList.mp hc'
    obtain ⟨e, he, rfl⟩ := List.mem_map.mp he'
    rcases onProgram_cases e with ⟨q, rfl⟩ | hid
    · rw [List.mem_singleton.mp hc'] at hn
      refine (hg.added hn).imp_left fun hn => ⟨q, ?_, hn⟩
      exact Slots.mem_toList.mpr ⟨_, he, List.mem_singleton.mpr rfl⟩
    · rw [hid] at hc'
      exact .inl ⟨c', Slots.mem_toList.mpr ⟨e, he, hc'⟩, hn⟩
  · rintro (⟨c, hc, hn⟩ | hx)
    · obtain ⟨e, he, hc⟩ := Slots.mem_toList.mp hc
      rcases onProgram_cases e with ⟨q, rfl⟩ | hid
      · rw [List.mem_singleton.mp hc] at hn
        exact ⟨appendToProgram xs q, Slots.mem_toList.mpr ⟨_, List.mem_map_of_mem he,
          List.mem_singleton.mpr rfl⟩, hg.kept hn⟩
      · refine ⟨c, Slots.mem_toList.mpr ⟨_, List.mem_map_of_mem he, ?_⟩, hn⟩
        rw [hid]; exact hc
    · refine ⟨appendToProgram xs p, ?_, (hg.mem_appendToProgram hb).mpr (.inr hx)⟩
      exact Slots.mem_toList.mpr ⟨_, Slots.get?_mem (get?_map_onProgram (appendToProgram xs) hp),
        List.mem_singleton.mpr rfl⟩

end Statements

end Append

/-! ### Normalization and scope -/

/-- Of a definition its type has names to gather, but not the name that it defines. -/
theorem mem_definition {g : Node → List String} {x : Hoisted} {n : String}
    (hname : g (Source.ident x.name) = [])
    (hparts : n ∈ g x.definition ↔ ∃ c ∈ x.definition.slots.toList, n ∈ g c) :
    n ∈ g x.definition ↔ n ∈ g x.type := by
  rw [hparts]
  constructor
  · rintro ⟨c, hc, hn⟩
    rcases List.mem_pair.mp hc with rfl | rfl
    · rw [hname] at hn
      cases hn
    · exact hn
  · exact fun hn => ⟨x.type, List.mem_pair.mpr (.inr rfl), hn⟩

/-- A definition binds nothing and refers to what its type refers to. -/
theorem mem_free_definition {x : Hoisted} {n : String} :
    n ∈ free x.definition ↔ n ∈ free x.type := by
  refine mem_definition rfl (mem_free_mk.trans ⟨?_, fun hn => ⟨.inr hn, List.not_mem_nil⟩⟩)
  rintro ⟨hr | hn, -⟩
  · cases hr
  · exact hn

theorem mem_typeParameters_definition {x : Hoisted} {n : String} :
    n ∈ typeParameters x.definition ↔ n ∈ typeParameters x.type := by
  refine mem_definition rfl (mem_typeParameters_mk.trans ⟨?_, .inr⟩)
  rintro (hr | hn)
  · cases hr
  · exact hn

section Hoist

variable {t core : Node} {hoisted : List Hoisted} {body : List Node}
  (hrun : hoist t = (core, hoisted)) (hbody : statements? core = some body)
include hrun hbody

/-- Hoisting keeps the type parameters of a tree. -/
theorem mem_typeParameters_hoisted {n : String} :
    n ∈ typeParameters (appendStatements (hoisted.map Hoisted.definition) core) ↔
      n ∈ typeParameters t := by
  obtain ⟨st, hst, hreached, hhoists⟩ := run_hoist (carries_matches t.mentions)
  rw [hrun] at hst hhoists
  dsimp only at hst hhoists
  subst hst
  rw [gathers_typeParameters.mem_appendStatements hbody]
  simp only [List.mem_map, exists_exists_and_eq_and, mem_typeParameters_definition]
  constructor
  · rintro (hn | ⟨x, hx, hn⟩)
    · exact hhoists.related.parameters n hn
    · obtain ⟨around, F, hF, hm⟩ := hreached.fromTree x hx
      exact hF.typeParameters_subset (hm.parameters n hn)
  · exact hhoists.related.parameters_of n

theorem scoped_hoisted_iff (hs : Scoped t) :
    Scoped (appendStatements (hoisted.map Hoisted.definition) core) ↔ Liftable t := by
  unfold Scoped
  simp only [mem_typeParameters_hoisted hrun hbody]
  obtain ⟨st, hst, hreached, hhoists⟩ := run_hoist (carries_matches t.mentions)
  rw [hrun] at hst hhoists
  dsimp only at hst hhoists
  subst hst
  simp only [gathers_free.mem_appendStatements hbody, List.mem_map, exists_exists_and_eq_and,
    mem_free_definition]
  constructor
  · -- what a hoisted type refers to is free in the result
    intro hscoped around F hF n hn d hd hbound
    have hpar : n ∈ typeParameters t := hF.mem_typeParameters hd hbound
    obtain ⟨x, hx, hm⟩ := hhoists.all around F hF
    rcases hm.free_of n hn with hn | hn
    · exact hscoped n (.inr ⟨x, hx, hn⟩) hpar
    · exact hscoped n (.inr hn) hpar
  · rintro hlift n (hn | ⟨x, hx, hn⟩) hpar
    · exact hs n (hhoists.related.free n (mem_mentions_of_typeParameters hpar) hn) hpar
    · obtain ⟨around, F, hF, hm⟩ := hreached.fromTree x hx
      have hnF := hm.free n (mem_mentions_of_typeParameters hpar) hn
      rcases hF.free_or_bound hnF with hfree | ⟨d, hd, hbound⟩
      · exact hs n hfree hpar
      · exact hlift around F hF n hnF d hd hbound

end Hoist

/-- **Normalization keeps the references to type parameters in scope** for exactly the trees in
which no hoisted type refers to a type parameter of a declaration around it. -/
theorem scoped_normalize_iff {t : Node} (hw : t.WellFormed .source) (hb : hasBody t = true)
    (hs : Scoped t) : Scoped t.normalize.1 ↔ Liftable t := by
  obtain ⟨st, core, body, -, hnorm, hrun, -, hbody⟩ := normalize_eq hw hb
  rw [← scoped_clearOptional, ← clearOptional_markOptional, scoped_clearOptional] at hs
  rw [hnorm, ← liftable_clearOptional, ← clearOptional_markOptional, liftable_clearOptional]
  exact scoped_hoisted_iff hrun hbody hs

instance (t : Node) : Decidable (Scoped t) :=
  inferInstanceAs (Decidable (∀ n ∈ free t, n ∉ typeParameters t))

/-- `function f<T>(x: T, g: (A) => B) {}`, given the type `A`. -/
def genericFunction (argument : Node) : Node :=
  let parameter := Node.of .typeParameter [(.name, .text "T")]
    [(.bound, .maybe none), (.variance, .maybe none), (.default, .maybe none)]
  let callback := Source.functionType [Source.functionParam none argument] (Source.generic "B" [])
  Source.program
    [Node.of .functionDeclaration [(.isGenerator, .flag false), (.isAsync, .flag false)]
      [(.id, .maybe (some (Source.ident "f"))),
      (.typeParameters, .maybe (some (Node.of .typeParameterDeclaration []
        [(.params, .many [parameter])]))),
      (.params, .many [Source.typedIdent "x" (Source.generic "T" []),
        Source.typedIdent "g" callback]),
      (.returnType, .maybe none), (.predicate, .maybe none), (.body, .one (Source.block []))]]

theorem scoped_normalize_iff_genericFunction :
    Liftable (genericFunction (Source.generic "A" [])) ∧
      ¬ Liftable (genericFunction (Source.generic "T" [])) := by
  refine ⟨?_, fun h => ?_⟩
  · exact (scoped_normalize_iff (by decide +kernel) (by decide +kernel) (by decide +kernel)).mp
      (by decide +kernel)
  · have hscoped := (scoped_normalize_iff (by decide +kernel) (by decide +kernel)
      (by decide +kernel)).mpr h
    exact absurd hscoped (by decide +kernel)

/-- The type parameter of a generic function goes out of scope in a hoisted type. -/
theorem not_scoped_normalize_genericFunction : ¬ ∀ t : Node, t.WellFormed .source →
    hasBody t = true → Scoped t → Scoped t.normalize.1 := by
  intro h
  have hscoped := h (genericFunction (Source.generic "T" [])) (by decide +kernel)
    (by decide +kernel) (by decide +kernel)
  exact absurd hscoped (by decide +kernel)

end Typeshift.Normalize
