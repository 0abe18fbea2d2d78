import Typeshift.Normalize.Basic
import Typeshift.Proofs.Ensures
import Typeshift.Proofs.Grammar.Placement
import Typeshift.Proofs.Normalize.Scope

/-! # Normalization keeps trees grammatical

Marking changes flags that grammar does not look at. Hoisting replaces function types by references,
but not where a function type has to stand, and the definitions it appends are grammatical.

* `every_stands_normalize`: a normalized tree stands as the tree did, and its root is the same
  construct. -/

namespace Typeshift.Normalize

/-! ### Marking -/

theorem similar_markedHead (h : Head) (c : Bool) : Similar h (markedHead (h, c)) := by
  unfold markedHead
  split_ifs
  · refine ⟨rfl, ?_, ?_⟩
    · unfold Head.word?
      rw [Head.attr?_setAttr_of_ne _ (by decide)]
    · unfold Head.flag
      rw [Head.attr?_setAttr_of_ne _ (by decide)]
  · exact .refl _

/-- Marking a node marks its parts, and changes its head only in what grammar does not see. -/
theorem exists_markAt (b : Bool) (h : Head) (s : Slots Unit) :
    ∃ h', Similar h h' ∧ (markAt b (.mk () h s)).node = .mk () h' (markedSlots h s) := by
  unfold markAt
  rw [markOptional_mk, markIf_mk, markIf_mk]
  exact ⟨_, (similar_markedHead h _).trans (similar_markedHead _ _), rfl⟩

theorem relIn_markedSlots {R : Field → Node → Node → Prop} {h : Head} {s : Slots Unit}
    (hR : ∀ c ∈ s.toList, ∀ b f, R f c (markAt b c).node) : s.RelIn R (markedSlots h s) := by
  unfold Slots.RelIn markedSlots
  rw [List.forall₂_map_right_iff, List.forall₂_same]
  intro e he
  exact ⟨rfl, Slot.rel_map fun c hc => hR c (Slots.mem_toList.mpr ⟨e, he, hc⟩) _ _⟩

theorem face_markAt (t : Node) (b : Bool) (p : Position) : Face p t (markAt b t).node := by
  induction t using Tree.induct generalizing b p with
  | step _ h s ih =>
    obtain ⟨h', hh, heq⟩ := exists_markAt b h s
    rw [heq]
    exact face_mk hh (relIn_markedSlots fun c hc b f => ih c hc b _) () ()

theorem every_stands_markAt {t : Node} (ht : t.Every Stands) (b : Bool) :
    (markAt b t).node.Every Stands := by
  induction t using Tree.induct generalizing b with
  | step _ h s ih =>
    cases ht with
    | mk here below =>
      obtain ⟨h', hh, heq⟩ := exists_markAt b h s
      rw [heq]
      refine .mk (here.transport (p := .other) hh (relIn_markedSlots fun c _ b f => ?_)) ?_
      · exact face_markAt c b _
      · intro c' hc'
        obtain ⟨c, -, hmem, b, rfl⟩ := (rel_markedSlots h s).mem_right hc'
        exact ih c hmem (below c hmem) b

/-! ### Hoisting -/

/-- What hoisting makes of a node at a position has its face, and stands as it should. -/
def Becomes (p : Position) (t t' : Node) : Prop := Face p t t' ∧ t'.Every Stands

/-- The hoisted types stand as they should. -/
def HoistedStand (st : Hoisting) : Prop :=
  ∀ x ∈ st.hoisted, x.type.Every Stands ∧ x.type.head.is .functionType = true

theorem every_stands_ident (name : String) : (Source.ident name).Every Stands := by
  refine .mk ⟨⟨rfl, ?_, rfl⟩, hasRequired_of_all (t := .identifier) rfl rfl⟩ ?_
  · simp [Slot.toList]
  · simp [Slot.toList]

/-- The reference in the place of a hoisted type. -/
theorem every_stands_reference (name : String) (span : Option Span) :
    ((Source.generic name []).withSpan span).Every Stands := by
  refine .mk ⟨⟨rfl, ?_, rfl⟩, hasRequired_of_all (t := .genericType) rfl rfl⟩ ?_
  · refine List.forall_mem_cons.mpr ⟨fun c hc => ?_, ?_⟩
    · rw [List.mem_singleton.mp hc]; rfl
    · simp [Slot.toList]
  · intro c hc
    have hc : c = Source.ident name := by simpa [Slot.toList] using hc
    rw [hc]
    exact every_stands_ident name

/-- The reference that takes the place of a function type has the face of one. -/
theorem face_reference {t : Node} (ht : t.head.is .functionType = true) (name : String)
    (span : Option Span) : Face .other t ((Source.generic name []).withSpan span) := by
  have htag : t.head.tag? = some .functionType := by simpa [Head.is] using ht
  have hexports : isExportsBlock t = false := by
    unfold isExportsBlock Head.is
    rw [htag]
    rfl
  refine ⟨.inr ⟨rfl, htag, rfl⟩, hexports.symm, fun _ => rfl, fun h => ?_, fun h => ?_⟩
  · cases h
  · cases h

/-- **Hoisting keeps the face of a node**, and what it makes stands as it should. -/
theorem ensures_hoist {t : Node} (ht : t.Every Stands) (p : Position) :
    Ensures HoistedStand (t.synthesize hoistRule p) (Becomes p t) := by
  induction t using Tree.induct generalizing p with
  | step _ h s ih =>
    obtain ⟨here, below⟩ : Stands h s ∧ ∀ c ∈ s.toList, Node.Every Stands c := by
      cases ht with
      | mk here below => exact ⟨here, below⟩
    intro st hst
    have hparts : ∀ e ∈ s, ∀ c ∈ e.2.toList, Ensures HoistedStand
        (c.synthesize hoistRule (p.child h e.1)) (Becomes (p.child h e.1) c) := by
      intro e he c hc
      have hmem : c ∈ s.toList := Slots.mem_toList.mpr ⟨e, he, hc⟩
      exact ih c hmem (below c hmem) (p.child h e.1)
    obtain ⟨hst', hrel⟩ :=
      ensures_hoistSlots (R := fun f => Becomes (p.child h f)) hparts st hst
    rw [Tree.synthesize_mk, hoistRule_eq]
    generalize hoistSlots (p.child h) (Tree.annotateSlots hoistRule s) st = r at hst' hrel
    obtain ⟨s', st'⟩ := r
    dsimp only at hst' hrel ⊢
    have hfaces : s.RelIn (fun f => Face (p.child h f)) s' :=
      List.Forall₂.imp (fun _ _ he => ⟨he.1, he.2.imp fun _ _ hc => hc.1⟩) hrel
    have hnode : Node.Every Stands (.mk () h s') := by
      refine .mk (here.transport (.refl h) hfaces) fun c' hc' => ?_
      obtain ⟨e', he', hc'⟩ := Slots.mem_toList.mp hc'
      obtain ⟨_, _, _, _, _, hbecomes⟩ := hrel.mem_right he' hc'
      exact hbecomes.2
    split_ifs with hlift
    · obtain ⟨hf, hp⟩ := Bool.and_eq_true_iff.mp hlift
      obtain rfl : p = .other := of_decide_eq_true hp
      refine ⟨fun x hx => ?_, face_reference (t := .mk () h s) hf _ _, every_stands_reference _ _⟩
      rcases List.mem_append.mp hx with hx | hx
      · exact hst' x hx
      · rw [List.mem_singleton.mp hx]
        exact ⟨hnode, hf⟩
    · exact ⟨hst', face_mk (.refl h) hfaces () (), hnode⟩

/-! ### Appended definitions -/

theorem every_stands_definition {x : Hoisted} (hx : x.type.Every Stands)
    (hf : x.type.head.is .functionType = true) : x.definition.Every Stands := by
  have htag : x.type.head.tag? = some .functionType := by simpa [Head.is] using hf
  have hslots : x.definition = .mk () (Head.ofTag .typeAlias []) [(.id, .one (Source.ident x.name)),
    (.typeParameters, .maybe none), (.right, .one x.type)] := rfl
  rw [hslots]
  refine .mk ⟨⟨rfl, ?_, rfl⟩, hasRequired_of_all (t := .typeAlias) rfl rfl⟩ ?_
  · refine List.forall_mem_cons.mpr ⟨fun c hc => ?_, ?_⟩
    · rw [List.mem_singleton.mp hc]; rfl
    · simp [Slot.toList, mayStand, isExportsBlock, Head.is, htag]
  · intro c hc
    have hc : c = Source.ident x.name ∨ c = x.type := by simpa [Slot.toList] using hc
    rcases hc with rfl | rfl
    · exact every_stands_ident x.name
    · exact hx

theorem relIn_onProgram {R : Field → Node → Node → Prop} {g : Node → Node} {s : Slots Unit}
    (h : ∀ c ∈ s.toList, ∀ f, R f c c ∧ R f c (g c)) : s.RelIn R (s.map (onProgram g)) := by
  unfold Slots.RelIn
  rw [List.forall₂_map_right_iff, List.forall₂_same]
  intro e he
  rcases onProgram_cases e with ⟨p, rfl⟩ | hid
  · exact ⟨rfl, .one (h p (Slots.mem_toList.mpr ⟨_, he, List.mem_singleton_self p⟩) _).2⟩
  · rw [hid]
    exact ⟨rfl, Slot.rel_refl fun c hc => (h c (Slots.mem_toList.mpr ⟨e, he, hc⟩) _).1⟩

section Append

variable {xs : List Node} {h : Head} {s : Slots Unit}

theorem child?_onBody (g : List Node → List Node) (f : Field) :
    Slots.child? (s.map (onBody g)) f = s.child? f := by
  unfold Slots.child? Slots.get?
  induction s with
  | nil => rfl
  | cons e s ih =>
    rw [List.map_cons]
    rcases onBody_cases e with ⟨body, rfl⟩ | he
    · simp only [onBody, List.lookup_cons]
      cases f == .body with
      | true => rfl
      | false => exact ih
    · rw [he, List.lookup_cons, List.lookup_cons]
      cases f == e.1 with
      | true => rfl
      | false => exact ih

theorem children_onBody_of_ne (g : List Node → List Node) {f : Field} (hf : f ≠ .body) :
    Slots.children (s.map (onBody g)) f = s.children f := by
  unfold Slots.children
  rw [get?_map_onBody_of_ne hf]

theorem get?_body_onBody (xs : List Node) (s : Slots Unit) :
    Slots.get? (s.map (onBody (· ++ xs))) .body = s.get? .body ∨
    ∃ body, s.get? .body = some (.many body) ∧
      Slots.get? (s.map (onBody (· ++ xs))) .body = some (.many (body ++ xs)) := by
  unfold Slots.get?
  induction s with
  | nil => exact .inl rfl
  | cons e s ih =>
    rw [List.map_cons]
    rcases onBody_cases e with ⟨body, rfl⟩ | he
    · exact .inr ⟨body, rfl, rfl⟩
    · rw [he, List.lookup_cons, List.lookup_cons]
      cases Field.body == e.1 with
      | true => exact .inl rfl
      | false => exact ih

variable (hxs : ∀ x ∈ xs, x.head.is .typeAlias = true)
include hxs

/-- An alias may stand anywhere. -/
theorem mayStand_of_mem {x : Node} (hx : x ∈ xs) (f : Field) : mayStand h f x = true := by
  have htag : x.head.tag? = some .typeAlias := by simpa [Head.is] using hxs x hx
  unfold mayStand isExportsBlock Head.is
  rw [htag]
  rfl

theorem isExportsBlock_append (t : Node) :
    isExportsBlock (appendToProgram xs t) = isExportsBlock t := by
  obtain ⟨_, h, s⟩ := t
  rw [appendToProgram_eq]
  unfold isExportsBlock
  simp only [Tree.head_mk, Tree.slots_mk]
  rcases get?_body_onBody xs s with hget | ⟨body, hget, hget'⟩
  · rw [hget]
  · have hnone : xs.any (·.head.is .declareModuleExports) = false := by
      rw [List.any_eq_false]
      intro x hx
      have htag : x.head.tag? = some .typeAlias := by simpa [Head.is] using hxs x hx
      simp [Head.is, htag]
    rw [hget, hget', Option.any_some, Option.any_some]
    simp only [Slot.toList, List.any_append, hnone, Bool.or_false]

theorem face_append (p : Position) (t : Node) : Face p t (appendToProgram xs t) := by
  have hexports := isExportsBlock_append hxs t
  obtain ⟨_, h, s⟩ := t
  rw [appendToProgram_eq] at hexports ⊢
  refine ⟨.inl rfl, hexports, fun hp => ?_, fun _ ha => ?_, fun _ ha => ?_⟩
  · unfold hasPlainProperties at hp ⊢
    simp only [Tree.head_mk, Tree.slots_mk] at hp ⊢
    rwa [children_onBody_of_ne _ (by decide)]
  · unfold ascribesFunction at ha ⊢
    simp only [Tree.head_mk, Tree.slots_mk] at ha ⊢
    rwa [child?_onBody]
  · unfold declaresFunction at ha ⊢
    simp only [Tree.head_mk, Tree.slots_mk] at ha ⊢
    rwa [child?_onBody]

theorem every_stands_appendToProgram (hstand : ∀ x ∈ xs, x.Every Stands) {t : Node}
    (ht : t.Every Stands) : (appendToProgram xs t).Every Stands := by
  cases ht with
  | @mk h s here below =>
    rw [appendToProgram_eq]
    refine .mk ⟨⟨here.grammatical.1, fun e he c hc => ?_, ?_⟩, ?_⟩ fun c hc => ?_
    · obtain ⟨e, he', rfl⟩ := List.mem_map.mp he
      have hold := here.grammatical.2.1 e he'
      rcases onBody_cases e with ⟨body, rfl⟩ | hid
      · exact (List.mem_append.mp hc).elim (hold c) fun hx => mayStand_of_mem hxs hx _
      · rw [hid] at hc ⊢
        exact hold c hc
    · have hown := here.grammatical.2.2
      unfold holdsOwn at hown ⊢
      simp only [Tree.head_mk, Tree.slots_mk, child?_onBody]
      exact hown
    · intro t ht spec hspec htype hp
      rw [Tree.slots_mk, child?_onBody]
      exact here.required t ht spec hspec htype hp
    · exact (mem_toList_onBody hc).elim (below c) (hstand c)

omit hxs in
theorem head_appendStatements (t : Node) : (appendStatements xs t).head = t.head := by
  rw [appendStatements_eq, appendToProgram_eq]
  split_ifs <;> rfl

/-- **Statements that are aliases may be appended.** -/
theorem every_stands_appendStatements (hstand : ∀ x ∈ xs, x.Every Stands) {t : Node}
    (ht : t.Every Stands) : (appendStatements xs t).Every Stands := by
  rw [appendStatements_eq]
  split_ifs with hfile
  · cases ht with
    | @mk h s here below =>
      refine .mk (here.transport (p := .other) (.refl h) (relIn_onProgram fun c _ f => ?_))
        fun c' hc' => ?_
      · exact ⟨.refl _ c, face_append hxs _ c⟩
      · obtain ⟨e', he', hc'⟩ := Slots.mem_toList.mp hc'
        have hrel := relIn_onProgram (R := fun _ _ c => c.Every Stands) fun c hc _ =>
          ⟨below c hc, every_stands_appendToProgram hxs hstand (below c hc)⟩
        obtain ⟨_, _, _, _, _, hevery⟩ := hrel.mem_right he' hc'
        exact hevery
  · exact every_stands_appendToProgram hxs hstand ht

end Append

/-! ### Normalization -/

/-- **A normalized tree stands as the tree did**, and function types apart its root is the same
construct. -/
theorem every_stands_normalize {t : Node} (ht : t.Every Stands) : t.normalize.1.Every Stands ∧
    ∀ tag, tag ≠ .functionType → tag ≠ .genericType →
      t.normalize.1.head.is tag = t.head.is tag := by
  have hmarked : (markOptional t).node.Every Stands := every_stands_markAt ht false
  have hface : Face .other t (markOptional t).node := face_markAt t false .other
  unfold Node.normalize
  split_ifs with hbody
  · obtain ⟨hst, hface', hnode⟩ :=
      ensures_hoist hmarked .other ⟨(markOptional t).node.names, []⟩ nofun
    refine ⟨every_stands_appendStatements ?_ ?_ hnode, fun tag hf hg => ?_⟩
    · intro x hx
      obtain ⟨x, -, rfl⟩ := List.mem_map.mp hx
      rfl
    · intro x hx
      obtain ⟨x, hmem, rfl⟩ := List.mem_map.mp hx
      exact every_stands_definition (hst x hmem).1 (hst x hmem).2
    · rw [← hface.is_eq hf hg, ← hface'.is_eq hf hg]
      exact congrArg (Head.is · tag) (head_appendStatements _)
  · exact ⟨hmarked, fun tag hf hg => hface.is_eq hf hg⟩

end Typeshift.Normalize
