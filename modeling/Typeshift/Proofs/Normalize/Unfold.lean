import Typeshift.Proofs.Normalize.Run

/-! # Unfolding hoisted types

Hoisting is undone by putting every hoisted type back in the place of the references to its name,
the last one first.

* `unfoldAliases`: the tree with hoisted types put back.
* `carries_unfolds`: unfolding gives back what was hoisted. -/

namespace Typeshift.Normalize

/-! ### Putting types back -/

section Substitute

variable {ρ : Type}

/-- The name that a reference to a type gives, if it is a plain name. -/
def reference? (h : Head) (s : Slots ρ) : Option String :=
  if h.is .genericType then (s.child? .id).bind (·.head.identifier?) else none

/-- A type in the place of a reference to a name, given what becomes of the parts. -/
def substituteRule (name : String) (type : Node) (h : Head) (s : Slots Node) : Node :=
  if reference? h s = some name then type else .mk () h (s.mapTrees Tree.note)

/-- Put a type in the place of every reference to a name. -/
def substitute (name : String) (type : Node) (t : Node) : Node :=
  t.synthesize (substituteRule name type)

/-- **Put hoisted types back**, the last one first: it may refer to those before it. -/
def unfoldAliases (aliases : List Hoisted) (t : Node) : Node :=
  aliases.foldr (fun x t => substitute x.name x.type t) t

theorem unfoldAliases_append (xs ys : List Hoisted) (t : Node) :
    unfoldAliases (xs ++ ys) t = unfoldAliases xs (unfoldAliases ys t) :=
  List.foldr_append

theorem unfoldAliases_singleton (x : Hoisted) (t : Node) :
    unfoldAliases [x] t = substitute x.name x.type t := rfl

theorem reference?_mapTrees {σ : Type} {h : Head} {s : Slots ρ} {f : Tree ρ → Tree σ}
    (hf : ∀ t, (f t).head.identifier? = t.head.identifier?) :
    reference? h (s.mapTrees f) = reference? h s := by
  unfold reference?
  rw [Slots.child?_mapTrees]
  cases s.child? .id with
  | none => rfl
  | some c => simp only [Option.map_some, Option.bind_some, hf]

theorem mem_mentions_of_reference? {h : Head} {s : Slots Unit} {n : String}
    (hr : reference? h s = some n) : n ∈ Node.mentions (.mk () h s) := by
  unfold reference? at hr
  split_ifs at hr
  obtain ⟨c, hc, hn⟩ := Option.bind_eq_some_iff.mp hr
  refine Node.mem_mentions_mk.mpr (.inr ⟨c, Slots.child?_mem hc, ?_⟩)
  obtain ⟨_, k, s⟩ := c
  unfold Head.identifier? at hn
  split_ifs at hn with hk
  refine Node.mem_mentions_mk.mpr (.inl ?_)
  unfold Head.mention?
  rw [if_pos (by simp [Head.isAny, show k.is .identifier = true from hk])]
  exact hn

theorem substitute_mk (name : String) (type : Node) (h : Head) (s : Slots Unit) :
    substitute name type (.mk () h s) =
      if reference? h s = some name then type
      else .mk () h (s.mapTrees (substitute name type)) := by
  have hr : reference? h (Tree.annotateSlots (substituteRule name type) s) = reference? h s := by
    rw [Slots.annotateSlots_eq_mapTrees]
    exact reference?_mapTrees fun t => by rw [Tree.head_annotate]
  show substituteRule name type h (Tree.annotateSlots (substituteRule name type) s) = _
  rw [substituteRule, hr, Slots.mapTrees_note]
  rfl

/-- A tree that does not mention a name has no reference to it. -/
theorem substitute_of_not_mem {name : String} (type : Node) {t : Node}
    (h : name ∉ Node.mentions t) : substitute name type t = t := by
  induction t using Tree.induct with
  | step _ k s ih =>
    rw [substitute_mk, if_neg fun hr => h (mem_mentions_of_reference? hr)]
    have hs : s.mapTrees (substitute name type) = s.mapTrees fun t => t :=
      Slots.mapTrees_congr fun t ht =>
        ih t ht fun hm => h (Node.mem_mentions_mk.mpr (.inr ⟨t, ht, hm⟩))
    rw [hs, Slots.mapTrees_id]

theorem identifier?_substitute {name : String} {type : Node}
    (hf : type.head.is .functionType = true) (t : Node) :
    (substitute name type t).head.identifier? = t.head.identifier? := by
  obtain ⟨_, h, s⟩ := t
  rw [substitute_mk]
  split_ifs with hr
  · have hg : h.is .genericType = true := by
      unfold reference? at hr
      split_ifs at hr with hg
      exact hg
    simp only [Head.is, beq_iff_eq] at hf hg
    simp [Head.identifier?, Head.is, hf, hg]
  · rfl

theorem identifier?_unfoldAliases {xs : List Hoisted}
    (hf : ∀ x ∈ xs, x.type.head.is .functionType = true) (t : Node) :
    (unfoldAliases xs t).head.identifier? = t.head.identifier? := by
  induction xs with
  | nil => rfl
  | cons x rest ih =>
    have hr := ih fun y hy => hf y (List.mem_cons_of_mem x hy)
    exact (identifier?_substitute (hf x List.mem_cons_self) _).trans hr

/-- Unfolding goes on in the parts of a node that is no reference to a hoisted type. -/
theorem unfoldAliases_mk {xs : List Hoisted} (hf : ∀ x ∈ xs, x.type.head.is .functionType = true)
    {h : Head} {s : Slots Unit} (hr : ∀ x ∈ xs, reference? h s ≠ some x.name) :
    unfoldAliases xs (.mk () h s) = .mk () h (s.mapTrees (unfoldAliases xs)) := by
  induction xs with
  | nil => exact congrArg (Tree.mk () h) Slots.mapTrees_id.symm
  | cons x rest ih =>
    have hrest : ∀ y ∈ rest, y.type.head.is .functionType = true :=
      fun y hy => hf y (List.mem_cons_of_mem x hy)
    have hih := ih hrest fun y hy => hr y (List.mem_cons_of_mem x hy)
    show substitute x.name x.type (unfoldAliases rest (.mk () h s)) = _
    rw [hih, substitute_mk, reference?_mapTrees (identifier?_unfoldAliases hrest),
      if_neg (hr x List.mem_cons_self)]
    exact congrArg (Tree.mk () h) (Slots.mapTrees_mapTrees _ _)

end Substitute

/-! ### Hoisting unfolds -/

section Unfolds

variable {st st' : Hoisting} {t t' : Node}

/-- A hoisted node mentions names in use, and unfolds to the node it was made from. -/
def Unfolds (st : Hoisting) (t t' : Node) : Prop :=
  unfoldAliases st.hoisted t' = t ∧ Known st t'

/-- Types that are hoisted later do not matter. -/
theorem Unfolds.lifts (h : Unfolds st t t') (hrun : Lifts st st') : Unfolds st' t t' := by
  refine ⟨?_, h.2.lifts hrun⟩
  induction hrun with
  | refl => exact h.1
  | @lift st' run type _ _ ih =>
    have hfree : st'.names.freshName baseName ∉ Node.mentions t' := by
      intro hm
      have hused := h.2.lifts run _ hm
      rw [Names.contains_freshName] at hused
      cases hused
    unfold Hoisting.lifted
    rw [unfoldAliases_append, unfoldAliases_singleton, substitute_of_not_mem type hfree]
    exact ih

/-- A hoisted type unfolds from the reference in its place. -/
theorem Unfolds.lifted (h : Unfolds st t t') (span : Option Span) :
    Unfolds (st.lifted t') t
      ((Source.generic (st.names.freshName baseName) []).withSpan span) := by
  refine ⟨?_, known_reference t' span⟩
  have hsub : substitute (st.names.freshName baseName) t'
      ((Source.generic (st.names.freshName baseName) []).withSpan span) = t' := by
    show substitute _ _ (.mk () _ _) = _
    rw [substitute_mk]
    exact if_pos rfl
  unfold Hoisting.lifted
  rw [unfoldAliases_append, unfoldAliases_singleton]
  dsimp only
  rw [hsub]
  exact h.1

theorem unfolds_mk {T : List String} (hst : Supply T st) {h : Head} {s s' : Slots Unit}
    (hT : ∀ n ∈ Node.mentions (.mk () h s), n ∈ T) (hrel : s.Rel (Unfolds st) s') :
    Unfolds st (.mk () h s) (.mk () h s') := by
  have hunfold : s'.mapTrees (unfoldAliases st.hoisted) = s := by
    rw [Slots.Rel.mapTrees_eq (g := fun t => t) (hrel.imp fun _ _ h => h.1), Slots.mapTrees_id]
  have href : reference? h s' = reference? h s := by
    rw [← hunfold]
    exact (reference?_mapTrees (identifier?_unfoldAliases hst.function)).symm
  refine ⟨?_, known_mk hst hT (hrel.imp fun _ _ h => h.2)⟩
  rw [unfoldAliases_mk hst.function, hunfold]
  intro x hx hr
  rw [href] at hr
  exact hst.fresh x hx (hT _ (mem_mentions_of_reference? hr))

/-- **Unfolding gives back what was hoisted.** -/
theorem carries_unfolds (T : List String) : Carries T Unfolds where
  lasting _ _ _ _ hrun h := h.lifts hrun
  node hst hT hrel := unfolds_mk hst hT hrel
  lift span _ _ h := h.lifted span

end Unfolds

/-- What unfolds to something else than a function type was not hoisted. -/
theorem unfoldAliases_eq_mk {xs : List Hoisted}
    (hf : ∀ x ∈ xs, x.type.head.is .functionType = true) {t : Node} {h : Head} {s : Slots Unit}
    (hn : h.is .functionType = false) (ht : unfoldAliases xs t = .mk () h s) :
    t.head = h ∧ t.slots.mapTrees (unfoldAliases xs) = s := by
  induction xs generalizing s with
  | nil =>
    obtain ⟨_, k, s'⟩ := t
    cases ht
    exact ⟨rfl, Slots.mapTrees_id⟩
  | cons x rest ih =>
    have hrest : ∀ y ∈ rest, y.type.head.is .functionType = true :=
      fun y hy => hf y (List.mem_cons_of_mem x hy)
    change substitute x.name x.type (unfoldAliases rest t) = _ at ht
    rcases hu : unfoldAliases rest t with ⟨_, k, s'⟩
    rw [hu, substitute_mk] at ht
    split_ifs at ht
    · have hx := hf x List.mem_cons_self
      rw [ht, Tree.head_mk, hn] at hx
      cases hx
    · cases ht
      obtain ⟨hk, hs⟩ := ih hrest hu
      refine ⟨hk, ?_⟩
      rw [← hs, Slots.mapTrees_mapTrees]
      rfl

end Typeshift.Normalize
