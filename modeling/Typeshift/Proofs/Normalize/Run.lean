import Mathlib.Tactic.SplitIfs
import Typeshift.Normalize.Hoist
import Typeshift.Proofs.Ensures
import Typeshift.Proofs.Names
import Typeshift.Proofs.Tree.Slots

/-! # Runs of hoisting

Hoisting goes through a tree and lifts one function type after the other out of it. What a pass
over the tree keeps is said once, for a relation between a node and what becomes of it.

* `Lifts`: a run of hoisting, one type after the other.
* `Supply`: what the state of a run says about the names given out.
* `HoistedIn`: the function types of a tree that are hoisted, with the nodes around them.
* `Carries`: a relation that holds of a node if it holds of its parts, and of a lifted type.
* `run_hoist`: such a relation holds of a tree and what hoisting makes of it, and the hoisted types
  are related to those that stand in the tree. -/

namespace Typeshift.Normalize

/-! ### A run of hoisting -/

/-- The state after hoisting one more type. -/
def Hoisting.lifted (st : Hoisting) (type : Node) : Hoisting :=
  ⟨(st.names.fresh baseName).2, st.hoisted ++ [⟨st.names.freshName baseName, type⟩]⟩

/-- **A run of hoisting**: function types are hoisted one after the other, and each one mentions
names in use only. -/
inductive Lifts : Hoisting → Hoisting → Prop where
  | refl (st : Hoisting) : Lifts st st
  | lift {st st' : Hoisting} (run : Lifts st st') {type : Node}
      (function : type.head.is .functionType = true)
      (known : ∀ n ∈ Node.mentions type, st'.names.contains n = true) : Lifts st (st'.lifted type)

theorem Lifts.trans {a b c : Hoisting} (h : Lifts a b) (h' : Lifts b c) : Lifts a c := by
  induction h' with
  | refl => exact h
  | lift _ function known ih => exact ih.lift function known

/-- **The names given out** to the types hoisted so far, beside the names `T` of the tree. -/
structure Supply (T : List String) (st : Hoisting) : Prop where
  contains : ∀ n, st.names.contains n = true ↔ n ∈ T ∨ n ∈ st.hoisted.map Hoisted.name
  fresh : ∀ x ∈ st.hoisted, x.name ∉ T
  nodup : (st.hoisted.map Hoisted.name).Nodup
  function : ∀ x ∈ st.hoisted, x.type.head.is .functionType = true
  /-- A hoisted type mentions names of the tree and of types hoisted before it. -/
  earlier : ∀ before x after, st.hoisted = before ++ x :: after →
    ∀ n ∈ Node.mentions x.type, n ∈ T ∨ n ∈ before.map Hoisted.name

section Supply

variable {T : List String} {st st' : Hoisting}

theorem supply_start (t : Node) : Supply t.mentions ⟨t.names, []⟩ where
  contains n := by rw [Node.contains_names]; simp
  fresh x hx := by cases hx
  nodup := List.nodup_nil
  function x hx := by cases hx
  earlier before x after h := by simp at h

theorem Supply.not_mem_freshName (h : Supply T st) (base : String) :
    st.names.freshName base ∉ T ∧ st.names.freshName base ∉ st.hoisted.map Hoisted.name := by
  have hfree := Names.contains_freshName st.names base
  refine ⟨fun hT => ?_, fun hH => ?_⟩
  · rw [(h.contains _).mpr (.inl hT)] at hfree; cases hfree
  · rw [(h.contains _).mpr (.inr hH)] at hfree; cases hfree

theorem Supply.lifted (h : Supply T st) {type : Node} (hf : type.head.is .functionType = true)
    (hk : ∀ n ∈ Node.mentions type, st.names.contains n = true) : Supply T (st.lifted type) where
  contains n := by
    unfold Hoisting.lifted
    dsimp only
    rw [Names.contains_fresh_snd, Bool.or_eq_true, h.contains, beq_iff_eq]
    simp [or_assoc]
  fresh x hx := by
    rcases List.mem_append.mp hx with hx | hx
    · exact h.fresh x hx
    · rw [List.mem_singleton.mp hx]; exact (h.not_mem_freshName baseName).1
  nodup := by
    unfold Hoisting.lifted
    rw [List.map_append, List.nodup_append]
    refine ⟨h.nodup, by simp, ?_⟩
    rintro a ha b hb rfl
    rw [List.map_singleton, List.mem_singleton] at hb
    rw [show a = st.names.freshName baseName from hb] at ha
    exact (h.not_mem_freshName baseName).2 ha
  function x hx := by
    rcases List.mem_append.mp hx with hx | hx
    · exact h.function x hx
    · rw [List.mem_singleton.mp hx]; exact hf
  earlier before x after heq n hn := by
    change st.hoisted ++ [_] = before ++ x :: after at heq
    rcases List.eq_nil_or_concat after with rfl | ⟨init, last, rfl⟩
    · obtain ⟨rfl, hx⟩ := List.append_inj' heq rfl
      cases hx
      exact (h.contains n).mp (hk n hn)
    · rw [List.concat_eq_append, ← List.cons_append, ← List.append_assoc] at heq
      obtain ⟨heq, -⟩ := List.append_inj' heq rfl
      exact h.earlier before x init heq n hn

theorem Supply.lifts (h : Supply T st) (hrun : Lifts st st') : Supply T st' := by
  induction hrun with
  | refl => exact h
  | lift _ function known ih => exact ih.lifted function known

end Supply

/-! ### Hoisting is a run -/

section Run

variable {α β : Type} {I : Hoisting → Prop} {R : Hoisting → α → β → Prop}

/-- From every state with an invariant, a step goes on with the run, keeps the invariant, and gives
a result that is related to `a`. -/
def Continues (I : Hoisting → Prop) (R : Hoisting → α → β → Prop) (a : α)
    (p : StateM Hoisting β) : Prop :=
  ∀ st, I st → Lifts st (p st).2 ∧ I (p st).2 ∧ R (p st).2 a (p st).1

/-- A relation that holds on when more types are hoisted. -/
def Lasting (R : Hoisting → α → β → Prop) : Prop :=
  ∀ st st' a b, Lifts st st' → R st a b → R st' a b

theorem continues_mapM (hR : Lasting R) {g : α → StateM Hoisting β} : ∀ {as : List α},
    (∀ a ∈ as, Continues I R a (g a)) →
      Continues I (fun st => List.Forall₂ (R st)) as (as.mapM g)
  | [], _, st, hst => ⟨.refl st, hst, by rw [List.mapM_nil]; exact .nil⟩
  | a :: as, h, st, hst => by
    rw [List.mapM_cons]
    obtain ⟨hrun, hst', ha⟩ := h a List.mem_cons_self st hst
    have hrest := continues_mapM hR fun b hb => h b (List.mem_cons_of_mem a hb)
    obtain ⟨hrun', hst'', has⟩ := hrest (g a st).2 hst'
    exact ⟨hrun.trans hrun', hst'', .cons (hR _ _ _ _ hrun' ha) has⟩

theorem continues_slot (hR : Lasting R) {g : α → StateM Hoisting β} {slot : Slot α}
    (h : ∀ a ∈ slot.toList, Continues I R a (g a)) :
    Continues I (fun st => Slot.Rel (R st)) slot (slot.mapM g) := by
  intro st hst
  cases slot with
  | one a =>
    obtain ⟨hrun, hst', ha⟩ := h a (by simp [Slot.toList]) st hst
    exact ⟨hrun, hst', .one ha⟩
  | maybe a =>
    cases a with
    | none => exact ⟨.refl st, hst, .maybe .none⟩
    | some a =>
      obtain ⟨hrun, hst', ha⟩ := h a (by simp [Slot.toList]) st hst
      exact ⟨hrun, hst', .maybe (.some ha)⟩
  | many as =>
    obtain ⟨hrun, hst', has⟩ := continues_mapM hR h st hst
    exact ⟨hrun, hst', .many has⟩
  | holes as =>
    have hlasting : Lasting fun st => Option.Rel (R st) := by
      rintro st st' _ _ hrun (h | _)
      · exact .some (hR _ _ _ _ hrun h)
      · exact .none
    let step (a : Option α) : StateM Hoisting (Option β) :=
      a.elim (pure none) fun a => return some (← g a)
    have hmap : (Slot.holes as).mapM g = (do return .holes (← as.mapM step)) := by
      simp only [Slot.mapM]
      congr 2
      funext a
      cases a <;> rfl
    have hstep : ∀ a ∈ as, Continues I (fun st => Option.Rel (R st)) a (step a) := by
      intro a ha st hst
      cases a with
      | none => exact ⟨.refl st, hst, .none⟩
      | some a =>
        obtain ⟨hrun, hst', hab⟩ := h a (by simpa [Slot.toList] using ha) st hst
        exact ⟨hrun, hst', .some hab⟩
    obtain ⟨hrun, hst', has⟩ := continues_mapM hlasting hstep st hst
    rw [hmap]
    exact ⟨hrun, hst', .holes has⟩

end Run

/-- Hoist the slots of a node, each at its own position. -/
def hoistSlots (position : Field → Position) (s : Slots (Position → StateM Hoisting Node)) :
    StateM Hoisting (Slots Unit) :=
  s.mapM fun (f, slot) => do return (f, ← slot.mapM fun t => t.note (position f))

/-- The same fields with slots whose children are related, each at its own position. -/
def RelAt (position : Field → Position) (R : Position → Node → Node → Prop) (s s' : Slots Unit) :
    Prop :=
  List.Forall₂ (fun e e' => e.1 = e'.1 ∧ Slot.Rel (R (position e.1)) e.2 e'.2) s s'

theorem RelAt.rel {position : Field → Position} {R : Position → Node → Node → Prop}
    {S : Node → Node → Prop} {s s' : Slots Unit} (h : RelAt position R s s')
    (hRS : ∀ p a b, R p a b → S a b) : s.Rel S s' :=
  List.Forall₂.imp (fun _ _ he => ⟨he.1, he.2.imp (hRS _)⟩) h

theorem RelAt.mem_left {position : Field → Position} {R : Position → Node → Node → Prop}
    {s s' : Slots Unit} (h : RelAt position R s s') {e : Field × Slot Node} {c : Node} (he : e ∈ s)
    (hc : c ∈ e.2.toList) : ∃ c', R (position e.1) c c' := by
  induction h with
  | nil => cases he
  | cons hee _ ih =>
    rcases List.mem_cons.mp he with rfl | he
    · exact hee.2.mem_left hc
    · exact ih he

theorem continues_slots {I : Hoisting → Prop} {R : Hoisting → Position → Node → Node → Prop}
    (hR : ∀ p, Lasting fun st => R st p) {position : Field → Position} {s : Slots Unit}
    (h : ∀ e ∈ s, ∀ t ∈ e.2.toList,
      Continues I (fun st => R st (position e.1)) t (t.synthesize hoistRule (position e.1))) :
    Continues I (fun st => RelAt position (R st)) s
      (hoistSlots position (Tree.annotateSlots hoistRule s)) := by
  unfold hoistSlots
  rw [Slots.annotateSlots_eq_mapTrees]
  unfold Slots.mapTrees
  rw [List.mapM_map]
  refine continues_mapM (R := fun st (e e' : Field × Slot Node) =>
      e.1 = e'.1 ∧ Slot.Rel (R st (position e.1)) e.2 e'.2)
    (fun st st' _ _ hrun he => ⟨he.1, he.2.imp fun a b => hR _ st st' a b hrun⟩) ?_
  rintro ⟨f, slot⟩ he st hst
  have hmap : (slot.map (Tree.annotate hoistRule)).mapM (fun t => t.note (position f)) =
      slot.mapM fun t => t.synthesize hoistRule (position f) := Slot.mapM_map _ _ _
  have hslot := continues_slot (hR (position f))
    (g := fun t => t.synthesize hoistRule (position f)) (h _ he) st hst
  rw [← hmap] at hslot
  exact ⟨hslot.1, hslot.2.1, rfl, hslot.2.2⟩

/-- What hoisting ensures of the parts of a node, each at its own position. -/
theorem ensures_hoistSlots {I : Hoisting → Prop} {R : Field → Node → Node → Prop}
    {position : Field → Position} {s : Slots Unit}
    (h : ∀ e ∈ s, ∀ c ∈ e.2.toList,
      Ensures I (c.synthesize hoistRule (position e.1)) (R e.1 c)) :
    Ensures I (hoistSlots position (Tree.annotateSlots hoistRule s)) (s.RelIn R) := by
  unfold hoistSlots
  rw [Slots.annotateSlots_eq_mapTrees]
  unfold Slots.mapTrees
  rw [List.mapM_map]
  refine Ensures.mapM fun e he => ?_
  have hslot : Ensures I (e.2.mapM fun c => c.synthesize hoistRule (position e.1))
      (e.2.Rel (R e.1)) := .slotMapM (h e he)
  have hmap : (e.2.map (Tree.annotate hoistRule)).mapM (fun t => t.note (position e.1)) =
      e.2.mapM fun c => c.synthesize hoistRule (position e.1) := Slot.mapM_map _ _ _
  rw [← hmap] at hslot
  exact hslot.bind fun slot hrel => .pure ⟨rfl, hrel⟩

theorem hoistRule_eq (h : Head) (s : Slots (Position → StateM Hoisting Node)) (p : Position)
    (st : Hoisting) :
    hoistRule h s p st =
      if h.is .functionType && p = .other then
        lift (.mk () h (hoistSlots (p.child h) s st).1) (hoistSlots (p.child h) s st).2
      else (.mk () h (hoistSlots (p.child h) s st).1, (hoistSlots (p.child h) s st).2) := by
  split_ifs with hp
  · show (if _ then _ else _ : StateM Hoisting Node) _ = _
    rw [if_pos hp]
    rfl
  · show (if _ then _ else _ : StateM Hoisting Node) _ = _
    rw [if_neg hp]
    rfl

theorem mentions_generic (n : String) (span : Option Span) :
    Node.mentions ((Source.generic n []).withSpan span) = [n] := rfl


/-! ### What a run keeps -/

/-- A function type that stands in a tree where it is hoisted, and the nodes around it. -/
inductive HoistedIn : Position → Node → List Node → Node → Prop where
  | here {h : Head} {s : Slots Unit} (hf : h.is .functionType = true) :
    HoistedIn .other (.mk () h s) [] (.mk () h s)
  | inside {p : Position} {h : Head} {s : Slots Unit} {e : Field × Slot Node} {c F : Node}
      {around : List Node} (he : e ∈ s) (hc : c ∈ e.2.toList)
      (hF : HoistedIn (p.child h e.1) c around F) :
    HoistedIn p (.mk () h s) (.mk () h s :: around) F

/-- All names that a node mentions are in use. -/
def Known (st : Hoisting) (t : Node) : Prop := ∀ n ∈ Node.mentions t, st.names.contains n = true

/-- **A relation that hoisting carries** from the parts of a node to the node, and from a function
type to the reference in its place. -/
structure Carries (T : List String) (M : Hoisting → Node → Node → Prop) : Prop where
  lasting : Lasting M
  node : ∀ {st : Hoisting} {h : Head} {s s' : Slots Unit}, Supply T st →
    (∀ n ∈ Node.mentions (.mk () h s), n ∈ T) → s.Rel (M st) s' → M st (.mk () h s) (.mk () h s')
  lift : ∀ {st : Hoisting} {t t' : Node} (span : Option Span), Supply T st →
    t.head.is .functionType = true → M st t t' →
      M (st.lifted t') t ((Source.generic (st.names.freshName baseName) []).withSpan span)

/-- **The state of a run** over a tree: every hoisted type is related to one that stands in the
tree. -/
structure Reached (T : List String) (M : Hoisting → Node → Node → Prop) (root : Node)
    (st : Hoisting) : Prop where
  supply : Supply T st
  fromTree : ∀ x ∈ st.hoisted, ∃ around F, HoistedIn .other root around F ∧ M st F x.type

/-- **What hoisting makes of a node** at a position: something related to it, and every function
type that stands in it where it is hoisted is related to a hoisted one. -/
structure Hoists (M : Hoisting → Node → Node → Prop) (st : Hoisting) (p : Position) (t t' : Node) :
    Prop where
  related : M st t t'
  known : Known st t'
  all : ∀ around F, HoistedIn p t around F → ∃ x ∈ st.hoisted, M st F x.type

section Run

variable {T : List String} {M : Hoisting → Node → Node → Prop} {st st' : Hoisting}

theorem Lifts.mem (hrun : Lifts st st') {x : Hoisted} (hx : x ∈ st.hoisted) : x ∈ st'.hoisted := by
  induction hrun with
  | refl => exact hx
  | lift _ _ _ ih => exact List.mem_append.mpr (.inl ih)

theorem Known.lifts {t : Node} (h : Known st t) (hrun : Lifts st st') : Known st' t := by
  induction hrun with
  | refl => exact h
  | lift _ _ _ ih => exact fun n hn => Names.within_fresh _ _ n (ih n hn)

theorem Hoists.lifts (hM : Lasting M) {p : Position} {t t' : Node} (h : Hoists M st p t t')
    (hrun : Lifts st st') : Hoists M st' p t t' where
  related := hM _ _ _ _ hrun h.related
  known := h.known.lifts hrun
  all around F hF := by
    obtain ⟨x, hx, hxF⟩ := h.all around F hF
    exact ⟨x, hrun.mem hx, hM _ _ _ _ hrun hxF⟩

/-- A node that was made from known parts is known. -/
theorem known_mk (hst : Supply T st) {h : Head} {s s' : Slots Unit}
    (hT : ∀ n ∈ Node.mentions (.mk () h s), n ∈ T) (hrel : s.Rel (fun _ => Known st) s') :
    Known st (.mk () h s') := by
  intro n hn
  rcases Node.mem_mentions_mk.mp hn with hm | ⟨c', hc', hm⟩
  · exact (hst.contains n).mpr (.inl (hT n (Node.mem_mentions_mk.mpr (.inl hm))))
  · obtain ⟨c, -, hc⟩ := hrel.mem_right hc'
    exact hc n hm

theorem known_reference (t : Node) (span : Option Span) : Known (st.lifted t)
    ((Source.generic (st.names.freshName baseName) []).withSpan span) := by
  intro n hn
  rw [mentions_generic, List.mem_singleton] at hn
  show (st.names.fresh _).2.contains n = true
  rw [Names.contains_fresh_snd, hn]
  simp

/-- Hoisting the parts of a node that stays. -/
theorem hoists_mk (hM : Carries T M) (hst : Supply T st) {p : Position} {h : Head}
    {s s' : Slots Unit} (hT : ∀ n ∈ Node.mentions (.mk () h s), n ∈ T)
    (hrel : RelAt (p.child h) (Hoists M st) s s')
    (hp : ¬ (h.is .functionType && p = .other) = true) :
    Hoists M st p (.mk () h s) (.mk () h s') where
  related := hM.node hst hT (hrel.rel fun _ _ _ hc => hc.related)
  known := known_mk hst hT (hrel.rel fun _ _ _ hc => hc.known)
  all around F hF := by
    cases hF with
    | here hf => exact absurd (by simp [hf]) hp
    | inside he hc hF =>
      obtain ⟨c', hc'⟩ := hrel.mem_left he hc
      exact hc'.all _ F hF

/-- Hoisting the parts of a function type, and then the type. -/
theorem hoists_lifted (hM : Carries T M) (hst : Supply T st) {h : Head} {s s' : Slots Unit}
    (hT : ∀ n ∈ Node.mentions (.mk () h s), n ∈ T) (hf : h.is .functionType = true)
    (hrel : RelAt (Position.other.child h) (Hoists M st) s s') (span : Option Span) :
    Hoists M (st.lifted (.mk () h s')) .other (.mk () h s)
      ((Source.generic (st.names.freshName baseName) []).withSpan span) := by
  have hnode : M st (.mk () h s) (.mk () h s') :=
    hM.node hst hT (hrel.rel fun _ _ _ hc => hc.related)
  have hknown : Known st (.mk () h s') := known_mk hst hT (hrel.rel fun _ _ _ hc => hc.known)
  have hrun : Lifts st (st.lifted (.mk () h s')) := (Lifts.refl st).lift hf hknown
  refine ⟨hM.lift span hst hf hnode, known_reference _ span, fun around F hF => ?_⟩
  cases hF with
  | here => exact ⟨_, List.mem_append.mpr (.inr (List.mem_singleton.mpr rfl)),
      hM.lasting _ _ _ _ hrun hnode⟩
  | inside he hc hF =>
    obtain ⟨c', hc'⟩ := hrel.mem_left he hc
    exact (hc'.lifts hM.lasting hrun).all _ F hF

/-- One more type from the tree. -/
theorem Reached.lifted (hM : Carries T M) {root t' : Node} (hst : Reached T M root st)
    (hrun : Lifts st (st.lifted t')) {around : List Node} {F : Node}
    (hF : HoistedIn .other root around F) (hFt : M st F t') :
    Reached T M root (st.lifted t') where
  supply := hst.supply.lifts hrun
  fromTree x hx := by
    rcases List.mem_append.mp hx with hx | hx
    · obtain ⟨around', F', hF', hx'⟩ := hst.fromTree x hx
      exact ⟨around', F', hF', hM.lasting _ _ _ _ hrun hx'⟩
    · rw [List.mem_singleton.mp hx]
      exact ⟨around, F, hF, hM.lasting _ _ _ _ hrun hFt⟩

/-- **Hoisting a node goes on with the run.** -/
theorem continues_hoist (hM : Carries T M) {root t : Node} (hT : ∀ n ∈ Node.mentions t, n ∈ T)
    {p : Position} (hroot : ∀ around F, HoistedIn p t around F →
      ∃ around', HoistedIn .other root around' F) :
    Continues (Reached T M root) (fun st => Hoists M st p) t (t.synthesize hoistRule p) := by
  induction t using Tree.induct generalizing p with
  | step _ h s ih =>
    intro st hst
    rw [Tree.synthesize_mk, hoistRule_eq]
    have hparts : ∀ e ∈ s, ∀ c ∈ e.2.toList, Continues (Reached T M root)
        (fun st => Hoists M st (p.child h e.1)) c (c.synthesize hoistRule (p.child h e.1)) := by
      intro e he c hc
      have hmem : c ∈ s.toList := Slots.mem_toList.mpr ⟨e, he, hc⟩
      refine ih c hmem (fun n hn => hT n (Node.mem_mentions_mk.mpr (.inr ⟨c, hmem, hn⟩))) ?_
      exact fun around F hF => hroot _ F (.inside he hc hF)
    obtain ⟨hrun, hst', hrel⟩ := continues_slots
      (fun _ _ _ _ _ hrun hc => hc.lifts hM.lasting hrun) hparts st hst
    generalize hoistSlots (p.child h) (Tree.annotateSlots hoistRule s) st = r at hrun hst' hrel
    obtain ⟨s', st'⟩ := r
    dsimp only at hrun hst' hrel ⊢
    split_ifs with hp
    · obtain ⟨hf, hp⟩ := Bool.and_eq_true_iff.mp hp
      obtain rfl : p = .other := of_decide_eq_true hp
      have hnode := hM.node hst'.supply hT (hrel.rel fun _ _ _ hc => hc.related)
      have hlift : Lifts st' (st'.lifted (.mk () h s')) := (Lifts.refl st').lift hf
        (known_mk hst'.supply hT (hrel.rel fun _ _ _ hc => hc.known))
      obtain ⟨around, hF⟩ := hroot [] _ (.here hf)
      exact ⟨hrun.trans hlift, hst'.lifted hM hlift hF hnode,
        hoists_lifted hM hst'.supply hT hf hrel h.span⟩
    · exact ⟨hrun, hst', hoists_mk hM hst'.supply hT hrel hp⟩

/-- **A run over a tree** starts with the names of the tree. -/
theorem run_hoist {t : Node} (hM : Carries t.mentions M) : ∃ st, (hoist t).2 = st.hoisted ∧
    Reached t.mentions M t st ∧ Hoists M st .other t (hoist t).1 := by
  have hstart : Reached t.mentions M t ⟨t.names, []⟩ :=
    ⟨supply_start t, fun x hx => by cases hx⟩
  obtain ⟨-, hreached, hhoists⟩ := continues_hoist hM (fun n hn => hn)
    (fun around F hF => ⟨around, hF⟩) ⟨t.names, []⟩ hstart
  exact ⟨_, rfl, hreached, hhoists⟩

end Run

end Typeshift.Normalize
