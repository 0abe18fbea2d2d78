import Typeshift.Convert.Chain
import Typeshift.Proofs.Chain.Simulation

/-! # What plain expressions read and set

The value of a chain is written more than once, and temporaries are set between its parts. This is
harmless because every expression that a conversion makes is *settled* for the names in use: it
reads and sets no other temporary (`Framed`), and one without effects leaves the store as it is.

* `Framed`: a computation minds the names in use only.
* `Settled`: an expression of the target is framed, and quiet if it has no effects.
* `split_same`, `split_temporary`, `split_member`: three ways to split a value. -/

namespace Typeshift.Chain

open Typeshift.Convert (hasEffects effectRule)

variable {σ V ε α β : Type} {W : Realm σ V ε} {N N' P : String → Prop}

/-! ### Computations that mind the names in use -/

theorem Agree.mono {s u : Store σ V} (h : Agree N s u) (hP : ∀ n, P n → N n) : Agree P s u :=
  ⟨h.state, h.events, fun n hn => h.temporaries n (hP n hn)⟩

/-- A computation reads and sets no temporary but those in use. -/
structure Framed (N : String → Prop) (p : Eval σ V ε α) : Prop where
  same : ∀ s u, Agree N s u → (p s).1 = (p u).1 ∧ Agree N (p s).2 (p u).2
  frame : ∀ u n, ¬ N n → (p u).2.temporaries n = u.temporaries n

theorem Framed.mono {p : Eval σ V ε α} (h : Framed N p) (hN : ∀ n, N n → N' n) :
    Framed N' p where
  same s u hsu := by
    obtain ⟨hres, hag⟩ := h.same s u (hsu.mono hN)
    refine ⟨hres, hag.state, hag.events, fun n hn => ?_⟩
    by_cases hNn : N n
    · exact hag.temporaries n hNn
    · rw [h.frame s n hNn, h.frame u n hNn]
      exact hsu.temporaries n hn
  frame u n hn := h.frame u n fun hNn => hn (hN n hNn)

theorem framed_pure (a : α) : Framed N (pure a : Eval σ V ε α) :=
  ⟨fun _ _ h => ⟨rfl, h⟩, fun _ _ _ => rfl⟩

theorem Framed.bind {p : Eval σ V ε α} {f : α → Eval σ V ε β} (hp : Framed N p)
    (hf : ∀ a, Framed N (f a)) : Framed N (p >>= f) where
  same s u hsu := by
    have hpq := hp.same s u hsu
    rcases hs : p s with ⟨e | a, s'⟩ <;> rcases hu : p u with ⟨e' | b, u'⟩ <;>
      rw [hs, hu] at hpq <;> obtain ⟨h1, h2⟩ := hpq <;> cases h1
    · rw [Eval.bind_of_error hs, Eval.bind_of_error hu]; exact ⟨rfl, h2⟩
    · rw [Eval.bind_of_ok hs, Eval.bind_of_ok hu]; exact (hf a).same s' u' h2
  frame u n hn := by
    have h1 := hp.frame u n hn
    rcases hu : p u with ⟨e | a, u'⟩ <;> rw [hu] at h1
    · rw [Eval.bind_of_error hu]; exact h1
    · rw [Eval.bind_of_ok hu, (hf a).frame u' n hn]; exact h1

theorem framed_readVariable {n : String} (hn : N n) : Framed N (W.readVariable n) where
  same s u h := by
    refine ⟨?_, h⟩
    unfold Realm.readVariable
    rw [h.state, h.temporaries n hn]
  frame _ _ _ := rfl

theorem framed_readMember (o : V) (k : Key V) : Framed N (W.readMember o k) where
  same s u h := by
    unfold Realm.readMember
    rw [h.state]
    split_ifs <;> exact ⟨rfl, h⟩
  frame u n _ := by
    unfold Realm.readMember
    split_ifs <;> rfl

theorem framed_invoke (f : Reference V) (as : List V) : Framed N (W.invoke f as) where
  same s u h := by
    unfold Realm.invoke
    rw [h.state]
    split_ifs
    · exact ⟨rfl, h⟩
    · exact ⟨rfl, rfl, by rw [h.events], h.temporaries⟩
  frame u n _ := by
    unfold Realm.invoke
    split_ifs <;> rfl

theorem framed_remove (r : Reference V) : Framed N (W.remove r) where
  same s u h := by
    unfold Realm.remove
    rw [h.state]
    exact ⟨rfl, rfl, by rw [h.events], h.temporaries⟩
  frame _ _ _ := rfl

theorem set_of_ne {u : Store σ V} {n m : String} (h : m ≠ n) (v : V) :
    (u.set n v).temporaries m = u.temporaries m := by
  unfold Store.set
  dsimp only
  rw [if_neg h]

theorem set_self (u : Store σ V) (n : String) (v : V) : (u.set n v).temporaries n = some v := by
  unfold Store.set
  dsimp only
  rw [if_pos rfl]

theorem agree_set {n : String} (hn : ¬ N n) (u : Store σ V) (v : V) : Agree N u (u.set n v) :=
  ⟨rfl, rfl, fun m hm => (set_of_ne (fun h : m = n => hn (h ▸ hm)) v).symm⟩

theorem framed_assign {n : String} (hn : N n) (v : V) :
    Framed N (Eval.assign n v : Eval σ V ε Unit) where
  same s u h := by
    refine ⟨rfl, h.state, h.events, fun m hm => ?_⟩
    show (s.set n v).temporaries m = (u.set n v).temporaries m
    by_cases hmn : m = n
    · rw [hmn, set_self, set_self]
    · rw [set_of_ne hmn, set_of_ne hmn, h.temporaries m hm]
  frame u m hm := set_of_ne (fun h : m = n => hm (h ▸ hn)) v

theorem framed_value {m : Meaning σ V ε} (h : Framed N m.reference) : Framed N m.value :=
  h.bind fun _ => framed_pure _

theorem framed_values {ms : List (Meaning σ V ε)} (h : ∀ m ∈ ms, Framed N m.reference) :
    Framed N (Meaning.values ms) := by
  induction ms with
  | nil => exact framed_pure _
  | cons m rest ih =>
    have hm := framed_value (h m (by simp))
    have hr := ih fun m hm => h m (by simp [hm])
    exact hm.bind fun _ => hr.bind fun _ => framed_pure _

/-! ### Computations that leave the store as it is -/

/-- A computation changes nothing. -/
def Quiet (p : Eval σ V ε α) : Prop := ∀ u, (p u).2 = u

theorem Quiet.bind {p : Eval σ V ε α} {f : α → Eval σ V ε β} (hp : Quiet p)
    (hf : ∀ a, Quiet (f a)) : Quiet (p >>= f) := by
  intro u
  have h1 := hp u
  rcases hu : p u with ⟨e | a, u'⟩ <;> rw [hu] at h1
  · rw [Eval.bind_of_error hu]; exact h1
  · rw [Eval.bind_of_ok hu, hf a u']; exact h1

theorem quiet_pure (a : α) : Quiet (pure a : Eval σ V ε α) := fun _ => rfl

theorem quiet_readMember (o : V) (k : Key V) : Quiet (W.readMember o k) := by
  intro u
  unfold Realm.readMember
  split_ifs <;> rfl

theorem quiet_value {m : Meaning σ V ε} (h : Quiet m.reference) : Quiet m.value :=
  h.bind fun _ => quiet_pure _

/-! ### Accesses and calls -/

/-- The key of an access to `p`. -/
def Realm.keyNode (W : Realm σ V ε) (isComputed : Bool) (p : Node) : Eval σ V ε (Key V) :=
  if isComputed then do return .computed (← (p.meaning W).value)
  else pure (.named (p.head.text .name))

/-- An access to `p` of a value that is there already. -/
def Realm.accessNode (W : Realm σ V ε) (isComputed : Bool) (p : Node) (r : Reference V) :
    Eval σ V ε (Reference V) := do
  let key ← W.keyNode isComputed p
  W.readMember r.value key

/-- A call with `args` of a value that is there already. -/
def Realm.applyNodes (W : Realm σ V ε) (args : List Node) (r : Reference V) :
    Eval σ V ε (Reference V) := do
  let values ← Meaning.values (args.map (Node.meaning W))
  W.invoke r values

section Meaning

variable {h : Head} {o p c : Node} {f : Field} {ta : Option Node} {args : List Node}

theorem meaningRule_of_tag {t : Tag} (ht : h.tag? = some t) (s : Slots (Meaning σ V ε)) :
    W.meaningRule h s = W.meaningRule { h with kind := .known t } s := by
  unfold Realm.meaningRule
  rw [ht]
  rfl

theorem meaning_identifier {s : Slots Unit} (ht : h.tag? = some .identifier) :
    Node.meaning W (.mk () h s) =
      .alone do return .plain (← W.readVariable (h.text .name)) := by
  unfold Node.meaning
  rw [Tree.synthesize_mk, meaningRule_of_tag ht]
  rfl

theorem access_slots :
    W.access h (Tree.annotateSlots W.meaningRule [(.object, .one o), (.property, .one p)]) =
      W.accessNode (h.flag .isComputed) p := by
  funext r
  unfold Realm.access Realm.accessNode Realm.keyOf Realm.keyNode
  congr 1
  split_ifs
  · rfl
  · rw [← Tree.head_annotate W.meaningRule p]; rfl

theorem meaning_member (ht : h.tag? = some .memberExpression) :
    Node.meaning W (.mk () h [(.object, .one o), (.property, .one p)]) =
      .alone ((o.meaning W).reference >>= W.accessNode (h.flag .isComputed) p) := by
  unfold Node.meaning
  rw [Tree.synthesize_mk, meaningRule_of_tag ht, ← access_slots (o := o)]
  rfl

theorem meaning_optionalMember (ht : h.tag? = some .optionalMemberExpression) :
    Node.meaning W (.mk () h [(.object, .one o), (.property, .one p)]) =
      W.linked (W.link (h.flag .isOptional) (o.meaning W).chain
        (W.accessNode (h.flag .isComputed) p)) := by
  unfold Node.meaning
  rw [Tree.synthesize_mk, meaningRule_of_tag ht, ← access_slots (o := o)]
  rfl

variable (c ta) in
theorem apply_slots (hf : f ≠ .arguments) :
    W.apply (Tree.annotateSlots W.meaningRule
      [(.callee, .one c), (f, .maybe ta), (.arguments, .many args)]) = W.applyNodes args := by
  have hc : Slots.children (Tree.annotateSlots W.meaningRule
      [(.callee, .one c), (f, .maybe ta), (.arguments, .many args)]) .arguments =
      args.map (Tree.annotate W.meaningRule) := by
    rw [Tree.annotateSlots_eq_map]
    have hb : (Field.arguments == f) = false := beq_false_of_ne hf.symm
    have hb' : (Field.arguments == Field.callee) = false := rfl
    simp [Slots.children, Slots.get?, List.lookup_cons, Slot.map, hb, hb']
  funext r
  unfold Realm.apply Realm.applyNodes
  rw [hc, List.map_map]
  rfl

theorem meaning_call (ht : h.tag? = some .callExpression) (hf : f ≠ .arguments) :
    Node.meaning W (.mk () h [(.callee, .one c), (f, .maybe ta), (.arguments, .many args)]) =
      .alone ((c.meaning W).reference >>= W.applyNodes args) := by
  unfold Node.meaning
  rw [Tree.synthesize_mk, meaningRule_of_tag ht, ← apply_slots c ta hf,
    Tree.annotateSlots_eq_map]
  rfl

theorem meaning_optionalCall (ht : h.tag? = some .optionalCallExpression) (hf : f ≠ .arguments) :
    Node.meaning W (.mk () h [(.callee, .one c), (f, .maybe ta), (.arguments, .many args)]) =
      W.linked (W.link (h.flag .isOptional) (c.meaning W).chain (W.applyNodes args)) := by
  unfold Node.meaning
  rw [Tree.synthesize_mk, meaningRule_of_tag ht, ← apply_slots c ta hf,
    Tree.annotateSlots_eq_map]
  rfl

theorem meaning_parenthesized {e : Node} (ht : h.tag? = some .parenthesizedExpression) :
    Node.meaning W (.mk () h [(.expression, .one e)]) = .alone (e.meaning W).reference := by
  unfold Node.meaning
  rw [Tree.synthesize_mk, meaningRule_of_tag ht]
  rfl

theorem meaning_delete {a : Node} (ht : h.tag? = some .unaryExpression)
    (hop : h.text .operator = "delete") :
    Node.meaning W (.mk () h [(.argument, .one a)]) =
      .alone ((a.meaning W).reference >>= W.remove) := by
  unfold Node.meaning
  rw [Tree.synthesize_mk]
  unfold Realm.meaningRule
  rw [ht]
  exact if_pos hop

theorem meaning_both (l r : Node) :
    (Target.both l r).meaning W = .alone (W.conjunction (l.meaning W) (r.meaning W)) := rfl

theorem meaning_withSpan (t : Node) (span : Option Span) :
    (t.withSpan span).meaning W = t.meaning W := by
  cases t; rfl

theorem meaning_attach (h : Head) (t : Node) :
    (Convert.attach h t).meaning W = t.meaning W := by
  cases t; rfl

theorem hasEffects_identifier (ht : h.tag? = some .identifier) :
    hasEffects (.mk () h [(.ty, .maybe none)]) = false := by
  unfold hasEffects
  rw [Tree.synthesize_mk]
  unfold effectRule
  rw [ht]
  rfl

theorem hasEffects_member (ht : h.tag? = some .memberExpression) :
    hasEffects (.mk () h [(.object, .one o), (.property, .one p)]) =
      (hasEffects o || hasEffects p) := by
  unfold hasEffects
  rw [Tree.synthesize_mk]
  unfold effectRule
  rw [ht]
  simp [Tree.toList_annotateSlots, Slot.toList, Tree.note_annotate_eq]

theorem hasEffects_call (ht : h.tag? = some .callExpression) (s : Slots Unit) :
    hasEffects (.mk () h s) = true := by
  unfold hasEffects
  rw [Tree.synthesize_mk]
  unfold effectRule
  rw [ht]

theorem hasEffects_parenthesized {e : Node} (ht : h.tag? = some .parenthesizedExpression) :
    hasEffects (.mk () h [(.expression, .one e)]) = hasEffects e := by
  unfold hasEffects
  rw [Tree.synthesize_mk]
  unfold effectRule
  rw [ht]
  simp [Tree.toList_annotateSlots, Slot.toList, Tree.note_annotate_eq]

theorem hasEffects_delete (ht : h.tag? = some .unaryExpression)
    (hop : h.text .operator = "delete") (s : Slots Unit) : hasEffects (.mk () h s) = true := by
  unfold hasEffects
  rw [Tree.synthesize_mk]
  unfold effectRule
  rw [ht]
  simp [hop]

theorem hasEffects_both (l r : Node) :
    hasEffects (Target.both l r) = (hasEffects l || hasEffects r) := by
  simp [hasEffects, Target.both, Node.of, Tree.synthesize_mk, effectRule, Head.ofTag, Head.tag?,
    Kind.tag?, Tree.toList_annotateSlots, Slot.toList, Tree.note_annotate_eq]

end Meaning

/-! ### Settled expressions -/

/-- A computation gives no value that was read from a property. -/
def Placeless (p : Eval σ V ε (Reference V)) : Prop := ∀ u r, (p u).1 = .ok r → r.place = none

theorem Placeless.bind {f : α → Eval σ V ε (Reference V)} (hf : ∀ a, Placeless (f a))
    (p : Eval σ V ε α) : Placeless (p >>= f) := by
  intro u r hr
  rcases hu : p u with ⟨e | a, u'⟩
  · rw [Eval.bind_of_error hu] at hr; cases hr
  · rw [Eval.bind_of_ok hu] at hr; exact hf a u' r hr

theorem placeless_plain (v : V) : Placeless (pure (.plain v) : Eval σ V ε (Reference V)) := by
  intro u r hr
  cases hr
  rfl

theorem placeless_invoke (f : Reference V) (as : List V) : Placeless (W.invoke f as) := by
  intro u r hr
  unfold Realm.invoke at hr
  split_ifs at hr
  dsimp only at hr
  rcases hc : (W.call f.value (f.place.map Prod.fst) as u.state).1 with e | v <;> rw [hc] at hr
  · cases hr
  · cases hr; rfl

theorem placeless_remove (r : Reference V) : Placeless (W.remove r) := by
  intro u r' hr
  unfold Realm.remove at hr
  dsimp only at hr
  rcases hc : (W.delete r.place u.state).1 with e | v <;> rw [hc] at hr
  · cases hr
  · cases hr; rfl

/-- The construct inside the parentheses around an expression. -/
def core (t : Node) : Head := t.synthesize fun h s =>
  if h.is .parenthesizedExpression then ((s.child? .expression).map Tree.note).getD h else h

theorem core_parenthesized {h : Head} {e : Node} (ht : h.tag? = some .parenthesizedExpression) :
    core (.mk () h [(.expression, .one e)]) = core e := by
  unfold core
  rw [Tree.synthesize_mk, if_pos (by simp [Head.is, ht])]
  rfl

theorem core_mk {h : Head} (ht : h.is .parenthesizedExpression = false) (s : Slots Unit) :
    core (.mk () h s) = h := by
  unfold core
  rw [Tree.synthesize_mk, ht]
  rfl

/-- An expression of the target minds the names in use, and is quiet if it has no effects. One that
is no access to a property, in parentheses or not, has no receiver to give. -/
inductive Settled (W : Realm σ V ε) (N : String → Prop) : Node → Prop where
  | other {v : Node} (member : v.head.is .memberExpression = false)
      (framed : Framed N (v.meaning W).reference)
      (quiet : hasEffects v = false → Quiet (v.meaning W).reference)
      (placeless : Placeless (v.meaning W).reference) : Settled W N v
  | member {h : Head} {o p : Node} (tag : h.tag? = some .memberExpression) (object : Settled W N o)
      (property : Settled W N p) : Settled W N (.mk () h [(.object, .one o), (.property, .one p)])
  | parenthesized {h : Head} {e : Node} (tag : h.tag? = some .parenthesizedExpression)
      (inner : Settled W N e) : Settled W N (.mk () h [(.expression, .one e)])

theorem framed_keyNode {p : Node} (isComputed : Bool) (h : Framed N (p.meaning W).reference) :
    Framed N (W.keyNode isComputed p) := by
  unfold Realm.keyNode
  split_ifs
  · exact (framed_value h).bind fun _ => framed_pure _
  · exact framed_pure _

theorem framed_accessNode {p : Node} (isComputed : Bool) (h : Framed N (p.meaning W).reference)
    (r : Reference V) : Framed N (W.accessNode isComputed p r) :=
  (framed_keyNode isComputed h).bind fun k => framed_readMember _ k

theorem quiet_keyNode {p : Node} {isComputed : Bool}
    (h : isComputed = true → Quiet (p.meaning W).reference) : Quiet (W.keyNode isComputed p) := by
  unfold Realm.keyNode
  split_ifs with hc
  · exact (quiet_value (h hc)).bind fun _ => quiet_pure _
  · exact quiet_pure _

theorem framed_applyNodes {args : List Node} (h : ∀ a ∈ args, Framed N (a.meaning W).reference)
    (r : Reference V) : Framed N (W.applyNodes args r) := by
  refine (framed_values fun m hm => ?_).bind fun vs => framed_invoke r vs
  obtain ⟨a, ha, rfl⟩ := List.mem_map.mp hm
  exact h a ha

namespace Settled

variable {v o p l r : Node} {h : Head}

theorem framed (hv : Settled W N v) : Framed N (v.meaning W).reference := by
  induction hv with
  | other _ framed _ _ => exact framed
  | member tag _ _ iho ihp =>
    rw [meaning_member tag]
    exact iho.bind (framed_accessNode _ ihp)
  | parenthesized tag _ ih => rw [meaning_parenthesized tag]; exact ih

theorem quiet (hv : Settled W N v) (he : hasEffects v = false) :
    Quiet (v.meaning W).reference := by
  induction hv with
  | other _ _ quiet _ => exact quiet he
  | member tag _ _ iho ihp =>
    rw [hasEffects_member tag, Bool.or_eq_false_iff] at he
    rw [meaning_member tag]
    exact (iho he.1).bind fun r =>
      (quiet_keyNode fun _ => ihp he.2).bind fun k => quiet_readMember _ k
  | parenthesized tag _ ih =>
    rw [hasEffects_parenthesized tag] at he
    rw [meaning_parenthesized tag]
    exact ih he

theorem placeless (hv : Settled W N v) (hc : (core v).is .memberExpression = false) :
    Placeless (v.meaning W).reference := by
  induction hv with
  | other _ _ _ placeless => exact placeless
  | member tag _ _ _ _ =>
    rw [core_mk (by simp [Head.is, tag])] at hc
    simp [Head.is, tag] at hc
  | parenthesized tag _ ih =>
    rw [core_parenthesized tag] at hc
    rw [meaning_parenthesized tag]
    exact ih hc

theorem mono (hv : Settled W N v) (hN : ∀ n, N n → N' n) : Settled W N' v := by
  induction hv with
  | other member framed quiet placeless => exact .other member (framed.mono hN) quiet placeless
  | member tag _ _ iho ihp => exact .member tag iho ihp
  | parenthesized tag _ ih => exact .parenthesized tag ih

theorem identifier (ht : h.tag? = some .identifier) (hn : N (h.text .name)) :
    Settled W N (.mk () h [(.ty, .maybe none)]) := by
  refine .other (by simp [Head.is, ht]) ?_ (fun _ => ?_) ?_ <;> rw [meaning_identifier ht]
  · exact (framed_readVariable hn).bind fun _ => framed_pure _
  · exact fun _ => rfl
  · exact Placeless.bind placeless_plain _

theorem call {f : Field} {ta : Option Node} {args : List Node} {c : Node}
    (ht : h.tag? = some .callExpression) (hf : f ≠ .arguments) (hc : Settled W N c)
    (ha : ∀ a ∈ args, Settled W N a) :
    Settled W N (.mk () h [(.callee, .one c), (f, .maybe ta), (.arguments, .many args)]) := by
  refine .other (by simp [Head.is, ht]) ?_ (fun he => ?_) ?_
  · rw [meaning_call ht hf]
    exact hc.framed.bind (framed_applyNodes fun a h => (ha a h).framed)
  · rw [hasEffects_call ht] at he; cases he
  · rw [meaning_call ht hf]
    exact Placeless.bind (fun r => Placeless.bind (placeless_invoke r) _) _

theorem delete {a : Node} (ht : h.tag? = some .unaryExpression)
    (hop : h.text .operator = "delete") (ha : Settled W N a) :
    Settled W N (.mk () h [(.argument, .one a)]) := by
  refine .other (by simp [Head.is, ht]) ?_ (fun he => ?_) ?_
  · rw [meaning_delete ht hop]
    exact ha.framed.bind framed_remove
  · rw [hasEffects_delete ht hop] at he; cases he
  · rw [meaning_delete ht hop]
    exact Placeless.bind placeless_remove _

theorem both (hl : Settled W N l) (hr : Settled W N r) : Settled W N (Target.both l r) := by
  have hfr := framed_value hr.framed
  refine .other rfl ?_ (fun he => ?_) ?_
  · refine (framed_value hl.framed).bind fun v => ?_
    split_ifs
    · exact hfr.bind fun _ => framed_pure _
    · exact framed_pure _
  · rw [hasEffects_both, Bool.or_eq_false_iff] at he
    refine (quiet_value (hl.quiet he.1)).bind fun v => ?_
    split_ifs
    · exact (quiet_value (hr.quiet he.2)).bind fun _ => quiet_pure _
    · exact quiet_pure _
  · refine Placeless.bind (fun v => ?_) _
    split_ifs
    · exact Placeless.bind placeless_plain _
    · exact placeless_plain _

theorem assign {n : String} (hn : N n) (hv : Settled W N v) :
    Settled W N (Target.assign (Target.ident n) v) := by
  refine .other rfl ?_ (fun he => ?_) ?_
  · exact (framed_value hv.framed).bind fun x => (framed_assign hn x).bind fun _ => framed_pure _
  · cases he
  · exact Placeless.bind (fun x => Placeless.bind (fun _ => placeless_plain x) _) _

theorem ident {n : String} (hn : N n) : Settled W N (Target.ident n) := identifier rfl hn

/-- Comments and spans do not matter. -/
theorem congr {k : Head} (hk : k.kind = h.kind) (ha : k.attrs = h.attrs) {s : Slots Unit}
    (hv : Settled W N (.mk () h s)) : Settled W N (.mk () k s) := by
  have hkind : k = { h with comments := k.comments, span := k.span } := by
    cases h; cases k; cases hk; cases ha; rfl
  rw [hkind]
  generalize hm : Tree.mk () h s = m at hv
  cases hv with
  | other member framed quiet placeless => subst hm; exact .other member framed quiet placeless
  | member tag object property => cases hm; exact .member tag object property
  | parenthesized tag inner => cases hm; exact .parenthesized tag inner

theorem withSpan (hv : Settled W N v) (span : Option Span) : Settled W N (v.withSpan span) := by
  obtain ⟨_, h, s⟩ := v
  exact congr (h := h) (k := { h with span := span }) rfl rfl hv

theorem attach (hv : Settled W N v) (k : Head) : Settled W N (Convert.attach k v) := by
  obtain ⟨_, h, s⟩ := v
  exact congr (h := h) (k := (Convert.attach k (.mk () h s)).head) rfl rfl hv

end Settled

/-! ### Splitting a value -/

section Split

variable {isCallee isComputed : Bool} {v o p : Node} {n m : String}

/-- A quiet value is its own operand. -/
theorem split_same {value : Meaning σ V ε} (h : Quiet value.reference) :
    Split P isCallee value value value := by
  intro u
  refine ⟨u, ?_, ?_, fun r hr => ⟨r, Prod.ext hr (h u), rfl, fun _ => rfl⟩⟩
  · unfold Meaning.value
    rw [Eval.bind_pure_apply, h u]
  · rw [h u]; exact Agree.refl u

theorem reference_ident (u : Store σ V) (x : V) :
    ((Target.ident n).meaning W).reference (u.set n x) = (.ok (.plain x), u.set n x) := by
  show (Except.ok (Reference.plain (((u.set n x).temporaries n).getD _)), _) = _
  rw [set_self]
  rfl

theorem reference_assign_error {u u' : Store σ V} {e : ε}
    (h : (v.meaning W).reference u = (.error e, u')) :
    ((Target.assign (Target.ident n) v).meaning W).reference u = (.error e, u') :=
  Eval.bind_of_error (Eval.bind_of_error h _) _

theorem reference_assign_ok {u u' : Store σ V} {r : Reference V}
    (h : (v.meaning W).reference u = (.ok r, u')) :
    ((Target.assign (Target.ident n) v).meaning W).reference u =
      (.ok (.plain r.value), u'.set n r.value) :=
  Eval.bind_of_ok (Eval.bind_of_ok h _) _

theorem value_of_reference {m : Meaning σ V ε} {u u' : Store σ V}
    {x : Except ε (Reference V)} (h : m.reference u = (x, u')) :
    m.value u = (x.map Reference.value, u') := by
  unfold Meaning.value
  rw [Eval.bind_pure_apply, h]

/-- A value is bound to a temporary. -/
theorem split_temporary (hp : isCallee = true → Placeless (v.meaning W).reference) (hn : ¬ P n) :
    Split P isCallee (v.meaning W) ((Target.assign (Target.ident n) v).meaning W)
      ((Target.ident n).meaning W) := by
  intro u
  rcases hv : (v.meaning W).reference u with ⟨e | r, u'⟩
  · refine ⟨u', value_of_reference (reference_assign_error hv), Agree.refl u', ?_⟩
    intro r hr; cases hr
  · have hop := value_of_reference (reference_assign_ok (n := n) hv)
    refine ⟨u'.set n r.value, hop, agree_set hn u' _, ?_⟩
    intro r' hr
    cases hr
    refine ⟨.plain r.value, reference_ident u' r.value, rfl, fun hc => ?_⟩
    exact (hp hc u r (by rw [hv])).symm

/-- A key is split: the operand gives the key and leaves `n` alone, and after it the reused
expression gives the key once more without an effect. -/
def KeySplit (W : Realm σ V ε) (N P : String → Prop) (n : String) (isComputed : Bool)
    (p operand reused : Node) : Prop :=
  ∀ s u, Agree N s u → ∃ u', W.keyNode isComputed operand u = ((W.keyNode isComputed p s).1, u') ∧
    Agree P (W.keyNode isComputed p s).2 u' ∧ u'.temporaries n = u.temporaries n ∧
    ∀ k, (W.keyNode isComputed p s).1 = .ok k → W.keyNode isComputed reused u' = (.ok k, u')

/-- A key without effects is its own operand. -/
theorem keySplit_same (hp : Framed N (p.meaning W).reference)
    (hq : isComputed = true → Quiet (p.meaning W).reference) (hPN : ∀ m, P m → N m) :
    KeySplit W N P n isComputed p p p := by
  have hquiet : Quiet (W.keyNode isComputed p) := quiet_keyNode hq
  intro s u hsu
  obtain ⟨hres, hag⟩ := (framed_keyNode isComputed hp).same s u hsu
  refine ⟨u, Prod.ext hres.symm (hquiet u), ?_, rfl, fun k hk => ?_⟩
  · rw [hquiet s]; exact hsu.mono hPN
  · exact Prod.ext (hres.symm.trans hk) (hquiet u)

/-- A computed key is bound to a temporary. -/
theorem keySplit_temporary (hp : Framed N (p.meaning W).reference) (hPN : ∀ m, P m → N m)
    (hn : ¬ N n) (hm : ¬ P m) (hnm : n ≠ m) :
    KeySplit W N P n true p (Target.assign (Target.ident m) p) (Target.ident m) := by
  intro s u hsu
  obtain ⟨hres, hag⟩ := hp.same s u hsu
  have hframe := hp.frame u n hn
  unfold Realm.keyNode Meaning.value
  simp only [if_true, Eval.bind_pure_apply]
  rcases hs : (p.meaning W).reference s with ⟨e | r, s'⟩ <;>
    rcases hu : (p.meaning W).reference u with ⟨e' | r', u'⟩ <;>
    rw [hs, hu] at hres hag <;> rw [hu] at hframe <;> cases hres
  · rw [reference_assign_error hu]
    refine ⟨u', rfl, hag.mono hPN, hframe, ?_⟩
    intro k hk; cases hk
  · rw [reference_assign_ok hu]
    refine ⟨u'.set m r.value, rfl, (hag.mono hPN).trans (agree_set hm u' _), ?_, ?_⟩
    · rw [set_of_ne hnm]; exact hframe
    · intro k hk
      cases hk
      rw [reference_ident]
      rfl

theorem readMember_eq (o : V) (k : Key V) (u : Store σ V) :
    W.readMember o k u =
      (if W.nullish o then .error W.typeError
        else .ok ⟨W.property u.state o k, some (o, k)⟩, u) := by
  unfold Realm.readMember
  split_ifs <;> rfl

/-- The object of an access is bound to a temporary, and its key is split. -/
theorem split_member {h k k' : Head} {pk pr : Node} (ht : h.tag? = some .memberExpression)
    (hk : k.tag? = some .memberExpression) (hk' : k'.tag? = some .memberExpression)
    (hc : h.flag .isComputed = isComputed) (hc' : k.flag .isComputed = isComputed)
    (hc'' : k'.flag .isComputed = isComputed) (hn : ¬ N n)
    (hkey : KeySplit W N P n isComputed p pk pr) :
    Split P isCallee (Node.meaning W (.mk () h [(.object, .one o), (.property, .one p)]))
      (Node.meaning W (.mk () k
        [(.object, .one (Target.assign (Target.ident n) o)), (.property, .one pk)]))
      (Node.meaning W (.mk () k' [(.object, .one (Target.ident n)), (.property, .one pr)])) := by
  rw [meaning_member ht, meaning_member hk, meaning_member hk', hc, hc', hc'']
  intro u
  unfold Meaning.value Meaning.alone
  simp only [Eval.bind_pure_apply]
  rcases ho : (o.meaning W).reference u with ⟨e | r, u₁⟩
  · rw [Eval.bind_of_error ho, Eval.bind_of_error (reference_assign_error ho)]
    refine ⟨u₁, rfl, Agree.refl u₁, ?_⟩
    intro r hr; cases hr
  rw [Eval.bind_of_ok ho, Eval.bind_of_ok (reference_assign_ok ho)]
  obtain ⟨u', hop, hag, htemp, hre⟩ := hkey u₁ (u₁.set n r.value) (agree_set hn u₁ _)
  rw [set_self] at htemp
  unfold Realm.accessNode
  rcases hkp : W.keyNode isComputed p u₁ with ⟨e | key, u₂⟩ <;> rw [hkp] at hop hag hre
  · rw [Eval.bind_of_error hkp, Eval.bind_of_error hop]
    refine ⟨u', rfl, hag, ?_⟩
    intro r hr; cases hr
  rw [Eval.bind_of_ok hkp, Eval.bind_of_ok hop, readMember_eq, readMember_eq]
  have hstate : u₂.state = u'.state := hag.state
  refine ⟨u', by rw [hstate]; rfl, hag, fun r' hr' => ?_⟩
  have hident : ((Target.ident n).meaning W).reference u' = (.ok (.plain r.value), u') := by
    show (Except.ok (Reference.plain ((u'.temporaries n).getD _)), _) = _
    rw [htemp]
    rfl
  refine ⟨r', ?_, rfl, fun _ => rfl⟩
  rw [Eval.bind_of_ok hident, Eval.bind_of_ok (hre key rfl), readMember_eq, ← hstate]
  exact Prod.ext hr' rfl

end Split

end Typeshift.Chain
