import Typeshift.Convert.Basic
import Typeshift.Proofs.Chain.Settled

/-! # The form of a flattened expression

Flattening turns a reference, an object with a key, into a plain value, and some constructs need the
reference: a call needs it for the receiver, and `delete` needs it to delete anything. An expression
is *faithful* if no construct of it needs a reference that its conversion does not give.

* `Faithful`: expressions of variables, accesses, calls, chains, parentheses and `delete`, in which
  every reference that is needed is kept.
* `Faithful.forms`: the conversion of an expression that neither calls nor deletes has no effects,
  and it is an access only where the expression is one. -/

namespace Typeshift.Chain

open Typeshift.Convert (Pass hasEffects)

variable {α β : Type}

/-! ### Faithful expressions -/

/-- Whether a node is a link of an optional chain. -/
def isLink (h : Head) : Bool := h.isAny [.optionalMemberExpression, .optionalCallExpression]

theorem isLink_iff {h : Head} : isLink h = true ↔
    h.tag? = some .optionalMemberExpression ∨ h.tag? = some .optionalCallExpression := by
  simp [isLink, Head.isAny, Head.is]

/-- Whether an expression is an optional chain that ends in an access, in parentheses or not. -/
def endsInChain (t : Node) : Bool := (core t).is .optionalMemberExpression

/-- Whether an expression calls or deletes anything. -/
def acts (t : Node) : Bool := t.synthesize fun h s =>
  h.isAny [.callExpression, .optionalCallExpression, .unaryExpression] || s.toList.any Tree.note

/-- The callee of a link of a chain keeps its receiver: in parentheses it is no chain that ends in
an access, and if the link is optional it is no access that calls or deletes. -/
def KeepsReceiver (h : Head) (c : Node) : Prop :=
  c.head.is .parenthesizedExpression = true → endsInChain c = false ∧
    (h.flag .isOptional = true → (core c).is .memberExpression = true → acts c = false)

/-- **A faithful expression**: variables, accesses, calls, optional chains, parentheses and
`delete`, nested in any way, in which no callee and no operand of `delete` loses its reference. -/
inductive Faithful : Node → Prop where
  | identifier {h : Head} (tag : h.tag? = some .identifier) :
      Faithful (.mk () h [(.ty, .maybe none)])
  | member {h : Head} {o p : Node} (tag : h.tag? = some .memberExpression) (object : Faithful o)
      (property : Faithful p) (static : h.flag .isComputed = false → p.head.is .identifier = true) :
      Faithful (.mk () h [(.object, .one o), (.property, .one p)])
  | call {h : Head} {c : Node} {ta : Option Node} {args : List Node}
      (tag : h.tag? = some .callExpression) (callee : Faithful c) (kept : endsInChain c = false)
      (arguments : ∀ a ∈ args, Faithful a) :
      Faithful (.mk () h [(.callee, .one c), (.typeArguments, .maybe ta), (.arguments, .many args)])
  | optionalMember {h : Head} {o p : Node} (tag : h.tag? = some .optionalMemberExpression)
      (object : Faithful o) (property : Faithful p)
      (static : h.flag .isComputed = false → p.head.is .identifier = true) :
      Faithful (.mk () h [(.object, .one o), (.property, .one p)])
  | optionalCall {h : Head} {c : Node} {ta : Option Node} {args : List Node}
      (tag : h.tag? = some .optionalCallExpression) (callee : Faithful c) (kept : KeepsReceiver h c)
      (arguments : ∀ a ∈ args, Faithful a) :
      Faithful (.mk () h [(.callee, .one c), (.typeArguments, .maybe ta), (.arguments, .many args)])
  | parenthesized {h : Head} {e : Node} (tag : h.tag? = some .parenthesizedExpression)
      (inner : Faithful e) : Faithful (.mk () h [(.expression, .one e)])
  | delete {h : Head} {a : Node} (tag : h.tag? = some .unaryExpression)
      (operator : h.text .operator = "delete") (argument : Faithful a)
      (kept : endsInChain a = false) : Faithful (.mk () h [(.argument, .one a)])

theorem endsInChain_parenthesized {h : Head} {e : Node}
    (ht : h.tag? = some .parenthesizedExpression) :
    endsInChain (.mk () h [(.expression, .one e)]) = endsInChain e := by
  unfold endsInChain
  rw [core_parenthesized ht]

/-! ### Converted constructs -/

theorem convertNode_shared {h : Head} {t : Tag} (ht : h.tag? = some t)
    (hin : t.isIn .target = true) (s : Slots Convert.Outcome) :
    Convert.convertNode h s = Convert.convertShared t h s := by
  unfold Convert.convertNode
  rw [ht]
  exact if_pos hin

theorem convertAttr_of_ne {h : Head} {s : Slots Convert.Outcome} {f : Field}
    (hi : f ≠ .importKind) (he : f ≠ .exportKind) :
    Convert.convertAttr h s f =
      (h.attr? f).getD (.flag (f == .isReadonly && Convert.isReadOnly s)) := by
  unfold Convert.convertAttr
  split
  · exact absurd rfl hi
  · exact absurd rfl he
  · rfl

theorem text_of_convertAttr {h k : Head} {s : Slots Convert.Outcome} {f : Field}
    (hk : k.attr? f = some (Convert.convertAttr h s f)) (hi : f ≠ .importKind)
    (he : f ≠ .exportKind) : k.text f = h.text f := by
  unfold Head.text
  rw [hk, convertAttr_of_ne hi he]
  cases h.attr? f <;> rfl

theorem number_of_convertAttr {h k : Head} {s : Slots Convert.Outcome} {f : Field}
    (hk : k.attr? f = some (Convert.convertAttr h s f)) (hi : f ≠ .importKind)
    (he : f ≠ .exportKind) : k.number f = h.number f := by
  unfold Head.number
  rw [hk, convertAttr_of_ne hi he]
  cases h.attr? f <;> rfl

theorem flag_of_convertAttr {h k : Head} {s : Slots Convert.Outcome} {f : Field}
    (hk : k.attr? f = some (Convert.convertAttr h s f)) (hi : f ≠ .importKind)
    (he : f ≠ .exportKind) (hr : f ≠ .isReadonly) : k.flag f = h.flag f := by
  unfold Head.flag
  rw [hk, convertAttr_of_ne hi he, beq_false_of_ne hr]
  cases h.attr? f <;> rfl

theorem convertNode_identifier {h : Head} (ht : h.tag? = some .identifier) :
    ∃ k : Head, k.tag? = some .identifier ∧ k.text .name = h.text .name ∧
      Convert.convertNode h [(.ty, .maybe none)] = pure (.mk () k [(.ty, .maybe none)]) := by
  rw [convertNode_shared ht rfl]
  exact ⟨_, rfl, text_of_convertAttr rfl (by decide) (by decide), rfl⟩

theorem convertNode_member {h : Head} (ht : h.tag? = some .memberExpression) (o p : Convert.Part) :
    ∃ k : Head, k.tag? = some .memberExpression ∧ k.flag .isComputed = h.flag .isComputed ∧
      Convert.convertNode h [(.object, .one o), (.property, .one p)] = do
        let o' ← Convert.convertPart o
        let p' ← Convert.convertPart p
        return .mk () k [(.object, .one o'), (.property, .one p')] := by
  rw [convertNode_shared ht rfl]
  exact ⟨_, rfl, flag_of_convertAttr rfl (by decide) (by decide) (by decide), rfl⟩

theorem convertNode_call {h : Head} (ht : h.tag? = some .callExpression) (c : Convert.Part)
    (ta : Option Convert.Part) (args : List Convert.Part) :
    Convert.convertNode h
      [(.callee, .one c), (.typeArguments, .maybe ta), (.arguments, .many args)] = do
        let c' ← Convert.convertPart c
        let args' ← Convert.convertList args
        let ta' ← Convert.convertOption ta
        return Target.call c' args' ta' := by
  rw [convertNode_shared ht rfl]
  cases ta <;> rfl

theorem convertNode_parenthesized {h : Head} (ht : h.tag? = some .parenthesizedExpression)
    (e : Convert.Part) :
    ∃ k : Head, k.tag? = some .parenthesizedExpression ∧
      Convert.convertNode h [(.expression, .one e)] = do
        let e' ← Convert.convertPart e
        return .mk () k [(.expression, .one e')] := by
  rw [convertNode_shared ht rfl]
  exact ⟨_, rfl, rfl⟩

theorem convertNode_unary {h : Head} (ht : h.tag? = some .unaryExpression) (a : Convert.Part) :
    ∃ k : Head, k.tag? = some .unaryExpression ∧ k.text .operator = h.text .operator ∧
      Convert.convertNode h [(.argument, .one a)] = do
        let a' ← Convert.convertPart a
        return .mk () k [(.argument, .one a')] := by
  rw [convertNode_shared ht rfl]
  exact ⟨_, rfl, text_of_convertAttr rfl (by decide) (by decide), rfl⟩

/-- A link on the value before it. -/
def linkStep (isOptional isCallee : Bool) (before : Pass (Node × Option Node))
    (apply : Node → Pass Node) : Pass (Node × Option Node) := do
  let (value, guard) ← before
  if isOptional then
    let (operand, reused) ← Convert.bindGuarded value isCallee
    return (← apply reused, some (Convert.extendGuard guard operand))
  else return (← apply value, guard)

theorem convertNode_link {h : Head} (hlink : isLink h = true) (s : Slots Convert.Outcome) :
    Convert.convertNode h s = do
      let (value, guard) ← Convert.chainStep h s
      return Convert.closeChain value guard := by
  unfold Convert.convertNode
  rcases isLink_iff.mp hlink with ht | ht <;> rw [ht] <;> rfl

theorem chainStep_member {h : Head} (ht : h.tag? = some .optionalMemberExpression)
    (o p : Convert.Part) :
    Convert.chainStep h [(.object, .one o), (.property, .one p)] =
      linkStep (h.flag .isOptional) false o.note.chain fun v => do
        let p' ← Convert.convertPart p
        return (Target.member v p' (h.flag .isComputed)).withSpan h.span := by
  have hcall : h.is .optionalCallExpression = false := by simp [Head.is, ht]
  unfold Convert.chainStep Convert.applyLink
  rw [hcall]
  rfl

theorem chainStep_call {h : Head} (ht : h.tag? = some .optionalCallExpression)
    (c : Convert.Part) (ta : Option Convert.Part) (args : List Convert.Part) :
    Convert.chainStep h
        [(.callee, .one c), (.typeArguments, .maybe ta), (.arguments, .many args)] =
      linkStep (h.flag .isOptional) true c.note.chain fun v => do
        let args' ← Convert.convertList args
        let ta' ← Convert.convertOption ta
        return (Target.call v args' ta').withSpan h.span := by
  have hcall : h.is .optionalCallExpression = true := by simp [Head.is, ht]
  unfold Convert.chainStep Convert.applyLink
  rw [hcall]
  rfl

/-! ### The form of what the conversion gives -/

/-- Whatever state it starts from, a step gives a result that has a property. -/
def Gives (p : Pass α) (Q : α → Prop) : Prop := ∀ st, Q (p st).1

theorem gives_pure {Q : α → Prop} {a : α} (h : Q a) : Gives (pure a) Q := fun _ => h

theorem gives_true (p : Pass α) : Gives p fun _ => True := fun _ => trivial

theorem Gives.bind {p : Pass α} {f : α → Pass β} {Q : α → Prop} {R : β → Prop} (hp : Gives p Q)
    (hf : ∀ a, Q a → Gives (f a) R) : Gives (p >>= f) R := fun st => hf _ (hp st) (p st).2

theorem Gives.imp {p : Pass α} {Q R : α → Prop} (hp : Gives p Q) (h : ∀ a, Q a → R a) :
    Gives p R := fun st => h _ (hp st)

/-- The converted expression of `t` has no effects if `t` neither calls nor deletes, and it is an
access only if `t` is one. -/
structure Formed (t v : Node) : Prop where
  effects : acts t = false → hasEffects v = false
  access : (core v).is .memberExpression = true →
    (core t).is .memberExpression = true ∨ endsInChain t = true

/-- The same of the value and the guard of a chain; only what was in parentheses still is. -/
structure ChainFormed (t : Node) (x : Node × Option Node) : Prop where
  effects : acts t = false → hasEffects x.1 = false ∧ ∀ g ∈ x.2, hasEffects g = false
  parenthesized : x.1.head.is .parenthesizedExpression = true →
    t.head.is .parenthesizedExpression = true ∧ Formed t x.1

/-- What the conversion of `t` gives has the right form. -/
structure Forms (t : Node) : Prop where
  convert : Gives (t.synthesize Convert.outcome).convert (Formed t)
  chain : Gives (t.synthesize Convert.outcome).chain (ChainFormed t)

theorem acts_mk (h : Head) (s : Slots Unit) :
    acts (.mk () h s) = (h.isAny [.callExpression, .optionalCallExpression, .unaryExpression] ||
      s.toList.any acts) := by
  unfold acts
  rw [Tree.synthesize_mk, Tree.toList_annotateSlots, List.any_map]
  rfl

theorem hasEffects_withSpan (t : Node) (span : Option Span) :
    hasEffects (t.withSpan span) = hasEffects t := by
  cases t; rfl

theorem hasEffects_attach (h : Head) (t : Node) :
    hasEffects (Convert.attach h t) = hasEffects t := by
  cases t; rfl

theorem is_head_attach (h : Head) (t : Node) (tag : Tag) :
    (Convert.attach h t).head.is tag = t.head.is tag := by
  cases t; rfl

theorem is_core_attach (h : Head) (t : Node) (tag : Tag) :
    (core (Convert.attach h t)).is tag = (core t).is tag := by
  obtain ⟨_, k, s⟩ := t
  generalize hk' : (Convert.attach h (.mk () k s)).head = k'
  have hattach : Convert.attach h (.mk () k s) = .mk () k' s := by rw [← hk']; rfl
  have his : ∀ tag, k'.is tag = k.is tag := fun tag => by rw [← hk']; rfl
  rw [hattach]
  unfold core
  rw [Tree.synthesize_mk, Tree.synthesize_mk, his]
  split_ifs
  · cases ((Tree.annotateSlots _ s).child? .expression).map Tree.note with
    | none => exact his tag
    | some k => rfl
  · exact his tag

theorem Formed.attach {t v : Node} (h : Formed t v) (k : Head) : Formed t (Convert.attach k v) where
  effects ht := by rw [hasEffects_attach]; exact h.effects ht
  access hc := by rw [is_core_attach] at hc; exact h.access hc

theorem chain_of_plain {h : Head} (hlink : isLink h = false) (s : Slots Unit) :
    ((Tree.mk () h s).synthesize Convert.outcome).chain =
      (·, none) <$> ((Tree.mk () h s).synthesize Convert.outcome).convert := by
  rw [Tree.synthesize_mk]
  unfold Convert.outcome
  exact if_neg (by rw [← isLink, hlink]; exact Bool.false_ne_true)

/-- A construct that is no link, given the form of what it becomes. -/
theorem forms_of_plain {h : Head} {s : Slots Unit} (hlink : isLink h = false)
    (hconvert : Gives (Convert.convertNode h (Tree.annotateSlots Convert.outcome s)) fun v =>
      Formed (.mk () h s) v ∧ (v.head.is .parenthesizedExpression = true →
        h.is .parenthesizedExpression = true)) :
    Forms (.mk () h s) := by
  have hnode : Gives ((Tree.mk () h s).synthesize Convert.outcome).convert fun v =>
      Formed (.mk () h s) v ∧ (v.head.is .parenthesizedExpression = true →
        h.is .parenthesizedExpression = true) := by
    intro st
    obtain ⟨hv, hp⟩ := hconvert st
    refine ⟨hv.attach h, fun hv' => hp ?_⟩
    rw [← is_head_attach h]
    exact hv'
  refine ⟨hnode.imp fun v hv => hv.1, ?_⟩
  rw [chain_of_plain hlink]
  intro st
  obtain ⟨hv, hp⟩ := hnode st
  exact ⟨fun ha => ⟨hv.effects ha, fun g hg => by cases hg⟩, fun hv' => ⟨hp hv', hv⟩⟩

theorem forms_identifier {h : Head} (ht : h.tag? = some .identifier) :
    Forms (.mk () h [(.ty, .maybe none)]) := by
  obtain ⟨k, hk, -, hconvert⟩ := convertNode_identifier ht
  refine forms_of_plain (by simp [isLink, Head.isAny, Head.is, ht]) ?_
  show Gives (Convert.convertNode h [(.ty, .maybe none)]) _
  rw [hconvert]
  have hparen : k.is .parenthesizedExpression = false := by simp [Head.is, hk]
  refine gives_pure ⟨⟨fun _ => hasEffects_identifier hk, fun hc => ?_⟩, fun hp => ?_⟩
  · rw [core_mk hparen] at hc
    simp [Head.is, hk] at hc
  · rw [Tree.head_mk, hparen] at hp; cases hp

theorem forms_member {h : Head} {o p : Node} (ht : h.tag? = some .memberExpression)
    (ho : Forms o) (hp : Forms p) : Forms (.mk () h [(.object, .one o), (.property, .one p)]) := by
  obtain ⟨k, hk, -, hconvert⟩ :=
    convertNode_member ht (o.annotate Convert.outcome) (p.annotate Convert.outcome)
  refine forms_of_plain (by simp [isLink, Head.isAny, Head.is, ht]) ?_
  show Gives (Convert.convertNode h [(.object, .one (o.annotate Convert.outcome)),
    (.property, .one (p.annotate Convert.outcome))]) _
  rw [hconvert]
  refine ho.convert.bind fun o' ho' => hp.convert.bind fun p' hp' =>
    gives_pure ⟨⟨fun ha => ?_, ?_⟩, ?_⟩
  · simp only [acts_mk, Slots.toList_cons, Slots.toList_nil, Slot.toList, List.append_nil,
      List.cons_append, List.nil_append, List.any_cons, List.any_nil, Bool.or_eq_false_iff] at ha
    rw [hasEffects_member hk, ho'.effects ha.2.1, hp'.effects ha.2.2.1]
    rfl
  · intro _
    left
    rw [core_mk (by simp [Head.is, ht])]
    simp [Head.is, ht]
  · intro hv
    simp [Head.is, hk] at hv

theorem forms_call {h : Head} (ht : h.tag? = some .callExpression) {c : Node} {ta : Option Node}
    {args : List Node} :
    Forms
      (.mk () h [(.callee, .one c), (.typeArguments, .maybe ta), (.arguments, .many args)]) := by
  refine forms_of_plain (by simp [isLink, Head.isAny, Head.is, ht]) ?_
  rw [Tree.annotateSlots_eq_map]
  show Gives (Convert.convertNode h [(.callee, .one (c.annotate Convert.outcome)),
    (.typeArguments, .maybe (ta.map (Tree.annotate Convert.outcome))),
    (.arguments, .many (args.map (Tree.annotate Convert.outcome)))]) _
  rw [convertNode_call ht]
  refine (gives_true _).bind fun c' _ => (gives_true _).bind fun args' _ =>
    (gives_true _).bind fun ta' _ => gives_pure ⟨⟨fun ha => ?_, fun hc => ?_⟩, fun hv => ?_⟩
  · simp [acts_mk, Head.isAny, Head.is, ht] at ha
  · cases hc
  · cases hv

theorem forms_parenthesized {h : Head} {e : Node} (ht : h.tag? = some .parenthesizedExpression)
    (he : Forms e) : Forms (.mk () h [(.expression, .one e)]) := by
  obtain ⟨k, hk, hconvert⟩ := convertNode_parenthesized ht (e.annotate Convert.outcome)
  refine forms_of_plain (by simp [isLink, Head.isAny, Head.is, ht]) ?_
  show Gives (Convert.convertNode h [(.expression, .one (e.annotate Convert.outcome))]) _
  rw [hconvert]
  refine he.convert.bind fun e' he' => gives_pure ⟨⟨fun ha => ?_, fun hc => ?_⟩, fun _ => ?_⟩
  · rw [hasEffects_parenthesized hk]
    simp only [acts_mk, Slots.toList_cons, Slots.toList_nil, Slot.toList, List.append_nil,
      List.any_cons, List.any_nil, Bool.or_eq_false_iff] at ha
    exact he'.effects ha.2.1
  · rw [core_parenthesized hk] at hc
    rw [core_parenthesized ht, endsInChain_parenthesized ht]
    exact he'.access hc
  · simp [Head.is, ht]

theorem forms_delete {h : Head} {a : Node} (ht : h.tag? = some .unaryExpression) :
    Forms (.mk () h [(.argument, .one a)]) := by
  obtain ⟨k, hk, -, hconvert⟩ := convertNode_unary ht (a.annotate Convert.outcome)
  have hparen : k.is .parenthesizedExpression = false := by simp [Head.is, hk]
  refine forms_of_plain (by simp [isLink, Head.isAny, Head.is, ht]) ?_
  show Gives (Convert.convertNode h [(.argument, .one (a.annotate Convert.outcome))]) _
  rw [hconvert]
  refine (gives_true _).bind fun a' _ => gives_pure ⟨⟨fun ha => ?_, fun hc => ?_⟩, fun hv => ?_⟩
  · simp [acts_mk, Head.isAny, Head.is, ht] at ha
  · rw [core_mk hparen] at hc
    simp [Head.is, hk] at hc
  · rw [Tree.head_mk, hparen] at hv; cases hv

/-- A link writes a value and a guard that have no effects if the node `t` neither calls nor
deletes, and the value is the access or call that was written last. -/
theorem gives_linkStep {t : Node} {isOptional isCallee : Bool} {before : Pass (Node × Option Node)}
    {apply : Node → Pass Node} {Q : Node → Prop}
    (hbefore : Gives before fun x => acts t = false →
      hasEffects x.1 = false ∧ ∀ g ∈ x.2, hasEffects g = false)
    (happly : ∀ v, Gives (apply v) fun v' =>
      (acts t = false → hasEffects v = false → hasEffects v' = false) ∧ Q v') :
    Gives (linkStep isOptional isCallee before apply) fun x => (acts t = false →
      hasEffects x.1 = false ∧ ∀ g ∈ x.2, hasEffects g = false) ∧ Q x.1 := by
  refine hbefore.bind fun x hx => ?_
  obtain ⟨v, guard⟩ := x
  cases isOptional with
  | false =>
    refine (happly v).bind fun v' hv' => gives_pure ⟨fun ha => ?_, hv'.2⟩
    exact ⟨hv'.1 ha (hx ha).1, (hx ha).2⟩
  | true =>
    have hsplit : Gives (Convert.bindGuarded v isCallee) fun y =>
        acts t = false → y = (v, v) := by
      intro st ha
      unfold Convert.bindGuarded
      rw [(hx ha).1]
      rfl
    refine hsplit.bind fun y hy => (happly y.2).bind fun v' hv' => gives_pure ⟨fun ha => ?_, hv'.2⟩
    obtain ⟨hv, hguard⟩ := hx ha
    rw [hy ha] at hv' ⊢
    refine ⟨hv'.1 ha hv, ?_⟩
    rintro _ ⟨⟩
    cases guard with
    | none => exact hv
    | some g => rw [Convert.extendGuard, hasEffects_both, hguard g rfl, hv]; rfl

/-- What a link writes is not in parentheses, and is an access only if the link is one. -/
def WrittenBy (h : Head) (v : Node) : Prop := v.head.is .parenthesizedExpression = false ∧
  (v.head.is .memberExpression = true → h.is .optionalMemberExpression = true)

/-- A link, given the form of the chain that ends with it. -/
theorem forms_of_chain {h : Head} {s : Slots Unit} (hlink : isLink h = true)
    (hchain : Gives (Convert.chainStep h (Tree.annotateSlots Convert.outcome s)) fun x =>
      (acts (.mk () h s) = false → hasEffects x.1 = false ∧ ∀ g ∈ x.2, hasEffects g = false) ∧
        WrittenBy h x.1) :
    Forms (.mk () h s) := by
  have hparen : h.is .parenthesizedExpression = false := by
    rcases isLink_iff.mp hlink with ht | ht <;> simp [Head.is, ht]
  constructor
  · show Gives (Convert.attach h <$> Convert.convertNode h _) _
    rw [convertNode_link hlink]
    have hclose : Gives (do
        let (value, guard) ← Convert.chainStep h (Tree.annotateSlots Convert.outcome s)
        return Convert.closeChain value guard) (Formed (.mk () h s)) := by
      refine hchain.bind fun x hx => gives_pure ?_
      obtain ⟨⟨_, k, ks⟩, guard⟩ := x
      obtain ⟨heffects, hnot, haccess⟩ := hx
      cases guard with
      | none =>
        refine ⟨fun ha => (heffects ha).1, fun hc => .inr ?_⟩
        unfold endsInChain
        rw [core_mk hparen]
        refine haccess ?_
        rw [← core_mk hnot ks]
        exact hc
      | some g =>
        refine ⟨fun ha => ?_, fun hc => by cases hc⟩
        rw [Convert.closeChain, hasEffects_both, (heffects ha).2 g rfl, (heffects ha).1]
        rfl
    intro st
    exact (hclose st).attach h
  · have hstep : ((Tree.mk () h s).synthesize Convert.outcome).chain =
        Convert.chainStep h (Tree.annotateSlots Convert.outcome s) := if_pos hlink
    rw [hstep]
    refine hchain.imp fun x hx => ⟨hx.1, fun hp => ?_⟩
    rw [hx.2.1] at hp; cases hp

theorem forms_optionalMember {h : Head} {o p : Node}
    (ht : h.tag? = some .optionalMemberExpression) (ho : Forms o) (hp : Forms p) :
    Forms (.mk () h [(.object, .one o), (.property, .one p)]) := by
  have hacts : acts (.mk () h [(.object, .one o), (.property, .one p)]) = false →
      acts o = false ∧ acts p = false := by
    intro ha
    simp only [acts_mk, Slots.toList_cons, Slots.toList_nil, Slot.toList, List.append_nil,
      List.cons_append, List.nil_append, List.any_cons, List.any_nil, Bool.or_eq_false_iff] at ha
    exact ⟨ha.2.1, ha.2.2.1⟩
  refine forms_of_chain (by simp [isLink, Head.isAny, Head.is, ht]) ?_
  show Gives (Convert.chainStep h [(.object, .one (o.annotate Convert.outcome)),
    (.property, .one (p.annotate Convert.outcome))]) _
  rw [chainStep_member ht]
  refine gives_linkStep (Q := WrittenBy h) (ho.chain.imp fun x hx ha => hx.effects (hacts ha).1)
    fun v => ?_
  refine hp.convert.bind fun p' hp' => gives_pure ⟨fun ha hv => ?_, rfl, fun _ => ?_⟩
  · rw [hasEffects_withSpan]
    refine (hasEffects_member rfl).trans ?_
    rw [hv, hp'.effects (hacts ha).2]
    rfl
  · simp [Head.is, ht]

theorem forms_optionalCall {h : Head} (ht : h.tag? = some .optionalCallExpression) {c : Node}
    {ta : Option Node} {args : List Node} :
    Forms
      (.mk () h [(.callee, .one c), (.typeArguments, .maybe ta), (.arguments, .many args)]) := by
  have hacts : acts
      (.mk () h [(.callee, .one c), (.typeArguments, .maybe ta), (.arguments, .many args)]) =
        true := by
    simp [acts_mk, Head.isAny, Head.is, ht]
  refine forms_of_chain (by simp [isLink, Head.isAny, Head.is, ht]) ?_
  rw [Tree.annotateSlots_eq_map]
  show Gives (Convert.chainStep h [(.callee, .one (c.annotate Convert.outcome)),
    (.typeArguments, .maybe (ta.map (Tree.annotate Convert.outcome))),
    (.arguments, .many (args.map (Tree.annotate Convert.outcome)))]) _
  rw [chainStep_call ht]
  refine gives_linkStep (Q := WrittenBy h) (fun _ ha => ?_) fun v => ?_
  · rw [hacts] at ha; cases ha
  · refine (gives_true _).bind fun args' _ => (gives_true _).bind fun ta' _ => gives_pure ?_
    refine ⟨fun ha => ?_, rfl, fun hm => by cases hm⟩
    rw [hacts] at ha; cases ha

/-- **The form of a conversion**, by induction over the constructs of a faithful expression. -/
theorem Faithful.forms {t : Node} (ht : Faithful t) : Forms t := by
  induction ht with
  | identifier tag => exact forms_identifier tag
  | member tag _ _ _ iho ihp => exact forms_member tag iho ihp
  | call tag _ _ _ _ _ => exact forms_call tag
  | optionalMember tag _ _ _ iho ihp => exact forms_optionalMember tag iho ihp
  | optionalCall tag _ _ _ _ _ => exact forms_optionalCall tag
  | parenthesized tag _ ih => exact forms_parenthesized tag ih
  | delete tag _ _ _ _ => exact forms_delete tag

/-- A value that is called again after a guard keeps its receiver: an access with effects stands
without parentheses. -/
def Reusable (v : Node) : Prop :=
  hasEffects v = true → (core v).is .memberExpression = true → v.head.is .memberExpression = true

/-- What an optional link calls can be called again. -/
theorem Forms.reusable {h : Head} {c : Node} (hc : Forms c) (hkept : KeepsReceiver h c)
    (ho : h.flag .isOptional = true) :
    Gives (c.synthesize Convert.outcome).chain fun x => Reusable x.1 := by
  refine hc.chain.imp fun x hx heffects hcore => ?_
  obtain ⟨⟨_, k, s⟩, guard⟩ := x
  by_cases hp : k.is .parenthesizedExpression = true
  · obtain ⟨hparen, hformed⟩ := hx.parenthesized hp
    obtain ⟨hends, hacts⟩ := hkept hparen
    rcases hformed.access hcore with hmember | hchain
    · rw [hformed.effects (hacts ho hmember)] at heffects; cases heffects
    · rw [hends] at hchain; cases hchain
  · rw [← core_mk (Bool.eq_false_iff.mpr hp) s]
    exact hcore

end Typeshift.Chain
