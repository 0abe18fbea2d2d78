import Typeshift.Proofs.Comments.Shared

/-! # What an optional chain hands on

A link of a chain takes the value before it, which may be written twice or be bound to a temporary,
and its comments are lost only with the node that they stand at. By induction over the tree, a
converted tree has the comments that its source carries.

* `gives_bindGuarded`: what a value hands on when it is guarded.
* `gives_linkStep`, `conveys_link`: the rule of a link.
* `hasComment_convert`: the comments of a converted tree. -/

namespace Typeshift

namespace Convert

open Chain (Gives gives_pure isLink isLink_iff)

variable {p : CommentPlace} {c : Comment} {h : Head} {s : Slots Unit} {a v : Node}

/-! ### Links -/

/-- Whether a value is taken apart when it is bound to a temporary. -/
def splits (v : Node) (isCallee : Bool) : Bool :=
  isCallee && v.head.is .memberExpression && hasEffects v

section Built

theorem hasComment_member (o k : Node) (b : Bool) : (Target.member o k b).HasComment p c ↔
    o.HasComment p c ∨ k.HasComment p c := by
  rw [Node.hasComment_bare rfl]
  simp [Target.member, Node.of, Slot.toList]

theorem hasComment_assign (l r : Node) : (Target.assign l r).HasComment p c ↔
    l.HasComment p c ∨ r.HasComment p c := by
  rw [Node.hasComment_bare rfl]
  simp [Target.assign, Node.of, Slot.toList]

theorem hasComment_both (l r : Node) : (Target.both l r).HasComment p c ↔
    l.HasComment p c ∨ r.HasComment p c := by
  rw [Node.hasComment_bare rfl]
  simp [Target.both, Node.of, Slot.toList]

theorem hasComment_call (f : Node) (args : List Node) : (Target.call f args none).HasComment p c ↔
    f.HasComment p c ∨ ∃ a ∈ args, Node.HasComment p c a := by
  rw [Node.hasComment_bare rfl]
  simp [Target.call, Node.of, Slot.toList]

theorem not_hasComment_ident (name : String) : ¬ (Target.ident name).HasComment p c := by
  rw [Node.hasComment_bare rfl]
  simp [Target.ident, Target.param, Node.of, Slot.toList]

theorem hasComment_withSpan (v : Node) (span : Option Span) :
    (v.withSpan span).HasComment p c ↔ v.HasComment p c := by
  have hown := Node.hasComment_own (p := p) (c := c) (t := v)
  obtain ⟨_, h, s⟩ := v
  exact Node.hasComment_mk.trans hown.symm

end Built

theorem bindGuarded_of_quiet (heffects : hasEffects v = false) (isCallee : Bool) (st : State) :
    (bindGuarded v isCallee st).1 = (v, v) := by
  unfold bindGuarded
  rw [heffects]
  rfl

/-- A value that is bound to a temporary as it is. -/
theorem bindGuarded_of_not_splits {isCallee : Bool} (heffects : hasEffects v = true)
    (hsplits : splits v isCallee = false) (st : State) :
    ∃ n, (bindGuarded v isCallee st).1 = (Target.assign (Target.ident n) v, Target.ident n) := by
  rw [splits, heffects, Bool.and_true] at hsplits
  unfold bindGuarded
  rw [heffects, hsplits]
  exact ⟨_, rfl⟩

/-- An access that is taken apart: its object is bound to a temporary, and its key too if that has
effects. -/
theorem bindGuarded_of_splits {isCallee : Bool} (hsplits : splits v isCallee = true) (st : State) :
    ∃ n bound key,
      (bindGuarded v isCallee st).1 =
        ((Target.member (Target.assign (Target.ident n) (v.slots.child .object)) bound
            (v.head.flag .isComputed)).withSpan v.head.span,
          Target.member (Target.ident n) key (v.head.flag .isComputed)) ∧
      ((bound = v.slots.child .property ∧ key = v.slots.child .property) ∨
        ∃ m, bound = Target.assign (Target.ident m) (v.slots.child .property) ∧
          key = Target.ident m) := by
  obtain ⟨hcallee, heffects⟩ := Bool.and_eq_true_iff.mp hsplits
  unfold bindGuarded
  rw [heffects, hcallee]
  dsimp only
  cases hkey : v.head.flag .isComputed && hasEffects (v.slots.child .property) with
  | false => exact ⟨_, _, _, rfl, .inl ⟨rfl, rfl⟩⟩
  | true => exact ⟨_, _, _, rfl, .inr ⟨_, rfl, rfl⟩⟩

/-- A value is written twice: nothing of it is lost but the comments of an access that is taken
apart. -/
theorem gives_bindGuarded (haccess : IsAccess v) (isCallee : Bool) :
    Gives (bindGuarded v isCallee) fun y =>
      (∀ p c, (y.1.HasComment p c ∨ y.2.HasComment p c) ↔
        (splits v isCallee = false ∧ c ∈ v.head.comments.list p) ∨
          ∃ b ∈ Slots.toList v.slots, Node.HasComment p c b) ∧
      (hasEffects y.1 || hasEffects y.2) = hasEffects v := by
  intro st
  cases hsplits : splits v isCallee with
  | false =>
    cases heffects : hasEffects v with
    | false =>
      rw [bindGuarded_of_quiet heffects]
      refine ⟨fun p c => ?_, by rw [heffects]; rfl⟩
      rw [or_self, Node.hasComment_own, and_iff_right rfl]
    | true =>
      obtain ⟨n, hmade⟩ := bindGuarded_of_not_splits heffects hsplits st
      rw [hmade]
      refine ⟨fun p c => ?_, rfl⟩
      rw [hasComment_assign, or_iff_left (not_hasComment_ident n),
        or_iff_right (not_hasComment_ident n), Node.hasComment_own, and_iff_right rfl]
  | true =>
    obtain ⟨hcallee, heffects⟩ := Bool.and_eq_true_iff.mp hsplits
    obtain ⟨o, k, hslots⟩ := haccess (Bool.and_eq_true_iff.mp hcallee).2
    obtain ⟨n, bound, key, hmade, hkey⟩ := bindGuarded_of_splits hsplits st
    rw [show v.slots.child .object = o by rw [hslots]; rfl] at hmade
    rw [show v.slots.child .property = k by rw [hslots]; rfl] at hkey
    rw [hmade, heffects]
    constructor
    · intro p c
      have hkeys : bound.HasComment p c ∨ key.HasComment p c ↔ Node.HasComment p c k := by
        rcases hkey with ⟨rfl, rfl⟩ | ⟨m, rfl, rfl⟩
        · exact or_self_iff
        · rw [hasComment_assign, or_iff_left (not_hasComment_ident m),
            or_iff_right (not_hasComment_ident m)]
      rw [hasComment_withSpan, hasComment_member, hasComment_member, hasComment_assign,
        or_iff_right (not_hasComment_ident n), or_iff_right (not_hasComment_ident n), or_assoc,
        hkeys, hslots]
      simp [Slot.toList]
    · have hbound : hasEffects (Target.member (Target.assign (Target.ident n) o) bound
          (v.head.flag .isComputed)) = true := Chain.hasEffects_member rfl
      rw [Chain.hasEffects_withSpan, hbound]
      rfl

/-! ### Links of a chain -/

/-- What a link makes of the value before it: nothing of the value is lost, and its other parts add
what they convey. -/
structure Applies (rest : List Node) (acts : Bool) (v w : Node) : Prop where
  comments : ∀ p c, w.HasComment p c ↔ v.HasComment p c ∨ ∃ a ∈ rest, Carries p c a
  effects : hasEffects w = (hasEffects v || acts)
  bare : w.head.comments = .none
  access : IsAccess w

theorem hasComment_extendGuard (guard : Option Node) (operand : Node) :
    (extendGuard guard operand).HasComment p c ↔
      (∃ g ∈ guard, Node.HasComment p c g) ∨ operand.HasComment p c := by
  cases guard with
  | none => simp [extendGuard]
  | some g => simp [extendGuard, hasComment_both]

theorem hasEffects_extendGuard (guard : Option Node) (operand : Node) :
    hasEffects (extendGuard guard operand) = (guard.any hasEffects || hasEffects operand) := by
  cases guard with
  | none => rfl
  | some g => exact Chain.hasEffects_both g operand

section Links

variable {base : Node} {rest : List Node} {acts : Bool}

/-- What a link of a chain gives, after a value and a guard that convey the chain before it. -/
theorem Applies.rendersChain {reused w : Node} {guard : Option Node}
    (hw : Applies rest acts reused w) (hlink : isLink h = true)
    (hbefore : ∀ p c, (reused.HasComment p c ∨ ∃ g ∈ guard, Node.HasComment p c g) ↔
      Carried p c (!sheds h (baseField h) base) base)
    (heffects : (hasEffects reused || guard.any hasEffects) = mayAct base)
    (hcarried : ∀ p c, Carried p c false (.mk () h s) ↔
      Carried p c (!sheds h (baseField h) base) base ∨ ∃ a ∈ rest, Carries p c a)
    (hacts : mayAct (.mk () h s) = (mayAct base || acts)) :
    RendersChain (.mk () h s) (w, guard) := by
  have hcomments (p : CommentPlace) (c : Comment) :
      (w.HasComment p c ∨ ∃ g ∈ guard, Node.HasComment p c g) ↔ Carried p c false (.mk () h s) := by
    rw [hw.comments, hcarried, ← hbefore, or_right_comm]
  have hshed : isLink (Tree.mk () h s).head = true := hlink
  refine ⟨fun p c => ?_, fun p c => ?_, ?_, hw.access, fun hno => ?_⟩
  · rw [hshed]
    exact hcomments p c
  · rw [← Node.hasComment_bare hw.bare]
    exact hcomments p c
  · rw [hw.effects, hacts, ← heffects, Bool.or_right_comm]
  · rw [hshed] at hno
    cases hno

/-- Whether the comments of the value before a link are dropped. -/
theorem sheds_eq {value : Node} {guard : Option Node} (hx : RendersChain base (value, guard))
    (hlink : isLink h = true) : sheds h (baseField h) base =
      (isLink base.head || h.flag .isOptional && splits value (h.is .optionalCallExpression)) := by
  unfold sheds
  rw [hlink, BEq.rfl, Bool.true_and, Bool.true_and]
  cases hbase : isLink base.head with
  | true => rfl
  | false =>
    obtain ⟨hguard, hmember⟩ := hx.plain hbase
    have heffects := hx.effects
    rw [show guard = none from hguard, Option.any_none, Bool.or_false] at heffects
    rw [splits, hmember, heffects, ← Bool.and_assoc, ← Bool.and_assoc,
      Bool.and_comm (h.flag .isOptional)]

/-- **A link of a chain** conveys what the chain before it and its other parts convey. -/
theorem gives_linkStep {before : Pass (Node × Option Node)} {apply : Node → Pass Node}
    (hbefore : Gives before (RendersChain base)) (hlink : isLink h = true)
    (happly : ∀ v, Gives (apply v) (Applies rest acts v))
    (hcarried : ∀ p c, Carried p c false (.mk () h s) ↔
      Carried p c (!sheds h (baseField h) base) base ∨ ∃ a ∈ rest, Carries p c a)
    (hacts : mayAct (.mk () h s) = (mayAct base || acts)) :
    Gives (Chain.linkStep (h.flag .isOptional) (h.is .optionalCallExpression) before apply)
      (RendersChain (.mk () h s)) := by
  refine hbefore.bind fun ⟨value, guard⟩ hx => ?_
  have hsheds := sheds_eq hx hlink
  cases hoptional : h.flag .isOptional with
  | false =>
    rw [hoptional, Bool.false_and, Bool.or_false] at hsheds
    refine (happly value).bind fun w hw => gives_pure ?_
    refine hw.rendersChain hlink (fun p c => ?_) hx.effects hcarried hacts
    rw [hsheds]
    exact hx.comments p c
  | true =>
    rw [hoptional, Bool.true_and] at hsheds
    refine (gives_bindGuarded hx.access _).bind fun ⟨operand, reused⟩ hy => ?_
    refine (happly reused).bind fun w hw => gives_pure ?_
    refine hw.rendersChain hlink (fun p c => ?_) ?_ hcarried hacts
    · have hguarded : (reused.HasComment p c ∨
          ∃ g ∈ some (extendGuard guard operand), Node.HasComment p c g) ↔
            (∃ g ∈ guard, Node.HasComment p c g) ∨
              (operand.HasComment p c ∨ reused.HasComment p c) := by
        simp only [Option.mem_some, exists_eq_left', hasComment_extendGuard]
        rw [or_comm, or_assoc]
      rw [hguarded, hy.1 p c, hsheds]
      cases hsplits : splits value (h.is .optionalCallExpression) with
      | false =>
        rw [Bool.or_false, ← hx.comments p c, and_iff_right rfl, ← Node.hasComment_own, or_comm]
      | true =>
        rw [Bool.or_true, Bool.not_true, ← hx.below p c, or_comm]
        simp
    · rw [Option.any_some, hasEffects_extendGuard, ← hx.effects, ← hy.2, Bool.or_comm,
        Bool.or_assoc, Bool.or_comm (guard.any hasEffects)]

end Links

/-- The value of a whole chain, in the place of its last link. -/
theorem RendersChain.attach {x : Node × Option Node} (hx : RendersChain (.mk () h s) x)
    (hlink : isLink h = true) :
    Renders (.mk () h s) (Convert.attach h (closeChain x.1 x.2)) := by
  obtain ⟨value, guard⟩ := x
  have hcomments (p : CommentPlace) (c : Comment) :
      (closeChain value guard).HasComment p c ↔ Carried p c false (.mk () h s) := by
    have hshed : isLink (Tree.mk () h s).head = true := hlink
    have hvalue := hx.comments p c
    rw [hshed, Bool.not_true] at hvalue
    rw [← hvalue]
    cases guard with
    | none => simp [closeChain]
    | some g => simp [closeChain, hasComment_both, or_comm]
  constructor
  · intro p c
    rw [Node.hasComment_attach, hcomments, Carries, carried_mk, carried_mk]
    simp
  · rw [Chain.hasEffects_attach, ← hx.effects]
    cases guard with
    | none => rw [closeChain, Option.any_none, Bool.or_false]
    | some g => rw [closeChain, Chain.hasEffects_both, Option.any_some, Bool.or_comm]

section Steps

/-- **A link that is an access.** -/
theorem gives_access {o k : Node} (ht : h.tag? = some .optionalMemberExpression)
    (ho : Conveys o) (hk : Conveys k) :
    Gives
      (chainStep h [(.object, .one (o.annotate outcome)), (.property, .one (k.annotate outcome))])
      (RendersChain (.mk () h [(.object, .one o), (.property, .one k)])) := by
  have hcall : h.is .optionalCallExpression = false := by simp [Head.is, ht]
  have hbase : baseField h = .object := by rw [baseField, hcall]; rfl
  have hkept : sheds h .property k = false := sheds_of_ne (by rw [hbase]; decide) k
  have happly (v : Node) : Gives (do
      let k' ← convertPart (k.annotate outcome)
      return (Target.member v k' (h.flag .isComputed)).withSpan h.span)
        (Applies [k] (mayAct k) v) := by
    refine hk.convert.bind fun k' hk' => gives_pure ⟨fun p c => ?_, ?_, rfl, fun _ => ⟨v, k', rfl⟩⟩
    · rw [hasComment_withSpan, hasComment_member, hk'.comments]
      simp
    · rw [Chain.hasEffects_withSpan, ← hk'.effects]
      exact Chain.hasEffects_member rfl
  have hstep := gives_linkStep (h := h) (s := [(.object, .one o), (.property, .one k)]) ho.chain
    (isLink_iff.mpr (.inl ht)) happly ?_ ?_
  · rw [Chain.chainStep_member ht, ← hcall]
    exact hstep
  · intro p c
    rw [carried_mk, hbase]
    simp [Slot.toList, Carries, hkept]
  · have hacts : actsAlone h = false ∧ exposes h = true := by
      simp [actsAlone, exposes, Head.isAny, Head.is, ht]
    rw [mayAct_mk, hcall, hacts.1, hacts.2]
    simp [Slot.toList]

/-- **A link that is a call.** -/
theorem gives_call {o : Node} {args : List Node} (ht : h.tag? = some .optionalCallExpression)
    (ho : Conveys o) (hargs : ∀ a ∈ args, Conveys a) :
    Gives (chainStep h [(.callee, .one (o.annotate outcome)), (.typeArguments, .maybe none),
        (.arguments, .many (args.map (Tree.annotate outcome)))])
      (RendersChain (.mk () h [(.callee, .one o), (.typeArguments, .maybe none),
        (.arguments, .many args)])) := by
  have hcall : h.is .optionalCallExpression = true := by simp [Head.is, ht]
  have hbase : baseField h = .callee := by rw [baseField, hcall]; rfl
  have hkept (a : Node) : sheds h .arguments a = false := sheds_of_ne (by rw [hbase]; decide) a
  have happly (v : Node) : Gives (do
      let args' ← convertList (args.map (Tree.annotate outcome))
      let ta' ← convertOption none
      return (Target.call v args' ta').withSpan h.span) (Applies args true v) := by
    have hlist : Gives (convertList (args.map (Tree.annotate outcome))) fun args' => ∀ p c,
        (∃ b ∈ args', Node.HasComment p c b) ↔ ∃ a ∈ args, Carries p c a := by
      unfold convertList
      rw [List.mapM_map]
      exact fun st p c => gives_mapM (fun a ha st => ((hargs a ha).convert st).comments p c) st
    have hnone : Gives (convertOption none) (· = none) := gives_pure rfl
    refine hlist.bind fun args' hargs' => hnone.bind fun ta' hta' => gives_pure ?_
    subst hta'
    refine ⟨fun p c => ?_, ?_, rfl, fun hmember => by cases hmember⟩
    · rw [hasComment_withSpan, hasComment_call, hargs']
    · rw [Chain.hasEffects_withSpan, Bool.or_true]
      exact Chain.hasEffects_call rfl _
  have hstep := gives_linkStep (h := h) (s := [(.callee, .one o), (.typeArguments, .maybe none),
    (.arguments, .many args)]) ho.chain (isLink_iff.mpr (.inr ht)) happly ?_ ?_
  · rw [Chain.chainStep_call ht, ← hcall]
    exact hstep
  · intro p c
    rw [carried_mk, hbase]
    simp [Slot.toList, Carries, hkept]
  · rw [mayAct_mk, hcall, Bool.true_or, Bool.or_true]

end Steps

/-- **A chain** conveys what its parts convey. -/
theorem conveys_link (hs : IsJavaScript h s) (hlink : isLink h = true)
    (hparts : ∀ a ∈ s.toList, Conveys a) : Conveys (.mk () h s) := by
  have hchain : Gives (chainStep h (Tree.annotateSlots outcome s)) (RendersChain (.mk () h s)) := by
    rcases isLink_iff.mp hlink with ht | ht
    · obtain ⟨o, k, rfl⟩ := hs.slots_access (.inr ht)
      exact gives_access ht (hparts o (by simp [Slot.toList])) (hparts k (by simp [Slot.toList]))
    · obtain ⟨o, args, rfl⟩ := hs.slots_call ht
      rw [Tree.annotateSlots_eq_map]
      exact gives_call ht (hparts o (by simp [Slot.toList]))
        fun a ha => hparts a (by simp [Slot.toList, ha])
  have hstep : ((Tree.mk () h s).synthesize outcome).chain =
      chainStep h (Tree.annotateSlots outcome s) := if_pos hlink
  constructor
  · show Gives (attach h <$> convertNode h (Tree.annotateSlots outcome s)) _
    rw [Chain.convertNode_link hlink]
    exact fun st => (hchain st).attach hlink
  · rw [hstep]
    exact hchain

/-! ### Whole trees -/

theorem IsJavaScript.not_exports (hs : IsJavaScript h s) :
    h.is .declareModuleExports = false := by
  rw [Bool.eq_false_iff]
  intro hexports
  have ht : h.tag? = some .declareModuleExports := beq_iff_eq.mp hexports
  rcases hs.plain.1 with ⟨t, htag, -, htarget⟩ | hlink
  · cases ht.symm.trans htag
    cases htarget
  · rcases isLink_iff.mp hlink with hl | hl <;> cases ht.symm.trans hl

/-- **Every tree of plain JavaScript** conveys its effects and the comments that it carries. -/
theorem conveys {t : Node} (ht : t.Every IsJavaScript) : Conveys t := by
  induction ht with
  | @mk h s here below ih =>
    cases hlink : isLink h with
    | true => exact conveys_link here hlink ih
    | false =>
      rcases here.plain.1 with ⟨t, htag, -, htarget⟩ | hlink'
      · refine conveys_shared here htag htarget hlink ih fun a ha => ?_
        cases below a ha with
        | mk hereA _ => exact hereA.not_exports
      · rw [hlink] at hlink'
        cases hlink'

/-- **The comments of a converted tree** of plain JavaScript, list by list: those at the nodes of
the source that keep their comments. All others stand at a link of a chain that goes on, or at an
access with effects that is called after a guard. -/
theorem hasComment_convert {t : Node} (ht : t.Every IsJavaScript) (p : CommentPlace)
    (c : Comment) :
    (t.convert.tree.HasComment p c ↔ Carries p c t) ∧
      (t.HasComment p c ↔ Carries p c t ∨ Drops p c t) :=
  ⟨((conveys ht).convert (.start t.names)).comments p c, hasComment_iff⟩

/-- `/* first */ a?.b /* second */.c;`. -/
def commentedChain : Node :=
  let inner : Node := (Node.of .optionalMemberExpression
    [(.isComputed, .flag false), (.isOptional, .flag true)]
    [(.object, .one (Target.ident "a")), (.property, .one (Target.ident "b"))]).withComments
      ⟨[], [.block "second"], []⟩
  let outer : Node := .of .optionalMemberExpression
    [(.isComputed, .flag false), (.isOptional, .flag false)]
    [(.object, .one inner), (.property, .one (Target.ident "c"))]
  let statement : Node := (Node.of .expressionStatement [] [(.expression, .one outer)]).withComments
    ⟨[.block "first"], [], []⟩
  .of .program [(.sourceType, .textOrNone (some "module"))]
    [(.interpreter, .maybe none), (.directives, .many []), (.body, .many [statement])]

theorem hasComment_convert_commentedChain :
    commentedChain.Every IsJavaScript ∧
      commentedChain.convert.tree.HasComment .leading (.block "first") ∧
      Drops .trailing (.block "second") commentedChain := by
  have ht : commentedChain.Every IsJavaScript := by decide
  refine ⟨ht, (hasComment_convert ht _ _).1.mpr ?_, ?_⟩
  · exact .part (List.mem_of_getElem? (i := 2) rfl) List.mem_cons_self (.here (by decide))
  · refine .part (List.mem_singleton_self _) (.part (List.mem_singleton_self _) ?_)
    exact .here List.mem_cons_self List.mem_cons_self rfl (by decide)

/-- A comment is lost. -/
theorem not_hasComment_convert_commentedChain :
    commentedChain.Every IsJavaScript ∧
      commentedChain.HasComment .trailing (.block "second") ∧
      ¬ commentedChain.convert.tree.HasComment .trailing (.block "second") := by
  decide

end Convert

end Typeshift
