import Typeshift.Proofs.Chain.Form
import Typeshift.Proofs.Convert.Keeps
import Typeshift.Proofs.Convert.Vocabulary

/-! # Flattening preserves evaluation

An operand is a variable, a member access, a call or an optional chain of any length whose keys and
arguments are operands again. Its conversion gives the same result, the same calls with the same
receivers and arguments, and the same state.

* `Operand`: the expressions that are compared.
* `Converts`: what the conversion of an operand gives; one lemma for each construct.
* `run_convert`: running an operand and running its conversion come to the same. -/

namespace Typeshift.Chain

open Typeshift.Convert (Pass State hasEffects Grows)

variable {σ V ε α β : Type}

/-- **An operand**: variables, member accesses, calls and optional chains, nested in keys and
arguments in any way. What is called is no chain in parentheses. -/
inductive Operand : Node → Prop where
  | identifier {h : Head} (tag : h.tag? = some .identifier) :
    Operand (.mk () h [(.ty, .maybe none)])
  | member {h : Head} {o p : Node} (tag : h.tag? = some .memberExpression) (object : Operand o)
      (property : Operand p) (static : h.flag .isComputed = false → p.head.is .identifier = true) :
      Operand (.mk () h [(.object, .one o), (.property, .one p)])
  | call {h : Head} {c : Node} {ta : Option Node} {args : List Node}
      (tag : h.tag? = some .callExpression) (callee : Operand c) (direct : isLink c.head = false)
      (arguments : ∀ a ∈ args, Operand a) :
      Operand (.mk () h [(.callee, .one c), (.typeArguments, .maybe ta), (.arguments, .many args)])
  | optionalMember {h : Head} {o p : Node} (tag : h.tag? = some .optionalMemberExpression)
      (object : Operand o) (property : Operand p)
      (static : h.flag .isComputed = false → p.head.is .identifier = true) :
      Operand (.mk () h [(.object, .one o), (.property, .one p)])
  | optionalCall {h : Head} {c : Node} {ta : Option Node} {args : List Node}
      (tag : h.tag? = some .optionalCallExpression) (callee : Operand c)
      (arguments : ∀ a ∈ args, Operand a) :
      Operand (.mk () h [(.callee, .one c), (.typeArguments, .maybe ta), (.arguments, .many args)])

/-! ### Steps that give out names -/

/-- The names in use. -/
def InUse (N : Names) (n : String) : Prop := N.contains n = true

/-- From the names `N` on, a step adds names and gives a result that fits the names then in use. -/
def Yields (N : Names) (p : Pass α) (Q : α → Names → Prop) : Prop :=
  ∀ st : State, st.names = N → N.Within (p st).2.names ∧ Q (p st).1 (p st).2.names

section Yields

variable {N : Names} {Q Q' : α → Names → Prop} {p : Pass α}

theorem yields_pure {a : α} (h : Q a N) : Yields N (pure a) Q := by
  intro st hst
  subst hst
  exact ⟨Names.Within.refl _, h⟩

theorem Yields.bind {f : α → Pass β} {R : β → Names → Prop} (hp : Yields N p Q)
    (hf : ∀ a N', N.Within N' → Q a N' → Yields N' (f a) R) : Yields N (p >>= f) R := by
  intro st hst
  obtain ⟨hN, hQ⟩ := hp st hst
  obtain ⟨hN', hR⟩ := hf _ _ hN hQ (p st).2 rfl
  exact ⟨hN.trans hN', hR⟩

theorem Yields.imp (hp : Yields N p Q) (h : ∀ a N', N.Within N' → Q a N' → Q' a N') :
    Yields N p Q' := by
  intro st hst
  obtain ⟨hN, hQ⟩ := hp st hst
  exact ⟨hN, h _ _ hN hQ⟩

theorem Yields.map {Q : β → Names → Prop} {f : α → β}
    (hp : Yields N p fun a N' => Q (f a) N') : Yields N (f <$> p) Q := by
  intro st hst
  exact hp st hst

theorem Yields.and {R : α → Prop} (hp : Yields N p Q) (hR : Gives p R) :
    Yields N p fun a N' => Q a N' ∧ R a := by
  intro st hst
  obtain ⟨hN, hQ⟩ := hp st hst
  exact ⟨hN, hQ, hR st⟩

theorem yields_of_keeps (h : Convert.Keeps Grows p) : Yields N p fun _ _ => True := by
  intro st hst
  subst hst
  exact ⟨h st, trivial⟩

end Yields

/-! ### Splitting a guarded value -/

section Guard

variable {W : Realm σ V ε} {P : String → Prop} {N : Names} {v : Node}

theorem Settled.within {N' : Names} (h : Settled W (InUse N) v) (hN : N.Within N') :
    Settled W (InUse N') v := h.mono hN

/-- A bound value is held by a temporary that was not in use. -/
theorem yields_bind (v : Node) : Yields N (Convert.bind v) fun x N' => ∃ n,
    x = (Target.assign (Target.ident n) v, Target.ident n) ∧ ¬ InUse N n ∧ InUse N' n := by
  intro st hst
  subst hst
  refine ⟨Names.within_fresh st.names _, st.names.freshName Convert.temporaryBase, rfl, ?_, ?_⟩
  · unfold InUse
    rw [Names.contains_freshName]
    exact Bool.false_ne_true
  · show (st.names.fresh _).2.contains _ = true
    rw [Names.contains_fresh_snd]
    simp

/-- The names in use after two temporaries were given out, one after the other. -/
theorem ne_of_inUse {n m : String} (hn : InUse N n) (hm : ¬ InUse N m) : n ≠ m :=
  fun h => hm (h ▸ hn)

/-- What a guarded value is split into. -/
def SplitInto (W : Realm σ V ε) (P : String → Prop) (isCallee : Bool) (v : Node) (x : Node × Node)
    (N : Names) : Prop :=
  Settled W (InUse N) x.1 ∧ Settled W (InUse N) x.2 ∧
    Split P isCallee (v.meaning W) (x.1.meaning W) (x.2.meaning W)

/-- The parts of a split access, given how its key is split. -/
theorem splitInto_member {h : Head} {o p pk pr : Node} {N' : Names} {n : String}
    (tag : h.tag? = some .memberExpression) (ho : Settled W (InUse N) o) (hn : ¬ InUse N n)
    (hN : N.Within N') (hn' : InUse N' n) (hk : Settled W (InUse N') pk)
    (hr : Settled W (InUse N') pr)
    (hsplit : KeySplit W (InUse N) P n (h.flag .isComputed) p pk pr) :
    SplitInto W P true (.mk () h [(.object, .one o), (.property, .one p)])
      ((Target.member (Target.assign (Target.ident n) o) pk (h.flag .isComputed)).withSpan h.span,
        Target.member (Target.ident n) pr (h.flag .isComputed)) N' :=
  ⟨.withSpan (.member rfl ((ho.within hN).assign hn') hk) _, .member rfl (.ident hn') hr,
    split_member tag rfl rfl rfl rfl rfl hn hsplit⟩

variable (hPN : ∀ n, P n → InUse N n)
include hPN

theorem yields_temporary {isCallee : Bool} (hv : Settled W (InUse N) v)
    (hp : isCallee = true → Placeless (v.meaning W).reference) :
    Yields N (Convert.bind v) (SplitInto W P isCallee v) := by
  refine (yields_bind v).imp ?_
  rintro _ N' hN ⟨n, rfl, hn, hn'⟩
  refine ⟨(hv.within hN).assign hn', .ident hn', ?_⟩
  exact split_temporary hp fun h => hn (hPN n h)

theorem yields_split_member {h : Head} {o p : Node} (tag : h.tag? = some .memberExpression)
    (ho : Settled W (InUse N) o) (hp : Settled W (InUse N) p)
    (he : hasEffects (.mk () h [(.object, .one o), (.property, .one p)]) = true) :
    Yields N (Convert.bindGuarded (.mk () h [(.object, .one o), (.property, .one p)]) true)
      (SplitInto W P true (.mk () h [(.object, .one o), (.property, .one p)])) := by
  have hmember : h.is .memberExpression = true := by simp [Head.is, tag]
  unfold Convert.bindGuarded
  rw [he, Tree.head_mk, hmember]
  refine (yields_bind o).bind ?_
  rintro _ N₁ hN₁ ⟨n, rfl, hn, hn₁⟩
  dsimp only
  split_ifs with hk
  · rw [Bool.and_eq_true] at hk
    refine (yields_bind p).bind ?_
    rintro _ N₂ hN₂ ⟨m, rfl, hm, hm₂⟩
    have hsplit : KeySplit W (InUse N) P n (h.flag .isComputed) p
        (Target.assign (Target.ident m) p) (Target.ident m) := by
      rw [hk.1]
      exact keySplit_temporary hp.framed hPN hn (fun h => hm (hN₁ m (hPN m h)))
        (ne_of_inUse hn₁ hm)
    have hN := hN₁.trans hN₂
    exact yields_pure (splitInto_member tag ho hn hN (hN₂ n hn₁) ((hp.within hN).assign hm₂)
      (.ident hm₂) hsplit)
  · have hquiet : h.flag .isComputed = true → Quiet (p.meaning W).reference := by
      intro hc
      rw [hc, Bool.true_and] at hk
      exact hp.quiet (Bool.eq_false_iff.mpr hk)
    exact yields_pure (splitInto_member tag ho hn hN₁ hn₁ (hp.within hN₁) (hp.within hN₁)
      (keySplit_same hp.framed hquiet hPN))

theorem yields_bindGuarded (isCallee : Bool) (hv : Settled W (InUse N) v)
    (hreusable : isCallee = true → Reusable v) :
    Yields N (Convert.bindGuarded v isCallee) (SplitInto W P isCallee v) := by
  by_cases he : hasEffects v = true
  · cases hv with
    | other member framed quiet placeless =>
      unfold Convert.bindGuarded
      rw [he, member, Bool.and_false]
      exact yields_temporary hPN (.other member framed quiet placeless) fun _ => placeless
    | member tag object property =>
      cases isCallee with
      | true => exact yields_split_member hPN tag object property he
      | false =>
        unfold Convert.bindGuarded
        rw [he]
        refine yields_temporary hPN (.member tag object property) fun h => ?_
        cases h
    | @parenthesized h e tag inner =>
      have hmember : h.is .memberExpression = false := by simp [Head.is, tag]
      unfold Convert.bindGuarded
      rw [he, Tree.head_mk, hmember, Bool.and_false]
      have hv := Settled.parenthesized tag inner
      refine yields_temporary hPN hv fun hc => hv.placeless (Bool.eq_false_iff.mpr fun hcore => ?_)
      have hhead := hreusable hc he hcore
      rw [Tree.head_mk, hmember] at hhead
      cases hhead
  · have hq := hv.quiet (Bool.eq_false_iff.mpr he)
    unfold Convert.bindGuarded
    rw [Bool.eq_false_iff.mpr he]
    exact yields_pure ⟨hv, hv, split_same hq⟩

end Guard

/-! ### Links -/

section Link

variable {W : Realm σ V ε} {P : String → Prop}

/-- One more link: the access or call that the conversion makes goes on from a value as the source
does. -/
def Linked (W : Realm σ V ε) (P : String → Prop) (isCallee : Bool)
    (next : Reference V → Eval σ V ε (Reference V)) (v v' : Node) (N : Names) : Prop :=
  Settled W (InUse N) v' ∧ ∃ next' : Reference V → Eval σ V ε (Reference V),
    (v'.meaning W).reference = (v.meaning W).reference >>= next' ∧
    (∀ r, Same W P (next r) (next' r)) ∧
    ∀ r r' : Reference V, r'.value = r.value → (isCallee = true → r'.place = r.place) →
      next' r' = next' r

/-- The chain so far, as far as it matters: its value and its guard. -/
def Reaches (W : Realm σ V ε) (P : String → Prop) (isCallee : Bool)
    (chain : Eval σ V ε (Option (Reference V))) (x : Node × Option Node) (N : Names) : Prop :=
  Settled W (InUse N) x.1 ∧ (∀ g ∈ x.2, Settled W (InUse N) g) ∧
    Follows W P (W.keptChain isCallee chain) ((x.1.meaning W).kept isCallee)
      (x.2.map (Node.meaning W))

/-- The chain so far: its value and its guard. -/
def Chained (W : Realm σ V ε) (P : String → Prop) (chain : Eval σ V ε (Option (Reference V)))
    (x : Node × Option Node) (N : Names) : Prop :=
  Settled W (InUse N) x.1 ∧ (∀ g ∈ x.2, Settled W (InUse N) g) ∧
    Follows W P chain (x.1.meaning W) (x.2.map (Node.meaning W))

theorem Chained.reaches {chain : Eval σ V ε (Option (Reference V))} {x : Node × Option Node}
    {N : Names} (h : Chained W P chain x N) (isCallee : Bool) : Reaches W P isCallee chain x N :=
  ⟨h.1, h.2.1, h.2.2.kept isCallee⟩

theorem value_both (l r : Node) : ((Target.both l r).meaning W).value = (do
    let v ← (l.meaning W).value
    if W.truthy v then (r.meaning W).value else pure v) := by
  rw [meaning_both]
  refine (Eval.bind_assoc _ _ _).trans (congrArg _ (funext fun v => ?_))
  split_ifs
  · rw [Eval.bind_assoc]
    exact Eval.bind_pure _
  · rfl

theorem value_extendGuard (guard : Option Node) (operand : Node) :
    ((Convert.extendGuard guard operand).meaning W).value =
      W.both (guard.map (Node.meaning W)) (operand.meaning W) := by
  cases guard with
  | none => rfl
  | some g => exact value_both g operand

theorem Settled.extendGuard {N : Names} {guard : Option Node} {operand : Node}
    (hg : ∀ g ∈ guard, Settled W (InUse N) g) (ho : Settled W (InUse N) operand) :
    Settled W (InUse N) (Convert.extendGuard guard operand) := by
  cases guard with
  | none => exact ho
  | some g => exact (hg g rfl).both ho

/-- **One link of a chain**, optional or not. -/
theorem yields_link {N : Names} {isOptional isCallee : Bool} {before : Pass (Node × Option Node)}
    {apply : Node → Pass Node} {chain : Eval σ V ε (Option (Reference V))}
    {next : Reference V → Eval σ V ε (Reference V)} (hPN : ∀ n, P n → InUse N n)
    (hbefore : Yields N before (Reaches W P isCallee chain))
    (hreusable : isOptional = true → isCallee = true → Gives before fun x => Reusable x.1)
    (hrecords : ∀ r, Records (next r))
    (hnext : ∀ r r' : Reference V, r'.value = r.value → (isCallee = true → r'.place = r.place) →
      next r' = next r)
    (happly : ∀ {N' v}, (∀ n, P n → InUse N' n) → Settled W (InUse N') v →
      Yields N' (apply v) (Linked W P isCallee next v)) :
    Yields N (linkStep isOptional isCallee before apply)
      (Chained W P (W.link isOptional chain next)) := by
  have hreuse : Gives before fun x => isOptional = true → isCallee = true → Reusable x.1 :=
    fun st ho hc => hreusable ho hc st
  refine (hbefore.and hreuse).bind ?_
  rintro ⟨v, guard⟩ N₁ hN₁ ⟨⟨hv, hg, hfol⟩, hr⟩
  have hPN₁ : ∀ n, P n → InUse N₁ n := fun n h => hN₁ n (hPN n h)
  rw [← link_keptChain hnext]
  dsimp only
  cases isOptional with
  | false =>
    refine (happly hPN₁ hv).bind ?_
    rintro v' N₂ hN₂ ⟨hv', next', href, hsame, hdep⟩
    rw [← bind_kept hdep] at href
    exact yields_pure ⟨hv', fun g h => (hg g h).within hN₂, hfol.plain hrecords hsame href⟩
  | true =>
    refine (yields_bindGuarded hPN₁ isCallee hv (hr rfl)).bind ?_
    rintro ⟨operand, reused⟩ N₂ hN₂ ⟨hop, hre, hsplit⟩
    refine (happly (fun n h => hN₂ n (hPN₁ n h)) hre).bind ?_
    rintro v' N₃ hN₃ ⟨hv', next', href, hsame, hdep⟩
    refine yields_pure ⟨hv', ?_, ?_⟩
    · rintro _ ⟨⟩
      exact .extendGuard (fun g h => ((hg g h).within hN₂).within hN₃) (hop.within hN₃)
    · exact Follows.optional hsplit.kept hrecords hsame href hdep hfol
        (value_extendGuard guard operand)

end Link

/-! ### What the conversion of an operand gives -/

section Converts

variable {W : Realm σ V ε} {P : String → Prop}

/-- The converted expression of `t` has its value, and its name if it is a variable. -/
def Valued (W : Realm σ V ε) (P : String → Prop) (t v : Node) (N : Names) : Prop :=
  Settled W (InUse N) v ∧ Same W P (t.meaning W).value (v.meaning W).value ∧
    (t.head.is .identifier = true → v.head.text .name = t.head.text .name)

/-- The converted expression of `t` also has its receiver. -/
def Referred (W : Realm σ V ε) (P : String → Prop) (t v : Node) (N : Names) : Prop :=
  Settled W (InUse N) v ∧ Same W P (t.meaning W).reference (v.meaning W).reference ∧
    (t.head.is .identifier = true → v.head.text .name = t.head.text .name)

/-- **What the conversion of an operand gives** to the constructs around it. -/
structure Converts (W : Realm σ V ε) (P : String → Prop) (t : Node) : Prop where
  value : ∀ N : Names, (∀ n, P n → InUse N n) →
    Yields N (t.synthesize Convert.outcome).convert (Valued W P t)
  chain : ∀ isCallee : Bool,
    (isCallee = true → isLink t.head = false → endsInChain t = false) →
    ∀ N : Names, (∀ n, P n → InUse N n) →
    Yields N (t.synthesize Convert.outcome).chain (Reaches W P isCallee (t.meaning W).chain)
  plain : endsInChain t = false → ∀ N : Names, (∀ n, P n → InUse N n) →
    Yields N (t.synthesize Convert.outcome).convert (Referred W P t)

theorem Referred.valued {t v : Node} {N : Names} (h : Referred W P t v N) : Valued W P t v N :=
  ⟨h.1, h.2.1.bind (fun _ => records_pure _) fun _ => same_pure _, h.2.2⟩

theorem Referred.chained {t v : Node} {N : Names} (h : Referred W P t v N)
    (halone : (t.meaning W).chain = do return some (← (t.meaning W).reference)) :
    Chained W P (t.meaning W).chain (v, none) N := by
  refine ⟨h.1, ?_, ?_⟩
  · rintro g ⟨⟩
  unfold Follows
  rw [halone, Eval.bind_assoc]
  exact h.2.1.bind (fun _ => records_pure _) fun _ => same_pure _

theorem Valued.reaches {t v : Node} {N : Names} (h : Valued W P t v N)
    (halone : (t.meaning W).chain = do return some (← (t.meaning W).reference)) :
    Reaches W P false (t.meaning W).chain (v, none) N := by
  refine ⟨h.1, ?_, ?_⟩
  · rintro g ⟨⟩
  let last (x : V) : Eval σ V ε (V ⊕ Reference V) := pure (.inr (.plain x))
  have hsame : Same W P ((t.meaning W).value >>= last) ((v.meaning W).value >>= last) :=
    h.2.1.bind (fun _ => records_pure _) fun _ => same_pure _
  unfold Meaning.value at hsame
  rw [Eval.bind_assoc, Eval.bind_assoc] at hsame
  unfold Follows Realm.keptChain Realm.link Realm.guarded Meaning.kept
  rw [halone, Eval.bind_assoc, Eval.bind_assoc]
  show Same W P _ (((v.meaning W).reference >>= fun r => pure (r.kept false)) >>= _)
  rw [Eval.bind_assoc]
  exact hsame

theorem Valued.attach {t v : Node} {N : Names} (h : Valued W P t v N) (k : Head) :
    Valued W P t (Convert.attach k v) N := by
  refine ⟨h.1.attach k, ?_, fun ht => ?_⟩
  · rw [meaning_attach]; exact h.2.1
  · rw [← h.2.2 ht]; cases v; rfl

theorem Referred.attach {t v : Node} {N : Names} (h : Referred W P t v N) (k : Head) :
    Referred W P t (Convert.attach k v) N := by
  refine ⟨h.1.attach k, ?_, fun ht => ?_⟩
  · rw [meaning_attach]; exact h.2.1
  · rw [← h.2.2 ht]; cases v; rfl

/-- A construct that is no link gives its reference. -/
theorem converts_of_plain {h : Head} {s : Slots Unit} (hlink : isLink h = false)
    (halone : (Node.meaning W (.mk () h s)).chain =
      do return some (← (Node.meaning W (.mk () h s)).reference))
    (hconvert : ∀ N : Names, (∀ n, P n → InUse N n) →
      Yields N (Convert.convertNode h (Tree.annotateSlots Convert.outcome s)) fun v N' =>
        Referred W P (.mk () h s) v N') :
    Converts W P (.mk () h s) := by
  have hattach : ∀ N : Names, (∀ n, P n → InUse N n) →
      Yields N ((Tree.mk () h s).synthesize Convert.outcome).convert
        (Referred W P (.mk () h s)) := by
    intro N hPN
    exact Yields.map ((hconvert N hPN).imp fun _ _ _ hv => hv.attach h)
  refine ⟨fun N hPN => ?_, fun isCallee _ N hPN => ?_, fun _ => hattach⟩
  · exact (hattach N hPN).imp fun _ _ _ h => h.valued
  · rw [chain_of_plain hlink]
    exact Yields.map ((hattach N hPN).imp fun _ _ _ h => (h.chained halone).reaches isCallee)

/-! ### Constructs that are no links -/

theorem converts_identifier {h : Head} (ht : h.tag? = some .identifier) (hP : P (h.text .name)) :
    Converts W P (.mk () h [(.ty, .maybe none)]) := by
  refine converts_of_plain (by simp [isLink, Head.isAny, Head.is, ht]) ?_ fun N hPN => ?_
  · rw [meaning_identifier ht]; rfl
  · obtain ⟨k, hk, hname, hconvert⟩ := convertNode_identifier ht
    show Yields N (Convert.convertNode h [(.ty, .maybe none)]) _
    rw [hconvert]
    refine yields_pure ⟨.identifier hk (by rw [hname]; exact hPN _ hP), ?_, fun _ => hname⟩
    rw [meaning_identifier ht, meaning_identifier hk, hname]
    exact (same_readVariable hP).bind (fun _ => records_pure _) fun _ => same_pure _

/-- An access depends on the value of its object only. -/
theorem bind_accessNode (m : Meaning σ V ε) (isComputed : Bool) (p : Node) :
    m.reference >>= W.accessNode isComputed p =
      m.value >>= fun v => W.accessNode isComputed p (.plain v) := by
  unfold Meaning.value
  rw [Eval.bind_assoc]
  rfl

theorem records_accessNode (isComputed : Bool) (p : Node) (r : Reference V) :
    Records (W.accessNode isComputed p r) := by
  refine Records.bind ?_ fun k => records_readMember W _ k
  unfold Realm.keyNode
  split_ifs
  · exact (records_meaning W p).value.bind fun _ => records_pure _
  · exact records_pure _

theorem same_accessNode {isComputed : Bool} {p p' : Node} {N : Names} (hp : Valued W P p p' N)
    (static : isComputed = false → p.head.is .identifier = true) (r : Reference V) :
    Same W P (W.accessNode isComputed p r) (W.accessNode isComputed p' r) := by
  refine Same.bind ?_ (fun k => records_readMember W _ k) fun k => same_readMember _ k
  unfold Realm.keyNode
  split_ifs with hc
  · exact hp.2.1.bind (fun _ => records_pure _) fun _ => same_pure _
  · rw [hp.2.2 (static (Bool.eq_false_iff.mpr hc))]
    exact same_pure _

theorem converts_member {h : Head} {o p : Node} (ht : h.tag? = some .memberExpression)
    (ho : Converts W P o) (hp : Converts W P p)
    (static : h.flag .isComputed = false → p.head.is .identifier = true) :
    Converts W P (.mk () h [(.object, .one o), (.property, .one p)]) := by
  refine converts_of_plain (by simp [isLink, Head.isAny, Head.is, ht]) ?_ fun N hPN => ?_
  · rw [meaning_member ht]; rfl
  obtain ⟨k, hk, hflag, hconvert⟩ :=
    convertNode_member ht (o.annotate Convert.outcome) (p.annotate Convert.outcome)
  show Yields N (Convert.convertNode h [(.object, .one (o.annotate Convert.outcome)),
    (.property, .one (p.annotate Convert.outcome))]) _
  rw [hconvert]
  refine (ho.value N hPN).bind fun o' N₁ hN₁ ho' => ?_
  refine (hp.value N₁ fun n h => hN₁ n (hPN n h)).bind fun p' N₂ hN₂ hp' => ?_
  refine yields_pure ⟨.member hk (ho'.1.within hN₂) hp'.1, ?_, fun h => ?_⟩
  · rw [meaning_member ht, meaning_member hk, hflag]
    show Same W P (_ >>= _) (_ >>= _)
    rw [bind_accessNode, bind_accessNode]
    exact ho'.2.1.bind (fun _ => records_accessNode _ _ _) fun _ => same_accessNode hp' static _
  · simp [Head.is, ht] at h

/-- The converted arguments have the values of the arguments. -/
def Arguments (W : Realm σ V ε) (P : String → Prop) (args args' : List Node) (N : Names) : Prop :=
  List.Forall₂ (fun a v => Valued W P a v N) args args'

theorem Valued.within {t v : Node} {N N' : Names} (h : Valued W P t v N) (hN : N.Within N') :
    Valued W P t v N' := ⟨h.1.within hN, h.2⟩

theorem yields_convertList {args : List Node} (h : ∀ a ∈ args, Converts W P a) {N : Names}
    (hPN : ∀ n, P n → InUse N n) :
    Yields N (Convert.convertList (args.map (Tree.annotate Convert.outcome)))
      (Arguments W P args) := by
  unfold Convert.convertList
  induction args generalizing N with
  | nil => exact yields_pure .nil
  | cons a rest ih =>
    rw [List.map_cons, List.mapM_cons]
    refine ((h a List.mem_cons_self).value N hPN).bind fun v N₁ hN₁ hv => ?_
    have hPN₁ : ∀ n, P n → InUse N₁ n := fun n h => hN₁ n (hPN n h)
    refine (ih (fun b hb => h b (.tail a hb)) hPN₁).bind fun vs N₂ hN₂ hvs => ?_
    exact yields_pure (.cons (hv.within hN₂) hvs)

theorem Arguments.settled {args args' : List Node} {N : Names} (h : Arguments W P args args' N) :
    ∀ v ∈ args', Settled W (InUse N) v := by
  induction h with
  | nil => intro v hv; cases hv
  | cons hv _ ih =>
    intro v hmem
    rcases List.mem_cons.mp hmem with rfl | hmem
    · exact hv.1
    · exact ih v hmem

theorem records_applyNodes (args : List Node) (r : Reference V) :
    Records (W.applyNodes args r) := by
  refine (Meaning.records_values fun m hm => ?_).bind fun vs => records_invoke W r vs
  obtain ⟨a, -, rfl⟩ := List.mem_map.mp hm
  exact records_meaning W a

theorem same_applyNodes {args args' : List Node} {N : Names} (h : Arguments W P args args' N)
    (r : Reference V) : Same W P (W.applyNodes args r) (W.applyNodes args' r) := by
  refine Same.bind (same_values ?_ ?_) (fun vs => records_invoke W r vs) fun vs => same_invoke r vs
  · intro m hm
    obtain ⟨a, -, rfl⟩ := List.mem_map.mp hm
    exact records_meaning W a
  · rw [List.forall₂_map_left_iff, List.forall₂_map_right_iff]
    exact h.imp fun _ _ hv => hv.2.1

theorem yields_typeArguments (ta : Option Node) {N : Names} :
    Yields N (Convert.convertOption (ta.map (Tree.annotate Convert.outcome))) fun _ _ => True := by
  refine yields_of_keeps ?_
  cases ta with
  | none => exact Convert.closed_grows.pure _
  | some t =>
    exact Convert.closed_grows.bind (Convert.closed_grows.obeys_outcome t).convert fun _ =>
      Convert.closed_grows.pure _

theorem converts_call {h : Head} {c : Node} {ta : Option Node} {args : List Node}
    (ht : h.tag? = some .callExpression) (hc : Converts W P c) (kept : endsInChain c = false)
    (ha : ∀ a ∈ args, Converts W P a) :
    Converts W P
      (.mk () h [(.callee, .one c), (.typeArguments, .maybe ta), (.arguments, .many args)]) := by
  refine converts_of_plain (by simp [isLink, Head.isAny, Head.is, ht]) ?_ fun N hPN => ?_
  · rw [meaning_call ht (by decide)]; rfl
  rw [Tree.annotateSlots_eq_map]
  show Yields N (Convert.convertNode h [(.callee, .one (c.annotate Convert.outcome)),
    (.typeArguments, .maybe (ta.map (Tree.annotate Convert.outcome))),
    (.arguments, .many (args.map (Tree.annotate Convert.outcome)))]) _
  rw [convertNode_call ht]
  refine (hc.plain kept N hPN).bind fun c' N₁ hN₁ hc' => ?_
  have hPN₁ : ∀ n, P n → InUse N₁ n := fun n h => hN₁ n (hPN n h)
  refine (yields_convertList ha hPN₁).bind fun args' N₂ hN₂ hargs => ?_
  refine (yields_typeArguments ta).bind fun ta' N₃ hN₃ _ => ?_
  refine yields_pure ⟨?_, ?_, fun h => ?_⟩
  · exact .call rfl (by decide) ((hc'.1.within hN₂).within hN₃) fun a h =>
      (hargs.settled a h).within hN₃
  · rw [meaning_call ht (by decide)]
    show Same W P _ (Node.meaning W (.mk () _ [_, _, _])).reference
    rw [meaning_call rfl (by decide)]
    exact hc'.2.1.bind (records_applyNodes args) (same_applyNodes hargs)
  · simp [Head.is, ht] at h

/-- Parentheses keep what is known of the expression in them. -/
theorem yields_parenthesized {h : Head} {e : Node} (ht : h.tag? = some .parenthesizedExpression)
    {N : Names} {Q R : Node → Names → Prop} (he : Yields N (e.synthesize Convert.outcome).convert Q)
    (hQ : ∀ k e' N', k.tag? = some .parenthesizedExpression → Q e' N' →
      R (Convert.attach h (.mk () k [(.expression, .one e')])) N') :
    Yields N ((Tree.mk () h [(.expression, .one e)]).synthesize Convert.outcome).convert R := by
  obtain ⟨k, hk, hconvert⟩ := convertNode_parenthesized ht (e.annotate Convert.outcome)
  refine Yields.map (f := Convert.attach h) ?_
  show Yields N (Convert.convertNode h [(.expression, .one (e.annotate Convert.outcome))]) _
  rw [hconvert]
  exact he.bind fun e' N' _ he' => yields_pure (hQ k e' N' hk he')

theorem converts_parenthesized {h : Head} {e : Node}
    (ht : h.tag? = some .parenthesizedExpression) (he : Converts W P e) :
    Converts W P (.mk () h [(.expression, .one e)]) := by
  have hlink : isLink h = false := by simp [isLink, Head.isAny, Head.is, ht]
  have hident : ¬ (Tree.mk () h [(.expression, .one e)]).head.is .identifier = true := by
    simp [Head.is, ht]
  have halone : (Node.meaning W (.mk () h [(.expression, .one e)])).chain =
      do return some (← (Node.meaning W (.mk () h [(.expression, .one e)])).reference) := by
    rw [meaning_parenthesized ht]; rfl
  have hvalue : ∀ N : Names, (∀ n, P n → InUse N n) →
      Yields N ((Tree.mk () h [(.expression, .one e)]).synthesize Convert.outcome).convert
        (Valued W P (.mk () h [(.expression, .one e)])) := by
    refine fun N hPN => yields_parenthesized ht (he.value N hPN) fun k e' N' hk he' => ?_
    refine Valued.attach ⟨.parenthesized hk he'.1, ?_, fun hi => absurd hi hident⟩ h
    rw [meaning_parenthesized ht, meaning_parenthesized hk]
    exact he'.2.1
  have hplain : endsInChain (.mk () h [(.expression, .one e)]) = false →
      ∀ N : Names, (∀ n, P n → InUse N n) →
      Yields N ((Tree.mk () h [(.expression, .one e)]).synthesize Convert.outcome).convert
        (Referred W P (.mk () h [(.expression, .one e)])) := by
    intro hends N hPN
    rw [endsInChain_parenthesized ht] at hends
    refine yields_parenthesized ht (he.plain hends N hPN) fun k e' N' hk he' => ?_
    refine Referred.attach ⟨.parenthesized hk he'.1, ?_, fun hi => absurd hi hident⟩ h
    rw [meaning_parenthesized ht, meaning_parenthesized hk]
    exact he'.2.1
  refine ⟨hvalue, fun isCallee hkept N hPN => ?_, hplain⟩
  rw [chain_of_plain hlink]
  cases isCallee with
  | false => exact Yields.map ((hvalue N hPN).imp fun _ _ _ hv => hv.reaches halone)
  | true =>
    exact Yields.map ((hplain (hkept rfl hlink) N hPN).imp fun _ _ _ hv =>
      (hv.chained halone).reaches true)

theorem converts_delete {h : Head} {a : Node} (ht : h.tag? = some .unaryExpression)
    (hop : h.text .operator = "delete") (ha : Converts W P a) (kept : endsInChain a = false) :
    Converts W P (.mk () h [(.argument, .one a)]) := by
  refine converts_of_plain (by simp [isLink, Head.isAny, Head.is, ht]) ?_ fun N hPN => ?_
  · rw [meaning_delete ht hop]; rfl
  obtain ⟨k, hk, hoperator, hconvert⟩ := convertNode_unary ht (a.annotate Convert.outcome)
  rw [hop] at hoperator
  show Yields N (Convert.convertNode h [(.argument, .one (a.annotate Convert.outcome))]) _
  rw [hconvert]
  refine (ha.plain kept N hPN).bind fun a' N' _ ha' => yields_pure ⟨?_, ?_, fun hi => ?_⟩
  · exact .delete hk hoperator ha'.1
  · rw [meaning_delete ht hop, meaning_delete hk hoperator]
    exact ha'.2.1.bind (records_remove W) same_remove
  · simp [Head.is, ht] at hi

/-! ### Links of a chain -/

/-- The value that an outcome comes to. -/
def final : V ⊕ Reference V → V := Sum.elim id Reference.value

theorem value_linked (chain : Eval σ V ε (Option (Reference V))) :
    (W.linked chain).value = (do return W.outcome (← chain)) >>= fun x => pure (final x) := by
  unfold Meaning.value Realm.linked
  rw [Eval.bind_assoc, Eval.bind_assoc]
  congr 1
  funext x
  cases x <;> rfl

theorem value_closeChain (v : Node) (guard : Option Node) :
    ((Convert.closeChain v guard).meaning W).value =
      W.guarded (v.meaning W) (guard.map (Node.meaning W)) >>= fun x => pure (final x) := by
  cases guard with
  | none =>
    unfold Realm.guarded
    rw [Option.map_none, Eval.bind_assoc]
    rfl
  | some g =>
    refine (value_both g v).trans ((congrArg _ (funext fun x => ?_)).trans
      (Eval.bind_assoc (g.meaning W).value _ _).symm)
    split_ifs
    · rw [Eval.bind_assoc]; rfl
    · rfl

theorem Chained.valued {t v : Node} {guard : Option Node} {N : Names}
    {chain : Eval σ V ε (Option (Reference V))} (hmeaning : t.meaning W = W.linked chain)
    (hlink : t.head.is .identifier = false) (h : Chained W P chain (v, guard) N) :
    Valued W P t (Convert.closeChain v guard) N := by
  obtain ⟨hv, hg, hfol⟩ := h
  refine ⟨?_, ?_, fun hi => ?_⟩
  · cases guard with
    | none => exact hv
    | some g => exact (hg g rfl).both hv
  · rw [hmeaning, value_linked, value_closeChain]
    exact Same.bind hfol (fun _ => records_pure _) fun _ => same_pure _
  · rw [hlink] at hi; cases hi

theorem reference_eq {r r' : Reference V} (hvalue : r'.value = r.value)
    (hplace : r'.place = r.place) : r' = r := by
  cases r; cases r'; cases hvalue; cases hplace; rfl

/-- Two computations with the same value have the same reference if neither reads a property. -/
theorem Same.reference {m m' : Meaning σ V ε} (h : Same W P m.value m'.value)
    (hm : Placeless m.reference) (hm' : Placeless m'.reference) :
    Same W P m.reference m'.reference := by
  intro s u hsu hfair
  have hvalue := h s u hsu
  simp only [Meaning.value, Eval.bind_pure_apply] at hvalue
  obtain ⟨hres, hag⟩ := hvalue hfair
  refine ⟨?_, hag⟩
  rcases hs : (m.reference s).1 with e | r <;> rcases hu : (m'.reference u).1 with e' | r' <;>
    rw [hs, hu] at hres
  · exact congrArg Except.error (Except.error.inj hres)
  · cases hres
  · cases hres
  · refine congrArg Except.ok (reference_eq (Except.ok.inj hres) ?_)
    rw [hm s r hs, hm' u r' hu]

/-- A link gives the chain that ends with it. -/
theorem converts_of_chain {h : Head} {s : Slots Unit} (hlink : isLink h = true)
    {chain : Eval σ V ε (Option (Reference V))}
    (hmeaning : Node.meaning W (.mk () h s) = W.linked chain)
    (hchain : ∀ N : Names, (∀ n, P n → InUse N n) →
      Yields N (Convert.chainStep h (Tree.annotateSlots Convert.outcome s)) (Chained W P chain))
    (hplain : endsInChain (.mk () h s) = false →
      Forms (.mk () h s) ∧ Placeless (W.linked chain).reference) :
    Converts W P (.mk () h s) := by
  have hident : h.is .identifier = false := by
    rcases isLink_iff.mp hlink with ht | ht <;> simp [Head.is, ht]
  have hcore : core (.mk () h s) = h := by
    refine core_mk ?_ s
    rcases isLink_iff.mp hlink with ht | ht <;> simp [Head.is, ht]
  have hvalue : ∀ N : Names, (∀ n, P n → InUse N n) →
      Yields N ((Tree.mk () h s).synthesize Convert.outcome).convert (Valued W P (.mk () h s)) := by
    intro N hPN
    rw [Tree.synthesize_mk]
    refine Yields.map (f := Convert.attach h) ?_
    rw [convertNode_link hlink]
    exact (hchain N hPN).bind fun x N' _ hx => yields_pure ((hx.valued hmeaning hident).attach h)
  refine ⟨hvalue, fun isCallee _ N hPN => ?_, fun hends N hPN => ?_⟩
  · have hstep : ((Tree.mk () h s).synthesize Convert.outcome).chain =
        Convert.chainStep h (Tree.annotateSlots Convert.outcome s) := if_pos hlink
    rw [hstep, hmeaning]
    exact (hchain N hPN).imp fun _ _ _ hx => hx.reaches isCallee
  · obtain ⟨hforms, hplaceless⟩ := hplain hends
    refine ((hvalue N hPN).and hforms.convert).imp fun v N' _ hv => ?_
    obtain ⟨⟨hsettled, hsame, hname⟩, hformed⟩ := hv
    refine ⟨hsettled, hsame.reference ?_ (hsettled.placeless ?_), hname⟩
    · rw [hmeaning]; exact hplaceless
    · refine Bool.eq_false_iff.mpr fun hmember => ?_
      rcases hformed.access hmember with hcore' | hcore'
      · rw [hcore] at hcore'
        rcases isLink_iff.mp hlink with ht | ht <;> simp [Head.is, ht] at hcore'
      · rw [hends] at hcore'; cases hcore'

theorem accessNode_of_value (isComputed : Bool) (p : Node) {r r' : Reference V}
    (h : r'.value = r.value) : W.accessNode isComputed p r' = W.accessNode isComputed p r := by
  unfold Realm.accessNode
  rw [h]

theorem converts_optionalMember {h : Head} {o p : Node}
    (ht : h.tag? = some .optionalMemberExpression) (ho : Converts W P o) (hp : Converts W P p)
    (static : h.flag .isComputed = false → p.head.is .identifier = true) :
    Converts W P (.mk () h [(.object, .one o), (.property, .one p)]) := by
  refine converts_of_chain (isLink_iff.mpr (.inl ht)) (meaning_optionalMember ht)
    (fun N hPN => ?_) fun hends => ?_
  · show Yields N (Convert.chainStep h [(.object, .one (o.annotate Convert.outcome)),
      (.property, .one (p.annotate Convert.outcome))]) _
    rw [chainStep_member ht]
    refine yields_link hPN (ho.chain false (fun h => by cases h) N hPN) (fun _ h => by cases h)
      (fun r => records_accessNode _ p r) (fun r r' hvalue _ => accessNode_of_value _ p hvalue)
      fun {N' v} hPN' hv => ?_
    refine (hp.value N' hPN').bind fun p' N₁ hN₁ hp' => yields_pure ⟨?_, ?_⟩
    · exact .withSpan (.member rfl (hv.within hN₁) hp'.1) _
    · refine ⟨W.accessNode (h.flag .isComputed) p', ?_, same_accessNode hp' static,
        fun r r' hvalue _ => accessNode_of_value _ p' hvalue⟩
      rw [meaning_withSpan]
      exact congrArg Meaning.reference (meaning_member rfl)
  · unfold endsInChain at hends
    rw [core_mk (by simp [Head.is, ht])] at hends
    simp [Head.is, ht] at hends

theorem placeless_linked_call (isOptional : Bool) (chain : Eval σ V ε (Option (Reference V)))
    (args : List Node) :
    Placeless (W.linked (W.link isOptional chain (W.applyNodes args))).reference := by
  have hcall : ∀ r, Placeless ((W.applyNodes args r >>= fun a => pure (some a)) >>= fun x =>
      pure (x.getD (.plain W.undefined))) := by
    intro r
    rw [Eval.bind_assoc]
    show Placeless (W.applyNodes args r >>= fun a => pure a)
    rw [Eval.bind_pure]
    exact Placeless.bind (placeless_invoke r) _
  show Placeless ((chain >>= _) >>= _)
  rw [Eval.bind_assoc]
  refine Placeless.bind (fun x => ?_) chain
  cases x with
  | none => exact placeless_plain W.undefined
  | some r =>
    cases isOptional with
    | false => exact hcall r
    | true =>
      show Placeless ((_ >>= _) >>= _)
      rw [Eval.bind_assoc]
      refine Placeless.bind (fun _ => ?_) _
      split_ifs
      · exact placeless_plain W.undefined
      · exact hcall r

theorem converts_optionalCall {h : Head} {c : Node} {ta : Option Node} {args : List Node}
    (ht : h.tag? = some .optionalCallExpression) (hc : Converts W P c) (hforms : Forms c)
    (kept : KeepsReceiver h c) (hends : isLink c.head = false → endsInChain c = false)
    (ha : ∀ a ∈ args, Converts W P a) :
    Converts W P
      (.mk () h [(.callee, .one c), (.typeArguments, .maybe ta), (.arguments, .many args)]) := by
  refine converts_of_chain (isLink_iff.mpr (.inr ht)) (meaning_optionalCall ht (by decide))
    (fun N hPN => ?_) fun _ => ⟨forms_optionalCall ht, placeless_linked_call _ _ args⟩
  rw [Tree.annotateSlots_eq_map]
  show Yields N (Convert.chainStep h [(.callee, .one (c.annotate Convert.outcome)),
    (.typeArguments, .maybe (ta.map (Tree.annotate Convert.outcome))),
    (.arguments, .many (args.map (Tree.annotate Convert.outcome)))]) _
  rw [chainStep_call ht]
  refine yields_link hPN (hc.chain true (fun _ => hends) N hPN)
    (fun ho _ => hforms.reusable kept ho)
    (records_applyNodes args)
    (fun r r' hvalue hplace => by rw [reference_eq hvalue (hplace rfl)]) fun {N' v} hPN' hv => ?_
  refine (yields_convertList ha hPN').bind fun args' N₁ hN₁ hargs => ?_
  refine (yields_typeArguments ta).bind fun ta' N₂ hN₂ _ => yields_pure ⟨?_, ?_⟩
  · exact .withSpan (.call rfl (by decide) ((hv.within hN₁).within hN₂) fun a h =>
      (hargs.settled a h).within hN₂) _
  · refine ⟨W.applyNodes args', ?_, same_applyNodes hargs, fun r r' hvalue hplace => ?_⟩
    · rw [meaning_withSpan]
      exact congrArg Meaning.reference (meaning_call rfl (by decide))
    · rw [reference_eq hvalue (hplace rfl)]

end Converts

/-! ### Runs -/

/-- A faithful callee that is no link ends in no chain, unless it is in parentheses. -/
theorem Faithful.endsInChain_eq {h : Head} {c : Node} (hc : Faithful c) (kept : KeepsReceiver h c)
    (hlink : isLink c.head = false) : endsInChain c = false := by
  obtain ⟨_, k, s⟩ := c
  by_cases hp : k.is .parenthesizedExpression = true
  · exact (kept hp).1
  · unfold endsInChain
    rw [core_mk (Bool.eq_false_iff.mpr hp)]
    refine Bool.eq_false_iff.mpr fun hm => ?_
    rw [isLink_iff.mpr (.inl (by simpa [Head.is] using hm))] at hlink
    cases hlink

/-- **Every faithful expression converts**, by induction over its constructs. -/
theorem Faithful.converts {W : Realm σ V ε} {P : String → Prop} {t : Node} (ht : Faithful t)
    (hP : ∀ n ∈ Node.mentions t, P n) : Converts W P t := by
  induction ht with
  | @identifier h tag =>
    refine converts_identifier tag (hP _ (Node.mem_mentions_mk.mpr (.inl ?_)))
    simp [Head.mention?, Head.isAny, Head.is, tag]
  | member tag _ _ static iho ihp =>
    refine converts_member tag (iho fun n hn => ?_) (ihp fun n hn => ?_) static <;>
      exact hP n (Node.mem_mentions_mk.mpr (.inr ⟨_, by simp [Slot.toList], hn⟩))
  | call tag _ kept _ ihc iha =>
    refine converts_call tag (ihc fun n hn => ?_) kept fun a ha => iha a ha fun n hn => ?_
    · exact hP n (Node.mem_mentions_mk.mpr (.inr ⟨_, by simp [Slot.toList], hn⟩))
    · exact hP n (Node.mem_mentions_mk.mpr (.inr ⟨a, by simp [Slot.toList, ha], hn⟩))
  | optionalMember tag _ _ static iho ihp =>
    refine converts_optionalMember tag (iho fun n hn => ?_) (ihp fun n hn => ?_) static <;>
      exact hP n (Node.mem_mentions_mk.mpr (.inr ⟨_, by simp [Slot.toList], hn⟩))
  | optionalCall tag callee kept _ ihc iha =>
    refine converts_optionalCall tag (ihc fun n hn => ?_) callee.forms kept
      (callee.endsInChain_eq kept) fun a ha => iha a ha fun n hn => ?_
    · exact hP n (Node.mem_mentions_mk.mpr (.inr ⟨_, by simp [Slot.toList], hn⟩))
    · exact hP n (Node.mem_mentions_mk.mpr (.inr ⟨a, by simp [Slot.toList, ha], hn⟩))
  | parenthesized tag _ ih =>
    refine converts_parenthesized tag (ih fun n hn => ?_)
    exact hP n (Node.mem_mentions_mk.mpr (.inr ⟨_, by simp [Slot.toList], hn⟩))
  | delete tag operator _ kept ih =>
    refine converts_delete tag operator (ih fun n hn => ?_) kept
    exact hP n (Node.mem_mentions_mk.mpr (.inr ⟨_, by simp [Slot.toList], hn⟩))

theorem Operand.not_parenthesized {t : Node} (ht : Operand t) :
    t.head.is .parenthesizedExpression = false := by
  cases ht with
  | identifier tag => simp [Head.is, tag]
  | member tag _ _ _ => simp [Head.is, tag]
  | call tag _ _ _ => simp [Head.is, tag]
  | optionalMember tag _ _ _ => simp [Head.is, tag]
  | optionalCall tag _ _ => simp [Head.is, tag]

/-- An operand has no parentheses, so it is faithful. -/
theorem Operand.faithful {t : Node} (ht : Operand t) : Faithful t := by
  have hkept : ∀ {h : Head} {c : Node}, Operand c → KeepsReceiver h c := by
    intro h c hc hp
    rw [hc.not_parenthesized] at hp; cases hp
  induction ht with
  | identifier tag => exact .identifier tag
  | member tag _ _ static iho ihp => exact .member tag iho ihp static
  | @call h c _ _ tag callee direct _ ihc iha =>
    exact .call tag ihc (ihc.endsInChain_eq (hkept (h := h) callee) direct) iha
  | optionalMember tag _ _ static iho ihp => exact .optionalMember tag iho ihp static
  | optionalCall tag callee _ ihc iha => exact .optionalCall tag ihc (hkept callee) iha

/-- No link of a chain is left in a converted tree. -/
theorem isLink_convert (t : Node) : ∀ h ∈ t.convert.tree.preorder, isLink h = false := by
  intro h hh
  refine Bool.eq_false_iff.mpr fun hlink => ?_
  rcases isLink_iff.mp hlink with ht | ht <;> cases Convert.isIn_convert t h hh _ ht

/-- A faithful expression and its conversion come to the same, if every value that an optional link
tests is nullish or truthy. -/
theorem Faithful.run_eq (W : Realm σ V ε) {t : Node} (ht : Faithful t) (s : σ)
    (hfair : ∀ v ∈ (t.run W s).tested, W.nullish v = true ∨ W.truthy v = true) :
    (t.convert.tree.run W s).result = (t.run W s).result ∧
      (t.convert.tree.run W s).events = (t.run W s).events ∧
      (t.convert.tree.run W s).state = (t.run W s).state := by
  have hconverts : Converts W (fun n => n ∈ Node.mentions t) t := ht.converts fun n hn => hn
  have hyields := hconverts.value t.names fun n hn => (Node.contains_names t n).mpr hn
  obtain ⟨-, -, hsame, -⟩ := hyields (.start t.names) rfl
  obtain ⟨hres, hag⟩ := hsame ⟨s, fun _ => none, [], []⟩ _ (Agree.refl _) hfair
  exact ⟨hres.symm, hag.events.symm, hag.state.symm⟩

/-- **Flattening preserves evaluation.** If every value that an optional link tests is nullish or
truthy, an operand and its conversion have the same result, the same calls with the same receivers
and arguments, and the same final state; and the conversion has no optional link left, so it is
evaluated by the rules of plain constructs alone. -/
theorem run_convert (W : Realm σ V ε) {t : Node} (ht : Operand t) (s : σ)
    (hfair : ∀ v ∈ (t.run W s).tested, W.nullish v = true ∨ W.truthy v = true) :
    (t.convert.tree.run W s).result = (t.run W s).result ∧
      (t.convert.tree.run W s).events = (t.run W s).events ∧
      (t.convert.tree.run W s).state = (t.run W s).state ∧
      ∀ h ∈ t.convert.tree.preorder, isLink h = false := by
  obtain ⟨hresult, hevents, hstate⟩ := ht.faithful.run_eq W s hfair
  exact ⟨hresult, hevents, hstate, isLink_convert t⟩

/-- A realm of numbers in which `0` is nullish and `1` is falsy; its state counts the calls. -/
def countingRealm : Realm Nat Nat String where
  undefined := 0
  nullish v := v == 0
  nullish_iff v := by simp
  truthy v := decide (2 ≤ v)
  falsy_undefined := rfl
  typeError := "TypeError"
  unknown := "unknown"
  lookup s name := s + name.length
  property s v _ := s + v
  call f _ args s := (.ok (f + args.length + s), s + 1)
  delete _ s := (.ok 0, s)

/-- `ff(xx)?.mm?.(ff?.[xx])`. -/
def methodOfCall : Node :=
  let key : Node := .of .optionalMemberExpression
    [(.isComputed, .flag true), (.isOptional, .flag true)]
    [(.object, .one (Target.ident "ff")), (.property, .one (Target.ident "xx"))]
  let root : Node := .of .callExpression []
    [(.callee, .one (Target.ident "ff")), (.typeArguments, .maybe none),
      (.arguments, .many [Target.ident "xx"])]
  let method : Node := .of .optionalMemberExpression
    [(.isComputed, .flag false), (.isOptional, .flag true)]
    [(.object, .one root), (.property, .one (Target.ident "mm"))]
  .of .optionalCallExpression [(.isOptional, .flag true)]
    [(.callee, .one method), (.typeArguments, .maybe none), (.arguments, .many [key])]

theorem operand_methodOfCall : Operand methodOfCall := by
  have hv : ∀ name, Operand (Target.ident name) := fun name => .identifier rfl
  refine .optionalCall rfl (.optionalMember rfl (.call rfl (hv "ff") rfl ?_) (hv "mm") ?_) ?_
  · intro a ha
    rw [List.mem_singleton.mp ha]
    exact hv "xx"
  · intro _; rfl
  · intro a ha
    rw [List.mem_singleton.mp ha]
    exact .optionalMember rfl (hv "ff") (hv "xx") fun h => by cases h

theorem run_convert_methodOfCall :
    Operand methodOfCall ∧ (methodOfCall.run countingRealm 0).tested = [3, 4, 3] ∧
      (methodOfCall.convert.tree.run countingRealm 0).result =
        (methodOfCall.run countingRealm 0).result ∧
      (methodOfCall.convert.tree.run countingRealm 0).events =
        (methodOfCall.run countingRealm 0).events ∧
      (methodOfCall.convert.tree.run countingRealm 0).state =
        (methodOfCall.run countingRealm 0).state ∧
      ∀ h ∈ methodOfCall.convert.tree.preorder, isLink h = false := by
  have htested : (methodOfCall.run countingRealm 0).tested = [3, 4, 3] := by decide +kernel
  refine ⟨operand_methodOfCall, htested, run_convert countingRealm operand_methodOfCall 0 ?_⟩
  rw [htested]
  decide

end Typeshift.Chain
