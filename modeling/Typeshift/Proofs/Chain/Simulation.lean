import Mathlib.Data.List.Forall2
import Mathlib.Tactic.SplitIfs
import Typeshift.Proofs.Chain.Meaning
import Typeshift.Proofs.Tree.Induction

/-! # Simulating a chain by guards

Two computations are compared from stores that *agree*: same state, same events, and the same
protected temporaries. `Same p q` says that then both give the same result and end in stores that
agree again, if every value that `p` tests on the way is nullish or truthy.

The chain so far is followed by a value and a guard: `Follows`. Two lemmas extend it by a link.

* `Follows.plain`: a link that is not optional goes on from the value.
* `Follows.optional`: an optional link splits the value into an operand of the guard and an
  expression that gives the value again (`Split`). -/

namespace Typeshift.Chain

variable {σ V ε α β : Type}

namespace Eval

@[simp] theorem pure_apply (a : α) (u : Store σ V) : (pure a : Eval σ V ε α) u = (.ok a, u) := rfl

theorem bind_apply (p : Eval σ V ε α) (f : α → Eval σ V ε β) (u : Store σ V) :
    (p >>= f) u = match p u with
      | (.ok a, u') => f a u'
      | (.error e, u') => (.error e, u') := rfl

theorem bind_of_ok {p : Eval σ V ε α} {u u' : Store σ V} {a : α} (h : p u = (.ok a, u'))
    (f : α → Eval σ V ε β) : (p >>= f) u = f a u' := by rw [bind_apply, h]

theorem bind_of_error {p : Eval σ V ε α} {u u' : Store σ V} {e : ε} (h : p u = (.error e, u'))
    (f : α → Eval σ V ε β) : (p >>= f) u = (.error e, u') := by rw [bind_apply, h]

@[simp] theorem pure_bind (a : α) (f : α → Eval σ V ε β) : (pure a >>= f) = f a := rfl

theorem bind_assoc {γ : Type} (p : Eval σ V ε α) (f : α → Eval σ V ε β) (g : β → Eval σ V ε γ) :
    (p >>= f) >>= g = p >>= fun a => f a >>= g := by
  funext u
  rcases h : p u with ⟨_ | _, u'⟩
  · rw [bind_of_error h, bind_of_error (bind_of_error h f)]
  · rw [bind_of_ok h]; exact (bind_apply _ _ _).trans (by rw [bind_of_ok h]; rfl)

theorem bind_pure_apply (p : Eval σ V ε α) (f : α → β) (u : Store σ V) :
    (p >>= fun a => pure (f a)) u = ((p u).1.map f, (p u).2) := by
  rcases h : p u with ⟨_ | a, u'⟩
  · rw [bind_of_error h]; rfl
  · rw [bind_of_ok h]; rfl

theorem bind_pure (p : Eval σ V ε α) : (p >>= fun a => pure a) = p := by
  funext u
  rw [bind_pure_apply p (fun a => a)]
  rcases h : p u with ⟨_ | a, u'⟩ <;> rfl

end Eval

/-! ### Tested values stay on record -/

/-- A computation forgets no value that was tested before. -/
def Records (p : Eval σ V ε α) : Prop := ∀ u v, v ∈ u.tested → v ∈ (p u).2.tested

theorem records_pure (a : α) : Records (pure a : Eval σ V ε α) := fun _ _ h => h

theorem records_throw (e : ε) : Records (Eval.throw e : Eval σ V ε α) := fun _ _ h => h

theorem Records.bind {p : Eval σ V ε α} {f : α → Eval σ V ε β} (hp : Records p)
    (hf : ∀ a, Records (f a)) : Records (p >>= f) := by
  intro u v hv
  have h1 := hp u v hv
  rcases h : p u with ⟨_ | a, u'⟩ <;> rw [h] at h1
  · rw [Eval.bind_of_error h]; exact h1
  · rw [Eval.bind_of_ok h]; exact hf a u' v h1

theorem records_assign (n : String) (v : V) : Records (Eval.assign n v : Eval σ V ε Unit) :=
  fun _ _ h => h

theorem records_test (v : V) : Records (Eval.test v : Eval σ V ε Unit) :=
  fun _ _ h => List.mem_append_left _ h

/-- Both readings of a node keep the record. -/
def Meaning.Records (m : Meaning σ V ε) : Prop :=
  Chain.Records m.reference ∧ Chain.Records m.chain

theorem Meaning.records_alone {p : Eval σ V ε (Reference V)} (h : Chain.Records p) :
    (Meaning.alone p).Records := ⟨h, h.bind fun _ => records_pure _⟩

theorem Meaning.Records.value {m : Meaning σ V ε} (h : m.Records) : Chain.Records m.value :=
  h.1.bind fun _ => records_pure _

theorem Meaning.records_values {ms : List (Meaning σ V ε)} (h : ∀ m ∈ ms, m.Records) :
    Chain.Records (Meaning.values ms) := by
  induction ms with
  | nil => exact records_pure _
  | cons m rest ih =>
    have hm := (h m (by simp)).value
    have hr := ih fun m hm => h m (by simp [hm])
    exact hm.bind fun _ => hr.bind fun _ => records_pure _

section Rule
variable (W : Realm σ V ε)

theorem records_readMember (o : V) (k : Key V) : Records (W.readMember o k) := by
  intro u v hv
  unfold Realm.readMember
  split_ifs <;> exact hv

theorem records_invoke (f : Reference V) (as : List V) : Records (W.invoke f as) := by
  intro u v hv
  unfold Realm.invoke
  split_ifs <;> exact hv

theorem records_remove (r : Reference V) : Records (W.remove r) := fun _ _ h => h

variable {W} {h : Head} {s : Slots (Meaning σ V ε)} (hs : ∀ t ∈ s.toList, t.note.Records)
include hs

theorem records_part (f : Field) : (W.part s f).Records := by
  unfold Realm.part
  split
  · next t ht => exact hs t (Slots.child?_mem ht)
  · exact Meaning.records_alone (records_throw _)

theorem records_access (r : Reference V) : Records (W.access h s r) := by
  refine Records.bind ?_ fun k => records_readMember W _ k
  unfold Realm.keyOf
  split_ifs
  · exact (records_part hs .property).value.bind fun _ => records_pure _
  · exact records_pure _

theorem records_apply (r : Reference V) : Records (W.apply s r) := by
  refine (Meaning.records_values ?_).bind fun as => records_invoke W _ as
  intro m hm
  obtain ⟨t, ht, rfl⟩ := List.mem_map.mp hm
  exact hs t (Slots.children_mem ht)

omit hs in
theorem records_link {b : Bool} {p : Eval σ V ε (Option (Reference V))}
    {next : Reference V → Eval σ V ε (Reference V)} (hp : Records p)
    (hn : ∀ r, Records (next r)) : Records (W.link b p next) := by
  refine hp.bind fun x => ?_
  cases x with
  | none => exact records_pure _
  | some r =>
    have hr := (hn r).bind fun a => records_pure (some a)
    cases b with
    | false => exact hr
    | true =>
      refine (records_test r.value).bind fun _ => ?_
      split_ifs
      · exact records_pure _
      · exact hr

omit hs in
theorem records_linked {p : Eval σ V ε (Option (Reference V))} (hp : Records p) :
    (W.linked p).Records := ⟨hp.bind fun _ => records_pure _, hp⟩

theorem records_rule : (W.meaningRule h s).Records := by
  have hp := records_part (W := W) hs
  have hx : (Meaning.alone (.throw W.unknown) : Meaning σ V ε).Records :=
    Meaning.records_alone (records_throw W.unknown)
  unfold Realm.meaningRule
  split
  · exact Meaning.records_alone (Records.bind (fun _ _ h => h) fun _ => records_pure _)
  · exact Meaning.records_alone (hp _).1
  · exact Meaning.records_alone ((hp _).1.bind (records_access hs))
  · exact Meaning.records_alone ((hp _).1.bind (records_apply hs))
  · exact records_linked (records_link (hp _).2 (records_access hs))
  · exact records_linked (records_link (hp _).2 (records_apply hs))
  · split_ifs
    · refine Meaning.records_alone ((hp _).value.bind fun v => ?_)
      split_ifs
      · exact (hp _).value.bind fun _ => records_pure _
      · exact records_pure _
    · exact hx
  · split
    · split_ifs
      · exact Meaning.records_alone
          ((hp _).value.bind fun v => (records_assign _ v).bind fun _ => records_pure _)
      · exact hx
    · exact hx
  · split_ifs
    · exact Meaning.records_alone ((hp _).1.bind (records_remove W))
    · exact hx
  · exact hx

end Rule

theorem records_meaning (W : Realm σ V ε) (t : Node) : (t.meaning W).Records := by
  induction t using Tree.induct with
  | step n h s ih =>
    refine records_rule fun t ht => ?_
    rw [Tree.toList_annotateSlots] at ht
    obtain ⟨c, hc, rfl⟩ := List.mem_map.mp ht
    exact ih c hc

/-! ### Agreement -/

/-- Two stores show the same to the program: they differ in unprotected temporaries at most. -/
structure Agree (P : String → Prop) (s u : Store σ V) : Prop where
  state : s.state = u.state
  events : s.events = u.events
  temporaries : ∀ n, P n → s.temporaries n = u.temporaries n

theorem Agree.refl {P : String → Prop} (u : Store σ V) : Agree P u u := ⟨rfl, rfl, fun _ _ => rfl⟩

theorem Agree.trans {P : String → Prop} {a b c : Store σ V} (h : Agree P a b) (h' : Agree P b c) :
    Agree P a c :=
  ⟨h.state.trans h'.state, h.events.trans h'.events,
    fun n hn => (h.temporaries n hn).trans (h'.temporaries n hn)⟩

/-- Every tested value is nullish or truthy. -/
def Realm.Fair (W : Realm σ V ε) (u : Store σ V) : Prop :=
  ∀ v ∈ u.tested, W.nullish v = true ∨ W.truthy v = true

theorem fair_of_bind {W : Realm σ V ε} {p : Eval σ V ε α} {f : α → Eval σ V ε β} {u : Store σ V}
    (hf : ∀ a, Records (f a)) (h : W.Fair ((p >>= f) u).2) : W.Fair (p u).2 := by
  rcases hp : p u with ⟨_ | a, u'⟩
  · rw [Eval.bind_of_error hp] at h; exact h
  · rw [Eval.bind_of_ok hp] at h
    exact fun v hv => h v (hf a u' v hv)

theorem Records.fair {W : Realm σ V ε} {p : Eval σ V ε α} (h : Records p) {u : Store σ V}
    (hf : W.Fair (p u).2) : W.Fair u := fun v hv => hf v (h u v hv)

variable (W : Realm σ V ε) (P : String → Prop)

/-- From stores that agree, both computations give the same result and end in stores that agree, if
the first tests nothing but nullish and truthy values. -/
def Same (p q : Eval σ V ε α) : Prop :=
  ∀ s u, Agree P s u → W.Fair (p s).2 → (p s).1 = (q u).1 ∧ Agree P (p s).2 (q u).2

variable {W P}

theorem same_pure (a : α) : Same W P (pure a) (pure a) := fun _ _ h _ => ⟨rfl, h⟩

theorem Same.bind {p q : Eval σ V ε α} {f g : α → Eval σ V ε β} (h : Same W P p q)
    (hr : ∀ a, Records (f a)) (hfg : ∀ a, Same W P (f a) (g a)) :
    Same W P (p >>= f) (q >>= g) := by
  intro s u hsu hfair
  rcases hp : p s with ⟨_ | a, s'⟩
  · rw [Eval.bind_of_error hp] at hfair ⊢
    have hpq := h s u hsu (by rw [hp]; exact hfair)
    rcases hq : q u with ⟨_ | b, u'⟩ <;> rw [hp, hq] at hpq
    · rw [Eval.bind_of_error hq]
      cases hpq.1; exact ⟨rfl, hpq.2⟩
    · cases hpq.1
  · rw [Eval.bind_of_ok hp] at hfair ⊢
    have hpq := h s u hsu (by rw [hp]; exact (hr a).fair hfair)
    rcases hq : q u with ⟨_ | b, u'⟩ <;> rw [hp, hq] at hpq
    · cases hpq.1
    · rw [Eval.bind_of_ok hq]
      cases hpq.1; exact hfg a s' u' hpq.2 hfair

theorem same_readVariable {n : String} (hn : P n) :
    Same W P (W.readVariable n) (W.readVariable n) := by
  intro s u h _
  refine ⟨?_, h⟩
  unfold Realm.readVariable
  rw [h.state, h.temporaries n hn]

theorem same_readMember (o : V) (k : Key V) :
    Same W P (W.readMember o k) (W.readMember o k) := by
  intro s u h _
  unfold Realm.readMember
  rw [h.state]
  split_ifs <;> exact ⟨rfl, h⟩

theorem same_invoke (f : Reference V) (as : List V) :
    Same W P (W.invoke f as) (W.invoke f as) := by
  intro s u h _
  unfold Realm.invoke
  rw [h.state]
  split_ifs
  · exact ⟨rfl, h⟩
  · exact ⟨rfl, rfl, by rw [h.events], h.temporaries⟩

theorem same_remove (r : Reference V) : Same W P (W.remove r) (W.remove r) := by
  intro s u h _
  unfold Realm.remove
  rw [h.state]
  exact ⟨rfl, rfl, by rw [h.events], h.temporaries⟩

theorem same_values {ms ms' : List (Meaning σ V ε)} (hr : ∀ m ∈ ms, m.Records)
    (h : List.Forall₂ (fun m m' => Same W P m.value m'.value) ms ms') :
    Same W P (Meaning.values ms) (Meaning.values ms') := by
  induction h with
  | nil => exact same_pure []
  | cons hm _ ih =>
    have hrest := fun m hm => hr m (List.mem_cons_of_mem _ hm)
    refine hm.bind (fun _ => (Meaning.records_values hrest).bind fun _ => records_pure _)
      fun v => ?_
    exact (ih hrest).bind (fun _ => records_pure _) fun vs => same_pure (v :: vs)

/-! ### A value and a guard -/

/-- The evaluation of a value behind a guard: the guard, if it is falsy, and otherwise the value. -/
def Realm.guarded (W : Realm σ V ε) (value : Meaning σ V ε) (guard : Option (Meaning σ V ε)) :
    Eval σ V ε (V ⊕ Reference V) :=
  match guard with
  | none => do return .inr (← value.reference)
  | some g => do
    let v ← g.value
    if W.truthy v then return .inr (← value.reference) else return .inl v

/-- The outcome of a chain: nothing but `undefined` is left of one that ended. -/
def Realm.outcome (W : Realm σ V ε) : Option (Reference V) → V ⊕ Reference V
  | none => .inl W.undefined
  | some r => .inr r

/-- The chain is followed by a value behind a guard. -/
def Follows (W : Realm σ V ε) (P : String → Prop) (chain : Eval σ V ε (Option (Reference V)))
    (value : Meaning σ V ε) (guard : Option (Meaning σ V ε)) : Prop :=
  Same W P (do return W.outcome (← chain)) (W.guarded value guard)

/-- A value is split: the operand gives the value, and after it the reused expression gives it once
more without an effect, with its receiver if it is called next. -/
def Split (P : String → Prop) (isCallee : Bool) (value operand reused : Meaning σ V ε) : Prop :=
  ∀ u, ∃ u', operand.value u = ((value.reference u).1.map Reference.value, u') ∧
    Agree P (value.reference u).2 u' ∧
    ∀ r, (value.reference u).1 = .ok r → ∃ r', reused.reference u' = (.ok r', u') ∧
      r'.value = r.value ∧ (isCallee = true → r'.place = r.place)

/-- Going on from an outcome with one more link. -/
def proceed (next : Reference V → Eval σ V ε (Reference V)) :
    V ⊕ Reference V → Eval σ V ε (V ⊕ Reference V)
  | .inl v => pure (.inl v)
  | .inr r => do return .inr (← next r)

theorem outcome_link_plain (chain : Eval σ V ε (Option (Reference V)))
    (next : Reference V → Eval σ V ε (Reference V)) :
    (do return W.outcome (← W.link false chain next)) =
      (do return W.outcome (← chain)) >>= proceed next := by
  unfold Realm.link
  rw [Eval.bind_assoc, Eval.bind_assoc]
  congr 1
  funext x
  cases x with
  | none => rfl
  | some r => exact Eval.bind_assoc _ _ _

theorem guarded_next {value value' : Meaning σ V ε} {guard : Option (Meaning σ V ε)}
    {next : Reference V → Eval σ V ε (Reference V)}
    (h : value'.reference = value.reference >>= next) :
    W.guarded value' guard = W.guarded value guard >>= proceed next := by
  cases guard with
  | none =>
    unfold Realm.guarded
    simp only [h]
    rw [Eval.bind_assoc, Eval.bind_assoc]
    rfl
  | some g =>
    unfold Realm.guarded
    refine (congrArg (g.value >>= ·) (funext fun v => ?_)).trans (Eval.bind_assoc g.value _ _).symm
    split_ifs
    · rw [h, Eval.bind_assoc, Eval.bind_assoc]; rfl
    · rfl

theorem records_proceed {next : Reference V → Eval σ V ε (Reference V)}
    (h : ∀ r, Records (next r)) (x : V ⊕ Reference V) : Records (proceed next x) := by
  cases x with
  | inl v => exact records_pure _
  | inr r => exact (h r).bind fun _ => records_pure _

theorem same_proceed {next next' : Reference V → Eval σ V ε (Reference V)}
    (h : ∀ r, Same W P (next r) (next' r)) (x : V ⊕ Reference V) :
    Same W P (proceed next x) (proceed next' x) := by
  cases x with
  | inl v => exact same_pure _
  | inr r => exact (h r).bind (fun _ => records_pure _) fun _ => same_pure _

/-- **A link that is not optional** goes on from the value. -/
theorem Follows.plain {chain : Eval σ V ε (Option (Reference V))} {value value' : Meaning σ V ε}
    {guard : Option (Meaning σ V ε)} {next next' : Reference V → Eval σ V ε (Reference V)}
    (h : Follows W P chain value guard) (hr : ∀ r, Records (next r))
    (hn : ∀ r, Same W P (next r) (next' r)) (hv : value'.reference = value.reference >>= next') :
    Follows W P (W.link false chain next) value' guard := by
  unfold Follows
  rw [outcome_link_plain, guarded_next hv]
  exact Same.bind h (records_proceed hr) (same_proceed hn)

/-- The operand of a guard with the guard before it. -/
def Realm.both (W : Realm σ V ε) (guard : Option (Meaning σ V ε)) (operand : Meaning σ V ε) :
    Eval σ V ε V :=
  match guard with
  | none => operand.value
  | some g => do
    let v ← g.value
    if W.truthy v then operand.value else return v

section Outcome

variable {chain : Eval σ V ε (Option (Reference V))} {s s' : Store σ V}
  (next : Reference V → Eval σ V ε (Reference V))

/-- The outcome of a chain with one more optional link. -/
def Realm.outcomes (W : Realm σ V ε) (chain : Eval σ V ε (Option (Reference V)))
    (next : Reference V → Eval σ V ε (Reference V)) : Eval σ V ε (V ⊕ Reference V) := do
  return W.outcome (← W.link true chain next)

theorem outcomes_of_error {e : ε} (h : chain s = (.error e, s')) :
    W.outcomes chain next s = (.error e, s') :=
  Eval.bind_of_error (Eval.bind_of_error h _) _

theorem outcomes_of_none (h : chain s = (.ok none, s')) :
    W.outcomes chain next s = (.ok (.inl W.undefined), s') := by
  have hl : W.link true chain next s = (.ok none, s') := Eval.bind_of_ok h _
  exact Eval.bind_of_ok hl _

theorem outcomes_of_some {r : Reference V} (h : chain s = (.ok (some r), s')) :
    W.outcomes chain next s =
      if W.nullish r.value then (.ok (.inl W.undefined), s'.record r.value)
      else proceed next (.inr r) (s'.record r.value) := by
  unfold Realm.outcomes Realm.link
  rw [Eval.bind_assoc]
  refine (Eval.bind_of_ok h _).trans ?_
  dsimp only
  rw [if_pos rfl, Eval.bind_assoc]
  refine (Eval.bind_of_ok (p := Eval.test r.value) rfl _).trans ?_
  split_ifs
  · rfl
  · rw [Eval.bind_assoc]; rfl

end Outcome

theorem records_next {next : Reference V → Eval σ V ε (Reference V)}
    (h : ∀ r, Records (next r)) (x : Option (Reference V)) :
    Records (match x with
      | none => pure none
      | some r => do
        Eval.test r.value
        if W.nullish r.value then return none else return some (← next r) :
      Eval σ V ε (Option (Reference V))) := by
  cases x with
  | none => exact records_pure _
  | some r =>
    refine (records_test r.value).bind fun _ => ?_
    split_ifs
    · exact records_pure _
    · exact (h r).bind fun _ => records_pure _

theorem guarded_both {value operand guard' g : Meaning σ V ε}
    (hg : guard'.value = W.both (some g) operand) :
    W.guarded value (some guard') = g.value >>= fun v =>
      if W.truthy v then W.guarded value (some operand) else pure (.inl v) := by
  unfold Realm.guarded
  dsimp only
  rw [hg]
  unfold Realm.both
  dsimp only
  rw [Eval.bind_assoc]
  congr 1
  funext v
  split_ifs with hv
  · rfl
  · simp only [Eval.pure_bind, hv]; rfl

theorem Agree.record {s u : Store σ V} (h : Agree P s u) (v : V) : Agree P (s.record v) u :=
  ⟨h.state, h.events, h.temporaries⟩

section Optional

variable {chain : Eval σ V ε (Option (Reference V))} {value value' operand reused : Meaning σ V ε}
  {next next' : Reference V → Eval σ V ε (Reference V)} {isCallee : Bool}
  (hsplit : Split P isCallee value operand reused) (hr : ∀ r, Records (next r))
  (hn : ∀ r, Same W P (next r) (next' r)) (hv : value'.reference = reused.reference >>= next')
  (hd : ∀ r r' : Reference V, r'.value = r.value → (isCallee = true → r'.place = r.place) →
    next' r' = next' r)
include hsplit hr hn hv hd

/-- The step of an optional link, from stores in which the chain and the value have the same
outcome. -/
theorem optional_step {s u : Store σ V}
    (hres : (chain s).1 = (value.reference u).1.map some)
    (hag : Agree P (chain s).2 (value.reference u).2)
    (hfair : W.Fair (W.outcomes chain next s).2) :
    (W.outcomes chain next s).1 = (W.guarded value' (some operand) u).1 ∧
      Agree P (W.outcomes chain next s).2 (W.guarded value' (some operand) u).2 := by
  obtain ⟨u', hop, hag', hre⟩ := hsplit u
  have hsu := hag.trans hag'
  rcases hval : (value.reference u).1 with e | r <;> rw [hval] at hres hop
  · -- the value throws, so the chain and the operand do
    have hc : chain s = (.error e, (chain s).2) := Prod.ext hres rfl
    have ht : W.guarded value' (some operand) u = (.error e, u') := Eval.bind_of_error hop _
    rw [ht, outcomes_of_error _ hc]
    exact ⟨rfl, hsu⟩
  have hc : chain s = (.ok (some r), (chain s).2) := Prod.ext hres rfl
  have ht : W.guarded value' (some operand) u = _ := Eval.bind_of_ok hop _
  obtain ⟨r', hreused, hval', hplace⟩ := hre r hval
  rw [outcomes_of_some _ hc] at hfair ⊢
  rw [ht]
  split_ifs at hfair ⊢ with hnull htruthy htruthy
  · -- a nullish value is not truthy
    rw [(W.nullish_iff _).mp hnull, W.falsy_undefined] at htruthy
    cases htruthy
  · rw [(W.nullish_iff _).mp hnull]
    exact ⟨rfl, hsu.record _⟩
  · have hgo : (value'.reference >>= fun a => pure (.inr a) : Eval σ V ε (V ⊕ Reference V)) u' =
        proceed next' (.inr r) u' := by
      rw [hv, Eval.bind_assoc, Eval.bind_of_ok hreused, hd r r' hval' hplace]
      rfl
    rw [hgo]
    exact same_proceed hn (.inr r) _ u' (hsu.record _) hfair
  · -- the value was tested, so it is nullish or truthy
    have hmem : r.value ∈ ((chain s).2.record r.value).tested := by simp [Store.record]
    have hok := (records_proceed hr (.inr r)).fair hfair _ hmem
    exact absurd hok (by simp [hnull, htruthy])

omit hsplit hr hn hv hd in
/-- Where the value is reached, it has the result of the chain. -/
theorem reached {x : Except ε (Option (Reference V))} {y : Except ε (Reference V)}
    (h : x.map W.outcome = y.map .inr) : x = y.map some := by
  rcases x with e | _ | r <;> rcases y with e' | r' <;> cases h <;> rfl

omit hsplit hr hn hv hd in
/-- Where a guard is falsy, the chain has ended. -/
theorem ended {x : Except ε (Option (Reference V))} {v : V}
    (h : x.map W.outcome = .ok (.inl v)) : x = .ok none ∧ v = W.undefined := by
  rcases x with e | _ | r <;> cases h
  exact ⟨rfl, rfl⟩

/-- **An optional link** makes the value an operand of the guard and goes on from the expression
that gives it again. -/
theorem Follows.optional {guard : Option (Meaning σ V ε)} {guard' : Meaning σ V ε}
    (h : Follows W P chain value guard) (hg : guard'.value = W.both guard operand) :
    Follows W P (W.link true chain next) value' (some guard') := by
  intro s u hsu hfair
  have hchain : W.Fair (chain s).2 :=
    fair_of_bind (records_next hr) (fair_of_bind (fun x => records_pure (W.outcome x)) hfair)
  have hfol := h s u hsu
  simp only [Eval.bind_pure_apply] at hfol
  obtain ⟨hres, hag⟩ := hfol hchain
  change (W.outcomes chain next s).1 = _ ∧ Agree P (W.outcomes chain next s).2 _
  have step : ∀ {u : Store σ V}, (chain s).1 = (value.reference u).1.map some → _ := fun {u} hu =>
    optional_step hsplit hr hn hv hd hu
  cases guard with
  | none =>
    simp only [Realm.guarded, Eval.bind_pure_apply] at hres hag
    have ht : W.guarded value' (some guard') u = W.guarded value' (some operand) u := by
      unfold Realm.guarded; dsimp only; rw [hg]; rfl
    rw [ht]
    exact step (reached hres) hag hfair
  | some g =>
    have ht : W.guarded value' (some guard') u = _ := congrFun (guarded_both hg) u
    rw [ht]
    rcases hgv : g.value u with ⟨e | v, u'⟩
    · -- the guard throws, so the chain does
      rw [show W.guarded value (some g) u = _ from Eval.bind_of_error hgv _] at hres hag
      have hc : chain s = (.error e, (chain s).2) :=
        Prod.ext (by rcases hx : (chain s).1 with _ | _ <;> rw [hx] at hres <;> cases hres; rfl) rfl
      rw [Eval.bind_of_error hgv]
      rw [outcomes_of_error next hc]
      exact ⟨rfl, hag⟩
    rw [show W.guarded value (some g) u = _ from Eval.bind_of_ok hgv _] at hres hag
    rw [Eval.bind_of_ok hgv]
    split_ifs at hres hag ⊢ with htruthy
    · simp only [Eval.bind_pure_apply] at hres hag
      exact step (reached hres) hag hfair
    · obtain ⟨hnone, rfl⟩ := ended hres
      have hc : chain s = (.ok none, (chain s).2) := Prod.ext hnone rfl
      rw [outcomes_of_none next hc]
      exact ⟨rfl, hag⟩

end Optional

/-! ### References that are not called -/

/-- A reference as far as it matters: with its place only if it is called next. -/
def Reference.kept (isCallee : Bool) (r : Reference V) : Reference V :=
  if isCallee then r else .plain r.value

theorem Reference.value_kept (isCallee : Bool) (r : Reference V) :
    (r.kept isCallee).value = r.value := by
  cases isCallee <;> rfl

/-- The meaning of a node as far as it matters. -/
def Meaning.kept (isCallee : Bool) (m : Meaning σ V ε) : Meaning σ V ε :=
  .alone (m.reference >>= fun r => pure (r.kept isCallee))

/-- A chain as far as it matters. -/
def Realm.keptChain (W : Realm σ V ε) (isCallee : Bool)
    (chain : Eval σ V ε (Option (Reference V))) : Eval σ V ε (Option (Reference V)) :=
  W.link false chain fun r => pure (r.kept isCallee)

theorem Follows.kept {chain : Eval σ V ε (Option (Reference V))} {value : Meaning σ V ε}
    {guard : Option (Meaning σ V ε)} (h : Follows W P chain value guard) (isCallee : Bool) :
    Follows W P (W.keptChain isCallee chain) (value.kept isCallee) guard :=
  h.plain (fun _ => records_pure _) (fun _ => same_pure _) rfl

theorem Split.kept {isCallee : Bool} {value operand reused : Meaning σ V ε}
    (h : Split P isCallee value operand reused) :
    Split P isCallee (value.kept isCallee) operand reused := by
  intro u
  obtain ⟨u', hop, hag, hre⟩ := h u
  unfold Meaning.kept Meaning.alone
  simp only [Eval.bind_pure_apply]
  refine ⟨u', ?_, hag, fun r hr => ?_⟩
  · rw [hop]
    rcases (value.reference u).1 with e | r
    · rfl
    · exact congrArg (Except.ok · , u') (Reference.value_kept isCallee r).symm
  · rcases hv : (value.reference u).1 with e | r₀ <;> rw [hv] at hr <;> cases hr
    obtain ⟨r', hreused, hvalue, hplace⟩ := hre r₀ hv
    refine ⟨r', hreused, by rw [hvalue, Reference.value_kept], fun hc => ?_⟩
    subst hc
    exact hplace rfl

section Kept

variable {isCallee : Bool} {next : Reference V → Eval σ V ε (Reference V)}
  (hnext : ∀ r r' : Reference V, r'.value = r.value → (isCallee = true → r'.place = r.place) →
    next r' = next r)
include hnext

theorem next_kept (r : Reference V) : next (r.kept isCallee) = next r := by
  refine hnext r _ (Reference.value_kept isCallee r) fun hc => ?_
  subst hc
  rfl

theorem bind_kept (m : Meaning σ V ε) :
    (m.kept isCallee).reference >>= next = m.reference >>= next := by
  refine (Eval.bind_assoc _ _ _).trans (congrArg _ (funext fun r => ?_))
  exact next_kept hnext r

theorem link_keptChain (isOptional : Bool) (chain : Eval σ V ε (Option (Reference V))) :
    W.link isOptional (W.keptChain isCallee chain) next = W.link isOptional chain next := by
  unfold Realm.keptChain Realm.link
  rw [Eval.bind_assoc]
  congr 1
  funext x
  cases x with
  | none => rfl
  | some r =>
    have hr := next_kept hnext r
    have hv := Reference.value_kept isCallee r
    simp only [Bool.false_eq_true, if_false, Eval.pure_bind, hr, hv]

end Kept

end Typeshift.Chain
