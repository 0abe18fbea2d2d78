import Typeshift.Proofs.Expression.Denotes
import Typeshift.Proofs.Expression.Layout
import Typeshift.Proofs.Tree.Slots

/-! # Expressions at their places

A node that is an expression has a home among the kinds of phrases. Where a place asks for a tighter
phrase than the home of what stands there, the node is put in parentheses; otherwise its home is
within what the place asks for.

* `home`: the kind of phrase that a node is without parentheses.
* `Sound`: the text of a node is laid out as a phrase of its home.
* `Sound.at`: so it is at every place of an expression, in parentheses if need be.
* `Sound.chain`, `Sound.coalesce_left`, `Sound.coalesce_right`: the places with rules of their
  own, before a point and beside `??`. -/

namespace Typeshift.Expression

open Print Script

/-! ### The kinds of phrases of the precedences -/

/-- Where so many steps of a partial function lead. -/
def afterSteps {α : Type} (next : α → Option α) : Nat → α → Option α
  | 0, a => some a
  | n + 1, a => (next a).bind (afterSteps next n)

/-- What every step keeps is kept by any number of them. -/
theorem keeps_afterSteps {α : Type} {next : α → Option α} {P : α → Prop} {n : Nat} {a b : α}
    (hstep : ∀ a b, next a = some b → P a → P b) (ha : P a) (hn : afterSteps next n a = some b) :
    P b := by
  induction n generalizing a with
  | zero => cases hn; exact ha
  | succ n ih =>
    obtain ⟨c, hc, hrest⟩ := Option.bind_eq_some_iff.mp hn
    exact ih (hstep a c hc ha) hrest

/-- Every phrase of a kind is one of another. -/
def Phrase.Within (p q : Phrase) : Prop := ∃ n < 23, afterSteps Phrase.wider n p = some q

instance (p q : Phrase) : Decidable (p.Within q) := by unfold Phrase.Within; infer_instance

theorem Derives.within {p q : Phrase} {ts : List Token} {e : Expr} (h : Derives p ts e)
    (hq : p.Within q) : Derives q ts e := by
  obtain ⟨n, -, hn⟩ := hq
  exact keeps_afterSteps (P := (Derives · ts e)) (fun _ _ hnext hp => hp.wider hnext) h hn

/-- A name is a phrase of every kind that holds names. -/
theorem Derives.name_within {p : Phrase} {x : String} (hx : x ∉ reserved)
    (hp : Phrase.primary.Within p) : Derives p [.word x] (.name x) :=
  (Derives.name hx).within hp

/-- The kind of phrase that an expression of a precedence is. -/
def phraseOf : Precedence → Phrase
  | .comma => .expression
  | .assignment => .assignment
  | .conditional => .conditional
  | .coalesce => .coalesce
  | .logicalOr => .logicalOr
  | .logicalAnd => .logicalAnd
  | .bitwiseOr => .bitwiseOr
  | .bitwiseXor => .bitwiseXor
  | .bitwiseAnd => .bitwiseAnd
  | .equality => .equality
  | .relational => .relational
  | .shift => .shift
  | .additive => .additive
  | .multiplicative => .multiplicative
  | .exponent => .exponent
  | .unary => .unary
  | .update => .update
  | .leftHandSide => .call
  | .member => .member
  | .primary => .primary

/-- The kind of phrase that a place asks for. -/
def placeOf : Precedence → Phrase
  | .coalesce => .shortCircuit
  | .leftHandSide => .leftHandSide
  | p => phraseOf p

theorem phraseOf_within {p least : Precedence} (h : p.looser least = false) :
    (phraseOf p).Within (placeOf least) := by
  revert h
  cases p <;> cases least <;> decide

/-! ### Nodes and their places -/

/-- The kind of phrase that a node is without parentheses. What follows a call is a call to the
grammar, so that it has no place after `new`. -/
def home (t : Node) : Phrase :=
  phraseOf (if containsCall t then .leftHandSide else .ofHead t.head)

/-- Whether a node begins with an operator. -/
def beginsWithOperator (h : Head) : Bool :=
  h.is .unaryExpression || h.is .updateExpression && h.flag .operatorFirst

/-- A node may begin with a sign: it has operands on its left, or begins with an operator. -/
def MayStart (h : Head) (c : Char) : Prop :=
  (Precedence.ofHead h).looser .unary = true ∨
    beginsWithOperator h = true ∧ (h.text .operator).toList.head? = some c

/-- A node may end with a numeral. -/
def MayEnd (h : Head) : Prop :=
  (Precedence.ofHead h).looser .leftHandSide = true ∨ isBareInteger h = true

/-- The script of a node at a place. -/
def printed (o : Options) (t : Node) : Printed := t.synthesize (printedRule o)

/-- The script of a node in itself. -/
def body (o : Options) (t : Node) : Script :=
  expressionText o t.head (Tree.annotateSlots (printedRule o) t.slots) .none

theorem note_printed (o : Options) (t : Node) (place : Place) :
    (t.annotate (printedRule o)).note place = printed o t place := rfl

theorem expression_annotate (o : Options) (t : Node) (least : Precedence) :
    expression (t.annotate (printedRule o)) least = printed o t (.expression least false) := rfl

/-- **The text of a node is laid out as a phrase of its home.** -/
structure Sound (A : Alphabet) (o : Options) (t : Node) (e : Expr) : Prop where
  family : t.head.family = .expression
  comments : t.head.comments = .none
  mixes : Precedence.ofHead t.head ∈ [.logicalOr, .logicalAnd] →
    mixesCoalesce "??" t.head = true
  laid : Laid A (body o t) (home t) e (MayStart t.head) (MayEnd t.head)

theorem writes_when_comments (b : Bool) : Writes (when b (comments (.inside true) [])) [] := by
  cases b with
  | true => exact writes_comments_nil _
  | false => exact writes_nil

theorem inlineFrame_none (keepInner paren : Bool) (script : Comments → Script) :
    inlineFrame keepInner paren .none ⟨true, script⟩ =
      comments .before []
        ++ parenIf paren (when (!keepInner) (comments (.inside true) []) ++ script .none)
        ++ comments .after [] := by
  cases keepInner <;> rfl

theorem family_of_tag {h : Head} {tag : Tag} (htag : h.tag? = some tag) :
    h.family = tag.family := by
  rw [Head.family, htag]
  rfl

theorem ownText_expression {t : Tree Printed} (hf : t.head.family = .expression) (o : Options) :
    ownText o t = expressionText o t.head t.slots := by
  funext pending
  rw [ownText, hf]

theorem printed_expression {t : Node} (hf : t.head.family = .expression)
    (hc : t.head.comments = .none) (o : Options) (least : Precedence) (forced : Bool) :
    printed o t (.expression least forced) =
      expressionFrame t.head least forced .none
        ⟨true, expressionText o t.head (Tree.annotateSlots (printedRule o) t.slots)⟩ := by
  obtain ⟨n, h, s⟩ := t
  have hf : h.family = .expression := hf
  have hc : h.comments = .none := hc
  show expressionFrame h least forced h.comments (expressionContent o _) = _
  simp [expressionContent, content, hf, hc, ownText_expression]

/-- **A sound node at a place** is put in parentheses, or its home is within what is asked for. -/
theorem Sound.at {A : Alphabet} {o : Options} {t : Node} {e : Expr} (h : Sound A o t e)
    {least : Precedence} {forced : Bool} {q : Phrase}
    (hparen : (forced || (Precedence.ofHead t.head).looser least) = true → Phrase.primary.Within q)
    (hbare : forced = false → (Precedence.ofHead t.head).looser least = false → (home t).Within q) :
    Laid A (printed o t (.expression least forced)) q e
      (fun c => MayStart t.head c ∧ (Precedence.ofHead t.head).looser least = false)
      (MayEnd t.head ∧ forced = false ∧ (Precedence.ofHead t.head).looser least = false) := by
  rw [printed_expression h.family h.comments, expressionFrame, inlineFrame_none]
  refine Laid.silent ?_ (writes_comments_nil _) (writes_comments_nil _)
  have hinner := fun b => h.laid.silent (writes_when_comments b) writes_nil
  simp only [List.append_nil] at hinner
  cases hp : forced || (Precedence.ofHead t.head).looser least with
  | true =>
    have hwhole : (home t).Within (placeOf .comma) := phraseOf_within rfl
    have hexpression := fun b => (hinner b).imp (fun ts hd => hd.within hwhole) (fun _ => id) id
    exact (hexpression _).paren.imp (fun ts hd => hd.within (hparen hp)) (fun _ h => h) (fun h => h)
  | false =>
    obtain ⟨hforced, hlooser⟩ := Bool.or_eq_false_iff.mp hp
    refine (hinner _).imp (fun ts hd => hd.within (hbare hforced hlooser)) ?_ ?_
    · exact fun c hc => ⟨hc, hlooser⟩
    · exact fun hend => ⟨hend, hforced, hlooser⟩

/-! ### What the head of a node tells -/

theorem looser_of_le {p q r : Precedence} (h : p.looser q = true) (hqr : q.rank ≤ r.rank) :
    p.looser r = true := by
  simp only [Precedence.looser, decide_eq_true_eq] at h ⊢
  omega

theorem primary_within (least : Precedence) : Phrase.primary.Within (placeOf least) :=
  phraseOf_within (p := .primary) (by cases least <;> rfl)

/-- What may begin with a sign binds looser than an update. -/
theorem MayStart.looser {h : Head} {c : Char} (hs : MayStart h c) :
    (Precedence.ofHead h).looser .update = true := by
  rcases hs with hs | ⟨hs, -⟩
  · exact looser_of_le hs (by decide)
  · unfold beginsWithOperator Head.is at hs
    unfold Precedence.ofHead
    rcases Bool.or_eq_true_iff.mp hs with hu | hu
    · rw [eq_of_beq hu]
      rfl
    · obtain ⟨hu, hfirst⟩ := Bool.and_eq_true_iff.mp hu
      rw [eq_of_beq hu, hfirst]
      rfl

section Calls

variable {t u : Node} {tag : Tag}

theorem containsCall_call (ht : t.head.tag? = some .callExpression) : containsCall t = true := by
  obtain ⟨n, h, s⟩ := t
  have ht : h.tag? = some .callExpression := ht
  show containsCallRule h _ = true
  rw [containsCallRule, ht]

theorem containsCall_member (ht : t.head.tag? = some .memberExpression)
    (hu : t.slots.child? .object = some u) : containsCall t = containsCall u := by
  obtain ⟨n, h, s⟩ := t
  have ht : h.tag? = some .memberExpression := ht
  have hu : Slots.child? s .object = some u := hu
  show containsCallRule h _ = _
  rw [containsCallRule, ht]
  dsimp only
  rw [Slots.child?_annotateSlots, hu]
  rfl

theorem tag_of_containsCall (h : containsCall t = true) :
    ∃ tag ∈ [Tag.callExpression, .memberExpression, .taggedTemplateExpression],
      t.head.tag? = some tag := by
  obtain ⟨n, head, s⟩ := t
  have h : containsCallRule head (Tree.annotateSlots containsCallRule s) = true := h
  unfold containsCallRule at h
  split at h
  · next ht => exact ⟨_, by decide, ht⟩
  · next ht => exact ⟨_, by decide, ht⟩
  · next ht => exact ⟨_, by decide, ht⟩
  · cases h

theorem containsCall_eq_false (ht : t.head.tag? = some tag)
    (htag : tag ∉ [Tag.callExpression, .memberExpression, .taggedTemplateExpression]) :
    containsCall t = false := by
  refine Bool.eq_false_iff.mpr fun h => ?_
  obtain ⟨tag', htag', ht'⟩ := tag_of_containsCall h
  rw [ht] at ht'
  cases ht'
  exact htag htag'

theorem not_looser_of_containsCall (h : containsCall t = true) :
    (Precedence.ofHead t.head).looser .leftHandSide = false := by
  obtain ⟨tag, htag, ht⟩ := tag_of_containsCall h
  simp only [List.mem_cons, List.not_mem_nil, or_false] at htag
  unfold Precedence.ofHead
  rcases htag with rfl | rfl | rfl <;> rw [ht] <;> rfl

theorem containsCall_of_isBareInteger (h : isBareInteger t.head = true) :
    containsCall t = false := by
  have hnumeral := (Bool.and_eq_true_iff.mp h).1
  exact containsCall_eq_false (eq_of_beq hnumeral) (by decide)

theorem containsCall_of_ofHead (h : Precedence.ofHead t.head = .leftHandSide) :
    containsCall t = true := by
  have hoperator : ∀ s, Precedence.ofOperator s ≠ .leftHandSide := by
    intro s hs
    unfold Precedence.ofOperator at hs
    split at hs <;> cases hs
  unfold Precedence.ofHead at h
  split at h
  all_goals first
    | exact containsCall_call (by assumption)
    | exact absurd h (hoperator _)
    | cases h
    | (split at h <;> cases h)

end Calls

/-! ### Sound nodes at the places of expressions -/

section Places

variable {A : Alphabet} {o : Options} {t : Node} {e : Expr} {forced : Bool}

theorem Sound.operand (h : Sound A o t e) {least : Precedence}
    (hl : containsCall t = true → forced = false → least.rank ≤ 17) :
    Laid A (printed o t (.expression least forced)) (placeOf least) e
      (fun c => MayStart t.head c ∧ (Precedence.ofHead t.head).looser least = false) True := by
  refine (h.at (fun _ => primary_within least) fun hforced hlooser => phraseOf_within ?_).imp
    (fun _ => id) (fun _ => id) (fun _ => trivial)
  cases hcall : containsCall t with
  | false => exact hlooser
  | true =>
    have := hl hcall hforced
    simpa [Precedence.looser, Precedence.rank] using this

theorem Sound.loose (h : Sound A o t e) (least : Precedence) (forced : Bool)
    (hl : least.rank ≤ 17) :
    Laid A (printed o t (.expression least forced)) (placeOf least) e (fun _ => True) True :=
  (h.operand fun _ _ => hl).imp (fun _ => id) (fun _ _ => trivial) id

/-- What a chain of calls and members goes on from. -/
def chainOf (t : Node) : Phrase := if containsCall t then .call else .member

theorem chainOf_mem (t : Node) : chainOf t ∈ [Phrase.member, .call] := by
  unfold chainOf
  split <;> decide

theorem Sound.object (h : Sound A o t e) (hforced : forced = true → containsCall t = false) :
    Laid A (printed o t (.expression .leftHandSide forced)) (chainOf t) e (fun _ => False)
      (isBareInteger t.head = true ∧ forced = false) := by
  refine (h.at ?_ ?_).imp (fun _ => id) ?_ ?_
  · intro hparen
    have hcall : containsCall t = false := by
      rcases Bool.or_eq_true_iff.mp hparen with hf | hl
      · exact hforced hf
      · refine Bool.eq_false_iff.mpr fun hcall => ?_
        rw [not_looser_of_containsCall hcall] at hl
        cases hl
    simp only [chainOf, hcall]
    decide
  · intro _ hlooser
    unfold home chainOf
    cases hcall : containsCall t with
    | true => exact (by decide : Phrase.call.Within .call)
    | false =>
      -- only a call is as loose as that
      have hne : Precedence.ofHead t.head ≠ .leftHandSide := fun heq => by
        rw [containsCall_of_ofHead heq] at hcall
        cases hcall
      simp only [Bool.false_eq_true, if_false]
      revert hlooser hne
      generalize Precedence.ofHead t.head = p
      cases p <;> decide
  · rintro c ⟨hs, hlooser⟩
    rw [looser_of_le hs.looser (by decide)] at hlooser
    cases hlooser
  · rintro ⟨hend, hf, hlooser⟩
    refine ⟨hend.resolve_left ?_, hf⟩
    rw [hlooser]
    exact Bool.false_ne_true

/-- What a point may stand after. -/
theorem Sound.chain (h : Sound A o t e) :
    Laid A (printed o t (.expression .leftHandSide (isBareInteger t.head))) (chainOf t) e
      (fun _ => False) False := by
  refine (h.object containsCall_of_isBareInteger).imp (fun _ => id) (fun _ => id) ?_
  rintro ⟨hbare, hforced⟩
  rw [hbare] at hforced
  cases hforced

/-- An operand of `??` without parentheses, other than `??`, binds tighter than `&&`. -/
theorem Sound.home_within_bitwiseOr (h : Sound A o t e) (hmixes : mixesCoalesce "??" t.head = false)
    (hlooser : (Precedence.ofHead t.head).looser .logicalOr = false) :
    (home t).Within .bitwiseOr := by
  have hlogical : Precedence.ofHead t.head ∉ [.logicalOr, .logicalAnd] := fun hmem => by
    rw [h.mixes hmem] at hmixes
    cases hmixes
  unfold home
  cases containsCall t with
  | true => exact (by decide : Phrase.call.Within .bitwiseOr)
  | false =>
    simp only [Bool.false_eq_true, if_false]
    revert hlooser hlogical
    generalize Precedence.ofHead t.head = p
    cases p <;> decide

theorem Sound.coalesce_right (h : Sound A o t e) :
    Laid A (printed o t (.expression .logicalOr (mixesCoalesce "??" t.head))) .bitwiseOr e
      (fun _ => True) True :=
  (h.at (fun _ => by decide) h.home_within_bitwiseOr).imp (fun _ => id) (fun _ _ => trivial)
    (fun _ => trivial)

theorem Sound.coalesce_left (h : Sound A o t e) :
    ∃ p ∈ [Phrase.coalesce, .bitwiseOr],
      Laid A (printed o t (.expression .coalesce (mixesCoalesce "??" t.head))) p e
        (fun _ => True) True := by
  by_cases hp : Precedence.ofHead t.head = .coalesce ∧ mixesCoalesce "??" t.head = false
  · refine ⟨.coalesce, by decide, (h.at ?_ ?_).imp (fun _ => id) (fun _ _ => trivial)
      (fun _ => trivial)⟩
    · rw [hp.1, hp.2]
      decide
    · have hcall : containsCall t = false := by
        refine Bool.eq_false_iff.mpr fun hcall => ?_
        have := not_looser_of_containsCall hcall
        rw [hp.1] at this
        cases this
      intro _ _
      unfold home
      rw [hcall, hp.1]
      decide
  · refine ⟨.bitwiseOr, by decide, (h.at (fun _ => by decide) ?_).imp (fun _ => id)
      (fun _ _ => trivial) (fun _ => trivial)⟩
    intro hmixes hlooser
    refine h.home_within_bitwiseOr hmixes ?_
    have hne : Precedence.ofHead t.head ≠ .coalesce := fun heq => hp ⟨heq, hmixes⟩
    revert hlooser hne
    generalize Precedence.ofHead t.head = p
    cases p <;> decide

end Places

end Typeshift.Expression
