import Typeshift.Proofs.Expression.Outside
import Typeshift.Proofs.Expression.RoundTrip
import Typeshift.Proofs.Print.Opening

/-! # The operator `in` outside brackets

In the head of a loop an `in` outside brackets is the one of `for (x in y)`. An expression shows one
if the tree has one that is reached without going through brackets, and the printer puts no
parentheses on the way.

* `openIn`: whether tokens hold an `in` outside brackets.
* `Shows`: such tokens, wherever they stand. `Derives.shows`: every phrase is balanced, and one that
  binds as tightly as a unary operator shows none.
* `exposesIn`: whether an expression shows an `in`, read off the tree.
  `Denotes.shown`: the text of an expression shows one exactly then. -/

namespace Typeshift.Expression

open Print Script

/-! ### Tokens outside brackets -/

/-- The brackets that open. -/
def openers : List String := ["(", "[", "\x7b"]

/-- The brackets that close. -/
def closers : List String := [")", "]", "\x7d"]

/-- **Whether tokens hold the operator `in` outside brackets**, if so many brackets are open before
them. A word after a point is a name. -/
def openIn : Nat → List Token → Bool
  | _, [] => false
  | depth, .mark "." :: .word _ :: ts => openIn depth ts
  | depth, .mark m :: ts =>
    openIn
      (if openers.contains m then depth + 1 else if closers.contains m then depth - 1 else depth)
      ts
  | depth, .word w :: ts => depth == 0 && w == "in" || openIn depth ts
  | depth, .numeral _ :: ts => openIn depth ts

theorem openIn_eq_inOutside (depth : Nat) (ts : List Token) :
    openIn depth ts = inOutside openers closers depth ts := by
  fun_induction openIn depth ts with
  | case1 => rfl
  | case2 depth w ts ih => exact ih
  | case3 depth m ts hpoint ih =>
    rw [inOutside]
    · exact ih
    · exact hpoint
  | case4 depth w ts ih => rw [inOutside, ih]
  | case5 depth digits ts ih => exact ih

/-- Tokens that leave as many brackets open as there were, and show an `in` or not. -/
abbrev Shows (ts : List Token) (b : Bool) : Prop := Outside openers closers ts b

theorem Shows.openIn_eq {ts : List Token} {b : Bool} (h : Shows ts b) : openIn 0 ts = b :=
  (openIn_eq_inOutside 0 ts).trans h.inOutside_eq

theorem finds_shows : Finds Shows where
  nil := .nil
  append := .append
  word := .word
  numeral := .numeral
  mark hm := .mark (mt (fun h => (by decide : "." :: openers ++ closers ⊆ punctuation) h) hm)
  group h := h.brackets (by decide) (by decide) (by decide) (by decide)
  index h := h.brackets (by decide) (by decide) (by decide) (by decide)
  branch h := by
    have hbranch := (Outside.mark (m := "?") (by decide)).append
      (h.append (.mark (m := ":") (by decide)))
    simpa using hbranch
  member x h := h.member x

/-- The operators of all constructs. -/
def allOperators : List String :=
  unaryOperators ++ updateOperators ++ assignmentOperators ++ binaryOperators ++ logicalOperators

theorem shows_operator {operator : String} (ho : operator ∈ allOperators) :
    Shows [operatorToken operator] (operator == "in") := by
  have hknown : ∀ operator ∈ allOperators,
      operator ∈ wordOperators ∨ operator ∉ "in" :: punctuation := by decide
  exact finds_shows.operator (hknown operator ho)

/-- **Phrases are balanced**, and those that bind tightly show no `in`. -/
theorem Derives.shows {p : Phrase} {ts : List Token} {e : Expr} (h : Derives p ts e) :
    ∃ b, Shows ts b ∧ (p ∈ Phrase.tight → b = false) := h.finds finds_shows

/-! ### Scripts -/

/-- A script writes an expression on one line, and its tokens show an `in` or not. -/
def Shown (A : Alphabet) (s : Script) (b : Bool) : Prop :=
  ∃ l, Strip A s l ∧ Back l True ∧ Shows (tokensOf l) b

section Shown

variable {A : Alphabet} {s s' : Script} {b c d : Bool}

theorem Shown.of_eq (h : Shown A s b) (hbc : b = c) : Shown A s c := hbc ▸ h

theorem Shown.silent (h : Shown A s b) {before after : Script} (hbefore : Writes before [])
    (hafter : Writes after []) : Shown A (before ++ s ++ after) b := by
  obtain ⟨l, hs, h⟩ := h
  exact ⟨l, hs.silent hbefore hafter, h⟩

theorem Shown.paren (h : Shown A s b) : Shown A (between "(" ")" s) false := by
  obtain ⟨l, hs, hback, hb⟩ := h
  refine ⟨_, strip_between "(" ")" hs (by decide) (by decide) (.inr hback), ?_, ?_⟩
  · exact (back_token (by simp [Token.Closes])).append _
  · simpa using finds_shows.group hb

/-- A token with spaces around it between two expressions. -/
theorem Shown.spaced {mid : Script} {t : Token} (h : Shown A s b) (h' : Shown A s' c)
    (ht : t.isSpelled A = true) (hstop : t.stops A ' ' = true)
    (hmid : Writes mid (' ' :: t.text.toList ++ [' '])) (hd : Shows [t] d) :
    Shown A (s ++ mid ++ s') (b || (d || c)) := by
  obtain ⟨l, hs, hback, hb⟩ := h
  obtain ⟨l', hs', hback', hc⟩ := h'
  refine ⟨_, hs.spaced hback hs' ht hstop hmid, hback'.append _, ?_⟩
  simpa using hb.append (hd.append hc)

theorem Shown.infixed {operator : String} (h : Shown A s b) (h' : Shown A s' c)
    (ho : operator ∈ allOperators) :
    Shown A (Print.infixed s operator s') (operator == "in" || (b || c)) := by
  have hall : allOperators.all (fun operator => (operatorToken operator).isSpelled A) = true := rfl
  have hspelled := List.all_eq_true.mp hall operator ho
  have hmid : Writes (space ++ text operator ++ space)
      (' ' :: (operatorToken operator).text.toList ++ [' ']) := by
    rw [operatorToken_text]
    exact (writes_space.append (writes_text _)).append writes_space
  have hscript : Print.infixed s operator s' = s ++ (space ++ text operator ++ space) ++ s' := by
    simp [Print.infixed]
  rw [hscript]
  exact (h.spaced h' hspelled (stops_blank (.inl rfl) _) hmid (shows_operator ho)).of_eq
    (Bool.or_left_comm ..)

theorem Shown.comma (h : Shown A s b) (h' : Shown A s' c) :
    Shown A (s ++ text ", " ++ s') (b || c) := by
  obtain ⟨l, hs, hback, hb⟩ := h
  obtain ⟨l', hs', hback', hc⟩ := h'
  refine ⟨_, strip_comma hs hback hs', hback'.append _, ?_⟩
  simpa using hb.append ((finds_shows.mark (m := ",") (by decide)).append hc)

/-- A phrase that binds tightly shows no `in`. -/
theorem Laid.shown {p : Phrase} {e : Expr} {sign : Char → Prop} {bare : Prop}
    (h : Laid A s p e sign bare) (hp : p ∈ Phrase.tight) : Shown A s false := by
  obtain ⟨l, hs, hderives, -, hback⟩ := h
  obtain ⟨b, hb, htight⟩ := hderives.shows
  exact ⟨l, hs, hback.mono fun _ => trivial, htight hp ▸ hb⟩

end Shown

/-! ### Trees -/

/-- Whether a part shows an `in` at its place: not if it is put in parentheses there. -/
def shownAt (t : Tree Bool) (least : Precedence) (forced : Bool) : Bool :=
  !inParens t.head least forced && t.note

/-- Whether the part in a field shows an `in` at its place. -/
def partShows (s : Slots Bool) (f : Field) (least : Precedence) (forced : Head → Bool) : Bool :=
  (s.child? f).any fun t => shownAt t least (forced t.head)

/-- Whether a node shows an `in`, given the answer for its parts. -/
def exposesInRule (h : Head) (s : Slots Bool) : Bool :=
  let operator := h.text .operator
  let (left, right) := Precedence.operands operator
  let free : Head → Bool := fun _ => false
  match h.tag? with
  | some .binaryExpression | some .logicalExpression =>
    operator == "in" || (partShows s .left left (mixesCoalesce operator)
      || partShows s .right right (mixesCoalesce operator))
  | some .conditionalExpression =>
    partShows s .test .coalesce free || (partShows s .consequent .assignment free
      || partShows s .alternate .assignment free)
  | some .assignmentExpression => partShows s .right .assignment free
  | some .sequenceExpression => (s.children .expressions).any (shownAt · .assignment false)
  | some .variableDeclaration => (s.children .declarations).any (shownAt · .assignment false)
  | some .variableDeclarator => partShows s .init .assignment free
  | _ => false

/-- **Whether a node shows an `in`**: it has one that is reached through operands and initial values
that are not put in parentheses. -/
def exposesIn (t : Node) : Bool := t.synthesize exposesInRule

/-- Whether a node shows an `in` at a place. -/
def exposesAt (t : Node) (least : Precedence) (forced : Bool) : Bool :=
  !inParens t.head least forced && exposesIn t

theorem exposesIn_eq (t : Node) :
    exposesIn t = exposesInRule t.head (Tree.annotateSlots exposesInRule t.slots) := by
  obtain ⟨n, h, s⟩ := t
  rfl

theorem shownAt_annotate (t : Node) (least : Precedence) (forced : Bool) :
    shownAt (t.annotate exposesInRule) least forced = exposesAt t least forced := by
  rw [shownAt, Tree.head_annotate, Tree.note_annotate_eq]
  rfl

theorem partShows_annotateSlots {s : Slots Unit} {f : Field} {u : Node}
    (hu : s.child? f = some u) (least : Precedence) (forced : Head → Bool) :
    partShows (Tree.annotateSlots exposesInRule s) f least forced =
      exposesAt u least (forced u.head) := by
  rw [partShows, Slots.child?_annotateSlots, hu, Option.map_some, Option.any_some, shownAt_annotate,
    Tree.head_annotate]

theorem children_annotateSlots_any {s : Slots Unit} {f : Field} {ts : List Node}
    (hts : s.children f = ts) :
    ((Tree.annotateSlots exposesInRule s).children f).any (shownAt · .assignment false) =
      ts.any (exposesAt · .assignment false) := by
  rw [Slots.children_annotateSlots, hts, List.any_map]
  exact congrArg (ts.any ·) (funext fun t => shownAt_annotate t .assignment false)

section Nodes

variable {A : Alphabet} {o : Options} {t u v w : Node} {e : Expr}

/-- A node at a place shows what it does, unless it is put in parentheses. -/
theorem Shown.place (h : Shown A (body o t) (exposesIn t)) (hf : t.head.family = .expression)
    (hc : t.head.comments = .none) (least : Precedence) (forced : Bool) :
    Shown A (printed o t (.expression least forced)) (exposesAt t least forced) := by
  rw [printed_expression hf hc, expressionFrame, inlineFrame_none]
  refine Shown.silent ?_ (writes_comments_nil _) (writes_comments_nil _)
  have hinner := fun b => h.silent (writes_when_comments b) writes_nil
  simp only [List.append_nil] at hinner
  have hparen :
      (forced || (Precedence.ofHead t.head).looser least) = inParens t.head least forced := rfl
  unfold exposesAt
  rw [hparen]
  cases inParens t.head least forced with
  | true => exact (hinner _).paren
  | false => exact hinner _

theorem shown_expressions {ts : List Node} (hne : ts ≠ [])
    (h : ∀ t ∈ ts, Shown A (printed o t (.expression .assignment false))
      (exposesAt t .assignment false)) :
    Shown A (expressions (ts.map (Tree.annotate (printedRule o))) .assignment)
      (ts.any (exposesAt · .assignment false)) := by
  rw [expressions, List.map_map]
  induction ts with
  | nil => exact absurd rfl hne
  | cons t rest ih =>
    have ht := h t List.mem_cons_self
    cases rest with
    | nil => simpa [commas, Script.separated, List.intercalate, expression_annotate] using ht
    | cons u rest =>
      have hrest := ih (List.cons_ne_nil u rest) fun t hmem => h t (List.mem_cons_of_mem _ hmem)
      rw [List.map_cons, List.map_cons, commas_cons_cons, List.any_cons,
        Function.comp_apply, expression_annotate]
      exact ht.comma hrest

/-- The constructs that bind at least as tightly as a unary operator show no `in`. -/
theorem Denotes.shown_tight {tag : Tag} (h : Denotes A t e) (htag : t.head.tag? = some tag)
    (hmem : tag ∈ [Tag.identifier, .numericLiteral, .parenthesizedExpression, .memberExpression,
      .callExpression, .newExpression, .unaryExpression, .updateExpression]) :
    Shown A (body o t) (exposesIn t) := by
  simp only [List.mem_cons, List.not_mem_nil, or_false] at hmem
  have hhidden : exposesIn t = false := by
    rw [exposesIn_eq, exposesInRule, htag]
    rcases hmem with rfl | rfl | rfl | rfl | rfl | rfl | rfl | rfl <;> rfl
  have hhome : home t ∈ Phrase.tight := by
    unfold home Precedence.ofHead
    rw [htag]
    rcases hmem with rfl | rfl | rfl | rfl | rfl | rfl | rfl | rfl <;> dsimp only <;>
      cases containsCall t <;> (try cases t.head.flag .operatorFirst) <;> decide
  exact ((h.sound o).laid.shown hhome).of_eq hhidden.symm

/-- **The text of an expression shows an `in`** exactly if the tree does. -/
theorem Denotes.shown (h : Denotes A t e) (o : Options) : Shown A (body o t) (exposesIn t) := by
  -- a part at its place
  have hplace {u : Node} {e : Expr} (hu : Denotes A u e) (ih : Shown A (body o u) (exposesIn u)) :=
    ih.place (hu.sound o).family (hu.sound o).comments
  induction h with
  | name name hx => exact (Denotes.name name hx).shown_tight name.built.tag (by decide)
  | numeral built hd => exact (Denotes.numeral built hd).shown_tight built.tag (by decide)
  | paren built hu inner => exact (Denotes.paren built hu inner).shown_tight built.tag (by decide)
  | member built plain hu hv object property =>
    exact (Denotes.member built plain hu hv object property).shown_tight built.tag (by decide)
  | index built computed hu hv object property =>
    exact (Denotes.index built computed hu hv object property).shown_tight built.tag (by decide)
  | call built untyped hu hparts callee arguments =>
    exact (Denotes.call built untyped hu hparts callee arguments).shown_tight built.tag (by decide)
  | new built untyped hu hparts callee arguments =>
    exact (Denotes.new built untyped hu hparts callee arguments).shown_tight built.tag (by decide)
  | unary built ho known hu argument =>
    exact (Denotes.unary built ho known hu argument).shown_tight built.tag (by decide)
  | update built ho known hu argument =>
    exact (Denotes.update built ho known hu argument).shown_tight built.tag (by decide)
  | binary built ho known hu hv left right ihu ihv =>
    rw [body_infixed (.inl built.tag) ho hu hv, exposesIn_eq, exposesInRule, built.tag, ho]
    dsimp only
    rw [partShows_annotateSlots hu, partShows_annotateSlots hv]
    exact (hplace left ihu _ _).infixed (hplace right ihv _ _) (by simp [allOperators, known])
  | logical built ho known hu hv left right ihu ihv =>
    rw [body_infixed (.inr built.tag) ho hu hv, exposesIn_eq, exposesInRule, built.tag, ho]
    dsimp only
    rw [partShows_annotateSlots hu, partShows_annotateSlots hv]
    exact (hplace left ihu _ _).infixed (hplace right ihv _ _) (by simp [allOperators, known])
  | conditional built hu hv hw test consequent alternate ihu ihv ihw =>
    rw [body_conditional built.tag hu hv hw, exposesIn_eq, exposesInRule, built.tag]
    dsimp only
    rw [partShows_annotateSlots hu, partShows_annotateSlots hv, partShows_annotateSlots hw]
    have htest := (hplace test ihu .coalesce false).spaced (hplace consequent ihv .assignment false)
      (t := .mark "?") rfl rfl (writes_text " ? ") (.mark (by decide))
    have hall := htest.spaced (hplace alternate ihw .assignment false) (t := .mark ":") rfl rfl
      (writes_text " : ") (.mark (by decide))
    exact hall.of_eq (by simp [Bool.or_assoc])
  | @assign t u v l r operator built ho known hu hv target htarget value ihu ihv =>
    have hnot : ∀ operator ∈ assignmentOperators, (operator == "in") = false := by decide
    rw [body_assign built.tag ho hu hv, exposesIn_eq, exposesInRule, built.tag]
    dsimp only
    rw [partShows_annotateSlots hv]
    have htarget := ((target.sound o).object fun h : false = true => nomatch h).shown
      (tight_of_chain _ (chainOf_mem u))
    have hoperator : operator ∈ allOperators := by simp [allOperators, known]
    have hinfixed := htarget.infixed (hplace value ihv .assignment false) hoperator
    exact hinfixed.of_eq (by rw [hnot operator known]; rfl)
  | @sequence t parts built hlength hparts items ihs =>
    rw [body_sequence built.tag, hparts, exposesIn_eq, exposesInRule, built.tag]
    dsimp only
    rw [children_annotateSlots_any hparts]
    refine shown_expressions ?_ (List.forall_mem_map.mpr fun part hpart =>
      hplace (items part hpart) (ihs part hpart) _ _)
    rintro hnil
    rw [List.map_eq_nil_iff.mp hnil] at hlength
    cases hlength

end Nodes

end Typeshift.Expression
