import Typeshift.Proofs.Expression.Places

/-! # The constructs of expressions

For each construct: if its parts are sound, then so is the whole. The text of the construct puts
every part at the place that the grammar has for it, and nothing runs together between them.

* `Built.sound`: what is left to show of a construct, the layout of its text.
* `laid_infixed`: a binary or logical operator between its operands.
* `laid_operatorFirst`: an operator before its operand. -/

namespace Typeshift.Expression

open Print Script

section Constructs

variable {A : Alphabet} {o : Options} {t u v w : Node} {a b c e : Expr} {tag : Tag}
  {parts : List Node}

theorem Built.family (h : Built t tag parts) : t.head.family = tag.family := family_of_tag h.tag

theorem Built.child?_eq_none (h : Built t tag []) (f : Field) : t.slots.child? f = none := by
  cases hc : t.slots.child? f with
  | none => rfl
  | some u => cases h.parts (Slots.child?_mem hc)

/-- A construct that is no link of a chain and no `||` or `&&`. -/
theorem Built.sound {p : Precedence} (h : Built t tag parts) (hfamily : tag.family = .expression)
    (htag : tag ∉ [Tag.callExpression, .memberExpression, .taggedTemplateExpression])
    (hp : Precedence.ofHead t.head = p) (hmixes : p ∉ [Precedence.logicalOr, .logicalAnd])
    (hlaid : Laid A (body o t) (phraseOf p) e (MayStart t.head) (MayEnd t.head)) :
    Sound A o t e where
  family := h.family.trans hfamily
  comments := h.comments
  mixes hlogical := absurd (hp ▸ hlogical) hmixes
  laid := by
    unfold home
    rw [containsCall_eq_false h.tag htag, if_neg Bool.false_ne_true, hp]
    exact hlaid

theorem mayStart_of_looser {h : Head} {p : Precedence} (hp : Precedence.ofHead h = p)
    (hl : p.looser .unary = true) (c : Char) : MayStart h c := .inl (hp ▸ hl)

theorem mayEnd_of_looser {h : Head} {p : Precedence} (hp : Precedence.ofHead h = p)
    (hl : p.looser .leftHandSide = true) : MayEnd h := .inl (hp ▸ hl)

theorem IsName.body_eq {x : String} (h : IsName A t x) (o : Options) : body o t = text x := by
  have hty : Slots.child? (Tree.annotateSlots (printedRule o) t.slots) .ty = none := by
    rw [Slots.child?_annotateSlots, h.built.child?_eq_none]
    rfl
  unfold body expressionText
  rw [h.built.tag]
  dsimp only
  rw [hty, h.name]
  simp [flagged, h.required, ascription, when]

theorem IsName.sound {x : String} (h : IsName A t x) (hx : x ∉ reserved) :
    Sound A o t (.name x) := by
  refine h.built.sound rfl (by decide) (p := .primary) ?_ (by decide) ?_
  · rw [Precedence.ofHead, h.built.tag]
  · rw [h.body_eq]
    exact laid_name h.spelled hx

/-- What is laid out on one line, at a place where it needs no parentheses. -/
theorem strip_place {l : List Item} {least : Precedence} (h : Strip A (body o t) l)
    (hf : t.head.family = .expression) (hc : t.head.comments = .none)
    (hleast : (Precedence.ofHead t.head).looser least = false) :
    Strip A (printed o t (.expression least false)) l := by
  rw [printed_expression hf hc, expressionFrame, inlineFrame_none, hleast]
  have hinner := fun b => h.silent (writes_when_comments b) writes_nil
  simp only [List.append_nil] at hinner
  exact (hinner _).silent (writes_comments_nil _) (writes_comments_nil _)

theorem IsName.strip {x : String} (h : IsName A t x) {least : Precedence} :
    Strip A (printed o t (.expression least false)) [.token (.word x)] := by
  refine strip_place ?_ (h.built.family.trans rfl) h.built.comments ?_
  · rw [h.body_eq]
    exact Strip.token (t := .word x) h.spelled
  · rw [Precedence.ofHead, h.built.tag]
    cases least <;> rfl

theorem sound_numeral (h : Built t .numericLiteral []) (hd : isDigits (numeralText t.head) = true) :
    Sound A o t (.numeral (numeralText t.head)) := by
  refine h.sound rfl (by decide) (p := .primary) ?_ (by decide) ?_
  · rw [Precedence.ofHead, h.tag]
  · have hbody : body o t = text (numeralText t.head) := by
      rw [body, expressionText, h.tag]
    rw [hbody]
    refine laid_numeral hd (.inr ?_)
    rw [isBareInteger, Head.is, h.tag, hd]
    rfl

theorem sound_paren (h : Built t .parenthesizedExpression [u])
    (hu : t.slots.child? .expression = some u) (ih : Sound A o u e) : Sound A o t e := by
  refine h.sound rfl (by decide) (p := .primary) ?_ (by decide) ?_
  · rw [Precedence.ofHead, h.tag]
  · have hbody : body o t = between "(" ")" (printed o u (.expression .comma false)) := by
      rw [body, expressionText, h.tag]
      dsimp only
      rw [Slots.child_annotateSlots _ hu]
      rfl
    rw [hbody]
    exact (ih.loose .comma false (by decide)).paren

theorem home_member (h : Built t .memberExpression parts) (hu : t.slots.child? .object = some u) :
    home t = chainOf u := by
  unfold home chainOf
  rw [containsCall_member h.tag hu, Precedence.ofHead, h.tag]
  cases containsCall u <;> rfl

theorem Built.sound_member (h : Built t .memberExpression parts)
    (hu : t.slots.child? .object = some u)
    (hlaid : Laid A (body o t) (chainOf u) e (fun _ => False) False) : Sound A o t e where
  family := h.family.trans rfl
  comments := h.comments
  mixes hlogical := by
    have hprec : Precedence.ofHead t.head = .member := by rw [Precedence.ofHead, h.tag]
    rw [hprec] at hlogical
    exact absurd hlogical (by decide)
  laid := by
    rw [home_member h hu]
    exact hlaid.imp (fun _ => id) (fun _ => False.elim) False.elim

theorem sound_member {x : String} (h : Built t .memberExpression [u, v])
    (plain : t.head.flag .isComputed = false) (hu : t.slots.child? .object = some u)
    (hv : t.slots.child? .property = some v) (ih : Sound A o u a) (hx : IsName A v x) :
    Sound A o t (.member a x) := by
  refine h.sound_member hu ?_
  have hbody : body o t =
      printed o u (.expression .leftHandSide (isBareInteger u.head))
        ++ (text "." ++ printed o v (.expression .primary false)) := by
    rw [body, expressionText, h.tag]
    dsimp only
    rw [Slots.child_annotateSlots _ hu, Slots.child_annotateSlots _ hv, plain, Tree.head_annotate]
    rfl
  rw [hbody]
  exact ih.chain.member (chainOf_mem u) hx.spelled hx.strip

theorem sound_index (h : Built t .memberExpression [u, v])
    (computed : t.head.flag .isComputed = true) (hu : t.slots.child? .object = some u)
    (hv : t.slots.child? .property = some v) (ih : Sound A o u a) (ih' : Sound A o v b) :
    Sound A o t (.index a b) := by
  refine h.sound_member hu ?_
  have hbody : body o t =
      printed o u (.expression .leftHandSide (isBareInteger u.head))
        ++ between "[" "]" (printed o v (.expression .comma false)) := by
    rw [body, expressionText, h.tag]
    dsimp only
    rw [Slots.child_annotateSlots _ hu, Slots.child_annotateSlots _ hv, computed,
      Tree.head_annotate]
    rfl
  rw [hbody]
  exact ih.chain.index (chainOf_mem u) (ih'.loose .comma false (by decide))

theorem exists_row_expressions {parts : List (Node × Expr)}
    (ih : ∀ part ∈ parts, Sound A o part.1 part.2) :
    ∃ l phrases,
      Row A (expressions ((parts.map Prod.fst).map (Tree.annotate (printedRule o))) .assignment) l
        phrases ∧ phrases.map Prod.snd = parts.map Prod.snd := by
  have hrow := exists_row (A := A)
    (parts.map fun part => (printed o part.1 (.expression .assignment false), part.2)) ?_
  · rw [List.map_map, List.map_map] at hrow
    rw [expressions, List.map_map, List.map_map]
    exact hrow
  · refine List.forall_mem_map.mpr fun part hpart => ?_
    exact (ih part hpart).loose .assignment false (by decide)

theorem exists_arguments {parts : List (Node × Expr)}
    (ih : ∀ part ∈ parts, Sound A o part.1 part.2) :
    ∃ s l phrases,
      argumentsText ((parts.map Prod.fst).map (Tree.annotate (printedRule o))) .none =
        between "(" ")" s ∧
      Row A s l phrases ∧ phrases.map Prod.snd = parts.map Prod.snd := by
  cases parts with
  | nil =>
    refine ⟨comments (.inside false) [], [], [], rfl, ⟨⟨?_, by simp, .nil⟩, rfl, by simp, ?_⟩, rfl⟩
    · exact writes_comments_nil _
    · exact .inl ⟨rfl, rfl⟩
  | cons part rest =>
    obtain ⟨l, phrases, hrow, hphrases⟩ := exists_row_expressions ih
    exact ⟨_, l, phrases, rfl, hrow, hphrases⟩

theorem sound_call {parts : List (Node × Expr)}
    (h : Built t .callExpression (u :: parts.map Prod.fst))
    (untyped : t.slots.child? .typeParameters = none) (hu : t.slots.child? .callee = some u)
    (hparts : t.slots.children .arguments = parts.map Prod.fst) (ih : Sound A o u a)
    (ihs : ∀ part ∈ parts, Sound A o part.1 part.2) :
    Sound A o t (.call a (parts.map Prod.snd)) := by
  obtain ⟨s, l, phrases, hs, hrow, hphrases⟩ := exists_arguments ihs
  have hprec : Precedence.ofHead t.head = .leftHandSide := by rw [Precedence.ofHead, h.tag]
  have hbody : body o t =
      printed o u (.expression .leftHandSide false) ++ between "(" ")" s := by
    rw [body, expressionText, h.tag]
    dsimp only
    rw [Slots.child_annotateSlots _ hu, Slots.child?_annotateSlots, untyped,
      Slots.children_annotateSlots, hparts, hs]
    simp [typeArguments, angledOf, expression, printed, Tree.note_annotate_eq]
  refine ⟨h.family.trans rfl, h.comments, ?_, ?_⟩
  · intro hlogical
    rw [hprec] at hlogical
    exact absurd hlogical (by decide)
  · have hcallee : Laid A (printed o u (.expression .leftHandSide false)) _ _ _ _ :=
      ih.object (by simp)
    rw [hbody, home, containsCall_call h.tag, ← hphrases]
    exact (hcallee.call (chainOf_mem u) hrow).imp (fun _ => id) (fun _ => False.elim) False.elim

theorem sound_new {parts : List (Node × Expr)}
    (h : Built t .newExpression (u :: parts.map Prod.fst))
    (untyped : t.slots.child? .typeParameters = none) (hu : t.slots.child? .callee = some u)
    (hparts : t.slots.children .arguments = parts.map Prod.fst) (ih : Sound A o u a)
    (ihs : ∀ part ∈ parts, Sound A o part.1 part.2) :
    Sound A o t (.new a (parts.map Prod.snd)) := by
  obtain ⟨s, l, phrases, hs, hrow, hphrases⟩ := exists_arguments ihs
  refine h.sound rfl (by decide) (p := .member) ?_ (by decide) ?_
  · rw [Precedence.ofHead, h.tag]
  · have hbody : body o t =
        text "new " ++ printed o u (.expression .member (containsCall u)) ++ between "(" ")" s := by
      rw [body, expressionText, h.tag]
      dsimp only
      rw [Slots.child_annotateSlots _ hu, Slots.child?_annotateSlots, untyped,
        Slots.children_annotateSlots, hparts, hs, containsCall, Tree.synthesize_annotate]
      simp [typeArguments, angledOf, printed, containsCall, Tree.note_annotate_eq]
    rw [hbody, ← hphrases]
    refine (ih.operand fun hcall hforced => ?_).new hrow
    rw [hcall] at hforced
    cases hforced

theorem body_conditional (htag : t.head.tag? = some .conditionalExpression)
    (hu : t.slots.child? .test = some u) (hv : t.slots.child? .consequent = some v)
    (hw : t.slots.child? .alternate = some w) (o : Options) :
    body o t =
      printed o u (.expression .coalesce false) ++ text " ? "
        ++ printed o v (.expression .assignment false) ++ text " : "
        ++ printed o w (.expression .assignment false) := by
  rw [body, expressionText, htag]
  dsimp only
  rw [Slots.child_annotateSlots _ hu, Slots.child_annotateSlots _ hv,
    Slots.child_annotateSlots _ hw]
  rfl

theorem sound_conditional (h : Built t .conditionalExpression parts)
    (hu : t.slots.child? .test = some u) (hv : t.slots.child? .consequent = some v)
    (hw : t.slots.child? .alternate = some w) (ihu : Sound A o u c) (ihv : Sound A o v a)
    (ihw : Sound A o w b) : Sound A o t (.conditional c a b) := by
  have hp : Precedence.ofHead t.head = .conditional := by rw [Precedence.ofHead, h.tag]
  refine h.sound rfl (by decide) hp (by decide) ?_
  rw [body_conditional h.tag hu hv hw]
  have hlaid := (ihu.loose .coalesce false (by decide)).conditional
    (ihv.loose .assignment false (by decide)) (ihw.loose .assignment false (by decide))
  exact hlaid.imp (fun _ => id) (fun c _ => mayStart_of_looser hp rfl c)
    (fun _ => mayEnd_of_looser hp rfl)

theorem body_sequence (htag : t.head.tag? = some .sequenceExpression) (o : Options) :
    body o t =
      expressions ((t.slots.children .expressions).map (Tree.annotate (printedRule o)))
        .assignment := by
  rw [body, expressionText, htag]
  dsimp only
  rw [Slots.children_annotateSlots]

theorem sound_sequence {parts : List (Node × Expr)}
    (h : Built t .sequenceExpression (parts.map Prod.fst)) (hlength : 2 ≤ parts.length)
    (hparts : t.slots.children .expressions = parts.map Prod.fst)
    (ihs : ∀ part ∈ parts, Sound A o part.1 part.2) :
    Sound A o t (.sequence (parts.map Prod.snd)) := by
  have hp : Precedence.ofHead t.head = .comma := by rw [Precedence.ofHead, h.tag]
  refine h.sound rfl (by decide) hp (by decide) ?_
  obtain ⟨l, phrases, hrow, hphrases⟩ := exists_row_expressions ihs
  have hcount : phrases.length = parts.length := by
    simpa using congrArg List.length hphrases
  rw [body_sequence h.tag, hparts, ← hphrases]
  exact (hrow.laid_sequence (by omega)).imp (fun _ => id)
    (fun c _ => mayStart_of_looser hp rfl c) (fun _ => mayEnd_of_looser hp rfl)

/-! ### Operators -/

/-- The operators that associate to the left. -/
def leftOperators : List String :=
  ["==", "!=", "===", "!==", "<", ">", "<=", ">=", "in", "instanceof", "<<", ">>", ">>>", "+", "-",
    "*", "/", "%", "&", "|", "^", "&&", "||"]

/-- The operators, but for `**` and `??`. -/
def operators : List String :=
  unaryOperators ++ updateOperators ++ assignmentOperators ++ leftOperators

theorem operatorToken_text (operator : String) : (operatorToken operator).text = operator := by
  unfold operatorToken
  split <;> rfl

theorem spelled_operator {operator : String} (h : operator ∈ operators) :
    (operatorToken operator).isSpelled A = true ∧ (operatorToken operator).stops A ' ' = true := by
  have hall : operators.all (fun operator => (operatorToken operator).isSpelled A) = true := rfl
  exact ⟨List.all_eq_true.mp hall operator h, stops_blank (.inl rfl) _⟩

theorem operatorToken_assignment : ∀ operator ∈ assignmentOperators,
    operatorToken operator = .mark operator := by decide

theorem body_assign {operator : String} (htag : t.head.tag? = some .assignmentExpression)
    (ho : t.head.text .operator = operator) (hu : t.slots.child? .left = some u)
    (hv : t.slots.child? .right = some v) (o : Options) :
    body o t =
      infixed (printed o u (.expression .leftHandSide false)) operator
        (printed o v (.expression .assignment false)) := by
  rw [body, expressionText, htag]
  dsimp only
  rw [Slots.child_annotateSlots _ hu, Slots.child_annotateSlots _ hv, ho]
  rfl

theorem sound_assign {operator : String} (h : Built t .assignmentExpression parts)
    (ho : t.head.text .operator = operator) (known : operator ∈ assignmentOperators)
    (hu : t.slots.child? .left = some u) (hv : t.slots.child? .right = some v)
    (ihu : Sound A o u a) (ihv : Sound A o v b) : Sound A o t (.assign operator a b) := by
  have hp : Precedence.ofHead t.head = .assignment := by rw [Precedence.ofHead, h.tag]
  refine h.sound rfl (by decide) hp (by decide) ?_
  have htoken := spelled_operator (A := A) (by simp [operators, known] : operator ∈ operators)
  rw [body_assign h.tag ho hu hv]
  have hlaid := (ihu.loose .leftHandSide false (by decide)).infixed
    (ihv.loose .assignment false (by decide)) (operatorToken_text operator) htoken.1 htoken.2
    (r := .assignment) (e := .assign operator a b) ?_
  · exact hlaid.imp (fun _ => id) (fun c _ => mayStart_of_looser hp rfl c)
      (fun _ => mayEnd_of_looser hp rfl)
  · intro ts us
    rw [operatorToken_assignment operator known]
    exact .assign known

theorem leftOperators_operands : ∀ operator ∈ leftOperators,
    Precedence.operands operator =
      (Precedence.ofOperator operator, (Precedence.ofOperator operator).tighter) ∧
    operator ∈ (phraseOf (.ofOperator operator)).operators ∧
    placeOf (.ofOperator operator) = phraseOf (.ofOperator operator) ∧
    (placeOf (Precedence.ofOperator operator).tighter).wider =
      some (phraseOf (.ofOperator operator)) ∧
    (Precedence.ofOperator operator).rank ≤ 17 ∧
    (Precedence.ofOperator operator).tighter.rank ≤ 17 := by decide

theorem laid_leftOperator {operator : String} (ho : operator ∈ leftOperators)
    (ihu : Sound A o u a) (ihv : Sound A o v b) (forced forced' : Bool) :
    Laid A (infixed (printed o u (.expression (Precedence.operands operator).1 forced)) operator
        (printed o v (.expression (Precedence.operands operator).2 forced')))
      (phraseOf (.ofOperator operator)) (.binary operator a b) (fun _ => True) True := by
  obtain ⟨hoperands, hphrase, hplace, hwider, hrank, hrank'⟩ := leftOperators_operands operator ho
  have htoken := spelled_operator (A := A) (by simp [operators, ho] : operator ∈ operators)
  rw [hoperands]
  refine (ihu.loose _ forced hrank).infixed (ihv.loose _ forced' hrank')
    (operatorToken_text operator) htoken.1 htoken.2 fun ts us hl hr => ?_
  rw [hplace] at hl
  exact .binary hphrase hwider hl hr

theorem laid_exponent (ihu : Sound A o u a) (ihv : Sound A o v b) (forced forced' : Bool) :
    Laid A (infixed (printed o u (.expression .update forced)) "**"
        (printed o v (.expression .exponent forced')))
      .exponent (.binary "**" a b) (fun _ => True) True :=
  (ihu.loose .update forced (by decide)).infixed (t := .mark "**")
    (ihv.loose .exponent forced' (by decide)) rfl rfl rfl fun _ _ => .exponent

theorem laid_coalesce (ihu : Sound A o u a) (ihv : Sound A o v b) :
    Laid A (infixed (printed o u (.expression .coalesce (mixesCoalesce "??" u.head))) "??"
        (printed o v (.expression .logicalOr (mixesCoalesce "??" v.head))))
      .coalesce (.binary "??" a b) (fun _ => True) True := by
  obtain ⟨p, hp, hlaid⟩ := ihu.coalesce_left
  exact hlaid.infixed (t := .mark "??") ihv.coalesce_right rfl rfl rfl fun _ _ => .coalesce hp

/-- An operand of `operator`, which must bind at least so tightly. -/
def operandText (o : Options) (operator : String) (least : Precedence) (t : Node) : Script :=
  printed o t (.expression least (mixesCoalesce operator t.head))

/-- An operator between its operands. -/
theorem laid_infixed {operator : String} (ho : operator ∈ binaryOperators ++ logicalOperators)
    (ihu : Sound A o u a) (ihv : Sound A o v b) :
    Laid A
      (infixed (operandText o operator (Precedence.operands operator).1 u) operator
        (operandText o operator (Precedence.operands operator).2 v))
      (phraseOf (.ofOperator operator)) (.binary operator a b) (fun _ => True) True := by
  have hcases : ∀ operator ∈ binaryOperators ++ logicalOperators,
      operator ∈ leftOperators ∨ operator = "**" ∨ operator = "??" := by decide
  rcases hcases operator ho with hleft | rfl | rfl
  · exact laid_leftOperator hleft ihu ihv _ _
  · exact laid_exponent ihu ihv _ _
  · exact laid_coalesce ihu ihv

theorem body_infixed {operator : String}
    (htag : t.head.tag? = some .binaryExpression ∨ t.head.tag? = some .logicalExpression)
    (ho : t.head.text .operator = operator) (hu : t.slots.child? .left = some u)
    (hv : t.slots.child? .right = some v) (o : Options) :
    body o t =
      infixed (operandText o operator (Precedence.operands operator).1 u) operator
        (operandText o operator (Precedence.operands operator).2 v) := by
  unfold body expressionText
  rcases htag with htag | htag <;> rw [htag] <;> dsimp only <;>
    rw [Slots.child_annotateSlots _ hu, Slots.child_annotateSlots _ hv, ho, operand, operand,
      Tree.head_annotate, Tree.head_annotate] <;> rfl

theorem sound_binary {operator : String} (h : Built t .binaryExpression parts)
    (ho : t.head.text .operator = operator) (known : operator ∈ binaryOperators)
    (hu : t.slots.child? .left = some u) (hv : t.slots.child? .right = some v)
    (ihu : Sound A o u a) (ihv : Sound A o v b) : Sound A o t (.binary operator a b) := by
  have hp : Precedence.ofHead t.head = .ofOperator operator := by
    rw [Precedence.ofHead, h.tag, ← ho]
  have hfacts : ∀ operator ∈ binaryOperators,
      Precedence.ofOperator operator ∉ [Precedence.logicalOr, .logicalAnd] ∧
      (Precedence.ofOperator operator).looser .unary = true := by decide
  obtain ⟨hmixes, hlooser⟩ := hfacts operator known
  refine h.sound rfl (by decide) hp hmixes ?_
  rw [body_infixed (.inl h.tag) ho hu hv]
  exact (laid_infixed (by simp [known]) ihu ihv).imp (fun _ => id)
    (fun c _ => mayStart_of_looser hp hlooser c)
    (fun _ => mayEnd_of_looser hp (looser_of_le hlooser (by decide)))

theorem sound_logical {operator : String} (h : Built t .logicalExpression parts)
    (ho : t.head.text .operator = operator) (known : operator ∈ logicalOperators)
    (hu : t.slots.child? .left = some u) (hv : t.slots.child? .right = some v)
    (ihu : Sound A o u a) (ihv : Sound A o v b) : Sound A o t (.binary operator a b) := by
  have hp : Precedence.ofHead t.head = .ofOperator operator := by
    rw [Precedence.ofHead, h.tag, ← ho]
  have hlooser : (Precedence.ofOperator operator).looser .unary = true :=
    (by decide : ∀ operator ∈ logicalOperators,
      (Precedence.ofOperator operator).looser .unary = true) operator known
  refine ⟨h.family.trans rfl, h.comments, fun hlogical => ?_, ?_⟩
  · have hmixes : ∀ operator ∈ logicalOperators,
        Precedence.ofOperator operator ∈ [Precedence.logicalOr, .logicalAnd] →
          (operator == "||" || operator == "&&") = true := by decide
    rw [hp] at hlogical
    simp only [mixesCoalesce, Head.is, h.tag, ho]
    exact hmixes operator known hlogical
  · have hhome : home t = phraseOf (.ofOperator operator) := by
      unfold home
      rw [containsCall_eq_false h.tag (by decide), if_neg Bool.false_ne_true, hp]
    rw [hhome, body_infixed (.inr h.tag) ho hu hv]
    exact (laid_infixed (by simp [known]) ihu ihv).imp (fun _ => id)
      (fun c _ => mayStart_of_looser hp hlooser c)
      (fun _ => mayEnd_of_looser hp (looser_of_le hlooser (by decide)))

theorem getLast?_ne_of_repeatsSign {operator : String} {h : Head} {c : Char}
    (hr : repeatsSign operator h = false) (hc : c = '+' ∨ c = '-')
    (hs : MayStart h c ∧ (Precedence.ofHead h).looser .unary = false) :
    operator.toList.getLast? ≠ some c := by
  intro hlast
  obtain ⟨hloose | ⟨hbegins, hfirst⟩, hlooser⟩ := hs
  · rw [hloose] at hlooser
    cases hlooser
  · unfold repeatsSign at hr
    rw [hlast] at hr
    unfold beginsWithOperator at hbegins
    rcases hc with rfl | rfl <;> simp [hbegins, hfirst] at hr

/-- The operators that need no space before an operand that does not begin with their sign. -/
theorem stops_operator {operator : String} {c : Char}
    (ho : operator ∈ ["+", "-", "~", "!", "++", "--"]) (hc : c ≠ '=')
    (hs : c = '+' ∨ c = '-' → operator.toList.getLast? ≠ some c) :
    (Token.mark operator).stops A c = true := by
  simp only [List.mem_cons, List.not_mem_nil, or_false] at ho
  rcases ho with rfl | rfl | rfl | rfl | rfl | rfl
  · have hplus : c ≠ '+' := fun h => hs (.inl h) (by rw [h]; rfl)
    simp [Token.stops, marks, List.isPrefixOf, hc, hplus]
  · have hminus : c ≠ '-' := fun h => hs (.inr h) (by rw [h]; rfl)
    simp [Token.stops, marks, List.isPrefixOf, hc, hminus]
  · rfl
  · simp [Token.stops, marks, List.isPrefixOf, hc]
  · rfl
  · rfl

/-- An operator before its operand, with a space after a word and between equal signs. -/
theorem laid_operatorFirst {operator : String} {spaced : Bool} {r : Phrase}
    (ho : operator ∈ unaryOperators ++ updateOperators)
    (hspaced : spaced = false →
      operator.toList.all Char.isAlpha = false ∧ repeatsSign operator u.head = false)
    (ih : Sound A o u a)
    (hd : ∀ ⦃ts⦄, Derives .unary ts a → Derives r (operatorToken operator :: ts) e) :
    Laid A (text operator ++ when spaced space ++ printed o u (.expression .unary false)) r e
      (fun c => operator.toList.head? = some c) True := by
  have htoken := spelled_operator (A := A) (List.mem_append_left _ (List.mem_append_left _ ho))
  have hargument : Laid A (printed o u (.expression .unary false)) .unary a _ True :=
    ih.operand fun _ _ => by decide
  refine hargument.operatorFirst (operatorToken_text operator) htoken.1 ?_ (fun _ => htoken.2) ?_ hd
  · have hne : ∀ operator ∈ unaryOperators ++ updateOperators,
        operator.toList.head? ≠ some '=' := by decide
    refine ⟨_, rfl, fun c hc => ?_⟩
    have hfirst : operator.toList.head? = some c := operatorToken_text operator ▸ hc
    refine ⟨?_, fun _ => hfirst⟩
    rintro rfl
    exact hne operator ho hfirst
  · intro hs c hc hsign
    have hmark : ∀ operator ∈ unaryOperators ++ updateOperators,
        operator.toList.all Char.isAlpha = false →
        operator ∈ ["+", "-", "~", "!", "++", "--"] ∧ operatorToken operator = .mark operator := by
      decide
    obtain ⟨halpha, hr⟩ := hspaced hs
    obtain ⟨hmem, heq⟩ := hmark operator ho halpha
    rw [heq]
    exact stops_operator hmem hc fun hc => getLast?_ne_of_repeatsSign hr hc (hsign hc)

theorem sound_unary {operator : String} (h : Built t .unaryExpression parts)
    (ho : t.head.text .operator = operator) (known : operator ∈ unaryOperators)
    (hu : t.slots.child? .argument = some u) (ih : Sound A o u a) :
    Sound A o t (.unary operator a) := by
  have hp : Precedence.ofHead t.head = .unary := by rw [Precedence.ofHead, h.tag]
  have hbegins : beginsWithOperator t.head = true := by
    rw [beginsWithOperator, Head.is, h.tag]
    rfl
  refine h.sound rfl (by decide) hp (by decide) ?_
  have hbody : body o t =
      text operator
        ++ when (operator.toList.all Char.isAlpha || repeatsSign operator u.head) space
        ++ printed o u (.expression .unary false) := by
    rw [body, expressionText, h.tag]
    dsimp only
    rw [Slots.child_annotateSlots _ hu, ho, Tree.head_annotate]
    rfl
  rw [hbody]
  exact (laid_operatorFirst (List.mem_append_left _ known) Bool.or_eq_false_iff.mp ih
    fun ts => .unary known).imp (fun _ => id) (fun c hc => .inr ⟨hbegins, ho ▸ hc⟩)
      (fun _ => mayEnd_of_looser hp rfl)

theorem sound_updateFirst {operator : String} (h : Built t .updateExpression parts)
    (hfirst : t.head.flag .operatorFirst = true) (ho : t.head.text .operator = operator)
    (known : operator ∈ updateOperators) (hu : t.slots.child? .argument = some u)
    (ih : Sound A o u a) : Sound A o t (.update operator true a) := by
  have hp : Precedence.ofHead t.head = .unary := by
    rw [Precedence.ofHead, h.tag]
    simp [hfirst]
  have hbegins : beginsWithOperator t.head = true := by
    rw [beginsWithOperator, Head.is, Head.is, h.tag, hfirst]
    rfl
  have hmark : ∀ operator ∈ updateOperators,
      operator.toList.all Char.isAlpha = false ∧ operatorToken operator = .mark operator := by
    decide
  obtain ⟨halpha, htoken⟩ := hmark operator known
  refine h.sound rfl (by decide) hp (by decide) ?_
  have hbody : body o t =
      text operator ++ when (repeatsSign operator u.head) space
        ++ printed o u (.expression .unary false) := by
    rw [body, expressionText, h.tag]
    dsimp only
    rw [Slots.child_annotateSlots _ hu, ho, Tree.head_annotate, hfirst]
    rfl
  rw [hbody]
  refine (laid_operatorFirst (List.mem_append_right _ known) (fun hr => ⟨halpha, hr⟩) ih ?_).imp
    (fun ts hd => hd.within (by decide : Phrase.update.Within .unary))
    (fun c hc => .inr ⟨hbegins, ho ▸ hc⟩) (fun _ => mayEnd_of_looser hp rfl)
  intro ts
  rw [htoken]
  exact .updateFirst known

theorem sound_updateLast {operator : String} (h : Built t .updateExpression parts)
    (hlast : t.head.flag .operatorFirst = false) (ho : t.head.text .operator = operator)
    (known : operator ∈ updateOperators) (hu : t.slots.child? .argument = some u)
    (ih : Sound A o u a) : Sound A o t (.update operator false a) := by
  have hp : Precedence.ofHead t.head = .update := by
    rw [Precedence.ofHead, h.tag]
    simp [hlast]
  refine h.sound rfl (by decide) hp (by decide) ?_
  have hbody : body o t = printed o u (.expression .leftHandSide false) ++ text operator := by
    rw [body, expressionText, h.tag]
    dsimp only
    rw [Slots.child_annotateSlots _ hu, ho, hlast]
    rfl
  have hargument : Laid A (printed o u (.expression .leftHandSide false)) .leftHandSide a _ True :=
    ih.operand fun _ _ => by decide
  rw [hbody]
  refine (hargument.updateLast known).imp (fun _ => id) ?_ id
  rintro c ⟨hs, hlooser⟩
  rw [looser_of_le hs.looser (by decide)] at hlooser
  cases hlooser

theorem sound_update {operator : String} (h : Built t .updateExpression parts)
    (ho : t.head.text .operator = operator) (known : operator ∈ updateOperators)
    (hu : t.slots.child? .argument = some u) (ih : Sound A o u a) :
    Sound A o t (.update operator (t.head.flag .operatorFirst) a) := by
  cases hfirst : t.head.flag .operatorFirst with
  | true => exact sound_updateFirst h hfirst ho known hu ih
  | false => exact sound_updateLast h hfirst ho known hu ih

end Constructs

end Typeshift.Expression
