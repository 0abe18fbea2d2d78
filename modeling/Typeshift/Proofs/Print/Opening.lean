import Typeshift.Proofs.Expression.Places
import Typeshift.Proofs.Print.Steady

/-! # How the text of an expression begins

The printer writes an expression from its leftmost operand on. On the way there it writes the
comments that it meets, and it stops at the first node that it puts in parentheses. `Start.ofTree`
goes the same way without printing anything; here both ways are shown to be one.

* `Script.grows_run`: scripts only add to a page. `Same`: scripts that do the same.
* `expressionText_leftOperand`: an expression is written from its operand on the left on.
* `OpensAt`: where the text of a node begins, and the comments before that.
  `OpensAt.start_eq`: this is where the start of the node says. `OpensAt.same`: the printer begins
  there. -/

namespace Typeshift.Print

open Script Expression

/-! ### Scripts only add to a page -/

namespace Page

/-- A page holds all that stands on another. -/
def Grows (p p' : Page) : Prop := p.output.toList <+: p'.output.toList

theorem Grows.trans {p p' p'' : Page} (h : p.Grows p') (h' : p'.Grows p'') : p.Grows p'' :=
  List.IsPrefix.trans h h'

theorem grows_refl (p : Page) : p.Grows p := List.prefix_refl _

variable (p : Page) (s : String)

theorem grows_append : p.Grows (p.append s) := by
  simp [Grows, append]

theorem grows_beginLine : p.Grows p.beginLine := by
  unfold beginLine
  split
  · exact p.grows_append p.margin
  · exact grows_refl _

theorem grows_write : p.Grows (p.write s) := by
  unfold write
  split
  · exact grows_refl _
  · exact p.grows_beginLine.trans (p.beginLine.grows_append s)

theorem grows_writeRaw : p.Grows (p.writeRaw s) := by
  unfold writeRaw
  split
  · exact grows_refl _
  · exact p.grows_beginLine.trans (p.beginLine.grows_append s)

theorem grows_space : p.Grows p.space :=
  p.grows_beginLine.trans (p.beginLine.grows_append _)

theorem grows_endLine : p.Grows p.endLine := by
  unfold endLine
  split
  · exact grows_refl _
  · exact p.grows_append "\n"

theorem grows_writeComment (c : Comment) : p.Grows (p.writeComment c) := by
  unfold writeComment
  split
  · exact p.grows_writeRaw _
  · exact p.grows_write _

theorem grows_writeAsBlock (c : Comment) : p.Grows (p.writeAsBlock c) := by
  unfold writeAsBlock
  split
  · exact p.grows_writeComment c
  · exact p.grows_write _

theorem grows_writeSpaced (cs : List Comment) : p.Grows (p.writeSpaced cs) := by
  induction cs generalizing p with
  | nil => exact grows_refl _
  | cons c rest ih =>
    cases rest with
    | nil => exact p.grows_writeAsBlock c
    | cons next rest =>
      exact ((p.grows_writeAsBlock c).trans (p.writeAsBlock c).grows_space).trans (ih _)

theorem grows_foldl {f : Page → Comment → Page}
    (hf : ∀ (p : Page) (c : Comment), p.Grows (f p c)) (cs : List Comment) :
    p.Grows (cs.foldl f p) := by
  induction cs generalizing p with
  | nil => exact grows_refl _
  | cons c rest ih => exact (hf p c).trans (ih _)

theorem grows_writeComments (style : CommentStyle) (cs : List Comment) :
    p.Grows (p.writeComments style cs) := by
  cases style with
  | lines =>
    refine p.grows_foldl (fun p c => ?_) cs
    exact (p.grows_endLine.trans (p.endLine.grows_writeComment c)).trans (grows_endLine _)
  | afterLine =>
    refine p.grows_foldl (fun p c => ?_) cs
    have hcomment : p.Grows ((if p.atLineStart then p else p.space).writeComment c) := by
      split
      · exact p.grows_writeComment c
      · exact p.grows_space.trans (p.space.grows_writeComment c)
    dsimp only
    split
    · exact hcomment
    · exact hcomment.trans (grows_endLine _)
  | before =>
    exact p.grows_foldl (fun p c => (p.grows_writeAsBlock c).trans (grows_space _)) cs
  | inside spaced =>
    unfold writeComments
    dsimp only
    split
    · exact (p.grows_writeSpaced cs).trans (grows_space _)
    · exact p.grows_writeSpaced cs
  | after =>
    exact p.grows_foldl (fun p c => p.grows_space.trans (p.space.grows_writeAsBlock c)) cs

end Page

theorem Piece.grows_run (t : Sheet) (piece : Piece) : t.page.Grows (piece.run t).page := by
  cases piece with
  | text s => exact t.page.grows_write s
  | raw s => exact t.page.grows_writeRaw s
  | space => exact t.page.grows_space
  | line => exact t.page.grows_endLine
  | indent => exact List.prefix_refl _
  | dedent => exact List.prefix_refl _
  | apart s => exact t.page.grows_write _
  | comments style cs => exact t.page.grows_writeComments style _

/-- **A script only adds to a page.** -/
theorem Script.grows_run (t : Sheet) (s : Script) : t.page.Grows (s.run t).page := by
  induction s generalizing t with
  | nil => exact Page.grows_refl _
  | cons piece s ih => exact (piece.grows_run t).trans (ih _)

/-! ### Scripts that do the same -/

/-- Two scripts do the same to every sheet. -/
def Same (s s' : Script) : Prop := ∀ t : Sheet, Script.run t s = Script.run t s'

namespace Same

variable {s s' s'' u u' : Script}

theorem refl (s : Script) : Same s s := fun _ => rfl

theorem symm (h : Same s s') : Same s' s := fun t => (h t).symm

theorem trans (h : Same s s') (h' : Same s' s'') : Same s s'' := fun t => (h t).trans (h' t)

theorem append (h : Same s s') (h' : Same u u') : Same (s ++ u) (s' ++ u') := by
  intro t
  rw [run_append, run_append, h, h']

theorem of_eq (h : s = s') : Same s s' := h ▸ refl s

/-- A script that writes nothing does not matter. -/
theorem of_silent (h : Writes s []) : Same s [] := by
  intro t
  rw [h t, Sheet.add_nil]
  rfl

end Same

theorem pickFresh_append (taken : List (Nat × Nat)) (cs ds : List Comment) :
    pickFresh taken (cs ++ ds) =
      ((pickFresh taken cs).1 ++ (pickFresh (pickFresh taken cs).2 ds).1,
        (pickFresh (pickFresh taken cs).2 ds).2) := by
  induction cs generalizing taken with
  | nil => rfl
  | cons c cs ih =>
    rw [List.cons_append, pickFresh, pickFresh]
    cases c.position with
    | none => simp [ih]
    | some place =>
      dsimp only
      split
      · exact ih taken
      · simp [ih]

theorem Page.space_writeSpaced (p : Page) (c : Comment) (cs : List Comment) :
    (p.writeSpaced (c :: cs)).space = (c :: cs).foldl (fun p c => (p.writeAsBlock c).space) p := by
  induction cs generalizing p c with
  | nil => rfl
  | cons d cs ih => exact ih _ d

/-- Comments in front of a node, in both ways to write them. -/
theorem Page.writeComments_inside (p : Page) (cs : List Comment) :
    p.writeComments (.inside true) cs = p.writeComments .before cs := by
  cases cs with
  | nil => rfl
  | cons c cs => exact p.space_writeSpaced c cs

theorem same_comments_inside (cs : List Comment) :
    Same (comments (.inside true) cs) (comments .before cs) := by
  intro t
  show Sheet.mk _ _ = Sheet.mk _ _
  rw [Page.writeComments_inside]

theorem same_comments_append (cs ds : List Comment) :
    Same (comments .before cs ++ comments .before ds) (comments .before (cs ++ ds)) := by
  intro t
  show Sheet.mk _ _ = Sheet.mk _ _
  simp only [Piece.run, pickFresh_append, Page.writeComments, List.foldl_append]

/-! ### The operand that is written first -/

theorem leftOperand?_annotateSlots {ρ σ : Type} (rule : Head → Slots σ → σ) (h : Head)
    (s : Slots ρ) :
    leftOperand? h (Tree.annotateSlots rule s) =
      (leftOperand? h s).map fun p => (p.1.annotate rule, p.2) := by
  have hchild (f : Field) (g : Tree σ → Tree σ × Precedence × Bool) :
      ((Tree.annotateSlots rule s).child? f).map g =
        (s.child? f).map fun t => g (t.annotate rule) := by
    rw [Slots.child?_annotateSlots, Option.map_map]
    rfl
  unfold leftOperand?
  split
  case h_10 =>
    split
    · rfl
    · rw [hchild, Option.map_map]
      rfl
  all_goals
    simp only [hchild, Slots.children_annotateSlots, List.head?_map, Option.map_map,
      Option.map_none, Tree.head_annotate]
    try rfl

theorem leftOperand?_mem {ρ : Type} {h : Head} {s : Slots ρ} {u : Tree ρ} {least : Precedence}
    {forced : Bool} (hu : leftOperand? h s = some (u, least, forced)) : u ∈ s.toList := by
  have hchild {f : Field} {g : Tree ρ → Tree ρ × Precedence × Bool} (hg : ∀ t, (g t).1 = t)
      (hf : (s.child? f).map g = some (u, least, forced)) : u ∈ s.toList := by
    obtain ⟨t, ht, heq⟩ := Option.map_eq_some_iff.mp hf
    have hut : u = t := (congrArg Prod.fst heq).symm.trans (hg t)
    exact hut ▸ Slots.child?_mem ht
  unfold leftOperand? at hu
  split at hu
  case h_8 =>
    obtain ⟨t, ht, heq⟩ := Option.map_eq_some_iff.mp hu
    cases heq
    exact Slots.children_mem (List.mem_of_mem_head? ht)
  case h_10 =>
    split at hu
    · cases hu
    · exact hchild (fun _ => rfl) hu
  case h_11 => cases hu
  all_goals exact hchild (fun _ => rfl) hu

/-- Only expressions have an operand on the left. -/
theorem family_of_leftOperand? {ρ : Type} {h : Head} {s : Slots ρ}
    {p : Tree ρ × Precedence × Bool} (hu : leftOperand? h s = some p) : h.family = .expression := by
  unfold leftOperand? at hu
  split at hu
  case h_11 => cases hu
  all_goals
    rename_i htag
    exact family_of_tag htag

/-! ### What stands after an operand -/

/-- A script begins with writing some characters. -/
def Leads (s : Script) (cs : List Char) : Prop :=
  ∃ before after, Same s (before ++ after) ∧ Writes before cs

section Leads

variable {s s' : Script} {cs : List Char}

theorem leads_text (w : String) (s : Script) : Leads (text w ++ s) w.toList :=
  ⟨text w, s, .refl _, writes_text w⟩

theorem Leads.append (h : Leads s cs) (s' : Script) : Leads (s ++ s') cs := by
  obtain ⟨before, after, hsame, hwrites⟩ := h
  refine ⟨before, after ++ s', ?_, hwrites⟩
  rw [← List.append_assoc]
  exact hsame.append (.refl s')

theorem Leads.after_silent (h : Leads s cs) (hs : Writes s' []) : Leads (s' ++ s) cs := by
  obtain ⟨before, after, hsame, hwrites⟩ := h
  refine ⟨s' ++ before, after, ?_, hs.append hwrites⟩
  rw [List.append_assoc]
  exact (Same.refl s').append hsame

theorem Leads.of_same (h : Leads s' cs) (hs : Same s s') : Leads s cs := by
  obtain ⟨before, after, hsame, hwrites⟩ := h
  exact ⟨before, after, hs.trans hsame, hwrites⟩

/-- What a script that leads with some characters adds to a line. -/
theorem Leads.exists_output (h : Leads s cs) {t : Sheet} (ht : t.page.atLineStart = false) :
    ∃ ds, (Script.run t s).page.output.toList = t.page.output.toList ++ (cs ++ ds) := by
  obtain ⟨before, after, hsame, hwrites⟩ := h
  have hadd : (t.add cs).page.output.toList = t.page.output.toList ++ cs := by
    cases cs with
    | nil => simp
    | cons c cs => simp [Sheet.add, Page.write, Page.beginLine, Page.append, ht]
  obtain ⟨ds, hds⟩ := Script.grows_run (t.add cs) after
  refine ⟨ds, ?_⟩
  rw [hsame t, run_append, hwrites t, ← hds, hadd, List.append_assoc]

end Leads

/-- Characters that do not go on with a name before them, nor make a function of `async`. -/
def severs (A : Alphabet) : List Char → Bool
  | [] => false
  | c :: cs => !A.continues c && (c != ' ' || cs.head?.any (· != 'f'))

/-- **A script does not go on with a name** that stands before it. -/
def Severed (A : Alphabet) (s : Script) : Prop :=
  Writes s [] ∨ ∃ cs, Leads s cs ∧ severs A cs = true

section Severed

variable {A : Alphabet} {s s' : Script}

theorem severed_text {w : String} (hw : severs A w.toList = true) (s : Script) :
    Severed A (text w ++ s) := .inr ⟨_, leads_text w s, hw⟩

theorem Severed.of_same (h : Severed A s') (hs : Same s s') : Severed A s := by
  rcases h with h | ⟨cs, hleads, hcs⟩
  · exact .inl fun t => (hs t).trans (h t)
  · exact .inr ⟨cs, hleads.of_same hs, hcs⟩

theorem Severed.append (h : Severed A s) (h' : Severed A s') : Severed A (s ++ s') := by
  rcases h with h | ⟨cs, hleads, hcs⟩
  · rcases h' with h' | ⟨cs, hleads, hcs⟩
    · exact .inl (h.append h')
    · exact .inr ⟨cs, hleads.after_silent h, hcs⟩
  · exact .inr ⟨cs, hleads.append s', hcs⟩

/-- A type in angle brackets, if there is one, does not go on with a name. -/
theorem severed_angledOf (t : Tag) (list : Option (Tree Printed)) :
    Severed A (angledOf t list) := by
  unfold angledOf
  cases list with
  | none => exact .inl writes_nil
  | some list =>
    cases hlist : list.head.is t with
    | false =>
      dsimp only
      rw [hlist]
      exact .inl writes_nil
    | true =>
      dsimp only
      rw [hlist]
      exact severed_text (w := "<") rfl _

theorem severed_argumentsText (ts : List (Tree Printed)) (pending : Comments) :
    Severed A (argumentsText ts pending) := by
  unfold argumentsText
  split
  · exact severed_text (w := "(") rfl _
  · exact severed_text (w := "(") rfl _

end Severed

/-! ### Expressions that are well formed at their beginning -/

/-- Whether an operand on the left is joined with the rest of its node as it should be: by an
operator, or in front of a template. -/
def joinsWell {ρ : Type} (h : Head) (s : Slots ρ) : Bool :=
  match h.tag? with
  | some .binaryExpression | some .logicalExpression | some .assignmentExpression =>
    (binaryOperators ++ logicalOperators ++ assignmentOperators).contains (h.text .operator)
  | some .updateExpression => updateOperators.contains (h.text .operator)
  | some .taggedTemplateExpression => (s.child? .quasi).any (·.head.is .templateLiteral)
  | _ => true

/-- The words that begin a declaration, and an expression only as functions and classes. -/
def declarationWords : List String := ["function", "class"]

/-- Whether a text begins with a digit or a point. -/
def startsNumeral (s : String) : Bool := s.toList.head?.any fun c => c.isDigit || c == '.'

/-- Whether a text begins with a quote. -/
def startsQuoted (s : String) : Bool := s.toList.head?.any fun c => c == '"' || c == '\x27'

/-- Whether a node without an operand on its left is an expression, and spelled as such: names are
no words that begin a declaration, literals begin as literals do, operators are known and markup
begins with a tag. -/
def spelledWell {ρ : Type} (A : Alphabet) (h : Head) (s : Slots ρ) : Bool :=
  match h.tag? with
  | some .identifier => A.isName (h.text .name) && !declarationWords.contains (h.text .name)
  | some .stringLiteral => h.raw?.all startsQuoted
  | some .numericLiteral => h.raw?.all startsNumeral
  | some .bigIntLiteral => startsNumeral (h.raw?.getD (h.text .value))
  | some .regExpLiteral => (h.text .pattern).toList.head?.any fun c => c != '*' && c != '/'
  | some .unaryExpression => unaryOperators.contains (h.text .operator)
  | some .updateExpression => updateOperators.contains (h.text .operator)
  | some .metaProperty =>
    (s.child? .metaName).any fun t =>
      t.head.is .identifier && ["new", "import"].contains (t.head.text .name)
  | some .classExpression =>
    !h.flag .isDeclare && (s.children .decorators).head?.all (·.head.is .decorator)
  | some .jsxElement => (s.child? .openingElement).any (·.head.is .jsxOpeningElement)
  | some .jsxFragment => (s.child? .openingFragment).any (·.head.is .jsxOpeningFragment)
  | some .privateName | some .booleanLiteral | some .nullLiteral | some .templateLiteral
  | some .thisExpression | some .superKeyword | some .importKeyword | some .arrayExpression
  | some .arrayPattern | some .objectExpression | some .objectPattern | some .newExpression
  | some .awaitExpression | some .yieldExpression | some .parenthesizedExpression
  | some .functionExpression | some .arrowFunctionExpression => true
  | _ => false

/-- Whether an expression is well formed at its beginning, given the answer for the parts. -/
def opensWellRule (A : Alphabet) (h : Head) (s : Slots Bool) : Bool :=
  match leftOperand? h s with
  | some (operand, _, _) => joinsWell h s && operand.note
  | none => spelledWell A h s

/-- **Whether an expression is well formed at its beginning**: it is spelled well if nothing stands
on its left, and otherwise its operand there is well formed at its beginning. -/
def opensWell {ρ : Type} (A : Alphabet) (t : Tree ρ) : Bool := t.synthesize (opensWellRule A)

/-! ### A node in its place -/

/-- Whether a node writes its inner comments among its parts. -/
def keepsInner (h : Head) : Bool :=
  h.isAny [.objectExpression, .arrayExpression, .arrayPattern, .callExpression, .newExpression,
    .jsxEmptyExpression, .classBody]

/-- The inner comments of a node that are written in front of its text. -/
def innerBefore (h : Head) : List Comment := if keepsInner h then [] else h.comments.inner

/-- Whether a node is put in parentheses at a place. -/
def inParens (h : Head) (least : Precedence) (forced : Bool) : Bool :=
  forced || (Precedence.ofHead h).looser least

/-- The text of a node in the place of an expression, without parentheses and the comments before
and after it. -/
def heldText (o : Options) (t : Node) : Script :=
  (expressionContent o (t.annotate (printedRule o))).script
    { t.head.comments with
      leading := [], inner := if keepsInner t.head then t.head.comments.inner else [] }

theorem heldText_expression {t : Node} (hf : t.head.family = .expression) (o : Options) :
    heldText o t = expressionText o t.head (Tree.annotateSlots (printedRule o) t.slots)
      { t.head.comments with
        leading := [], inner := if keepsInner t.head then t.head.comments.inner else [] } := by
  have hf : (t.annotate (printedRule o)).head.family = .expression := by simpa using hf
  unfold heldText expressionContent content
  rw [hf, if_neg (by decide), if_pos (by decide), ownText_expression hf]
  obtain ⟨n, h, s⟩ := t
  rfl

/-- A node in the place of an expression: comments, its text, and what stands after it. -/
theorem printed_held (o : Options) (t : Node) (least : Precedence) (forced : Bool) :
    ∃ after, (t.head.comments = .none → Writes after []) ∧
      Same (printed o t (.expression least forced))
        (comments .before t.head.comments.leading
          ++ (parenIf (inParens t.head least forced)
              (comments .before (innerBefore t.head) ++ heldText o t) ++ after)) := by
  have hframe : printed o t (.expression least forced) =
      comments .before t.head.comments.leading
        ++ parenIf (inParens t.head least forced)
          (when (!keepsInner t.head) (comments (.inside true) t.head.comments.inner)
            ++ heldText o t)
        ++ (expressionContent o (t.annotate (printedRule o))).trailing .after
          t.head.comments := by
    obtain ⟨n, h, s⟩ := t
    rfl
  have hinner : Same (when (!keepsInner t.head) (comments (.inside true) t.head.comments.inner))
      (comments .before (innerBefore t.head)) := by
    unfold innerBefore
    cases keepsInner t.head with
    | true => exact fun t => (Same.of_silent (writes_comments_nil .before) t).symm
    | false => exact same_comments_inside _
  refine ⟨(expressionContent o (t.annotate (printedRule o))).trailing .after t.head.comments,
    ?_, ?_⟩
  · intro hc
    unfold Content.trailing
    rw [hc]
    cases (expressionContent o (t.annotate (printedRule o))).own with
    | true => exact writes_comments_nil _
    | false => exact writes_nil
  · rw [hframe, List.append_assoc]
    refine (Same.refl _).append (Same.append ?_ (Same.refl _))
    cases inParens t.head least forced with
    | true => exact ((Same.refl _).append (hinner.append (Same.refl _))).append (Same.refl _)
    | false => exact hinner.append (Same.refl _)

theorem opensWell_eq (A : Alphabet) (t : Node) : opensWell A t =
    match leftOperand? t.head t.slots with
    | some (operand, _, _) => joinsWell t.head t.slots && opensWell A operand
    | none => spelledWell A t.head t.slots := by
  obtain ⟨n, h, s⟩ := t
  show opensWellRule A h (Tree.annotateSlots (opensWellRule A) s) = _
  unfold opensWellRule
  rw [leftOperand?_annotateSlots]
  have hjoins : joinsWell h (Tree.annotateSlots (opensWellRule A) s) = joinsWell h s := by
    unfold joinsWell
    rw [Slots.child?_annotateSlots]
    simp [Option.any_map]
  have hspelled : spelledWell A h (Tree.annotateSlots (opensWellRule A) s) = spelledWell A h s := by
    unfold spelledWell
    simp only [Slots.child?_annotateSlots, Slots.children_annotateSlots, List.head?_map,
      Option.any_map, Option.all_map, Tree.head_annotate]
  simp only [Tree.head_mk, Tree.slots_mk]
  cases hleft : leftOperand? h s with
  | none => exact hspelled
  | some p =>
    obtain ⟨u, least, forced⟩ := p
    show (joinsWell h (Tree.annotateSlots (opensWellRule A) s) && _) = _
    rw [hjoins]
    rfl

theorem Uncommented.comments {t : Node} (h : Uncommented t) : t.head.comments = .none := by
  cases h with
  | mk here _ => exact here

theorem Uncommented.below {t : Node} (h : Uncommented t) : ∀ c ∈ t.slots.toList, Uncommented c := by
  cases h with
  | mk _ below => exact below

/-- A template begins with a backtick. -/
theorem severed_template {A : Alphabet} {q : Node} (htag : q.head.tag? = some .templateLiteral)
    (hq : Uncommented q) (o : Options) :
    Severed A (printed o q (.expression .primary false)) := by
  obtain ⟨after, hafter, hsame⟩ := printed_held o q .primary false
  have hparen : inParens q.head .primary false = false := by
    simp [inParens, Precedence.ofHead, htag, Precedence.looser]
  have hf : q.head.family = .expression := family_of_tag htag
  rw [hq.comments] at hsame
  refine Severed.of_same (.append (.inl (writes_comments_nil .before)) ?_) hsame
  rw [hparen, parenIf, if_neg Bool.false_ne_true, innerBefore, hq.comments, heldText_expression hf,
    expressionText, htag]
  refine Severed.append (.append (.inl ?_) (severed_text (w := "`") rfl _))
    (.inl (hafter hq.comments))
  split <;> exact writes_comments_nil _

/-- **An expression is written from its operand on the left on.** -/
theorem heldText_leftOperand {t u : Node} {least : Precedence} {forced : Bool}
    (hleft : leftOperand? t.head t.slots = some (u, least, forced)) (o : Options) :
    ∃ more, heldText o t = printed o u (.expression least forced) ++ more ∧
      ∀ A, Uncommented t → joinsWell t.head t.slots = true → Severed A more := by
  have hoperators : ∀ operator ∈ binaryOperators ++ logicalOperators ++ assignmentOperators,
      operator.toList.head?.any (· != 'f') = true := by decide
  have hinfixed (operator : String) (r : Script) (A : Alphabet)
      (hknown : (binaryOperators ++ logicalOperators ++ assignmentOperators).contains operator
        = true) : Severed A (space ++ (text operator ++ (space ++ r))) := by
    refine .inr ⟨' ' :: operator.toList, ⟨space ++ text operator, space ++ r, .of_eq (by simp),
      writes_space.append (writes_text operator)⟩, ?_⟩
    have := hoperators operator (List.contains_iff_mem.mp hknown)
    simpa [severs] using ⟨rfl, this⟩
  have hf := family_of_leftOperand? hleft
  have hchild {f : Field} {v : Node} (hv : t.slots.child? f = some v) :
      (Tree.annotateSlots (printedRule o) t.slots).child f = v.annotate (printedRule o) :=
    Slots.child_annotateSlots _ hv
  rw [heldText_expression hf]
  unfold leftOperand? at hleft
  unfold joinsWell
  split at hleft
  case h_11 => cases hleft
  case h_8 htag =>
    obtain ⟨v, hv, heq⟩ := Option.map_eq_some_iff.mp hleft
    cases heq
    unfold expressionText
    rw [htag]
    dsimp only
    rw [Slots.children_annotateSlots]
    cases hts : t.slots.children .expressions with
    | nil => rw [hts] at hv; cases hv
    | cons v' ts =>
      rw [hts] at hv
      cases hv
      cases ts with
      | nil =>
        refine ⟨[], ?_, fun _ _ _ => .inl writes_nil⟩
        simp [expressions, commas, Script.separated, List.intercalate, expression]
        rfl
      | cons v' ts =>
        rw [expressions, List.map_cons, List.map_cons, List.map_cons, List.map_cons,
          Expression.commas_cons_cons, List.append_assoc]
        exact ⟨_, rfl, fun _ _ _ => severed_text (w := ", ") rfl _⟩
  case h_10 htag =>
    split at hleft
    · cases hleft
    · next hfirst =>
      obtain ⟨v, hv, heq⟩ := Option.map_eq_some_iff.mp hleft
      cases heq
      unfold expressionText
      rw [htag]
      dsimp only
      rw [if_neg hfirst, hchild hv]
      refine ⟨_, rfl, fun A _ hknown => ?_⟩
      have hsevers : ∀ operator ∈ updateOperators, severs A operator.toList = true :=
        List.forall_mem_cons.mpr ⟨rfl, List.forall_mem_singleton.mpr rfl⟩
      exact .inr ⟨_, ⟨_, [], .of_eq (List.append_nil _).symm, writes_text _⟩,
        hsevers _ (List.contains_iff_mem.mp hknown)⟩
  all_goals
    rename_i htag
    obtain ⟨v, hv, heq⟩ := Option.map_eq_some_iff.mp hleft
    cases heq
    unfold expressionText
    rw [htag]
    dsimp only
    rw [hchild hv]
    simp only [infixed, operand, Tree.head_annotate, List.append_assoc]
    refine ⟨_, rfl, fun A ht hjoins => ?_⟩
  case h_1.refl | h_2.refl | h_3.refl => exact hinfixed _ _ A hjoins
  case h_4.refl => exact severed_text (w := " ? ") rfl _
  case h_5.refl => exact (severed_angledOf _ _).append (severed_argumentsText _ _)
  case h_6.refl =>
    split
    · exact severed_text (w := "[") rfl _
    · exact severed_text (w := ".") rfl _
  case h_7.refl =>
    refine (severed_angledOf _ _).append ?_
    obtain ⟨q, hq, htemplate⟩ := (Option.any_eq_true _ _).mp hjoins
    rw [hchild hq]
    exact severed_template (eq_of_beq htemplate) (ht.below q (Slots.child?_mem hq)) o
  case h_9.refl => exact severed_text (w := " as ") rfl _

/-! ### Where the text of a node begins -/

/-- Where a text begins: with a parenthesis that the printer puts around a node, or with the text of
a node. -/
inductive Opening where
  | paren (t : Node)
  | node (t : Node)

namespace Opening

/-- The node that begins there. -/
def tree : Opening → Node
  | paren t | node t => t

/-- The node whose text comes first, none if a parenthesis does. -/
def head? : Opening → Option Head
  | paren _ => none
  | node t => some t.head

/-- What is written from there on. -/
def script (o : Options) : Opening → Script
  | paren t => between "(" ")" (comments .before (innerBefore t.head) ++ heldText o t)
  | node t => heldText o t

end Opening

/-- **Where the text of a node begins** at a place, and the comments that stand before. -/
inductive OpensAt : Node → Precedence → Bool → List Comment → Opening → Prop where
  | paren {t : Node} {least : Precedence} {forced : Bool}
      (hparen : inParens t.head least forced = true) :
    OpensAt t least forced t.head.comments.leading (.paren t)
  | here {t : Node} {least : Precedence} {forced : Bool}
      (hparen : inParens t.head least forced = false)
      (hleft : leftOperand? t.head t.slots = none) :
    OpensAt t least forced (t.head.comments.leading ++ innerBefore t.head) (.node t)
  | left {t u : Node} {least least' : Precedence} {forced forced' : Bool} {cs : List Comment}
      {opening : Opening} (hparen : inParens t.head least forced = false)
      (hleft : leftOperand? t.head t.slots = some (u, least', forced'))
      (below : OpensAt u least' forced' cs opening) :
    OpensAt t least forced (t.head.comments.leading ++ innerBefore t.head ++ cs) opening

theorem exists_opensAt (t : Node) (least : Precedence) (forced : Bool) :
    ∃ cs opening, OpensAt t least forced cs opening := by
  induction t using Tree.induct generalizing least forced with
  | step n h s ih =>
    cases hparen : inParens h least forced with
    | true => exact ⟨_, _, .paren hparen⟩
    | false =>
      cases hleft : leftOperand? h s with
      | none => exact ⟨_, _, .here hparen hleft⟩
      | some p =>
        obtain ⟨u, least', forced'⟩ := p
        obtain ⟨cs, opening, below⟩ := ih u (leftOperand?_mem hleft) least' forced'
        exact ⟨_, _, .left hparen hleft below⟩

theorem start_eq (t : Node) (least : Precedence) :
    Start.ofTree t least =
      if (Precedence.ofHead t.head).looser least then none else
        match leftOperand? t.head t.slots with
        | none => some t.head
        | some (operand, least, forced) => if forced then none else Start.ofTree operand least := by
  obtain ⟨n, h, s⟩ := t
  show Start.rule h (Tree.annotateSlots Start.rule s) least = _
  unfold Start.rule
  rw [leftOperand?_annotateSlots]
  simp only [Tree.head_mk, Tree.slots_mk]
  cases leftOperand? h s <;> rfl

namespace OpensAt

variable {t : Node} {least : Precedence} {forced : Bool} {cs : List Comment} {opening : Opening}

/-- **A text begins where the start of its node says.** -/
theorem start_eq (h : OpensAt t least forced cs opening) :
    (if forced then none else Start.ofTree t least) = opening.head? := by
  induction h with
  | @paren t least forced hparen =>
    cases forced with
    | true => rfl
    | false =>
      have hlooser : (Precedence.ofHead t.head).looser least = true := hparen
      rw [Print.start_eq, hlooser]
      rfl
  | @here t least forced hparen hleft =>
    obtain ⟨rfl, hlooser⟩ := Bool.or_eq_false_iff.mp hparen
    rw [Print.start_eq, hlooser, hleft]
    rfl
  | @left t u least least' forced forced' cs opening hparen hleft below ih =>
    obtain ⟨rfl, hlooser⟩ := Bool.or_eq_false_iff.mp hparen
    rw [← ih, Print.start_eq t, hlooser, hleft]
    rfl

/-- **The printer begins where the text of a node begins.** Without comments, what follows a node
that is well formed at its beginning does not go on with a name. -/
theorem same (h : OpensAt t least forced cs opening) (o : Options) :
    ∃ more, Same (printed o t (.expression least forced))
        (comments .before cs ++ (opening.script o ++ more)) ∧
      ∀ A, Uncommented t → opensWell A t = true → Severed A more := by
  induction h with
  | @paren t least forced hparen =>
    obtain ⟨after, hafter, hsame⟩ := printed_held o t least forced
    rw [hparen] at hsame
    exact ⟨after, hsame, fun A ht _ => .inl (hafter ht.comments)⟩
  | @here t least forced hparen hleft =>
    obtain ⟨after, hafter, hsame⟩ := printed_held o t least forced
    rw [hparen] at hsame
    refine ⟨after, hsame.trans ?_, fun A ht _ => .inl (hafter ht.comments)⟩
    have hjoin := same_comments_append t.head.comments.leading (innerBefore t.head)
    have := hjoin.append (.refl (heldText o t ++ after))
    simpa [parenIf, Opening.script] using this
  | @left t u least least' forced forced' cs opening hparen hleft below ih =>
    obtain ⟨after, hafter, hsame⟩ := printed_held o t least forced
    obtain ⟨more, hbelow, hmore⟩ := ih
    obtain ⟨rest, hrest, hsevered⟩ := heldText_leftOperand hleft o
    rw [hparen, parenIf, if_neg Bool.false_ne_true, hrest] at hsame
    refine ⟨more ++ (rest ++ after), hsame.trans ?_, fun A ht hwell => ?_⟩
    · have hjoin := (same_comments_append t.head.comments.leading (innerBefore t.head)).append
        (.refl (comments .before cs))
      have hjoin := hjoin.trans (same_comments_append _ cs)
      have hall := ((Same.refl (comments .before t.head.comments.leading
        ++ comments .before (innerBefore t.head))).append hbelow).append (.refl (rest ++ after))
      have := hjoin.append (.refl (opening.script o ++ (more ++ (rest ++ after))))
      simp only [List.append_assoc] at hall this ⊢
      exact hall.trans this
    · rw [opensWell_eq, hleft, Bool.and_eq_true] at hwell
      have hu : Uncommented u := ht.below u (leftOperand?_mem hleft)
      exact (hmore A hu hwell.2).append
        ((hsevered A ht hwell.1).append (.inl (hafter ht.comments)))

end OpensAt

end Typeshift.Print
