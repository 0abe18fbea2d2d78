import Mathlib.Logic.Relation
import Typeshift.Proofs.Expression.RoundTrip
import Typeshift.Proofs.Print.FirstWord
import Typeshift.Tree.Target

/-! # How statements made of expressions begin

A statement that begins with `{`, `function`, `class` or `@` is a block or a declaration, and an
arrow function whose body begins with `{` has a block there. The printer asks the start of an
expression before it writes one at these places, and the start is that of the text.

* `exists_output`: what a script with known first characters adds to a page.
* `MayBegin`: how a statement made of an expression may begin. `FirstText.mayBegin`: all nodes begin
  so but objects, functions and classes.
* `begins_ofTree`: an expression begins with the node that its start names.
  `start_predicts`: so no statement is taken for a block or a declaration. -/

namespace Typeshift.Print

open Script Expression

/-! ### What a script adds to a page -/

section Output

variable {A : Alphabet} {before after : Script} {cs ds es : List Char}

theorem output_add (t : Sheet) (hne : cs ≠ []) :
    (t.add cs).page.output.toList = t.page.beginLine.output.toList ++ cs ∧
      (t.add cs).page.atLineStart = false := by
  obtain ⟨c, cs, rfl⟩ := List.exists_cons_of_ne_nil hne
  have hbegun : t.page.beginLine.atLineStart = false := by
    unfold Page.beginLine
    split <;> simp_all
  simp [Sheet.add, Page.write, Page.append, hbegun]

/-- A line is ended at most once. -/
theorem exists_output_line (t : Sheet) : ∃ l ∈ [[], ['\n']],
    (Script.run t line).page.output.toList = t.page.output.toList ++ l := by
  show ∃ l ∈ [[], ['\n']], t.page.endLine.output.toList = _
  unfold Page.endLine
  split
  · exact ⟨[], by decide, (List.append_nil _).symm⟩
  · exact ⟨['\n'], by decide, String.toList_append⟩

theorem severs_append (h : severs A ds = true) (es : List Char) : severs A (ds ++ es) = true := by
  cases ds with
  | nil => cases h
  | cons d ds =>
    simp only [severs, Bool.and_eq_true, Bool.or_eq_true, List.cons_append] at h ⊢
    refine ⟨h.1, h.2.imp_right fun hd => ?_⟩
    cases ds with
    | nil => cases hd
    | cons d ds => exact hd

theorem Ends.append_line (h : Ends A ds) {line : List Char} (hline : line ∈ [[], ['\n']]) :
    Ends A (ds ++ line) := by
  rcases h with rfl | h
  · simp only [List.mem_cons, List.not_mem_nil, or_false] at hline
    rcases hline with rfl | rfl
    · exact .inl rfl
    · exact .inr rfl
  · exact .inr (severs_append h line)

/-- What a script adds to a page if its first characters are known. A name among them ends there if
the rest of the script does not go on with it. -/
theorem exists_output (hwrites : Writes before cs) (hne : cs ≠ []) (after : Script) (t : Sheet) :
    ∃ ds, (Script.run t (before ++ after)).page.output.toList =
        t.page.beginLine.output.toList ++ (cs ++ ds) ∧ (Severed A after → Ends A ds) := by
  obtain ⟨hadd, hline⟩ := output_add t hne
  obtain ⟨ds, hds⟩ := Script.grows_run (t.add cs) after
  refine ⟨ds, ?_, ?_⟩
  · rw [run_append, hwrites t, ← hds, hadd, List.append_assoc]
  · rintro (hafter | ⟨es, hleads, hes⟩)
    · left
      rw [hafter, Sheet.add_nil] at hds
      exact List.append_right_eq_self.mp hds
    · obtain ⟨es', hes'⟩ := hleads.exists_output hline
      rw [hes', List.append_cancel_left_eq] at hds
      exact .inr (hds ▸ severs_append hes es')

end Output

/-! ### The beginnings of statements -/

/-- **How a statement made of an expression may begin**: not as a block, a function or a class
does. -/
def MayBegin (A : Alphabet) (cs : List Char) : Prop :=
  cs.head? ≠ some '\x7b' ∧ cs.head? ≠ some '@' ∧ ∀ word ∈ declarationStarts, ¬ BeginsWith A cs word

section FirstText

variable {A : Alphabet} {v : Node} {cs ds : List Char} {after : Script}

theorem exists_head?_name {x : String} (hx : A.isName x = true) (ds : List Char) :
    ∃ c, (x.toList ++ ds).head? = some c ∧ A.starts c = true := by
  obtain ⟨c, hc, hstart⟩ := (Option.any_eq_true _ _).mp (Bool.and_eq_true_iff.mp hx).1
  exact ⟨c, by rw [List.head?_append, hc]; rfl, hstart⟩

theorem FirstText.ne_nil (h : FirstText A v cs after) : cs ≠ [] := by
  cases h with
  | name _ hx _ _ =>
    intro hnil
    rw [Alphabet.isName, hnil] at hx
    cases hx
  | plain _ h =>
    rintro rfl
    cases h
  | function _ _ _ => simp
  | object _ | bareClass _ _ _ | decorated _ _ => exact List.cons_ne_nil _ _

theorem mayBegin_of_isPlain (h : isPlain cs = true) (ds : List Char) : MayBegin A (cs ++ ds) := by
  obtain ⟨hopens, -⟩ := Bool.and_eq_true_iff.mp h
  have hhead := (Bool.and_eq_true_iff.mp hopens).2
  cases cs with
  | nil => cases h
  | cons c cs =>
    simp only [List.head?_cons, Option.any_some, List.contains_cons, List.contains_nil,
      Bool.or_false, Bool.not_eq_true', Bool.or_eq_false_iff, beq_eq_false_iff_ne] at hhead
    refine ⟨?_, ?_, fun word hword => not_beginsWith_of_isPlain h ds hword⟩
    · simpa using hhead.1
    · simpa using hhead.2

/-- **All nodes but objects, functions and classes** begin as statements may. -/
theorem FirstText.mayBegin (h : FirstText A v cs after)
    (hv : v.head.isAny [.objectExpression, .objectPattern, .functionExpression, .classExpression]
      = false)
    (hds : Severed A after → Ends A ds) : MayBegin A (cs ++ ds) := by
  have hne (tag : Tag) (htag : tag ∈ [Tag.objectExpression, .objectPattern, .functionExpression,
      .classExpression]) : v.head.tag? ≠ some tag := by
    intro heq
    have := List.any_eq_false.mp hv tag htag
    simp [Head.is, heq] at this
  cases h with
  | @name x after _ hx hword hafter =>
    refine ⟨?_, ?_, fun word hmem => not_beginsWith_name hx hword (hds hafter) hmem⟩
    all_goals
      obtain ⟨c, hc, hstart⟩ := exists_head?_name hx ds
      rw [hc]
      rintro ⟨⟩
      cases hstart
  | plain _ h => exact mayBegin_of_isPlain h ds
  | object h =>
    obtain ⟨tag, htag, his⟩ := List.any_eq_true.mp h
    exact absurd (eq_of_beq his) (hne tag (List.mem_append_left
      [Tag.functionExpression, .classExpression] htag))
  | function h _ _ => exact absurd h (hne _ (by decide))
  | bareClass h _ _ | decorated h _ => exact absurd h (hne _ (by decide))

/-- All nodes but objects begin as bodies of arrow functions may. -/
theorem FirstText.head?_ne (h : FirstText A v cs after)
    (hv : v.head.isAny [.objectExpression, .objectPattern] = false) :
    (cs ++ ds).head? ≠ some '\x7b' := by
  cases h with
  | name _ hx _ _ =>
    obtain ⟨c, hc, hstart⟩ := exists_head?_name hx ds
    rw [hc]
    rintro ⟨⟩
    cases hstart
  | plain _ h => exact (mayBegin_of_isPlain (A := A) h ds).1
  | object h =>
    rw [h] at hv
    cases hv
  | function _ hword _ =>
    simp only [List.mem_cons, List.not_mem_nil, or_false] at hword
    rcases hword with rfl | rfl <;> rintro ⟨⟩
  | bareClass _ _ _ | decorated _ _ => rintro ⟨⟩

end FirstText

/-! ### The start of an expression -/

/-- **A node lies at the left of another**: it is the other, or lies at the left of its operand
there. -/
def Leftmost : Node → Node → Prop :=
  Relation.ReflTransGen fun t u =>
    ∃ least forced, leftOperand? t.head t.slots = some (u, least, forced)

/-- A script begins by doing what another does. -/
def Begins (s s' : Script) : Prop := ∃ more, Same s (s' ++ more)

section Start

variable {A : Alphabet} {t v : Node} {least : Precedence} {forced : Bool} {cs : List Comment}
  {opening : Opening} {o : Options}

theorem Leftmost.uncommented (h : Leftmost t v) (ht : Uncommented t) : Uncommented v := by
  induction h with
  | refl => exact ht
  | tail _ hleft ih =>
    obtain ⟨_, _, hleft⟩ := hleft
    exact ih.below _ (leftOperand?_mem hleft)

theorem OpensAt.leftmost (h : OpensAt t least forced cs opening) : Leftmost t opening.tree := by
  induction h with
  | paren _ => exact .refl
  | here _ _ => exact .refl
  | left _ hleft _ ih => exact .head ⟨_, _, hleft⟩ ih

/-- **An expression begins as its start says**: with a parenthesis around a node at its left, or
with the text of the node that the start names. -/
theorem begins_ofTree (ht : Uncommented t) (least : Precedence) (o : Options) :
    ∃ v, Leftmost t v ∧
      match Start.ofTree t least with
      | none => Begins (printed o t (.expression least false)) (between "(" ")" (heldText o v))
      | some h => v.head = h ∧ Begins (printed o t (.expression least false)) (heldText o v) := by
  obtain ⟨cs, opening, h⟩ := exists_opensAt t least false
  obtain ⟨more, hsame, -⟩ := h.same o
  obtain ⟨rfl, -⟩ := h.comments_eq_nil ht
  have hsilent (s : Script) : Same (comments .before [] ++ s) s :=
    (Same.of_silent (writes_comments_nil .before)).append (.refl s)
  have hstart : Start.ofTree t least = opening.head? := h.start_eq
  refine ⟨opening.tree, h.leftmost, ?_⟩
  rw [hstart]
  cases opening with
  | node v => exact ⟨rfl, more, hsame.trans (hsilent _)⟩
  | paren v =>
    have hv : Uncommented v := h.leftmost.uncommented ht
    have hinner : innerBefore v.head = [] := by simp [innerBefore, hv.comments, Comments.none]
    rw [Opening.script, hinner] at hsame
    have hparen := ((Same.refl (text "(")).append (hsilent (heldText o v))).append
      (.refl (text ")" ++ more))
    refine ⟨more, hsame.trans ((hsilent _).trans ?_)⟩
    simpa [between, Opening.tree] using hparen

end Start

/-! ### Statements and bodies of arrow functions -/

section Statements

variable {A : Alphabet} {t v : Node} {least : Precedence} {forced : Bool} {cs : List Comment}
  {opening : Opening} {o : Options}

theorem severed_semicolon (o : Options) : Severed A (semicolon o) := by
  unfold semicolon
  cases o.semicolons with
  | true => exact severed_text (w := ";") rfl []
  | false => exact .inl writes_nil

theorem FirstText.append {ds : List Char} {after more : Script} (h : FirstText A v ds after)
    (hmore : Severed A more) : FirstText A v ds (after ++ more) := by
  cases h with
  | name hv hx hne hafter => exact .name hv hx hne (hafter.append hmore)
  | plain hv h => exact .plain hv h
  | object h => exact .object h
  | function h hword hc => exact .function h hword hc
  | bareClass h hbare hc => exact .bareClass h hbare hc
  | decorated h hdecorators => exact .decorated h hdecorators

/-- What stands after an expression does not matter for its first characters, unless it goes on with
a name. -/
theorem OpensAt.exists_text (h : OpensAt t least forced cs opening) (ht : Uncommented t)
    (hwell : opensWell A t = true) (o : Options) {rest : Script} (hrest : Severed A rest) :
    ∃ before ds after, Same (printed o t (.expression least forced) ++ rest) (before ++ after) ∧
      Writes before ds ∧ ds ≠ [] ∧ opening.Text A ds after := by
  obtain ⟨before, ds, after, more, hsame, hwrites, hfirst, hmore⟩ := h.begins hwell o
  obtain ⟨hcs, hown⟩ := h.comments_eq_nil ht
  rw [hcs, hown] at hsame
  have hsilent : Same (comments .before [] ++ (before ++ (after ++ more)))
      (before ++ (after ++ more)) :=
    (Same.of_silent (writes_comments_nil .before)).append (.refl _)
  have hscript := (hsame.trans hsilent).append (.refl rest)
  simp only [List.append_assoc] at hscript
  refine ⟨before, ds, after ++ (more ++ rest), hscript, hwrites, ?_⟩
  cases opening with
  | paren u => exact ⟨hfirst ▸ List.cons_ne_nil _ _, hfirst⟩
  | node v =>
    have hfirst : FirstText A v ds after := hfirst
    exact ⟨hfirst.ne_nil, hfirst.append ((hmore ht).append hrest)⟩

/-- A script puts a text on a page that a statement may begin with, also if the line ends after
it. -/
def PutsStatement (A : Alphabet) (s : Script) : Prop :=
  ∀ sheet : Sheet, ∃ cs, (Script.run sheet s).page.output.toList =
      sheet.page.beginLine.output.toList ++ cs ∧
    ∀ line ∈ [[], ['\n']], MayBegin A (cs ++ line)

theorem putsStatement_of_isPlain {s before after : Script} {ds : List Char}
    (hs : Same s (before ++ after)) (hwrites : Writes before ds) (hplain : isPlain ds = true) :
    PutsStatement A s := by
  intro sheet
  have hne : ds ≠ [] := by
    rintro rfl
    cases hplain
  obtain ⟨es, hes, -⟩ := exists_output (A := A) hwrites hne after sheet
  refine ⟨_, by rw [hs sheet, hes], fun line _ => ?_⟩
  rw [List.append_assoc]
  exact mayBegin_of_isPlain hplain _

/-- An expression that does not begin with an object, a function or a class. -/
theorem OpensAt.putsStatement (h : OpensAt t least forced cs opening) (ht : Uncommented t)
    (hwell : opensWell A t = true) (o : Options) {rest : Script} (hrest : Severed A rest)
    (hopening : ∀ v, opening = .node v → v.head.isAny [.objectExpression, .objectPattern,
      .functionExpression, .classExpression] = false) :
    PutsStatement A (printed o t (.expression least forced) ++ rest) := by
  obtain ⟨before, ds, after, hsame, hwrites, hne, hfirst⟩ := h.exists_text ht hwell o hrest
  cases opening with
  | paren u =>
    obtain rfl : ds = ['('] := hfirst
    exact putsStatement_of_isPlain hsame hwrites (by decide)
  | node v =>
    have hfirst : FirstText A v ds after := hfirst
    intro sheet
    obtain ⟨es, hes, hends⟩ := exists_output (A := A) hwrites hne after sheet
    refine ⟨_, by rw [hsame sheet, hes], fun line hline => ?_⟩
    rw [List.append_assoc]
    exact hfirst.mayBegin (hopening v rfl) fun hafter => (hends hafter).append_line hline

theorem needsStatementParens_annotate {ρ σ : Type} (rule : Head → Slots σ → σ) (t : Tree ρ) :
    needsStatementParens (t.annotate rule) = needsStatementParens t := by
  unfold needsStatementParens Start.ofTree
  rw [Tree.synthesize_annotate]

/-- **An expression as a statement** begins neither as a block nor as a declaration. -/
theorem putsStatement_expressionStatementText (ht : Uncommented t) (hwell : opensWell A t = true)
    (o : Options) :
    PutsStatement A (expressionStatementText o (t.annotate (printedRule o))) := by
  unfold expressionStatementText
  rw [needsStatementParens_annotate, List.append_assoc]
  cases !o.semicolons && continuesLine (t.annotate (printedRule o)) with
  | true => exact putsStatement_of_isPlain (.refl _) (writes_text ";") (by decide)
  | false =>
    rw [when, if_neg Bool.false_ne_true, List.nil_append, parenIf]
    split
    · rw [between, List.append_assoc, List.append_assoc]
      exact putsStatement_of_isPlain (.refl _) (writes_text "(") (by decide)
    · next hparens =>
      obtain ⟨cs, opening, h⟩ := exists_opensAt t .comma false
      refine h.putsStatement ht hwell o (severed_semicolon o) fun v hv => ?_
      have hstart : Start.ofTree t .comma = some v.head := by
        rw [hv] at h
        exact h.start_eq
      rw [needsStatementParens, hstart] at hparens
      simpa using hparens

/-- What a statement writes before its text: its comments, on lines of their own. -/
def statementLead (h : Head) : Script :=
  line ++ comments .lines h.comments.leading
    ++ when (!h.isAny [.blockStatement, .tsModuleBlock]) (comments .lines h.comments.inner)

/-- A statement is written as its text on lines of its own. -/
theorem exists_printed_statement {s : Node} (hf : s.head.family = .statement) (o : Options) :
    ∃ pending after, printed o s .statement = statementLead s.head ++
        (statementText o s.head (Tree.annotateSlots (printedRule o) s.slots) pending ++
          (after ++ line)) ∧
      (s.head.comments = .none → pending = .none ∧ Writes after []) := by
  obtain ⟨n, h, s⟩ := s
  have hf : h.family = .statement := hf
  have hown : ownText o (.mk (fun _ => []) h (Tree.annotateSlots (printedRule o) s)) =
      statementText o h (Tree.annotateSlots (printedRule o) s) := by
    funext pending
    rw [ownText, Tree.head_mk, hf]
    rfl
  refine ⟨{ h.comments with
    leading := []
    inner := if h.isAny [.blockStatement, .tsModuleBlock] then h.comments.inner else [] },
    comments .afterLine h.comments.trailing, ?_, ?_⟩
  · show statementFrame h h.comments (content o _ [.statement]) = _
    simp only [statementFrame, statementLead, content, Tree.head_mk, hf, List.contains_cons,
      beq_self_eq_true, Bool.true_or, if_true, hown, List.append_assoc]
    rfl
  · intro hc
    have hc : h.comments = .none := hc
    rw [hc]
    refine ⟨?_, writes_comments_nil _⟩
    cases h.isAny [.blockStatement, .tsModuleBlock] <;> rfl

/-- A statement without comments stands on lines of its own. -/
theorem same_statement {s : Node} (hf : s.head.family = .statement)
    (hc : s.head.comments = .none) (o : Options) :
    Same (printed o s .statement)
      (line ++
        (statementText o s.head (Tree.annotateSlots (printedRule o) s.slots) .none ++ line)) := by
  obtain ⟨pending, after, hprinted, hsilent⟩ := exists_printed_statement hf o
  obtain ⟨rfl, hafter⟩ := hsilent hc
  have hlines : Same (comments .lines []) [] := .of_silent (writes_comments_nil .lines)
  have hlead : Same (statementLead s.head) line := by
    rw [statementLead, hc]
    cases !s.head.isAny [.blockStatement, .tsModuleBlock] with
    | true => exact (((Same.refl line).append hlines).append hlines).trans (.of_eq (by simp))
    | false =>
      exact (((Same.refl line).append hlines).append (.refl _)).trans (.of_eq (by simp [when]))
  rw [hprinted]
  exact hlead.append ((Same.refl _).append ((Same.of_silent hafter).append (.refl line)))

/-- What an arrow function writes before its body. -/
def arrowHead (o : Options) (s : Node) : Script :=
  flagged s.head .isAsync "async " ++ signature (Tree.annotateSlots (printedRule o) s.slots)
    ++ text " => "

theorem heldText_arrow {s : Node} (htag : s.head.tag? = some .arrowFunctionExpression)
    (hbody : s.slots.child? .body = some t) (o : Options) :
    heldText o s = arrowHead o s ++ arrowBody (t.annotate (printedRule o)) := by
  obtain ⟨pending, hheld⟩ := heldText_tag htag rfl o
  rw [hheld, expressionText, htag]
  dsimp only
  rw [Slots.child_annotateSlots _ hbody]
  rfl

theorem startsObject_annotate {ρ σ : Type} (rule : Head → Slots σ → σ) (t : Tree ρ) :
    startsObject (t.annotate rule) = startsObject t := by
  unfold startsObject Start.ofTree
  rw [Tree.synthesize_annotate]

theorem family_of_opensWell (h : opensWell A t = true) : t.head.family = .expression := by
  rw [opensWell_eq] at h
  cases hleft : leftOperand? t.head t.slots with
  | some p => exact family_of_leftOperand? hleft
  | none =>
    rw [hleft] at h
    dsimp only at h
    unfold spelledWell at h
    split at h
    all_goals try cases h
    all_goals
      rename_i htag
      exact family_of_tag htag

/-- **The body of an arrow function** that is an expression does not begin as a block does. -/
theorem exists_output_arrowBody (ht : Uncommented t) (hwell : opensWell A t = true) (o : Options)
    (sheet : Sheet) : ∃ cs,
      (Script.run sheet (arrowBody (t.annotate (printedRule o)))).page.output.toList =
        sheet.page.beginLine.output.toList ++ cs ∧ cs.head? ≠ some '\x7b' := by
  have hblock : t.head.is .blockStatement = false := by
    rw [Bool.eq_false_iff]
    intro his
    have hf := family_of_opensWell hwell
    rw [family_of_tag (eq_of_beq his)] at hf
    cases hf
  unfold arrowBody
  rw [Tree.head_annotate, hblock, if_neg Bool.false_ne_true, startsObject_annotate]
  obtain ⟨cs, opening, h⟩ := exists_opensAt t .assignment (startsObject t)
  obtain ⟨before, ds, after, hsame, hwrites, hne, hfirst⟩ :=
    h.exists_text ht hwell o (.inl writes_nil)
  rw [List.append_nil] at hsame
  obtain ⟨es, hes, hends⟩ := exists_output (A := A) hwrites hne after sheet
  refine ⟨ds ++ es, (congrArg (·.page.output.toList) (hsame sheet)).trans hes, ?_⟩
  cases opening with
  | paren u =>
    obtain rfl : ds = ['('] := hfirst
    rintro ⟨⟩
  | node v =>
    have hstart : (if startsObject t then none else Start.ofTree t .assignment) = some v.head :=
      h.start_eq
    refine hfirst.head?_ne ?_
    cases hobject : startsObject t with
    | true =>
      rw [hobject] at hstart
      cases hstart
    | false =>
      rw [hobject, if_neg Bool.false_ne_true] at hstart
      rwa [startsObject, hstart] at hobject

theorem exists_output_statement {s : Node} (ht : Uncommented t) (hwell : opensWell A t = true)
    (htag : s.head.tag? = some .expressionStatement) (hc : s.head.comments = .none)
    (hs : s.slots.child? .expression = some t) (o : Options) (sheet : Sheet) : ∃ cs,
      (Script.run sheet (printed o s .statement)).page.output.toList =
        sheet.page.endLine.beginLine.output.toList ++ cs ∧ MayBegin A cs := by
  have hf : s.head.family = .statement := family_of_tag htag
  have htext : statementText o s.head (Tree.annotateSlots (printedRule o) s.slots) .none =
      expressionStatementText o (t.annotate (printedRule o)) := by
    rw [statementText, htag]
    dsimp only
    rw [Slots.child_annotateSlots _ hs]
  have hsame := same_statement hf hc o
  rw [htext] at hsame
  obtain ⟨cs, hcs, hmay⟩ := putsStatement_expressionStatementText ht hwell o (Script.run sheet line)
  obtain ⟨l, hl, hend⟩ := exists_output_line (Script.run (Script.run sheet line)
    (expressionStatementText o (t.annotate (printedRule o))))
  refine ⟨cs ++ l, ?_, hmay l hl⟩
  rw [hsame sheet, run_append, run_append, hend, hcs, List.append_assoc]
  rfl

theorem exists_output_arrow {s : Node} (ht : Uncommented t) (hwell : opensWell A t = true)
    (htag : s.head.tag? = some .arrowFunctionExpression) (hs : s.slots.child? .body = some t)
    (o : Options) (sheet : Sheet) : ∃ cs, (Script.run sheet (heldText o s)).page.output.toList =
      (Script.run sheet (arrowHead o s)).page.output.toList ++ cs ∧ cs.head? ≠ some '\x7b' := by
  obtain ⟨cs, hcs, hne⟩ := exists_output_arrowBody ht hwell o (Script.run sheet (arrowHead o s))
  refine ⟨cs, ?_, hne⟩
  have hbegun : (Script.run sheet (arrowHead o s)).page.atLineStart = false := by
    rw [arrowHead, run_append, writes_text " => "]
    exact (output_add _ (by decide)).2
  rw [heldText_arrow htag hs, run_append, hcs, Page.beginLine, hbegun, if_neg Bool.false_ne_true]

/-- **The start of an expression predicts its text.** An expression begins as its start says; and so
no statement made of one that is well formed at its beginning is taken for a block or a declaration,
and no body of an arrow function for a block. -/
theorem start_predicts (ht : Uncommented t) (A : Alphabet) (o : Options) :
    (∀ least, ∃ v, Leftmost t v ∧
      match Start.ofTree t least with
      | none => Begins (printed o t (.expression least false)) (between "(" ")" (heldText o v))
      | some h => v.head = h ∧ Begins (printed o t (.expression least false)) (heldText o v)) ∧
    (opensWell A t = true →
      (∀ s : Node, s.head.tag? = some .expressionStatement → s.head.comments = .none →
        s.slots.child? .expression = some t → ∀ sheet : Sheet, ∃ cs,
          (Script.run sheet (printed o s .statement)).page.output.toList =
            sheet.page.endLine.beginLine.output.toList ++ cs ∧ MayBegin A cs) ∧
      ∀ s : Node, s.head.tag? = some .arrowFunctionExpression → s.slots.child? .body = some t →
        ∀ sheet : Sheet, ∃ cs, (Script.run sheet (heldText o s)).page.output.toList =
          (Script.run sheet (arrowHead o s)).page.output.toList ++ cs ∧
            cs.head? ≠ some '\x7b') :=
  ⟨fun least => begins_ofTree ht least o, fun hwell =>
    ⟨fun _ htag hc hs sheet => exists_output_statement ht hwell htag hc hs o sheet,
      fun _ htag hs sheet => exists_output_arrow ht hwell htag hs o sheet⟩⟩

end Statements

/-- A function without a name, parameters and statements. -/
def emptyFunction : Node :=
  .of .functionExpression [(.isGenerator, .flag false), (.isAsync, .flag false)]
    [(.id, .maybe none), (.params, .many []), (.body, .one (Target.block []))]

/-- A member of what a function gives. -/
def memberOfCall : Node :=
  Target.member (Target.call emptyFunction [] none) (Target.ident "a") false

theorem start_predicts_memberOfCall :
    Uncommented memberOfCall ∧ opensWell asciiNames memberOfCall = true ∧
      (∃ v, Leftmost memberOfCall v ∧ v.head = emptyFunction.head ∧
        Begins (printed .standard memberOfCall (.expression .comma false))
          (heldText .standard v)) ∧
      ∃ cs, (Script.run (Printer.new .standard).sheet (printed .standard
          (Target.statement memberOfCall) .statement)).page.output.toList = cs ∧
        MayBegin asciiNames cs := by
  have ht : Uncommented memberOfCall := by
    unfold Uncommented
    decide
  have hwell : opensWell asciiNames memberOfCall = true := by decide
  obtain ⟨hbegins, hstatement⟩ := start_predicts ht asciiNames .standard
  exact ⟨ht, hwell, hbegins .comma,
    (hstatement hwell).1 (Target.statement memberOfCall) rfl rfl rfl (Printer.new .standard).sheet⟩

example : printText .standard (Target.statement memberOfCall) =
    .ok "(function() \x7b\x7d().a);\n" := by rfl

end Typeshift.Print
