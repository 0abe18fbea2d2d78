import Typeshift.Proofs.Print.StatementStart
import Typeshift.Proofs.StringLiteral

/-! # The arguments of `return` and `throw`

After `return` and `throw` the argument must begin on the same line. Between the two the printer
writes a space and the comments that it meets on its way to the first token of the argument, all as
block comments. Nothing there ends a line but a comment that spans lines.

* `Gap`: blanks and block comments. `gap_asBlocks`: comments are written so.
* `openingComments`: the comments before the first token of an expression.
* `argument_line_iff`: when the argument begins on another line. -/

namespace Typeshift.Print

open Script Expression

/-! ### Block comments -/

/-- Blanks and block comments. -/
inductive Gap : List Char → Prop where
  | nil : Gap []
  | blank {c : Char} {cs : List Char} (hc : isGap c = true) (rest : Gap cs) : Gap (c :: cs)
  | block {cs ds : List Char} (hcs : skipBlock? cs = some ds) (rest : Gap ds) :
    Gap ('/' :: '*' :: cs)

/-- A text does not end a block comment that it stands in. -/
def StaysInside (cs : List Char) : Prop := skipBlock? (cs ++ ['*', '/']) = some []

instance (cs : List Char) : Decidable (StaysInside cs) := by unfold StaysInside; infer_instance

theorem skipBlock?_append {cs ds : List Char} (h : skipBlock? cs = some ds) (es : List Char) :
    skipBlock? (cs ++ es) = some (ds ++ es) := by
  fun_induction skipBlock? cs with
  | case1 rest => cases h; rfl
  | case2 c cs hne ih =>
    rw [List.cons_append, skipBlock?]
    · exact ih h
    · rintro rest rfl heq
      cases cs with
      | nil => cases h
      | cons d cs =>
        cases heq
        exact hne cs rfl rfl
  | case3 => cases h

/-- A character goes on with a text inside a comment, unless the two end it. -/
theorem StaysInside.cons {c : Char} {cs : List Char} (h : StaysInside cs)
    (hc : c = '*' → cs.head? ≠ some '/') : StaysInside (c :: cs) := by
  unfold StaysInside at h ⊢
  rw [List.cons_append, skipBlock?]
  · exact h
  · rintro rest rfl heq
    cases cs with
    | nil => cases heq
    | cons d cs =>
      cases heq
      exact hc rfl rfl

/-- **What is put for the ends of comments** ends none, and keeps the ends of lines. -/
theorem staysInside_replaceFrom (cs : List Char) :
    (StaysInside (Text.replaceFrom ['*', '/'] ['*', ' ', '/'] 0 cs) ∧
      ((Text.replaceFrom ['*', '/'] ['*', ' ', '/'] 0 cs).head? = some '/' → cs.head? = some '/') ∧
      (Text.replaceFrom ['*', '/'] ['*', ' ', '/'] 0 cs).any StringLiteral.isLineEnd =
        cs.any StringLiteral.isLineEnd) ∧
    (cs.head? = some '/' → StaysInside (Text.replaceFrom ['*', '/'] ['*', ' ', '/'] 1 cs) ∧
      (Text.replaceFrom ['*', '/'] ['*', ' ', '/'] 1 cs).any StringLiteral.isLineEnd =
        cs.any StringLiteral.isLineEnd) := by
  induction cs with
  | nil => exact ⟨⟨rfl, nofun, rfl⟩, nofun⟩
  | cons c cs ih =>
    obtain ⟨⟨hinside, hhead, hany⟩, hskip⟩ := ih
    constructor
    · rw [Text.replaceFrom]
      split
      · next hmatch =>
        obtain ⟨rfl, hslash⟩ : c = '*' ∧ cs.head? = some '/' := by
          cases cs with
          | nil => simp [List.isPrefixOf] at hmatch
          | cons d cs =>
            simp only [List.isPrefixOf, Bool.and_true, Bool.and_eq_true, beq_iff_eq] at hmatch
            exact ⟨hmatch.1.symm, congrArg some hmatch.2.symm⟩
        obtain ⟨hinside, hany⟩ := hskip hslash
        refine ⟨?_, nofun, ?_⟩
        · exact ((hinside.cons (c := '/') nofun).cons (c := ' ') nofun).cons (c := '*') nofun
        · simpa [StringLiteral.isLineEnd] using hany
      · next hmatch =>
        refine ⟨hinside.cons ?_, ?_, ?_⟩
        · rintro rfl hslash
          obtain ⟨rest, rfl⟩ := List.head?_eq_some_iff.mp (hhead hslash)
          exact hmatch rfl
        · exact id
        · simp [hany]
    · rintro ⟨⟩
      rw [Text.replaceFrom]
      exact ⟨hinside, by simpa [StringLiteral.isLineEnd] using hany⟩

/-- What a comment is written as where more may follow on the line. -/
def asBlock (c : Comment) : List Char :=
  "/*".toList ++ (if c.isBlock then c.value else Text.replaceAll "*/" "* /" c.value).toList
    ++ "*/".toList

/-- A comment that is read back as one: a block comment ends where it says. -/
def Comment.Closes (c : Comment) : Prop := c.isBlock = true → StaysInside c.value.toList

theorem asBlock_eq {c : Comment} (hc : Comment.Closes c) : ∃ inside,
    asBlock c = '/' :: '*' :: (inside ++ ['*', '/']) ∧ StaysInside inside ∧
      inside.any StringLiteral.isLineEnd = c.value.toList.any StringLiteral.isLineEnd := by
  refine ⟨_, rfl, ?_⟩
  cases hblock : c.isBlock with
  | true => exact ⟨hc hblock, rfl⟩
  | false =>
    obtain ⟨⟨hinside, -, hany⟩, -⟩ := staysInside_replaceFrom c.value.toList
    simp only [Bool.false_eq_true, if_false, Text.replaceAll, String.toList_ofList]
    exact ⟨hinside, hany⟩

/-- What comments in front of a text are written as. -/
def asBlocks (cs : List Comment) : List Char := cs.flatMap fun c => asBlock c ++ [' ']

theorem asBlocks_cons (c : Comment) (cs : List Comment) :
    asBlocks (c :: cs) = asBlock c ++ ' ' :: asBlocks cs := by
  simp [asBlocks]

theorem gap_asBlocks {cs : List Comment} (hcs : ∀ c ∈ cs, Comment.Closes c) :
    Gap (asBlocks cs) := by
  induction cs with
  | nil => exact .nil
  | cons c cs ih =>
    obtain ⟨inside, heq, hinside, -⟩ := asBlock_eq (hcs c List.mem_cons_self)
    have hrest := ih fun d hd => hcs d (List.mem_cons_of_mem c hd)
    rw [asBlocks_cons, heq]
    exact .block (skipBlock?_append hinside (' ' :: asBlocks cs)) (.blank rfl hrest)

theorem any_isLineEnd_asBlocks {cs : List Comment} (hcs : ∀ c ∈ cs, Comment.Closes c) :
    (asBlocks cs).any StringLiteral.isLineEnd =
      cs.any fun c => c.value.toList.any StringLiteral.isLineEnd := by
  induction cs with
  | nil => rfl
  | cons c cs ih =>
    obtain ⟨inside, heq, -, hany⟩ := asBlock_eq (hcs c List.mem_cons_self)
    have hrest := ih fun d hd => hcs d (List.mem_cons_of_mem c hd)
    rw [asBlocks_cons, List.any_append, List.any_cons, hrest, heq, List.any_cons (l := cs), ← hany]
    simp [StringLiteral.isLineEnd]

/-- Comments in front of a text, in the middle of a line. -/
theorem Page.writeComments_before {p : Page} (hp : p.atLineStart = false) (cs : List Comment) :
    p.writeComments .before cs = p.append (String.ofList (asBlocks cs)) := by
  have hbegin {q : Page} (hq : q.atLineStart = false) : q.beginLine = q := by
    rw [beginLine, hq, if_neg Bool.false_ne_true]
  have hcomment {q : Page} (hq : q.atLineStart = false) (c : Comment) :
      (q.writeAsBlock c).space = q.append (String.ofList (asBlock c ++ [' '])) := by
    have hne (x : String) : ("/*" ++ x ++ "*/").isEmpty = false := by
      simp [String.isEmpty_eq_false_iff]
    have hlast (x : String) : (("/*" ++ x ++ "*/").toList.getLast? == some '\n') = false := by
      rw [String.toList_append, List.getLast?_append]
      rfl
    have htext (x : String) :
        String.ofList ("/*".toList ++ x.toList ++ "*/".toList) = "/*" ++ x ++ "*/" :=
      String.toList_inj.mp (by simp)
    have hwrite : q.writeAsBlock c = q.append (String.ofList (asBlock c)) := by
      unfold writeAsBlock writeComment writeRaw write asBlock
      cases c.isBlock with
      | true =>
        simp only [if_true, hne, Bool.false_eq_true, if_false, hlast, hbegin hq, htext]
        simp [append, hq]
      | false =>
        simp only [hne, Bool.false_eq_true, if_false, hbegin hq, htext]
    rw [hwrite, space, writeChar, hbegin (q := q.append _) hq]
    simp [append, String.append_assoc]
  unfold writeComments
  dsimp only
  induction cs generalizing p with
  | nil => simp [append, asBlocks]
  | cons c cs ih =>
    rw [List.foldl_cons, hcomment hp c, ih (p := p.append _) hp]
    simp [append, asBlocks_cons, String.append_assoc]

theorem mem_of_mem_pickFresh {taken : List (Nat × Nat)} {cs : List Comment} {c : Comment}
    (hc : c ∈ (pickFresh taken cs).1) : c ∈ cs := by
  induction cs generalizing taken with
  | nil => cases hc
  | cons d cs ih =>
    rw [pickFresh] at hc
    split at hc
    · exact (List.mem_cons.mp hc).elim (fun h => h ▸ List.mem_cons_self)
        fun h => List.mem_cons_of_mem d (ih h)
    · split at hc
      · exact List.mem_cons_of_mem d (ih hc)
      · exact (List.mem_cons.mp hc).elim (fun h => h ▸ List.mem_cons_self)
          fun h => List.mem_cons_of_mem d (ih h)

/-! ### The comments before an expression -/

/-- The comments before the first token of an expression at a place, given those of its parts. -/
def openingCommentsRule (h : Head) (s : Slots (Precedence → Bool → List Comment)) :
    Precedence → Bool → List Comment := fun least forced =>
  if inParens h least forced then h.comments.leading
  else h.comments.leading ++ innerBefore h ++
    match leftOperand? h s with
    | none => ownComments h s
    | some (operand, least, forced) => operand.note least forced

/-- **The comments before the first token** of an expression: those in front of the operands on its
left, up to the first node that is put in parentheses. -/
def openingComments {ρ : Type} (t : Tree ρ) (least : Precedence) : List Comment :=
  t.synthesize openingCommentsRule least false

theorem ownComments_annotateSlots {ρ σ : Type} (rule : Head → Slots σ → σ) (h : Head)
    (s : Slots ρ) : ownComments h (Tree.annotateSlots rule s) = ownComments h s := by
  have hplaced (t : Option (Tree ρ)) :
    placedBefore (t.map (Tree.annotate rule)) = placedBefore t := by
    cases t <;> simp [placedBefore]
  unfold ownComments
  rw [Slots.child?_annotateSlots, Slots.children_annotateSlots, List.head?_map, hplaced, hplaced]

theorem OpensAt.openingComments_eq {t : Node} {least : Precedence} {forced : Bool}
    {cs : List Comment} {opening : Opening} (h : OpensAt t least forced cs opening) :
    t.synthesize openingCommentsRule least forced = cs ++ opening.ownComments := by
  have hrule (t : Node) : t.synthesize openingCommentsRule =
      openingCommentsRule t.head (Tree.annotateSlots openingCommentsRule t.slots) := by
    obtain ⟨n, h, s⟩ := t
    rfl
  induction h with
  | paren hparen =>
    rw [hrule, openingCommentsRule, if_pos hparen]
    exact (List.append_nil _).symm
  | here hparen hleft =>
    rw [hrule, openingCommentsRule, hparen, if_neg Bool.false_ne_true, leftOperand?_annotateSlots,
      hleft, ownComments_annotateSlots]
    rfl
  | left hparen hleft _ ih =>
    rw [hrule, openingCommentsRule, hparen, if_neg Bool.false_ne_true, leftOperand?_annotateSlots,
      hleft]
    exact (congrArg (_ ++ ·) ih).trans (List.append_assoc ..).symm

/-! ### The argument after its keyword -/

/-- A text begins with a token. -/
def StartsToken (A : Alphabet) (cs : List Char) : Prop :=
  (∃ c ∈ cs.head?, A.starts c = true) ∨ opensToken cs = true

theorem FirstText.startsToken {A : Alphabet} {v : Node} {cs : List Char} {after : Script}
    (h : FirstText A v cs after) (ds : List Char) : StartsToken A (cs ++ ds) := by
  cases h with
  | name _ hx _ _ =>
    obtain ⟨c, hc, hstart⟩ := exists_head?_name hx ds
    exact .inl ⟨c, hc, hstart⟩
  | plain _ h =>
    have hopens := (Bool.and_eq_true_iff.mp (Bool.and_eq_true_iff.mp h).1).1
    exact .inr (opensToken_append hopens ds)
  | function _ hword _ =>
    simp only [List.mem_cons, List.not_mem_nil, or_false] at hword
    rcases hword with rfl | rfl <;> exact .inr rfl
  | object _ | bareClass _ _ _ | decorated _ _ => exact .inr rfl

/-- The keyword of a statement that has an argument. -/
def keyword? (h : Head) : Option String :=
  match h.tag? with
  | some .returnStatement => some "return"
  | some .throwStatement => some "throw"
  | _ => none

theorem exists_statementText_keyword {s e : Node} {keyword : String}
    (hkeyword : keyword? s.head = some keyword) (hs : s.slots.child? .argument = some e)
    (o : Options) (pending : Comments) : ∃ before,
      statementText o s.head (Tree.annotateSlots (printedRule o) s.slots) pending =
        before ++ (printed o e (.expression .comma false) ++ semicolon o) ∧
      Writes before (keyword.toList ++ [' ']) := by
  unfold keyword? at hkeyword
  split at hkeyword
  · next htag =>
    cases hkeyword
    refine ⟨text "return" ++ text " ", ?_, (writes_text "return").append (writes_text " ")⟩
    rw [statementText, htag]
    dsimp only
    rw [Slots.child?_annotateSlots, hs]
    simp only [Option.map_some, after, List.append_assoc]
    rfl
  · next htag =>
    cases hkeyword
    refine ⟨text "throw ", ?_, writes_text "throw "⟩
    rw [statementText, htag]
    dsimp only
    rw [Slots.child_annotateSlots _ hs, List.append_assoc]
    rfl
  · cases hkeyword

/-- **When the argument of `return` or `throw` begins on another line**: if one of the comments
before its first token spans lines, and not otherwise. -/
theorem argument_line_iff {A : Alphabet} {s e : Node} {keyword : String}
    (hkeyword : keyword? s.head = some keyword) (hs : s.slots.child? .argument = some e)
    (hwell : opensWell A e = true) (hcloses : ∀ c ∈ openingComments e .comma, Comment.Closes c)
    (o : Options) (sheet : Sheet) :
    let begun := Script.run sheet (statementLead s.head)
    ∃ gap rest, (Script.run sheet (printed o s .statement)).page.output.toList =
        begun.page.beginLine.output.toList ++ (keyword.toList ++ (gap ++ rest)) ∧
      Gap gap ∧ StartsToken A rest ∧
      (gap.any StringLiteral.isLineEnd = true ↔
        ∃ c ∈ (pickFresh begun.taken (openingComments e .comma)).1,
          c.value.toList.any StringLiteral.isLineEnd = true) := by
  intro begun
  have hf : s.head.family = .statement := by
    unfold keyword? at hkeyword
    split at hkeyword
    · next htag => exact family_of_tag htag
    · next htag => exact family_of_tag htag
    · cases hkeyword
  obtain ⟨pending, trailing, hprinted, -⟩ := exists_printed_statement hf o
  obtain ⟨front, htext, hfront⟩ := exists_statementText_keyword hkeyword hs o pending
  obtain ⟨cs, opening, h⟩ := exists_opensAt e .comma false
  have hcomments : openingComments e .comma = cs ++ opening.ownComments := h.openingComments_eq
  obtain ⟨before, ds, after, more, hsame, hwrites, hfirst, -⟩ := h.begins hwell o
  rw [hcomments] at hcloses ⊢
  have hne : ds ≠ [] := by
    cases opening with
    | paren u => exact (hfirst : ds = ['(']) ▸ List.cons_ne_nil _ _
    | node v => exact FirstText.ne_nil hfirst
  let fresh := (pickFresh begun.taken (cs ++ opening.ownComments)).1
  have hfresh : ∀ c ∈ fresh, Comment.Closes c := fun c hc => hcloses c (mem_of_mem_pickFresh hc)
  -- the sheet after the keyword, and after the comments
  let opened := begun.add (keyword.toList ++ [' '])
  obtain ⟨hopened, hline⟩ : opened.page.output.toList =
      begun.page.beginLine.output.toList ++ (keyword.toList ++ [' ']) ∧
        opened.page.atLineStart = false := output_add begun (by simp)
  let commented := Script.run opened (comments .before (cs ++ opening.ownComments))
  have hcommented : commented.page = opened.page.append (String.ofList (asBlocks fresh)) :=
    Page.writeComments_before hline fresh
  obtain ⟨es, hes, -⟩ := exists_output (A := A) hwrites hne
    (after ++ (more ++ (semicolon o ++ (trailing ++ line)))) commented
  have hbegun : commented.page.beginLine = commented.page := by
    rw [hcommented, Page.beginLine]
    exact if_neg (by simp [Page.append, hline])
  refine ⟨' ' :: asBlocks fresh, ds ++ es, ?_, .blank rfl (gap_asBlocks hfresh), ?_, ?_⟩
  · have hscript := hsame.append (.refl (semicolon o ++ (trailing ++ line)))
    have hrun : Script.run sheet (printed o s .statement) =
        Script.run commented
          (before ++ (after ++ (more ++ (semicolon o ++ (trailing ++ line))))) := by
      simp only [List.append_assoc] at hscript
      rw [hprinted, htext, run_append]
      simp only [List.append_assoc]
      rw [run_append, hfront, hscript, run_append]
    rw [hrun, hes, hbegun, hcommented, Page.append, String.toList_append, hopened]
    simp
  · cases opening with
    | paren u =>
      obtain rfl : ds = ['('] := hfirst
      exact .inr rfl
    | node v => exact FirstText.startsToken hfirst es
  · rw [List.any_cons, any_isLineEnd_asBlocks hfresh,
      show StringLiteral.isLineEnd ' ' = false from rfl, Bool.false_or, List.any_eq_true]

/-- A name behind a comment of two lines. -/
def nameBehindLines : Node :=
  (Target.ident "x").withComments (.ofLeading [.block "a\nb"])

/-- `throw` with that name. -/
def throwBehindLines : Node := .of .throwStatement [] [(.argument, .one nameBehindLines)]

theorem closes_nameBehindLines :
    ∀ c ∈ openingComments nameBehindLines .comma, Comment.Closes c := by
  intro c hc
  have hcomments : openingComments nameBehindLines .comma = [.block "a\nb"] := rfl
  rw [hcomments, List.mem_singleton] at hc
  rw [hc]
  intro _
  decide

theorem argument_line_iff_throwBehindLines :
    keyword? throwBehindLines.head = some "throw" ∧
      throwBehindLines.slots.child? .argument = some nameBehindLines ∧
      opensWell asciiNames nameBehindLines = true ∧
      (∀ c ∈ openingComments nameBehindLines .comma, Comment.Closes c) ∧
      let begun := Script.run (Printer.new .standard).sheet (statementLead throwBehindLines.head)
      ∃ gap rest, (Script.run (Printer.new .standard).sheet
          (printed .standard throwBehindLines .statement)).page.output.toList =
          begun.page.beginLine.output.toList ++ ("throw".toList ++ (gap ++ rest)) ∧
        Gap gap ∧ StartsToken asciiNames rest ∧
        (gap.any StringLiteral.isLineEnd = true ↔
          ∃ c ∈ (pickFresh begun.taken (openingComments nameBehindLines .comma)).1,
            c.value.toList.any StringLiteral.isLineEnd = true) :=
  ⟨rfl, rfl, by decide, closes_nameBehindLines,
    argument_line_iff (s := throwBehindLines) rfl rfl (by decide) closes_nameBehindLines .standard
      (Printer.new .standard).sheet⟩

/-- A comment of two lines cuts an argument off its keyword. -/
theorem not_argument_onLine :
    ¬ ∀ (A : Alphabet) (o : Options) (s e : Node) (keyword : String),
      keyword? s.head = some keyword → s.slots.child? .argument = some e → opensWell A e = true →
      (∀ c ∈ openingComments e .comma, Comment.Closes c) → ∀ code gap rest,
      printText o (Target.program [s]) = .ok code →
      code.toList = keyword.toList ++ (gap ++ rest) → Gap gap → StartsToken A rest →
      gap.any StringLiteral.isLineEnd = false := by
  intro h
  have hgap : Gap " /*a\nb*/ ".toList := .blank rfl (.block rfl (.blank rfl .nil))
  have hline := h asciiNames .standard throwBehindLines nameBehindLines "throw" rfl rfl (by decide)
    closes_nameBehindLines "throw /*a\nb*/ x;\n" " /*a\nb*/ ".toList "x;\n".toList (by rfl) (by rfl)
    hgap (.inr rfl)
  exact absurd hline (by decide)

end Typeshift.Print
