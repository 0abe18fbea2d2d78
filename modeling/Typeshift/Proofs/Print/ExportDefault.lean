import Typeshift.Proofs.Print.StatementStart

/-! # How exported expressions begin

After `export default` a function or a class is a declaration, so an expression that begins with one
is cut off behind it. As a statement such an expression is put in parentheses; after
`export default` it is not.

* `FirstText.beginsDeclaration_iff`: which nodes begin as declarations do.
* `exportDefault_beginsDeclaration_iff`: which exported expressions do.
* `not_exportDefault_keepsExpression`: the call of a function is one of them. -/

namespace Typeshift.Print

open Script Expression

section Declarations

variable {A : Alphabet} {v : Node} {cs ds : List Char} {after : Script}

/-- A text begins as the declaration of a function or a class does. -/
def BeginsDeclaration (A : Alphabet) (cs : List Char) : Prop :=
  ∃ word ∈ declarationStarts, BeginsWith A cs word

theorem not_beginsDeclaration_of_head? {c : Char} (hc : cs.head? = some c)
    (hne : c ∉ ['f', 'a', 'c']) : ¬ BeginsDeclaration A cs := by
  rintro ⟨word, hword, rest, rfl, -⟩
  have hfirst : declarationStarts.all (·.toList.head?.any ['f', 'a', 'c'].contains) = true := rfl
  obtain ⟨d, hhead, hd⟩ := (Option.any_eq_true _ _).mp (List.all_eq_true.mp hfirst word hword)
  rw [List.head?_append, hhead] at hc
  cases hc
  exact hne (List.contains_iff_mem.mp hd)

theorem beginsDeclaration_append (word : String) (hword : word ∈ declarationStarts) {c : Char}
    (hc : A.continues c = false) (ds : List Char) :
    BeginsDeclaration A (word.toList ++ c :: ds) :=
  ⟨word, hword, c :: ds, rfl, by rintro _ ⟨⟩; exact hc⟩

theorem not_continues {c : Char} (hc : c ∈ [' ', '*', '<', '(']) : A.continues c = false := by
  simp only [List.mem_cons, List.not_mem_nil, or_false] at hc
  rcases hc with rfl | rfl | rfl | rfl <;> rfl

/-- **Which nodes begin as declarations do**: functions, and classes without decorators. -/
theorem FirstText.beginsDeclaration_iff (h : FirstText A v cs after)
    (hds : Severed A after → Ends A ds) :
    BeginsDeclaration A (cs ++ ds) ↔ isDeclaration v = true := by
  cases h with
  | name hv hx hne hafter =>
    rw [hv]
    refine iff_of_false ?_ Bool.false_ne_true
    rintro ⟨word, hword, hbegins⟩
    exact not_beginsWith_name hx hne (hds hafter) hword hbegins
  | plain hv h =>
    rw [hv]
    refine iff_of_false ?_ Bool.false_ne_true
    rintro ⟨word, hword, hbegins⟩
    exact not_beginsWith_of_isPlain h ds hword hbegins
  | object h =>
    refine iff_of_false (not_beginsDeclaration_of_head? rfl (by decide)) ?_
    intro hdeclares
    simp only [Head.isAny, Head.is, isDeclaration, List.any_cons, List.any_nil, Bool.or_false,
      Bool.or_eq_true, Bool.and_eq_true, beq_iff_eq] at h hdeclares
    rcases h with h | h <;> simp [h] at hdeclares
  | function htag hword hc =>
    refine iff_of_true ?_ (by simp [isDeclaration, Head.is, htag])
    rw [List.append_assoc]
    exact beginsDeclaration_append _ (List.mem_append_left ["class"] hword)
      (not_continues hc) ds
  | @bareClass c _ _ htag hbare hc =>
    refine iff_of_true ?_ (by simp [isDeclaration, Head.is, htag, hbare])
    have hc : c ∈ [' ', '*', '<', '('] := by
      simp only [List.mem_cons, List.not_mem_nil, or_false] at hc ⊢
      tauto
    rw [List.append_assoc]
    exact beginsDeclaration_append "class" (by decide) (not_continues hc) _
  | decorated htag hdecorators =>
    refine iff_of_false (not_beginsDeclaration_of_head? rfl (by decide)) ?_
    simp [isDeclaration, Head.is, htag, hdecorators]

end Declarations

/-! ### Exported expressions -/

/-- The text of an expression at a place begins with the text of a node. -/
def OpensWith (t : Node) (least : Precedence) (v : Node) : Prop :=
  ∃ cs, OpensAt t least false cs (.node v)

section Exported

variable {A : Alphabet} {s e : Node}

theorem OpensAt.unique {t : Node} {least : Precedence} {forced : Bool} {cs cs' : List Comment}
    {opening opening' : Opening} (h : OpensAt t least forced cs opening)
    (h' : OpensAt t least forced cs' opening') : cs = cs' ∧ opening = opening' := by
  induction h generalizing cs' opening' with
  | paren hparen =>
    cases h' with
    | paren _ => exact ⟨rfl, rfl⟩
    | here hnot _ => rw [hparen] at hnot; cases hnot
    | left hnot _ _ => rw [hparen] at hnot; cases hnot
  | here hparen hleft =>
    cases h' with
    | paren hnot => rw [hparen] at hnot; cases hnot
    | here _ _ => exact ⟨rfl, rfl⟩
    | left _ hnot _ => rw [hleft] at hnot; cases hnot
  | left hparen hleft _ ih =>
    cases h' with
    | paren hnot => rw [hparen] at hnot; cases hnot
    | here _ hnot => rw [hleft] at hnot; cases hnot
    | left _ hleft' below =>
      rw [hleft] at hleft'
      cases hleft'
      obtain ⟨rfl, rfl⟩ := ih below
      exact ⟨rfl, rfl⟩

/-- **Which exported expressions begin as declarations do**: those whose text begins with a function
or with a class without decorators. -/
theorem exportDefault_beginsDeclaration_iff
    (htag : s.head.tag? = some .exportDefaultDeclaration) (hc : s.head.comments = .none)
    (hs : s.slots.child? .declaration = some e) (he : Uncommented e)
    (hwell : opensWell A e = true) (o : Options) (sheet : Sheet) : ∃ cs,
      (Script.run sheet (printed o s .statement)).page.output.toList =
        (Script.run sheet (line ++ text "export default ")).page.output.toList ++ cs ∧
      (BeginsDeclaration A cs ↔ ∃ v, OpensWith e .assignment v ∧ isDeclaration v = true) := by
  have hf : s.head.family = .statement := family_of_tag htag
  have hexpression : e.head.family ≠ .statement := by
    rw [family_of_opensWell hwell]
    decide
  have htext : statementText o s.head (Tree.annotateSlots (printedRule o) s.slots) .none =
      text "export default " ++ (printed o e (.expression .assignment false) ++ semicolon o) := by
    rw [statementText, htag]
    dsimp only
    rw [exportText, htag]
    dsimp only
    rw [Slots.child_annotateSlots _ hs, Tree.head_annotate, if_neg hexpression]
    rfl
  have hsame := same_statement hf hc o
  rw [htext] at hsame
  obtain ⟨before, opening, h⟩ := exists_opensAt e .assignment false
  obtain ⟨start, ds, after, hscript, hwrites, hne, hfirst⟩ :=
    h.exists_text he hwell o (severed_semicolon o)
  let begun := Script.run sheet (line ++ text "export default ")
  have hbegun : begun.page.atLineStart = false := by
    show (Script.run sheet (line ++ text "export default ")).page.atLineStart = false
    rw [run_append, writes_text]
    exact (output_add _ (by decide)).2
  obtain ⟨es, hes, hends⟩ := exists_output (A := A) hwrites hne after begun
  obtain ⟨l, hl, hend⟩ := exists_output_line (Script.run begun
    (printed o e (.expression .assignment false) ++ semicolon o))
  refine ⟨ds ++ (es ++ l), ?_, ?_⟩
  · have hrun : Script.run sheet (printed o s .statement) = Script.run (Script.run begun
        (printed o e (.expression .assignment false) ++ semicolon o)) line := by
      rw [hsame sheet]
      simp only [begun, run_append]
    rw [hrun, hend, hscript begun, hes, Page.beginLine, hbegun, if_neg Bool.false_ne_true]
    simp only [List.append_assoc]
    rfl
  · cases opening with
    | paren u =>
      obtain rfl : ds = ['('] := hfirst
      refine iff_of_false (not_beginsDeclaration_of_head? rfl (by decide)) ?_
      rintro ⟨v, ⟨cs, hv⟩, -⟩
      cases (h.unique hv).2
    | node v =>
      have hfirst : FirstText A v ds after := hfirst
      rw [hfirst.beginsDeclaration_iff fun hafter => (hends hafter).append_line hl]
      constructor
      · exact fun hdeclares => ⟨v, ⟨before, h⟩, hdeclares⟩
      · rintro ⟨u, ⟨cs, hu⟩, hdeclares⟩
        cases (h.unique hu).2
        exact hdeclares

end Exported

/-- What a function gives that is called where it stands. -/
def calledFunction : Node := Target.call emptyFunction [] none

theorem uncommented_calledFunction : Uncommented calledFunction := by
  unfold Uncommented
  decide

theorem opensWell_calledFunction : opensWell asciiNames calledFunction = true := by decide

theorem exportDefault_beginsDeclaration_iff_calledFunction :
    Uncommented calledFunction ∧ opensWell asciiNames calledFunction = true ∧
      ∃ cs, (Script.run (Printer.new .standard).sheet (printed .standard
          (Target.exportDefault calledFunction) .statement)).page.output.toList =
          (Script.run (Printer.new .standard).sheet
            (line ++ text "export default ")).page.output.toList ++ cs ∧
        (BeginsDeclaration asciiNames cs ↔
          ∃ v, OpensWith calledFunction .assignment v ∧ isDeclaration v = true) :=
  ⟨uncommented_calledFunction, opensWell_calledFunction,
    exportDefault_beginsDeclaration_iff (s := Target.exportDefault calledFunction) rfl rfl rfl
      uncommented_calledFunction opensWell_calledFunction .standard (Printer.new .standard).sheet⟩

/-- An exported expression that is no function or class may begin as a declaration does, although as
a statement it would be put in parentheses. -/
theorem not_exportDefault_keepsExpression :
    ¬ ∀ (A : Alphabet) (o : Options) (e : Node), Uncommented e → opensWell A e = true →
      e.head.isAny [.functionExpression, .classExpression] = false → ∀ code rest,
      printText o (Target.program [Target.exportDefault e]) = .ok code →
      code.toList = "export default ".toList ++ rest → ¬ BeginsDeclaration A rest := by
  intro h
  exact h asciiNames .standard calledFunction uncommented_calledFunction
    opensWell_calledFunction rfl
    "export default function() \x7b\x7d();\n" "function() \x7b\x7d();\n".toList (by rfl) (by rfl)
    (beginsDeclaration_append "function" (c := '(') (by decide) (by decide) _)

example : printText .standard (Target.program [Target.statement calledFunction]) =
    .ok "(function() \x7b\x7d());\n" := by rfl

end Typeshift.Print
