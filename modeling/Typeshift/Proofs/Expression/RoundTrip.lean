import Typeshift.Proofs.Expression.Constructs
import Typeshift.Tree.Source

/-! # Printed expressions parse back

The text of a tree that stands for an expression is read as that expression and no other.

* `Denotes.sound`: every tree that stands for an expression is sound.
* `printText_roundTrip`: its text is cut into tokens that stand for the expression. -/

namespace Typeshift.Expression

open Print Script

/-- **Every tree that stands for an expression is sound.** -/
theorem Denotes.sound {A : Alphabet} {t : Node} {e : Expr} (h : Denotes A t e) (o : Options) :
    Sound A o t e := by
  induction h with
  | name name hx => exact name.sound hx
  | numeral built digits => exact sound_numeral built digits
  | paren built hu _ ih => exact sound_paren built hu ih
  | member built plain hu hv _ property ih => exact sound_member built plain hu hv ih property
  | index built computed hu hv _ _ ihu ihv => exact sound_index built computed hu hv ihu ihv
  | call built untyped hu hparts _ _ ih ihs => exact sound_call built untyped hu hparts ih ihs
  | new built untyped hu hparts _ _ ih ihs => exact sound_new built untyped hu hparts ih ihs
  | unary built ho known hu _ ih => exact sound_unary built ho known hu ih
  | update built ho known hu _ ih => exact sound_update built ho known hu ih
  | binary built ho known hu hv _ _ ihu ihv => exact sound_binary built ho known hu hv ihu ihv
  | logical built ho known hu hv _ _ ihu ihv => exact sound_logical built ho known hu hv ihu ihv
  | conditional built hu hv hw _ _ _ ihu ihv ihw =>
    exact sound_conditional built hu hv hw ihu ihv ihw
  | assign built ho known hu hv _ _ _ ihu ihv => exact sound_assign built ho known hu hv ihu ihv
  | sequence built hlength hparts _ ihs => exact sound_sequence built hlength hparts ihs

/-- An expression that stands alone is written as where any expression may stand. -/
theorem script_eq {t : Node} (hf : t.head.family = .expression) (hc : t.head.comments = .none)
    (o : Options) : script o t = printed o t (.expression .comma false) := by
  rw [printed_expression hf hc]
  obtain ⟨n, h, s⟩ := t
  have hf : h.family = .expression := hf
  have hc : h.comments = .none := hc
  show familyText o (.mk (fun _ => []) h (Tree.annotateSlots (printedRule o) s)) h.comments = _
  simp [familyText, hf, hc, ownText_expression]

/-- The text of a script that writes characters on one line. -/
theorem finish_writes {s : Script} {cs : List Char} (h : Writes s cs) (hne : cs ≠ [])
    (o : Options) :
    (Script.run (Printer.new o).sheet s).page.finish.toList = cs ++ ['\n'] := by
  rw [h (Printer.new o).sheet]
  cases cs with
  | nil => exact absurd rfl hne
  | cons c cs => simp [Page.finish, Page.endLine, Page.append, Page.write, Page.beginLine,
      Page.margin, Sheet.add, Printer.new, Page.empty]

/-- The text of a script that writes items on one line. -/
theorem finish_strip {A : Alphabet} {s : Script} {l : List Item} (h : Strip A s l) (hne : l ≠ [])
    (o : Options) :
    (Script.run (Printer.new o).sheet s).page.finish.toList = spell (l ++ [Item.gap '\n']) := by
  have hspell : spell l ≠ [] := by
    cases l with
    | nil => exact absurd rfl hne
    | cons i rest =>
      obtain ⟨c, cs, hc⟩ := Item.exists_chars (h.spelled i List.mem_cons_self)
      simp [spell, hc]
  rw [finish_writes h.writes hspell, spell_append]
  rfl

/-- **Printed expressions parse back.** The text of a tree that stands for an expression is cut into
tokens that stand for that expression and no other. -/
theorem printText_roundTrip {A : Alphabet} {t : Node} {e : Expr} (h : Denotes A t e) (o : Options) :
    ∃ text tokens, printText o t = .ok text ∧ A.lex text = some tokens ∧
      Derives .expression tokens e ∧ ∀ e', Derives .expression tokens e' → e' = e := by
  have hsound := h.sound o
  obtain ⟨l, hstrip, hderives, ⟨i, hi, -⟩, hback⟩ := hsound.loose .comma false (by decide)
  rw [← script_eq hsound.family hsound.comments] at hstrip
  have hne : l ≠ [] := by
    rintro rfl
    cases hi
  have hprint : printText o t =
      .ok (Script.run (Printer.new o).sheet (script o t)).page.finish := by
    unfold printText Printer.print
    rw [h.printError?_eq_none]
    rfl
  have hchain : (l ++ [Item.gap '\n']).IsChain (Item.Apart A) :=
    List.isChain_append.mpr ⟨hstrip.apart, .singleton _,
      hback.meet (c := '\n') (by decide) (by rintro _ ⟨⟩; rfl)⟩
  have hlex := lex_items (.inr rfl) hstrip.spelled hchain (finish_strip hstrip hne o)
  exact ⟨_, tokensOf l, hprint, hlex, hderives, fun e' he' => he'.unique hderives⟩

/-! ### A tree that needs parentheses -/

/-- The alphabet of names that are all ASCII. -/
def asciiNames : Alphabet := ⟨fun _ => false, fun _ => false⟩

/-- `l op r`. -/
def infixNode (tag : Tag) (operator : String) (l r : Node) : Node :=
  .of tag [(.operator, .text operator)] [(.left, .one l), (.right, .one r)]

/-- A tree that needs parentheses but has none: `(a ?? b) || (-c) ** 2`. -/
def mixedNode : Node :=
  infixNode .logicalExpression "||"
    (infixNode .logicalExpression "??" (Source.ident "a") (Source.ident "b"))
    (infixNode .binaryExpression "**"
      (.of .unaryExpression [(.operator, .text "-")] [(.argument, .one (Source.ident "c"))])
      (.of .numericLiteral [(.extra, .extra (some ⟨some "2"⟩))] []))

/-- The expression of `mixedNode`. -/
def mixedExpr : Expr :=
  .binary "||" (.binary "??" (.name "a") (.name "b"))
    (.binary "**" (.unary "-" (.name "c")) (.numeral "2"))

theorem denotes_ident {A : Alphabet} {x : String} (hx : A.isName x = true) (hr : x ∉ reserved) :
    Denotes A (Source.ident x) (.name x) :=
  .name ⟨⟨rfl, rfl, List.Subset.refl _⟩, rfl, hx, rfl⟩ hr

theorem denotes_mixedNode (A : Alphabet) : Denotes A mixedNode mixedExpr := by
  refine .logical ⟨rfl, rfl, List.Subset.refl _⟩ rfl (by decide) rfl rfl ?_ ?_
  · exact .logical ⟨rfl, rfl, List.Subset.refl _⟩ rfl (by decide) rfl rfl
      (denotes_ident rfl (by decide)) (denotes_ident rfl (by decide))
  · refine .binary ⟨rfl, rfl, List.Subset.refl _⟩ rfl (by decide) rfl rfl ?_ ?_
    · exact .unary ⟨rfl, rfl, List.Subset.refl _⟩ rfl (by decide) rfl
        (denotes_ident rfl (by decide))
    · exact .numeral ⟨rfl, rfl, List.Subset.refl _⟩ rfl

theorem printText_roundTrip_mixedNode :
    Denotes asciiNames mixedNode mixedExpr ∧
      ∃ text tokens, printText .standard mixedNode = .ok text ∧
        asciiNames.lex text = some tokens ∧ Derives .expression tokens mixedExpr ∧
        ∀ e', Derives .expression tokens e' → e' = mixedExpr :=
  ⟨denotes_mixedNode asciiNames, printText_roundTrip (denotes_mixedNode asciiNames) .standard⟩

example : printText .standard mixedNode = .ok "(a ?? b) || (-c) ** 2\n" := by rfl

end Typeshift.Expression
