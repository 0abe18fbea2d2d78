import Typeshift.Proofs.Expression.Places
import Typeshift.Proofs.Print.Chunk
import Typeshift.Tree.Target

/-! # Templates

Between the backticks of a template stand its raw texts, and its expressions in `${` and `}`. The
page begins every line with its margin, also one that a raw text has begun: what follows a raw text
that ends with a line break is set off by the margin, which changes the text of the template.

* `templateParts`: what stands between the backticks, part by part.
* `laidText`: the text of the parts with a margin after each part that ends a line.
* `run_template`: what a template adds to a page, and when that is the text of its parts. -/

namespace Typeshift.Print

open Script Expression

/-! ### Parts -/

/-- The raw text of a piece of a template. -/
def rawText (q : Node) : String :=
  match q.head.attr? .value with
  | some (.template raw _) => raw
  | _ => ""

/-- A raw text as a part. -/
def rawChunk (q : Node) : Chunk := ⟨rawText q, (rawText q).toList.getLast? == some '\n'⟩

/-- An expression as a part: what it adds in the middle of a line. -/
def expressionChunk (o : Options) (level width : Nat) (e : Node) : Chunk :=
  (printed o e (.expression .comma false)).chunk level width

/-- **The parts between the backticks**: the raw texts in order, each followed by the next
expression in `${` and `}`. -/
def templateParts (o : Options) (level width : Nat) : List Node → List Node → List Chunk
  | [], _ => []
  | q :: qs, [] => rawChunk q :: templateParts o level width qs []
  | q :: qs, e :: es =>
    rawChunk q :: ⟨"$\x7b", false⟩ :: expressionChunk o level width e :: ⟨"\x7d", false⟩
      :: templateParts o level width qs es

/-- The text of some parts, one after the other. -/
def plainText (parts : List Chunk) : String := String.join (parts.map Chunk.text)

/-- **The text of some parts on a page**: what follows a part that ends a line begins with the
margin. -/
def laidText (margin : String) (atStart : Bool) : List Chunk → String
  | [] => if atStart then margin else ""
  | c :: cs =>
    if c.text = "" then laidText margin atStart cs
    else (if atStart then margin else "") ++ c.text ++ laidText margin c.endsLine cs

@[simp] theorem plainText_nil : plainText [] = "" := rfl

@[simp] theorem plainText_cons (c : Chunk) (cs : List Chunk) :
    plainText (c :: cs) = c.text ++ plainText cs := by
  simp [plainText]

theorem laidText_noMargin (atStart : Bool) (parts : List Chunk) :
    laidText "" atStart parts = plainText parts := by
  induction parts generalizing atStart with
  | nil => simp [laidText]
  | cons c cs ih =>
    unfold laidText
    split
    · next hc => simp [ih, hc]
    · simp [ih]

theorem laidText_of_inLine {margin : String} {parts : List Chunk}
    (h : ∀ c ∈ parts, c.endsLine = false) : laidText margin false parts = plainText parts := by
  induction parts with
  | nil => rfl
  | cons c cs ih =>
    have ih := ih fun d hd => h d (List.mem_cons_of_mem _ hd)
    unfold laidText
    split
    · next hc => simp [ih, hc]
    · simp [h c List.mem_cons_self, ih]

theorem length_plainText_le (margin : String) (atStart : Bool) (parts : List Chunk) :
    (plainText parts).length ≤ (laidText margin atStart parts).length := by
  induction parts generalizing atStart with
  | nil => exact Nat.zero_le _
  | cons c cs ih =>
    unfold laidText
    split
    · next hc => simpa [hc] using ih atStart
    · have ih := ih c.endsLine
      simp only [plainText_cons, String.length_append]
      omega

/-- Every part that ends a line adds a margin. -/
theorem length_plainText_add_le (margin : String) {parts : List Chunk}
    (hparts : ∀ c ∈ parts, c.endsLine = true → c.text ≠ "") (atStart : Bool)
    (h : atStart = true ∨ ∃ c ∈ parts, c.endsLine = true) :
    (plainText parts).length + margin.length ≤ (laidText margin atStart parts).length := by
  induction parts generalizing atStart with
  | nil =>
    obtain rfl : atStart = true := h.resolve_right fun ⟨_, hc, _⟩ => nomatch hc
    simp [laidText]
  | cons c cs ih =>
    have ih := fun atStart => ih (fun d hd => hparts d (List.mem_cons_of_mem _ hd)) atStart
    unfold laidText
    split
    · next hc =>
      have hends : c.endsLine = false := Bool.eq_false_iff.mpr fun hends =>
        hparts c List.mem_cons_self hends hc
      have h : atStart = true ∨ ∃ d ∈ cs, d.endsLine = true := by simpa [hends] using h
      simpa [hc] using ih atStart h
    · have hle := length_plainText_le margin c.endsLine cs
      have ih := ih c.endsLine
      simp only [plainText_cons, String.length_append]
      rcases h with rfl | ⟨d, hd, hends⟩
      · rw [if_pos rfl]
        omega
      · have hlater : c.endsLine = true ∨ ∃ d ∈ cs, d.endsLine = true := by
          rcases List.mem_cons.mp hd with rfl | hd
          · exact .inl hends
          · exact .inr ⟨d, hd, hends⟩
        have := ih hlater
        omega

/-- **The text on a page is that of the parts** exactly if there is no margin, or no part ends a
line. -/
theorem laidText_eq_iff {margin : String} {parts : List Chunk}
    (hparts : ∀ c ∈ parts, c.endsLine = true → c.text ≠ "") :
    laidText margin false parts = plainText parts ↔
      margin = "" ∨ ∀ c ∈ parts, c.endsLine = false := by
  constructor
  · intro heq
    by_contra hnot
    obtain ⟨hmargin, hends⟩ := not_or.mp hnot
    have hends : ∃ c ∈ parts, c.endsLine = true := by simpa using hends
    have hle := length_plainText_add_le margin hparts false (.inr hends)
    rw [heq] at hle
    exact hmargin (String.length_eq_zero_iff.mp (by omega))
  · rintro (rfl | h)
    · exact laidText_noMargin _ _
    · exact laidText_of_inLine h

/-! ### Parts on a page -/

/-- A page with a part put on it. -/
def Page.put (p : Page) (c : Chunk) : Page :=
  if c.text = "" then p
  else { p with
    output := p.output ++ ((if p.atLineStart then p.margin else "") ++ c.text)
    atLineStart := c.endsLine }

namespace Page

theorem append_beginLine (p : Page) (s : String) : p.beginLine.append s =
    { p with
      output := p.output ++ ((if p.atLineStart then p.margin else "") ++ s)
      atLineStart := false } := by
  unfold beginLine append
  split
  · simp [String.append_assoc]
  · next h => simp [Bool.eq_false_iff.mpr h]

theorem write_eq_put (p : Page) (s : String) : p.write s = p.put ⟨s, false⟩ := by
  unfold write put
  rw [append_beginLine]
  simp only [String.isEmpty_iff]

theorem writeRaw_eq_put (p : Page) (s : String) :
    p.writeRaw s = p.put ⟨s, s.toList.getLast? == some '\n'⟩ := by
  unfold writeRaw put
  rw [append_beginLine]
  simp only [String.isEmpty_iff]

@[simp] theorem level_put (p : Page) (c : Chunk) : (p.put c).level = p.level := by
  unfold put
  split <;> rfl

@[simp] theorem width_put (p : Page) (c : Chunk) : (p.put c).width = p.width := by
  unfold put
  split <;> rfl

/-- Parts and a last text on a page. -/
theorem write_foldl_put (p : Page) (parts : List Chunk) {s : String} (hs : s ≠ "") :
    (parts.foldl put p).write s =
      { p with
        output := p.output ++ (laidText p.margin p.atLineStart parts ++ s)
        atLineStart := false } := by
  induction parts generalizing p with
  | nil =>
    rw [List.foldl_nil, write_eq_put, put, if_neg hs]
    rfl
  | cons c cs ih =>
    rw [List.foldl_cons, ih, laidText]
    by_cases hc : c.text = ""
    · rw [put, if_pos hc, if_pos hc]
    · rw [put, if_neg hc, if_neg hc]
      simp [margin, String.append_assoc]

end Page

/-- A steady script in the middle of a line puts its chunk there. -/
theorem run_eq_put {s : Script} (hs : s.Steady noComment) {t : Sheet}
    (ht : t.page.atLineStart = false) :
    Script.run t s = { t with page := t.page.put (s.chunk t.page.level t.page.width) } := by
  rw [run_eq_chunk hs t ht, Page.put]
  split
  · next hempty =>
    have hends : (s.chunk t.page.level t.page.width).endsLine = false :=
      Bool.eq_false_iff.mpr fun hends => chunk_text_ne hs hends hempty
    rw [hempty, hends, ← ht, String.append_empty]
  · simp [ht]

/-! ### Templates on a page -/

/-- A node that binds as tightly as can be is never in parentheses. -/
theorem run_printed_primary (o : Options) {t : Node} (hf : t.head.family = .expression)
    (hc : t.head.comments = .none) (hp : Precedence.ofHead t.head = .primary) (least : Precedence)
    (sheet : Sheet) :
    Script.run sheet (printed o t (.expression least false)) = Script.run sheet (body o t) := by
  have hparen : (false || (Precedence.ofHead t.head).looser least) = false := by
    rw [hp]
    cases least <;> rfl
  have hwrites (style : CommentStyle) (t : Sheet) : Script.run t (comments style []) = t :=
    Piece.run_noComments t style
  rw [printed_expression hf hc, expressionFrame, inlineFrame_none, hparen]
  simp only [parenIf, Bool.false_eq_true, if_false, run_append, hwrites]
  unfold Script.when
  split <;> simp only [hwrites, run_nil] <;> rfl

/-- A piece of a template puts its raw text on the page. -/
theorem run_quasi (o : Options) {q : Node} (htag : q.head.tag? = some .templateElement)
    (hq : q.head.comments = .none) (t : Sheet) :
    Script.run t (printed o q (.expression .primary false)) =
      { t with page := t.page.put (rawChunk q) } := by
  have hf : q.head.family = .expression := family_of_tag htag
  have hp : Precedence.ofHead q.head = .primary := by simp [Precedence.ofHead, htag]
  rw [run_printed_primary o hf hq hp, body, expressionText, htag, rawChunk, ← Page.writeRaw_eq_put]
  unfold rawText
  dsimp only
  -- a node without raw text, and one for each kind of value in its place
  cases q.head.attr? .value with
  | none => rfl
  | some a => cases a <;> rfl

theorem run_text (t : Sheet) (s : String) :
    Script.run t (text s) = { t with page := t.page.put ⟨s, false⟩ } :=
  congrArg (Sheet.mk · t.taken) (t.page.write_eq_put s)

/-- An expression in `${` and `}` on a page. -/
theorem run_substitution (o : Options) {e : Node} (he : Uncommented e) (t : Sheet) :
    Script.run t (between "$\x7b" "\x7d" (printed o e (.expression .comma false))) =
      { t with page := ((t.page.put ⟨"$\x7b", false⟩).put
        (expressionChunk o t.page.level t.page.width e)).put ⟨"\x7d", false⟩ } := by
  have hsteady : (printed o e (.expression .comma false)).Steady noComment :=
    (steady_printed o he.eachComment).note _
  have hline : (t.page.put ⟨"$\x7b", false⟩).atLineStart = false := rfl
  rw [between, run_append, run_append, run_text, run_text, run_eq_put hsteady hline]
  simp only [Page.level_put, Page.width_put, expressionChunk]

/-- **The pieces of a template put its parts on the page**, one after the other. -/
theorem run_templatePieces (o : Options) {qs es : List Node}
    (hqs : ∀ q ∈ qs, q.head.tag? = some .templateElement ∧ q.head.comments = .none)
    (hes : ∀ e ∈ es, Uncommented e) (t : Sheet) :
    Script.run t (templatePieces (qs.map (Tree.annotate (printedRule o)))
        (es.map (Tree.annotate (printedRule o)))) =
      { t with page :=
        (templateParts o t.page.level t.page.width qs es).foldl Page.put t.page } := by
  induction qs generalizing es t with
  | nil => cases es <;> rfl
  | cons q qs ih =>
    obtain ⟨htag, hq⟩ := hqs q List.mem_cons_self
    have hqs := fun q hq => hqs q (List.mem_cons_of_mem _ hq)
    have hquasi : Script.run t (expression (q.annotate (printedRule o)) .primary) =
        { t with page := t.page.put (rawChunk q) } := run_quasi o htag hq t
    cases es with
    | nil =>
      rw [List.map_cons, List.map_nil, templatePieces, run_append, hquasi]
      have hrest := ih hqs (List.forall_mem_nil Uncommented)
        { t with page := t.page.put (rawChunk q) }
      rw [List.map_nil, Page.level_put, Page.width_put] at hrest
      exact hrest
    | cons e es =>
      have hsubstitution (t : Sheet) : Script.run t
          (between "$\x7b" "\x7d" (expression (e.annotate (printedRule o)) .comma)) = _ :=
        run_substitution o (hes e List.mem_cons_self) t
      rw [List.map_cons, List.map_cons, templatePieces, run_append, run_append, hquasi,
        hsubstitution, ih hqs fun e he => hes e (List.mem_cons_of_mem _ he)]
      simp only [Page.level_put, Page.width_put, templateParts, List.foldl_cons]

theorem text_ne_of_endsLine (o : Options) (level width : Nat) {qs es : List Node}
    (hes : ∀ e ∈ es, Uncommented e) :
    ∀ c ∈ templateParts o level width qs es, c.endsLine = true → c.text ≠ "" := by
  have hraw (q : Node) : (rawChunk q).endsLine = true → (rawChunk q).text ≠ "" := by
    intro hends hempty
    have hempty : rawText q = "" := hempty
    simp [rawChunk, hempty] at hends
  induction qs generalizing es with
  | nil => cases es <;> exact nofun
  | cons q qs ih =>
    cases es with
    | nil => exact List.forall_mem_cons.mpr ⟨hraw q, ih nofun⟩
    | cons e es =>
      have hsteady := (steady_printed o (hes e List.mem_cons_self).eachComment).note
        (.expression .comma false)
      refine List.forall_mem_cons.mpr ⟨hraw q, List.forall_mem_cons.mpr ⟨nofun,
        List.forall_mem_cons.mpr ⟨chunk_text_ne hsteady, List.forall_mem_cons.mpr ⟨nofun, ?_⟩⟩⟩⟩
      exact ih fun e he => hes e (List.mem_cons_of_mem _ he)

theorem margin_eq_empty_iff {p : Page} : p.margin = "" ↔ p.level * p.width = 0 := by
  rw [Page.margin, ← String.length_eq_zero_iff]
  simp

/-- **What a template adds to a page**: its parts between backticks, with a margin after each part
that ends a line. That is the text of its parts exactly if there is no margin, or no part ends a
line. -/
theorem run_template (o : Options) {t : Node} (htag : t.head.tag? = some .templateLiteral)
    (ht : Uncommented t)
    (hquasis : ∀ q ∈ t.slots.children .quasis, q.head.tag? = some .templateElement)
    (least : Precedence) (sheet : Sheet) :
    let page := sheet.page
    let parts := templateParts o page.level page.width (t.slots.children .quasis)
      (t.slots.children .expressions)
    let inside := laidText page.margin false parts
    Script.run sheet (printed o t (.expression least false)) =
        { sheet with page := { page with
          output := page.beginLine.output ++ "`" ++ inside ++ "`"
          atLineStart := false } } ∧
      (inside = plainText parts ↔
        page.level * page.width = 0 ∨ ∀ c ∈ parts, c.endsLine = false) := by
  obtain ⟨here, below⟩ : t.head.comments = .none ∧ ∀ c ∈ t.slots.toList, Uncommented c := by
    cases ht with
    | mk here below => exact ⟨here, below⟩
  have hquasis : ∀ q ∈ t.slots.children .quasis, q.head.tag? = some .templateElement ∧
      q.head.comments = .none := by
    intro q hq
    refine ⟨hquasis q hq, ?_⟩
    cases below q (Slots.children_mem hq) with
    | mk here _ => exact here
  have hexpressions : ∀ e ∈ t.slots.children .expressions, Uncommented e := fun e he =>
    below e (Slots.children_mem he)
  have hf : t.head.family = .expression := family_of_tag htag
  have hp : Precedence.ofHead t.head = .primary := by simp [Precedence.ofHead, htag]
  dsimp only
  constructor
  · have hopened : (sheet.page.put ⟨"`", false⟩).output = sheet.page.beginLine.output ++ "`" :=
      congrArg Page.output (sheet.page.write_eq_put "`").symm
    have hclosed (t : Sheet) : Script.run t (text "`") = ⟨t.page.write "`", t.taken⟩ := rfl
    rw [run_printed_primary o hf here hp, body, expressionText, htag]
    dsimp only
    rw [Slots.children_annotateSlots, Slots.children_annotateSlots, between, run_append, run_append,
      run_templatePieces o hquasis hexpressions, hclosed, Page.write_foldl_put _ _ (by decide),
      run_text]
    dsimp only
    rw [hopened, Page.level_put, Page.width_put]
    simp only [String.append_assoc]
    rfl
  · rw [laidText_eq_iff (text_ne_of_endsLine o _ _ hexpressions), margin_eq_empty_iff]

/-- A template of two lines, with `b` at the start of the second one. -/
def twoLineTemplate : Node :=
  .of .templateLiteral []
    [(.quasis, .many [
        Node.of .templateElement [(.value, .template "a\n" none), (.isTail, .flag false)] [],
        Node.of .templateElement [(.value, .template "" none), (.isTail, .flag true)] []]),
      (.expressions, .many [Target.ident "b"])]

theorem run_template_twoLineTemplate :
    twoLineTemplate.head.tag? = some .templateLiteral ∧ Uncommented twoLineTemplate ∧
      (∀ q ∈ twoLineTemplate.slots.children .quasis, q.head.tag? = some .templateElement) ∧
      let parts : List Chunk :=
        [⟨"a\n", true⟩, ⟨"$\x7b", false⟩, ⟨"b", false⟩, ⟨"\x7d", false⟩, ⟨"", false⟩]
      let inside := laidText "  " false parts
      Script.run ⟨⟨"return ", 1, 2, false⟩, []⟩
          (printed .standard twoLineTemplate (.expression .comma false)) =
        ⟨⟨"return " ++ "`" ++ inside ++ "`", 1, 2, false⟩, []⟩ ∧
      (inside = plainText parts ↔ 1 * 2 = 0 ∨ ∀ c ∈ parts, c.endsLine = false) := by
  have ht : Uncommented twoLineTemplate := by
    unfold Uncommented
    decide
  have hquasis : ∀ q ∈ twoLineTemplate.slots.children .quasis,
      q.head.tag? = some .templateElement := by
    simp [twoLineTemplate, Slots.children, Slots.get?, Node.of, Head.ofTag, Head.tag?, Kind.tag?]
  exact ⟨rfl, ht, hquasis,
    run_template .standard rfl ht hquasis .comma ⟨⟨"return ", 1, 2, false⟩, []⟩⟩

/-- The same template in a block: a margin is put into its text. -/
theorem printText_twoLineTemplate_ne :
    let code := "\x7b\n  `a\n  $\x7bb\x7d`;\n\x7d\n"
    let parts := templateParts .standard 1 2 (twoLineTemplate.slots.children .quasis)
      (twoLineTemplate.slots.children .expressions)
    printText .standard (.of .program [(.sourceType, .textOrNone (some "module"))]
        [(.interpreter, .maybe none), (.directives, .many []), (.body, .many [
          Node.of .blockStatement [] [(.directives, .many []), (.body, .many [
            Node.of .expressionStatement [] [(.expression, .one twoLineTemplate)]])]])]) =
        .ok code ∧
      code ≠ "\x7b\n  `" ++ plainText parts ++ "`;\n\x7d\n" := by
  decide +kernel

end Typeshift.Print
