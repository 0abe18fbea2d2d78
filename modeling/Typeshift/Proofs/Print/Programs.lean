import Typeshift.Normalize.Basic
import Typeshift.Proofs.Print.Chunk
import Typeshift.Tree.Target

/-! # Programs on one page

Every statement ends its line, and nothing that is written leaves the margin moved. So a program
that is written at the start of a line ends at the start of one, with the margin where it was:
programs that are written one after the other do not see each other.

* `Script.EndsLine`: a script after which a line begins. `endsLine_script`: a program is one.
* `Printer.rested`: a printer between two programs. `exists_print_rested`: one program takes it to
  another such printer.
* `Printer.foldlM_programs`: many programs. -/

namespace Typeshift.Print

open Script Normalize

/-! ### Scripts that end their line -/

/-- **A script after which a line begins**, if one began before it. -/
def Script.EndsLine (s : Script) : Prop :=
  ∀ t : Sheet, t.page.atLineStart = true → (s.run t).page.atLineStart = true

namespace Script

variable {s a b : Script}

theorem endsLine_nil : EndsLine [] := fun _ h => h

theorem EndsLine.append (ha : a.EndsLine) (hb : b.EndsLine) : (a ++ b).EndsLine := by
  intro t ht
  rw [run_append]
  exact hb _ (ha t ht)

theorem endsLine_line (s : Script) : (s ++ line).EndsLine := by
  intro t _
  rw [run_append]
  show (s.run t).page.endLine.atLineStart = true
  unfold Page.endLine
  split
  · assumption
  · rfl

theorem endsLine_comments (style : CommentStyle) : (comments style []).EndsLine := by
  intro t ht
  show (Piece.run t (.comments style [])).page.atLineStart = true
  rwa [Piece.run_noComments]

theorem endsLine_flatMap {α : Type} {f : α → Script} {as : List α} (h : ∀ a ∈ as, (f a).EndsLine) :
    EndsLine (as.flatMap f) := by
  induction as with
  | nil => exact endsLine_nil
  | cons a as ih =>
    rw [List.flatMap_cons]
    exact (h a List.mem_cons_self).append (ih fun b hb => h b (List.mem_cons_of_mem a hb))

/-- **A steady script that ends its line** adds a text of its own to every page at the start of a
line, and leaves all else as it was. -/
theorem EndsLine.exists_text (hline : s.EndsLine) (hs : s.Steady noComment) (level width : Nat) :
    ∃ text, ∀ before taken, s.run ⟨⟨before, level, width, true⟩, taken⟩ =
      ⟨⟨before ++ text, level, width, true⟩, taken⟩ := by
  have hstart := hline ⟨⟨"", level, width, true⟩, []⟩ rfl
  refine ⟨(s.run ⟨⟨"", level, width, true⟩, []⟩).page.output, fun before taken => ?_⟩
  obtain ⟨hrun, hmeasure⟩ := run_under (p := ⟨"", level, width, true⟩) (hs level) before taken []
  obtain ⟨hlevel, hwidth⟩ := Prod.mk.inj hmeasure
  have hbefore : Page.under ⟨"", level, width, true⟩ before = ⟨before, level, width, true⟩ := by
    simp [Page.under]
  rw [hbefore] at hrun
  rw [hrun, Page.under, hlevel, hwidth, hstart]

end Script

/-- A node that ends its line as a statement. -/
def Printed.EndsLine (n : Printed) : Prop := (n .statement).EndsLine

theorem endsLine_printed (o : Options) (t : Node) :
    (t.annotate (printedRule o)).All Printed.EndsLine := by
  have hrule (h : Head) (s : Slots Printed) : Printed.EndsLine (printedRule o h s) :=
    endsLine_line _
  exact Tree.all_annotate (fun h s _ => hrule h s) t

section Program

variable {o : Options} {h : Head} {s : Slots Unit}

theorem script_program {tag : Tag} (htag : h.tag? = some tag) (hfamily : tag.family = .program) :
    script o (.mk () h s) = programText h (Tree.annotateSlots (printedRule o) s) h.comments := by
  have hprogram : (Tree.mk (fun _ => []) h
      (Tree.annotateSlots (printedRule o) s) : Tree Printed).head.family = .program := by
    show (h.tag?.map Tag.family).getD .expression = .program
    rw [htag]
    exact hfamily
  show familyText o (.mk (fun _ => []) h (Tree.annotateSlots (printedRule o) s)) h.comments = _
  rw [familyText, hprogram, ownText, hprogram]
  rfl

theorem endsLine_program (hh : h.is .program = true) (hcomments : h.comments = .none) :
    (script o (.mk () h s)).EndsLine := by
  have htag : h.tag? = some .program := beq_iff_eq.mp hh
  have hparts : ∀ c ∈ Slots.toList (Tree.annotateSlots (printedRule o) s),
      c.All Printed.EndsLine := (endsLine_printed o (.mk () h s)).parts
  have hstatements (f : Field) :
      (statements (Slots.children (Tree.annotateSlots (printedRule o) s) f)).EndsLine :=
    endsLine_flatMap fun c hc => (Slots.all_children hparts c hc).note
  have hinterpreter : (after ""
      (Slots.child? (Tree.annotateSlots (printedRule o) s) .interpreter) .statement).EndsLine := by
    cases hi : Slots.child? (Tree.annotateSlots (printedRule o) s) .interpreter with
    | none => exact endsLine_nil
    | some i => exact (Slots.all_child? hparts i hi).note
  rw [script_program htag rfl, programText, htag, hcomments]
  exact ((endsLine_comments _).append (((hinterpreter.append (hstatements _)).append
    (hstatements _)).append (endsLine_comments _))).append (endsLine_comments _)

theorem endsLine_file (hh : h.is .file = true) (hcomments : h.comments = .none) {p : Node}
    (hp : Slots.child? s .program = some p) (hprogram : (script o p).EndsLine) :
    (script o (.mk () h s)).EndsLine := by
  have htag : h.tag? = some .file := beq_iff_eq.mp hh
  rw [script_program htag rfl, programText, htag, hcomments]
  dsimp only
  rw [Slots.child_annotateSlots _ hp]
  exact ((endsLine_comments _).append hprogram).append (endsLine_comments _)

/-- **A program ends its line**, and so does a file that holds one. -/
theorem endsLine_script : ∀ {t : Node}, hasBody t = true → Uncommented t → (script o t).EndsLine
  | .mk () h s, hbody, .mk hcomments hbelow => by
    rcases Bool.or_eq_true_iff.mp hbody with hh | hfile
    · exact endsLine_program hh hcomments
    · obtain ⟨hh, hp⟩ := Bool.and_eq_true_iff.mp hfile
      cases hchild : Slots.child? s .program with
      | none => simp [Tree.slots, hchild] at hp
      | some p =>
        refine endsLine_file hh hcomments hchild ?_
        cases hbelow p (Slots.child?_mem hchild) with
        | mk here _ => exact endsLine_program (by simpa [Tree.slots, hchild] using hp) here

end Program

end Typeshift.Print

namespace Typeshift

open Print Normalize

variable {o : Options}

namespace Printer

/-- A printer between two programs: a line begins, and the margin is empty. -/
def rested (o : Options) (output : String) : Printer := ⟨o, ⟨⟨output, 0, o.indentWidth, true⟩, []⟩⟩

/-- **One program**: its text follows what was printed before, whatever that is. -/
theorem exists_print_rested {t : Node} (hbody : hasBody t = true) (ht : Uncommented t)
    (hprint : t.printError? = none) : ∃ text, printText o t = .ok text ∧
      ∀ before, (rested o before).print t = .ok (rested o (before ++ text)) := by
  have hsteady : (script o t).Steady noComment := (steady_printed o ht.eachComment).note .program
  obtain ⟨text, hrun⟩ := (endsLine_script hbody ht).exists_text hsteady 0 o.indentWidth
  have hstep (before : String) : (rested o before).print t = .ok (rested o (before ++ text)) := by
    rw [print, hprint]
    exact congrArg (fun sheet => Except.ok (Printer.mk o sheet)) (hrun before [])
  refine ⟨text, ?_, hstep⟩
  show ((rested o "").print t).map finish = _
  rw [hstep, String.empty_append]
  rfl

/-- **Many programs**: their texts follow each other. -/
theorem foldlM_rested {ts : List Node}
    (hts : ∀ t ∈ ts, hasBody t = true ∧ Uncommented t ∧ t.printError? = none) :
    ∃ texts, ts.mapM (printText o) = .ok texts ∧ ∀ before,
      ts.foldlM print (rested o before) = .ok (rested o (before ++ String.join texts)) := by
  induction ts with
  | nil =>
    refine ⟨[], rfl, fun before => ?_⟩
    rw [String.join_nil, String.append_empty]
    rfl
  | cons t ts ih =>
    obtain ⟨hbody, ht, hprint⟩ := hts t List.mem_cons_self
    obtain ⟨text, htext, hstep⟩ := exists_print_rested (o := o) hbody ht hprint
    obtain ⟨texts, htexts, hrun⟩ := ih fun u hu => hts u (List.mem_cons_of_mem t hu)
    refine ⟨text :: texts, ?_, fun before => ?_⟩
    · rw [List.mapM_cons, htext, htexts]
      rfl
    · rw [List.foldlM_cons, hstep]
      show ts.foldlM print (rested o (before ++ text)) = _
      rw [hrun, String.join_cons, String.append_assoc]

/-- **Programs are printed one by one.** Let some trees be programs, or files that hold one, without
comments, that can be printed. One printer prints them all, and what it has written is the text of
each of them, one after the other. After each of them a line begins, and the margin is what it was
before. -/
theorem foldlM_programs (o : Options) {ts : List Node}
    (hts : ∀ t ∈ ts, hasBody t = true ∧ Uncommented t ∧ t.printError? = none) :
    (∃ p texts, ts.foldlM print (new o) = .ok p ∧ ts.mapM (printText o) = .ok texts ∧
      p.finish = String.join texts) ∧
    ∀ before t rest, ts = before ++ t :: rest → ∃ p p', before.foldlM print (new o) = .ok p ∧
      p.print t = .ok p' ∧ p'.sheet.page.atLineStart = true ∧
      p'.sheet.page.level = p.sheet.page.level := by
  constructor
  · obtain ⟨texts, htexts, hrun⟩ := foldlM_rested (o := o) hts
    exact ⟨_, texts, hrun "", htexts, String.empty_append⟩
  · rintro before t rest rfl
    obtain ⟨texts, -, hrun⟩ := foldlM_rested (o := o) fun u hu => hts u (List.mem_append_left _ hu)
    obtain ⟨hbody, ht, hprint⟩ := hts t (List.mem_append_right before List.mem_cons_self)
    obtain ⟨text, -, hstep⟩ := exists_print_rested (o := o) hbody ht hprint
    exact ⟨_, _, hrun "", hstep _, rfl, rfl⟩

/-- A program with a namespace, a file that holds an empty program, and a program again. -/
def threePrograms : List Node :=
  [Target.program [Target.moduleDeclaration (Target.ident "M")
      (Target.moduleBlock [Target.statement (Target.ident "a")]) true],
    .of .file [] [(.program, .one (Target.program []))],
    Target.program [Target.statement (Target.ident "b")]]

theorem foldlM_programs_threePrograms :
    (∀ t ∈ threePrograms, hasBody t = true ∧ Uncommented t ∧ t.printError? = none) ∧
      ∃ p texts, threePrograms.foldlM print (new .standard) = .ok p ∧
        threePrograms.mapM (printText .standard) = .ok texts ∧ p.finish = String.join texts := by
  have hts : ∀ t ∈ threePrograms, hasBody t = true ∧ Uncommented t ∧ t.printError? = none := by
    unfold Uncommented
    decide
  exact ⟨hts, (foldlM_programs .standard hts).1⟩

example : (threePrograms.foldlM print (new .standard)).map finish =
    .ok "declare namespace M \x7b\n  a;\n\x7d\nb;\n" := by rfl

end Printer

end Typeshift
