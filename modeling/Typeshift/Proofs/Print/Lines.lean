import Typeshift.Proofs.Print.Chunk

/-! # The lines of a page

A page remembers whether something stands on its current line, and puts the margin in only when
something does. What it remembers is true of its text, so the text is known from the strokes alone:
nothing is put between what they write but the ends of lines that have begun and the margins of
lines that begin.

* `LineStart`: a line begins after a text.
* `Stroke`: what is done to a page. `Inserted`: what is put before the text of a stroke, by the text
  on the page and the level.
* `Composed`: the texts that strokes make. `run_strokes`: the page has the only one. -/

namespace Typeshift.Print

/-! ### Texts and lines -/

/-- A line begins after a text: it is empty or ends with a newline. -/
def LineStart (text : String) : Prop := text = "" ∨ text.toList.getLast? = some '\n'

instance (text : String) : Decidable (LineStart text) :=
  inferInstanceAs (Decidable (text = "" ∨ text.toList.getLast? = some '\n'))

/-- No line of a text is empty: none begins where a newline stands. -/
def NoEmptyLine (text : String) : Prop :=
  ∀ before after, text = before ++ "\n" ++ after → ¬ LineStart before

theorem lineStart_append {text s : String} (hs : s ≠ "") :
    LineStart (text ++ s) ↔ s.toList.getLast? = some '\n' := by
  have hne : s.toList ≠ [] := by simpa using hs
  rw [LineStart, String.append_eq_empty_iff, String.toList_append,
    List.getLast?_append_of_ne_nil _ hne]
  simp [hs]

/-- A newline in two texts stands in the first or in the second. -/
theorem newline_append {text s before after : String} (h : text ++ s = before ++ "\n" ++ after) :
    (∃ rest, text = before ++ "\n" ++ rest) ∨
      ∃ rest, before = text ++ rest ∧ s = rest ++ "\n" ++ after := by
  have h : text.toList ++ s.toList = (before.toList ++ ['\n']) ++ after.toList := by
    simpa using congrArg String.toList h
  simp only [← String.toList_inj, String.toList_append]
  rcases List.append_eq_append_iff.mp h with ⟨rest, hbefore, hs⟩ | ⟨rest, htext, -⟩
  · rcases List.eq_nil_or_concat' rest with rfl | ⟨rest, c, rfl⟩
    · exact .inl ⟨"", by simpa using hbefore.symm⟩
    · obtain ⟨hbefore, hc⟩ := List.append_inj' (hbefore.trans (List.append_assoc _ _ _).symm) rfl
      exact .inr ⟨String.ofList rest, by simpa using hbefore, by simpa [← hc] using hs⟩
  · exact .inl ⟨String.ofList rest, by simpa using htext⟩

theorem NoEmptyLine.append {text s : String} (h : NoEmptyLine text) (hs : '\n' ∉ s.toList) :
    NoEmptyLine (text ++ s) := by
  intro before after heq
  rcases newline_append heq with ⟨rest, htext⟩ | ⟨rest, -, rfl⟩
  · exact h before rest htext
  · simp at hs

theorem NoEmptyLine.lineEnd {text : String} (h : NoEmptyLine text) (hbegun : ¬ LineStart text) :
    NoEmptyLine (text ++ "\n") := by
  intro before after heq
  rcases newline_append heq with ⟨rest, htext⟩ | ⟨rest, rfl, hrest⟩
  · exact h before rest htext
  · have hlength : "\n".length = rest.length + "\n".length + after.length := by
      rw [← String.length_append, ← String.length_append, ← hrest]
    obtain rfl : rest = "" := String.length_eq_zero_iff.mp (by omega)
    rwa [String.append_empty]

/-! ### Strokes -/

/-- What is done to a page. -/
inductive Stroke where
  | write (s : String)
  | writeChar (c : Char)
  | writeRaw (s : String)
  | space
  | endLine
  | indent
  | dedent
  deriving DecidableEq, Repr

namespace Stroke

/-- The page after a stroke. -/
def run (p : Page) : Stroke → Page
  | .write s => p.write s
  | .writeChar c => p.writeChar c
  | .writeRaw s => p.writeRaw s
  | .space => p.space
  | .endLine => p.endLine
  | .indent => p.indent
  | .dedent => p.dedent

/-- The text that a stroke writes. -/
def text : Stroke → String
  | .write s | .writeRaw s => s
  | .writeChar c => String.singleton c
  | .space => " "
  | .endLine | .indent | .dedent => ""

/-- The level of the lines after a stroke, as a plain number: it is raised without a bound, and
stays at `0` if it is lowered there. -/
def levelAfter (level : Nat) : Stroke → Nat
  | .indent => level + 1
  | .dedent => level - 1
  | _ => level

/-- What is to be written without line breaks has none. -/
def Unbroken : Stroke → Prop
  | .write s => '\n' ∉ s.toList
  | .writeChar c => c ≠ '\n'
  | _ => True

instance : (a : Stroke) → Decidable a.Unbroken
  | .write s => inferInstanceAs (Decidable ('\n' ∉ s.toList))
  | .writeChar c => inferInstanceAs (Decidable (c ≠ '\n'))
  | .writeRaw _ | .space | .endLine | .indent | .dedent => .isTrue trivial

theorem newline_not_mem_text {a : Stroke} (ha : a.Unbroken) (hraw : ∀ s, a ≠ .writeRaw s) :
    '\n' ∉ a.text.toList := by
  cases a with
  | write s => exact ha
  | writeChar c => simpa [text] using ha.symm
  | writeRaw s => exact absurd rfl (hraw s)
  | space | endLine | indent | dedent => decide

end Stroke

/-- **What is put before the text of a stroke**, after some text and at a level: the end of a line
that has begun, if the stroke ends lines; the margin, if it writes the first text of a line. -/
inductive Inserted (width level : Nat) (before : String) (a : Stroke) : String → Prop where
  | lineEnd (ends : a = .endLine) (begun : ¬ LineStart before) : Inserted width level before a "\n"
  | margin (writes : a.text ≠ "") (start : LineStart before) :
    Inserted width level before a (String.ofList (List.replicate (level * width) ' '))
  | nothing (ends : a = .endLine → LineStart before) (writes : a.text ≠ "" → ¬ LineStart before) :
    Inserted width level before a ""

theorem Inserted.unique {width level : Nat} {before s s' : String} {a : Stroke}
    (h : Inserted width level before a s) (h' : Inserted width level before a s') : s = s' := by
  cases h with
  | lineEnd ends begun =>
    cases h' with
    | lineEnd _ _ => rfl
    | margin writes start => exact absurd start begun
    | nothing ends' _ => exact absurd (ends' ends) begun
  | margin writes start =>
    cases h' with
    | lineEnd _ begun => exact absurd start begun
    | margin _ _ => rfl
    | nothing _ writes' => exact absurd start (writes' writes)
  | nothing ends writes =>
    cases h' with
    | lineEnd ends' begun => exact absurd (ends ends') begun
    | margin writes' start => exact absurd start (writes writes')
    | nothing _ _ => rfl

/-- **The texts that strokes make**, from a level and a text on: the text of each stroke follows
what is put before it. -/
inductive Composed (width : Nat) : Nat → String → List Stroke → String → Prop where
  | nil {level : Nat} {text : String} : Composed width level text [] text
  | cons {level : Nat} {before s text : String} {a : Stroke} {rest : List Stroke}
    (inserted : Inserted width level before a s)
    (more : Composed width (a.levelAfter level) (before ++ s ++ a.text) rest text) :
    Composed width level before (a :: rest) text

/-! ### Pages that know their line -/

namespace Page

/-- **A page that knows its line**: it says that a line begins exactly if one does. -/
def Truthful (p : Page) : Prop := p.atLineStart = true ↔ LineStart p.output

theorem truthful_empty (width : Nat) : (empty width).Truthful :=
  iff_of_true rfl (.inl rfl)

theorem atLineStart_beginLine (p : Page) : p.beginLine.atLineStart = false := by
  unfold beginLine
  split
  · rfl
  · exact Bool.eq_false_iff.mpr ‹_›

theorem output_beginLine (p : Page) :
    p.beginLine.output = p.output ++ if p.atLineStart then p.margin else "" := by
  unfold beginLine
  split
  · rfl
  · exact String.append_empty.symm

/-- **A page after a stroke**: it knows its line, and what the stroke writes follows what is put
before it. -/
structure Follows (p : Page) (a : Stroke) (q : Page) : Prop where
  truthful : q.Truthful
  output : ∃ s, Inserted p.width p.level p.output a s ∧ q.output = p.output ++ s ++ a.text

section Step

variable {p q : Page} (hp : p.Truthful) {a : Stroke}

include hp

/-- A stroke that writes text on the current line. -/
theorem Truthful.written (hwrites : a.text ≠ "") (houtput : q.output = p.beginLine.output ++ a.text)
    (hstart : q.atLineStart = true ↔ a.text.toList.getLast? = some '\n') : p.Follows a q := by
  refine ⟨?_, ?_⟩
  · rw [Truthful, hstart, houtput, lineStart_append hwrites]
  · rw [houtput, output_beginLine]
    split
    · next h => exact ⟨_, .margin hwrites (hp.mp h), rfl⟩
    · next h =>
      have hends : a = .endLine → LineStart p.output := by
        rintro rfl
        exact absurd rfl hwrites
      exact ⟨"", .nothing hends fun _ => mt hp.mpr h, rfl⟩

/-- A stroke that leaves the text alone. -/
theorem Truthful.unwritten (htext : a.text = "") (hends : a = .endLine → LineStart p.output)
    (houtput : q.output = p.output) (hstart : q.atLineStart = p.atLineStart) : p.Follows a q := by
  refine ⟨by rw [Truthful, hstart, houtput]; exact hp, "", .nothing hends (absurd htext), ?_⟩
  rw [houtput, htext, String.append_empty, String.append_empty]

/-- **One stroke** on a page that knows its line. -/
theorem Truthful.run (ha : a.Unbroken) : p.Follows a (a.run p) := by
  have hbegun := Bool.eq_false_iff.mp p.atLineStart_beginLine
  cases a with
  | write s =>
    by_cases hs : s = ""
    · subst hs
      exact hp.unwritten rfl nofun rfl rfl
    · have hrun : p.write s = p.beginLine.append s := if_neg (by simpa using hs)
      refine hp.written hs (congrArg output hrun) ?_
      show (p.write s).atLineStart = true ↔ s.toList.getLast? = some '\n'
      rw [hrun]
      refine iff_of_false hbegun fun hlast => ?_
      exact ha (List.mem_of_getLast? hlast)
  | writeChar c =>
    refine hp.written (by simp [Stroke.text]) rfl ?_
    refine iff_of_false hbegun fun hlast => ?_
    exact ha (by simpa [Stroke.text] using hlast)
  | writeRaw s =>
    by_cases hs : s = ""
    · subst hs
      exact hp.unwritten rfl nofun rfl rfl
    · have hrun : p.writeRaw s =
          { p.beginLine.append s with atLineStart := s.toList.getLast? == some '\n' } :=
        if_neg (by simpa using hs)
      refine hp.written hs (congrArg output hrun) ?_
      show (p.writeRaw s).atLineStart = true ↔ s.toList.getLast? = some '\n'
      rw [hrun]
      exact beq_iff_eq
  | space =>
    exact hp.written (by decide) rfl (iff_of_false hbegun (by decide))
  | endLine =>
    by_cases hstart : p.atLineStart = true
    · have hrun : p.endLine = p := if_pos hstart
      exact hp.unwritten rfl (fun _ => hp.mp hstart) (congrArg output hrun)
        (congrArg atLineStart hrun)
    · have hrun : p.endLine = { p.append "\n" with atLineStart := true } := if_neg hstart
      show p.Follows .endLine p.endLine
      rw [hrun]
      exact ⟨iff_of_true rfl ((lineStart_append (by decide)).mpr rfl), "\n",
        .lineEnd rfl (mt hp.mpr hstart), String.append_empty.symm⟩
  | indent | dedent => exact hp.unwritten rfl nofun rfl rfl

end Step

theorem measure_run (p : Page) (a : Stroke) :
    (a.run p).measure = (a.levelAfter p.level, p.width) := by
  cases a with
  | write s => exact p.measure_write s
  | writeChar c => exact p.measure_beginLine
  | writeRaw s => exact p.measure_writeRaw s
  | space => exact p.measure_space
  | endLine => exact p.measure_endLine
  | indent | dedent => rfl

/-- The page after some strokes. -/
def runAll (p : Page) (strokes : List Stroke) : Page := strokes.foldl Stroke.run p

/-- **Many strokes**: the page still knows its line, and has the only text that they make. -/
theorem Truthful.runAll {p : Page} (hp : p.Truthful) {strokes : List Stroke}
    (h : ∀ a ∈ strokes, a.Unbroken) : (p.runAll strokes).Truthful ∧ ∀ text,
      Composed p.width p.level p.output strokes text ↔ text = (p.runAll strokes).output := by
  induction strokes generalizing p with
  | nil =>
    refine ⟨hp, fun text => ⟨fun hcomposed => ?_, ?_⟩⟩
    · cases hcomposed with
      | nil => rfl
    · rintro rfl
      exact .nil
  | cons a strokes ih =>
    obtain ⟨hrun, s, hinserted, houtput⟩ : p.Follows a (a.run p) := hp.run (h a List.mem_cons_self)
    obtain ⟨hlevel, hwidth⟩ := Prod.mk.inj (p.measure_run a)
    obtain ⟨hall, hmore⟩ := ih hrun fun b hb => h b (List.mem_cons_of_mem a hb)
    rw [hlevel, hwidth, houtput] at hmore
    refine ⟨hall, fun text => Iff.trans ⟨fun hcomposed => ?_, .cons hinserted⟩ (hmore text)⟩
    cases hcomposed with
    | cons inserted more => exact inserted.unique hinserted ▸ more

end Page

/-- Without raw text no line is empty. -/
theorem Composed.noEmptyLine {width level : Nat} {before text : String} {strokes : List Stroke}
    (h : Composed width level before strokes text) (hunbroken : ∀ a ∈ strokes, a.Unbroken)
    (hraw : ∀ s, .writeRaw s ∉ strokes) (hbefore : NoEmptyLine before) : NoEmptyLine text := by
  induction h with
  | nil => exact hbefore
  | @cons level before s text a rest inserted _ ih =>
    refine ih (fun b hb => hunbroken b (List.mem_cons_of_mem a hb))
      (fun t ht => hraw t (List.mem_cons_of_mem a ht)) ?_
    have htext : '\n' ∉ a.text.toList :=
      Stroke.newline_not_mem_text (hunbroken a List.mem_cons_self) fun t ht =>
        hraw t (ht ▸ List.mem_cons_self)
    refine NoEmptyLine.append ?_ htext
    cases inserted with
    | lineEnd _ begun => exact hbefore.lineEnd begun
    | margin _ _ => exact hbefore.append (by simp)
    | nothing _ _ => rwa [String.append_empty]

/-- **What a page says of its line is true.** Let strokes be done to an empty page, where what is to
be written without line breaks has none. The page says that a line begins exactly if its text is
empty or ends with a newline. Its text is the only one that the strokes make: what they write, one
after the other, with the ends of lines that have begun and the margins of lines that begin put in;
so without raw text no line is empty. At the end the last line is ended, if it has begun. -/
theorem Page.run_strokes (width : Nat) {strokes : List Stroke} (h : ∀ a ∈ strokes, a.Unbroken) :
    let p := (empty width).runAll strokes
    (p.atLineStart = true ↔ LineStart p.output) ∧
      (∀ text, Composed width 0 "" strokes text ↔ text = p.output) ∧
      ((∀ s, .writeRaw s ∉ strokes) → NoEmptyLine p.output) ∧
      LineStart p.finish ∧
      p.finish = if LineStart p.output then p.output else p.output ++ "\n" := by
  intro p
  obtain ⟨htruthful, hcomposed⟩ := (truthful_empty width).runAll h
  have hempty : NoEmptyLine "" := by
    intro before after heq
    exact absurd (String.append_eq_empty_iff.mp (String.append_eq_empty_iff.mp heq.symm).1).2
      (by decide)
  have hfinish : p.finish = if LineStart p.output then p.output else p.output ++ "\n" := by
    rw [finish, endLine, apply_ite output]
    exact if_congr htruthful rfl rfl
  refine ⟨htruthful, hcomposed, fun hraw => ?_, ?_, hfinish⟩
  · exact ((hcomposed _).mpr rfl).noEmptyLine h hraw hempty
  · rw [hfinish]
    split
    · assumption
    · exact (lineStart_append (by decide)).mpr rfl

/-- A comment over two lines in a block, with a line ended twice and the level lowered once too
often. -/
def commentedBlock : List Stroke :=
  [.write "\x7b", .indent, .endLine, .endLine, .write "", .writeRaw "/*\n*/", .space,
    .writeChar 'a', .dedent, .dedent, .endLine, .write "\x7d"]

theorem run_strokes_commentedBlock :
    (∀ a ∈ commentedBlock, a.Unbroken) ∧
      Composed 2 0 "" commentedBlock "\x7b\n  /*\n*/ a\n\x7d" ∧
      ((Page.empty 2).runAll commentedBlock).finish = "\x7b\n  /*\n*/ a\n\x7d\n" := by
  have h : ∀ a ∈ commentedBlock, a.Unbroken := by decide
  obtain ⟨-, hcomposed, -, -, hfinish⟩ := Page.run_strokes 2 h
  exact ⟨h, (hcomposed _).mpr (by decide), hfinish.trans (by decide)⟩

end Typeshift.Print
