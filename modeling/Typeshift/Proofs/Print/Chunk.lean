import Typeshift.Proofs.Print.Steady

/-! # What a script adds to a page

A script without comments sees of the page only the margin and whether the line has begun. So what
it adds in the middle of a line is a text of its own.

* `Piece.run_under`, `Script.run_under`: what is on the page before does not matter.
* `Script.chunk`: what a script adds in the middle of a line. `run_eq_chunk`: it adds that to every
  page that has begun its line. -/

namespace Typeshift.Print

/-- What is put on a page: some text, and whether the page is at the start of a line after it. -/
structure Chunk where
  text : String
  endsLine : Bool
  deriving DecidableEq, Repr

/-- A page with some text before all that is on it. -/
def Page.under (p : Page) (before : String) : Page := { p with output := before ++ p.output }

namespace Page

variable (p : Page) (before s : String)

@[simp] theorem append_under : (p.under before).append s = (p.append s).under before := by
  simp [under, append, String.append_assoc]

@[simp] theorem beginLine_under : (p.under before).beginLine = p.beginLine.under before := by
  have hstart : (p.under before).atLineStart = p.atLineStart := rfl
  unfold beginLine
  rw [hstart]
  split
  · show ({ (p.under before).append p.margin with atLineStart := false } : Page) =
      ({ p.append p.margin with atLineStart := false } : Page).under before
    rw [append_under]
    rfl
  · rfl

@[simp] theorem write_under : (p.under before).write s = (p.write s).under before := by
  unfold write
  split <;> simp

@[simp] theorem writeRaw_under : (p.under before).writeRaw s = (p.writeRaw s).under before := by
  unfold writeRaw
  split
  · rfl
  · rw [beginLine_under, append_under]
    rfl

@[simp] theorem space_under : (p.under before).space = p.space.under before := by
  simp [space, writeChar]

@[simp] theorem endLine_under : (p.under before).endLine = p.endLine.under before := by
  have hstart : (p.under before).atLineStart = p.atLineStart := rfl
  unfold endLine
  rw [hstart, append_under]
  split <;> rfl

/-- The level and the width of a step on a page. -/
def measure : Nat × Nat := (p.level, p.width)

@[simp] theorem measure_beginLine : p.beginLine.measure = p.measure := by
  unfold beginLine
  split <;> rfl

@[simp] theorem measure_append : (p.append s).measure = p.measure := rfl

@[simp] theorem measure_write : (p.write s).measure = p.measure := by
  unfold write
  split <;> simp

@[simp] theorem measure_writeRaw : (p.writeRaw s).measure = p.measure := by
  unfold writeRaw
  split
  · rfl
  · exact measure_beginLine p

@[simp] theorem measure_space : p.space.measure = p.measure := measure_beginLine p

@[simp] theorem measure_endLine : p.endLine.measure = p.measure := by
  unfold endLine
  split <;> rfl

end Page

/-- **What a script adds in the middle of a line**, at a level and with a width of a step. -/
def Script.chunk (s : Script) (level width : Nat) : Chunk :=
  let page := (s.run ⟨⟨"", level, width, false⟩, []⟩).page
  ⟨page.output, page.atLineStart⟩

theorem Piece.run_noComments (t : Sheet) (style : CommentStyle) :
    Piece.run t (.comments style []) = t := by
  cases style <;> simp [Piece.run, pickFresh, Page.writeComments, Page.writeSpaced]

/-- A piece without comments does not see what is on the page, nor which comments are. -/
theorem Piece.run_under {piece : Piece} {p : Page} {level : Nat}
    (h : piece.levelAfter noComment p.level = some level) (before : String)
    (taken taken' : List (Nat × Nat)) :
    piece.run ⟨p.under before, taken⟩ = ⟨(piece.run ⟨p, taken'⟩).page.under before, taken⟩ ∧
      (piece.run ⟨p, taken'⟩).page.measure = (level, p.width) := by
  cases piece with
  | text s =>
    cases h
    exact ⟨congrArg (Sheet.mk · taken) (p.write_under before s), p.measure_write s⟩
  | raw s =>
    cases h
    exact ⟨congrArg (Sheet.mk · taken) (p.writeRaw_under before s), p.measure_writeRaw s⟩
  | space =>
    cases h
    exact ⟨congrArg (Sheet.mk · taken) (p.space_under before), p.measure_space⟩
  | line =>
    cases h
    exact ⟨congrArg (Sheet.mk · taken) (p.endLine_under before), p.measure_endLine⟩
  | indent | dedent =>
    cases h
    exact ⟨rfl, rfl⟩
  | apart s =>
    cases h
    exact ⟨congrArg (Sheet.mk · taken) (p.write_under before _), p.measure_write _⟩
  | comments style cs =>
    cases cs with
    | nil =>
      cases h
      rw [Piece.run_noComments, Piece.run_noComments]
      exact ⟨rfl, rfl⟩
    | cons c cs => cases h

namespace Script

theorem run_under {s : Script} {p : Page} {level : Nat}
    (h : s.levelAfter noComment p.level = some level)
    (before : String) (taken taken' : List (Nat × Nat)) :
    s.run ⟨p.under before, taken⟩ = ⟨(s.run ⟨p, taken'⟩).page.under before, taken⟩ ∧
      (s.run ⟨p, taken'⟩).page.measure = (level, p.width) := by
  induction s generalizing p taken' with
  | nil =>
    cases h
    exact ⟨rfl, rfl⟩
  | cons piece s ih =>
    obtain ⟨next, hnext, h⟩ := Option.bind_eq_some_iff.mp h
    obtain ⟨hpiece, hmeasure⟩ := Piece.run_under hnext before taken taken'
    obtain ⟨hlevel, hwidth⟩ := Prod.mk.inj hmeasure
    have hrest := ih (p := (piece.run ⟨p, taken'⟩).page) (hlevel ▸ h) (piece.run ⟨p, taken'⟩).taken
    rw [hwidth] at hrest
    refine ⟨?_, hrest.2⟩
    show Script.run (piece.run ⟨p.under before, taken⟩) s = _
    rw [hpiece]
    exact hrest.1

/-- **A steady script adds its chunk** to a page that has begun its line. -/
theorem run_eq_chunk {s : Script} (hs : s.Steady noComment) (t : Sheet)
    (ht : t.page.atLineStart = false) :
    s.run t = { t with page := { t.page with
      output := t.page.output ++ (s.chunk t.page.level t.page.width).text
      atLineStart := (s.chunk t.page.level t.page.width).endsLine } } := by
  obtain ⟨⟨output, level, width, atLineStart⟩, taken⟩ := t
  cases ht
  obtain ⟨hrun, hmeasure⟩ := run_under (p := ⟨"", level, width, false⟩) (hs level) output taken []
  obtain ⟨hlevel, hwidth⟩ := Prod.mk.inj hmeasure
  have hunder : Page.under ⟨"", level, width, false⟩ output = ⟨output, level, width, false⟩ := by
    simp [Page.under]
  rw [hunder] at hrun
  rw [hrun]
  unfold Page.under chunk
  rw [hlevel, hwidth]

end Script

/-- A page at the start of a line is not empty. -/
def Page.Marked (p : Page) : Prop := p.atLineStart = true → p.output ≠ ""

namespace Page.Marked

variable {p : Page}

theorem space : p.space.Marked := by
  intro hstart
  unfold Page.space writeChar beginLine append at hstart
  split at hstart
  · cases hstart
  · exact absurd hstart ‹_›

variable (h : p.Marked)
include h

theorem write (s : String) : (p.write s).Marked := by
  unfold Page.write
  split
  · exact h
  · intro hstart
    unfold beginLine append at hstart
    split at hstart
    · cases hstart
    · exact absurd hstart ‹_›

theorem writeRaw (s : String) : (p.writeRaw s).Marked := by
  unfold Page.writeRaw
  split
  · exact h
  · next hs =>
    intro _ hempty
    obtain ⟨-, hs'⟩ := String.append_eq_empty_iff.mp hempty
    simp [hs'] at hs

theorem endLine : p.endLine.Marked := by
  unfold Page.endLine
  split
  · exact h
  · intro _ hempty
    exact absurd (String.append_eq_empty_iff.mp hempty).2 (by decide)

end Page.Marked

theorem Piece.marked_run {piece : Piece} {t : Sheet} {level : Nat} (ht : t.page.Marked)
    (h : piece.levelAfter noComment t.page.level = some level) : (piece.run t).page.Marked := by
  cases piece with
  | text s => exact ht.write s
  | raw s => exact ht.writeRaw s
  | space => exact Page.Marked.space
  | line => exact ht.endLine
  | indent | dedent => exact ht
  | apart s => exact ht.write _
  | comments style cs =>
    cases cs with
    | nil => rwa [Piece.run_noComments]
    | cons c cs => cases h

theorem Script.marked_run {s : Script} {t : Sheet} {level : Nat} (ht : t.page.Marked)
    (h : s.levelAfter noComment t.page.level = some level) : (s.run t).page.Marked := by
  induction s generalizing t with
  | nil => exact ht
  | cons piece s ih =>
    obtain ⟨next, hnext, h⟩ := Option.bind_eq_some_iff.mp h
    have hmeasure := (Piece.run_under hnext "" t.taken t.taken).2
    exact ih (Piece.marked_run ht hnext) ((Prod.mk.inj hmeasure).1 ▸ h)

/-- A chunk that ends its line is not empty. -/
theorem Script.chunk_text_ne {s : Script} (hs : s.Steady noComment) {level width : Nat}
    (h : (s.chunk level width).endsLine = true) : (s.chunk level width).text ≠ "" :=
  marked_run (t := ⟨⟨"", level, width, false⟩, []⟩) nofun (hs level) h

end Typeshift.Print
