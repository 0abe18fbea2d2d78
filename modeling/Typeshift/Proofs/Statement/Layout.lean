import Typeshift.Print.Printer
import Typeshift.Proofs.Expression.Layout
import Typeshift.Proofs.Statement.Grammar

/-! # Lines of statements

A script that writes statements ends lines where statements end. What it writes is described by
*cells*, without the margins of the lines: tokens, spaces and the ends of lines. A cell that ends a
line does nothing where one begins, so how a text is read depends only on its cells.

* `Renders`: the text of cells. `Typeset`: a script writes cells, no two of which run together.
* `Strip.typeset`: what is laid out on one line. `Typeset.append`, `Typeset.lines`: parts put
  together.
* `lexemes_finish`: the lexemes of the text are those of the cells. -/

namespace Typeshift.Statement

open Expression Print Script

/-! ### Cells -/

/-- What a script of statements writes. -/
inductive Cell where
  | item (i : Item)
  /-- The end of a line, unless one begins. -/
  | line
  /-- A space, unless a line begins. -/
  | apart

namespace Cell

/-- Whether a cell is no token. -/
def isBlank : Cell → Bool
  | item (.token _) => false
  | _ => true

/-- Two cells do not run together. -/
def Apart (A : Alphabet) : Cell → Cell → Prop
  | item (.token t), item (.token u) => ∀ c ∈ u.text.toList.head?, t.stops A c = true
  | _, _ => True

theorem apart_of_isBlank_left (A : Alphabet) {x : Cell} (h : x.isBlank = true) (y : Cell) :
    Apart A x y := by
  unfold Apart
  split
  · cases h
  · trivial

theorem apart_of_isBlank_right (A : Alphabet) (x : Cell) {y : Cell} (h : y.isBlank = true) :
    Apart A x y := by
  unfold Apart
  split
  · cases h
  · trivial

end Cell

/-- Cells that are what they say, no two of which run together. -/
structure Clear (A : Alphabet) (cells : List Cell) : Prop where
  spelled : ∀ i, Cell.item i ∈ cells → i.IsSpelled A
  apart : cells.IsChain (Cell.Apart A)

/-- **The text of cells**: whether a line begins before them, their characters, and whether a line
begins after them. A line may have any margin. -/
inductive Renders : Bool → List Cell → List Char → Bool → Prop where
  | nil (b : Bool) : Renders b [] [] b
  | item {i : Item} {cells : List Cell} {cs : List Char} {b : Bool}
      (more : Renders false cells cs b) : Renders false (.item i :: cells) (i.chars ++ cs) b
  | margin {i : Item} {cells : List Cell} {cs : List Char} {b : Bool} (n : Nat)
      (more : Renders false cells cs b) :
    Renders true (.item i :: cells) (List.replicate n ' ' ++ (i.chars ++ cs)) b
  | line {cells : List Cell} {cs : List Char} {b : Bool} (more : Renders true cells cs b) :
    Renders false (.line :: cells) ('\n' :: cs) b
  | lineStart {cells : List Cell} {cs : List Char} {b : Bool} (more : Renders true cells cs b) :
    Renders true (.line :: cells) cs b
  | apart {cells : List Cell} {cs : List Char} {b : Bool} (more : Renders false cells cs b) :
    Renders false (.apart :: cells) (' ' :: cs) b
  | apartStart {cells : List Cell} {cs : List Char} {b : Bool} (more : Renders true cells cs b) :
    Renders true (.apart :: cells) cs b

theorem Renders.append {b b' b'' : Bool} {cells cells' : List Cell} {cs cs' : List Char}
    (h : Renders b cells cs b') (h' : Renders b' cells' cs' b'') :
    Renders b (cells ++ cells') (cs ++ cs') b'' := by
  induction h with
  | nil => exact h'
  | item _ ih =>
    rw [List.append_assoc]
    exact .item (ih h')
  | margin n _ ih =>
    rw [List.append_assoc, List.append_assoc]
    exact .margin n (ih h')
  | line _ ih => exact .line (ih h')
  | lineStart _ ih => exact .lineStart (ih h')
  | apart _ ih => exact .apart (ih h')
  | apartStart _ ih => exact .apartStart (ih h')

theorem renders_items (l : List Item) : Renders false (l.map .item) (spell l) false := by
  induction l with
  | nil => exact .nil false
  | cons i l ih => exact .item ih

/-! ### Scripts and their cells -/

/-- A script writes cells. -/
def Fills (s : Script) (cells : List Cell) : Prop :=
  ∀ t : Sheet, ∃ cs, (Script.run t s).page.output.toList = t.page.output.toList ++ cs ∧
    Renders t.page.atLineStart cells cs (Script.run t s).page.atLineStart

theorem fills_nil : Fills [] [] := fun t => ⟨[], by simp, .nil _⟩

theorem Fills.append {s s' : Script} {cells cells' : List Cell} (h : Fills s cells)
    (h' : Fills s' cells') : Fills (s ++ s') (cells ++ cells') := by
  intro t
  obtain ⟨cs, houtput, hrenders⟩ := h t
  obtain ⟨cs', houtput', hrenders'⟩ := h' (Script.run t s)
  refine ⟨cs ++ cs', ?_, ?_⟩
  · rw [Script.run_append, houtput', houtput, List.append_assoc]
  · rw [Script.run_append]
    exact hrenders.append hrenders'

theorem fills_line : Fills line [.line] := by
  intro t
  show ∃ cs, t.page.endLine.output.toList = _ ∧ Renders _ _ cs t.page.endLine.atLineStart
  unfold Page.endLine
  cases hstart : t.page.atLineStart with
  | true => exact ⟨[], by simp, by simpa [hstart] using .lineStart (.nil true)⟩
  | false => exact ⟨['\n'], by simp [Page.append], .line (.nil true)⟩

theorem fills_indent : Fills [.indent] [] := fun t =>
  ⟨[], by simp [Script.run, Piece.run, Page.indent], .nil _⟩

theorem fills_dedent : Fills [.dedent] [] := fun t =>
  ⟨[], by simp [Script.run, Piece.run, Page.dedent], .nil _⟩

theorem fills_of_writes_nil {s : Script} (h : Writes s []) : Fills s [] := by
  intro t
  rw [h t, Sheet.add_nil]
  exact ⟨[], by simp, .nil _⟩

/-- The text of a line that is written. -/
theorem renders_write (p : Page) {i : Item} {l : List Item} {cs : List Char}
    (hcs : spell (i :: l) = cs) (hne : cs ≠ []) :
    ∃ ds, (p.write (String.ofList cs)).output.toList = p.output.toList ++ ds ∧
      Renders p.atLineStart ((i :: l).map .item) ds (p.write (String.ofList cs)).atLineStart := by
  have hempty : (String.ofList cs).isEmpty = false := by
    cases cs with
    | nil => exact absurd rfl hne
    | cons c cs => simp
  unfold Page.write
  rw [hempty]
  cases hstart : p.atLineStart with
  | false =>
    refine ⟨cs, by simp [Page.append, Page.beginLine, hstart], ?_⟩
    have hitems := renders_items (i :: l)
    rw [hcs] at hitems
    simpa [Page.append, Page.beginLine, hstart] using hitems
  | true =>
    refine ⟨List.replicate (p.level * p.width) ' ' ++ cs,
      by simp [Page.append, Page.beginLine, Page.margin, hstart], ?_⟩
    have hmargin := Renders.margin (i := i) (p.level * p.width) (renders_items l)
    rw [show i.chars ++ spell l = cs from hcs] at hmargin
    simpa [Page.append, Page.beginLine, hstart] using hmargin

theorem spell_ne_nil {A : Alphabet} {i : Item} {l : List Item} (h : i.IsSpelled A) :
    spell (i :: l) ≠ [] := by
  obtain ⟨c, cs, hc⟩ := Item.exists_chars h
  simp [spell, hc]

theorem fills_of_writes {A : Alphabet} {s : Script} {l : List Item} (h : Writes s (spell l))
    (hl : ∀ i ∈ l, i.IsSpelled A) : Fills s (l.map .item) := by
  cases l with
  | nil => exact fills_of_writes_nil h
  | cons i l =>
    intro t
    rw [h t]
    exact renders_write t.page rfl (spell_ne_nil (hl i List.mem_cons_self))

/-- A text that is set off by a space. -/
theorem fills_apart {A : Alphabet} {text : String} {i : Item} {l : List Item}
    (htext : text.toList = spell (i :: l)) (hi : i.IsSpelled A) :
    Fills [.apart text] (.apart :: (i :: l).map .item) := by
  intro t
  have hne : spell (i :: l) ≠ [] := spell_ne_nil hi
  show ∃ cs, (t.page.write (if t.page.atLineStart then text else " " ++ text)).output.toList = _ ∧
    Renders _ _ cs (t.page.write (if t.page.atLineStart then text else " " ++ text)).atLineStart
  cases hstart : t.page.atLineStart with
  | true =>
    obtain ⟨ds, houtput, hrenders⟩ := renders_write t.page (i := i) (l := l) rfl hne
    rw [← htext, String.ofList_toList] at houtput hrenders
    rw [hstart] at hrenders
    exact ⟨ds, houtput, .apartStart hrenders⟩
  | false =>
    obtain ⟨ds, houtput, hrenders⟩ := renders_write t.page (i := .gap ' ') (l := i :: l)
      (by rw [htext]; rfl : _ = ' ' :: text.toList) (List.cons_ne_nil _ _)
    have hspaced : String.ofList (' ' :: text.toList) = " " ++ text := by
      apply String.toList_inj.mp
      simp
    rw [hspaced] at houtput hrenders
    rw [hstart] at hrenders
    refine ⟨ds, houtput, ?_⟩
    cases hrenders with
    | item more => exact .apart more

/-! ### Clear cells -/

section Clear

variable {A : Alphabet} {cells cells' : List Cell} {s s' : Script}

theorem clear_nil : Clear A [] := ⟨by simp, .nil⟩

theorem clear_line : Clear A [.line] := ⟨by simp, .singleton _⟩

theorem clear_apart : Clear A [.apart] := ⟨by simp, .singleton _⟩

/-- Cells that do not run together where they meet. -/
def Joins (cells cells' : List Cell) : Prop :=
  (∀ x ∈ cells.getLast?, x.isBlank = true) ∨ ∀ y ∈ cells'.head?, y.isBlank = true

theorem Clear.append (h : Clear A cells) (h' : Clear A cells') (hj : Joins cells cells') :
    Clear A (cells ++ cells') where
  spelled i hi := (List.mem_append.mp hi).elim (h.spelled i) (h'.spelled i)
  apart := by
    refine List.isChain_append.mpr ⟨h.apart, h'.apart, fun x hx y hy => ?_⟩
    rcases hj with hj | hj
    · exact Cell.apart_of_isBlank_left A (hj x hx) y
    · exact Cell.apart_of_isBlank_right A x (hj y hy)

/-- **A script writes cells**, no two of which run together. -/
structure Typeset (A : Alphabet) (s : Script) (cells : List Cell) : Prop where
  fills : Fills s cells
  clear : Clear A cells

namespace Typeset

theorem nil : Typeset A [] [] := ⟨fills_nil, clear_nil⟩

theorem line : Typeset A Script.line [.line] := ⟨fills_line, clear_line⟩

theorem append (h : Typeset A s cells) (h' : Typeset A s' cells') (hj : Joins cells cells') :
    Typeset A (s ++ s') (cells ++ cells') := ⟨h.fills.append h'.fills, h.clear.append h'.clear hj⟩

theorem indented (h : Typeset A s cells) : Typeset A (Script.indented s) cells where
  fills := by
    have hfills := (fills_indent.append h.fills).append fills_dedent
    rwa [List.nil_append, List.append_nil] at hfills
  clear := h.clear

/-- Lines of their own. -/
theorem lines (h : Typeset A s cells) :
    Typeset A (Script.line ++ s ++ Script.line) (.line :: cells ++ [Cell.line]) :=
  (line.append h (.inl (by rintro _ ⟨⟩; rfl))).append line (.inr (by rintro _ ⟨⟩; rfl))

end Typeset

/-- What is laid out on one line. -/
theorem typeset_strip {l : List Item} (h : Strip A s l) : Typeset A s (l.map .item) where
  fills := fills_of_writes h.writes h.spelled
  clear := by
    refine ⟨?_, ?_⟩
    · intro i hi
      obtain ⟨j, hj, hij⟩ := List.mem_map.mp hi
      cases hij
      exact h.spelled _ hj
    · rw [List.isChain_map]
      refine h.apart.imp fun i j hij => ?_
      cases i with
      | gap c => exact Cell.apart_of_isBlank_left A rfl _
      | token t =>
        cases j with
        | gap c => exact Cell.apart_of_isBlank_right A _ rfl
        | token u => exact hij

end Clear

/-! ### The lexemes of cells -/

/-- The lexemes of cells, after what may be the end of a line. -/
def lexemesOf : Bool → List Cell → List Lexeme
  | _, [] => []
  | broken, .item (.token t) :: cells => ⟨t, broken⟩ :: lexemesOf false cells
  | broken, .item (.gap _) :: cells => lexemesOf broken cells
  | _, .line :: cells => lexemesOf true cells
  | broken, .apart :: cells => lexemesOf broken cells

/-- Whether a line ends after the last token of cells. -/
def brokenAfter : Bool → List Cell → Bool
  | broken, [] => broken
  | _, .item (.token _) :: cells => brokenAfter false cells
  | broken, .item (.gap _) :: cells => brokenAfter broken cells
  | _, .line :: cells => brokenAfter true cells
  | broken, .apart :: cells => brokenAfter broken cells

@[simp] theorem lexemesOf_append (broken : Bool) (cells cells' : List Cell) :
    lexemesOf broken (cells ++ cells') =
      lexemesOf broken cells ++ lexemesOf (brokenAfter broken cells) cells' := by
  induction cells generalizing broken with
  | nil => rfl
  | cons x cells ih =>
    cases x with
    | item i =>
      cases i with
      | token t => exact congrArg (_ :: ·) (ih false)
      | gap c => exact ih broken
    | line => exact ih true
    | apart => exact ih broken

/-- The characters of a text are cut into lexemes, after what may be the end of a line. -/
def Lexes (A : Alphabet) (broken : Bool) (cs : List Char) (ls : List Lexeme) : Prop :=
  ∀ n, cs.length ≤ n → lexemesWithin A n broken cs = some ls

section Lexes

variable {A : Alphabet} {broken : Bool} {cs : List Char} {ls : List Lexeme}

theorem lexes_nil : Lexes A broken [] [] := fun n _ => by cases n <;> rfl

theorem Lexes.space (h : Lexes A broken cs ls) : Lexes A broken (' ' :: cs) ls := by
  intro n hn
  obtain ⟨m, rfl⟩ : ∃ m, n = m + 1 := ⟨n - 1, by rw [List.length_cons] at hn; omega⟩
  have hcs := h m (by rw [List.length_cons] at hn; omega)
  simpa [lexemesWithin, next?_gap, isLineEnd] using hcs

theorem Lexes.newline (h : Lexes A true cs ls) : Lexes A broken ('\n' :: cs) ls := by
  intro n hn
  obtain ⟨m, rfl⟩ : ∃ m, n = m + 1 := ⟨n - 1, by rw [List.length_cons] at hn; omega⟩
  have hcs := h m (by rw [List.length_cons] at hn; omega)
  simpa [lexemesWithin, next?_gap, isLineEnd] using hcs

theorem Lexes.token {t : Token} {c : Char} (ht : t.isSpelled A = true) (hc : t.stops A c = true)
    (h : Lexes A false (c :: cs) ls) :
    Lexes A broken (t.text.toList ++ c :: cs) (⟨t, broken⟩ :: ls) := by
  intro n hn
  obtain ⟨d, ds, hchars⟩ := Item.exists_chars (i := .token t) ht
  have hchars : t.text.toList = d :: ds := hchars
  have hnext : A.next? (t.text.toList ++ c :: cs) = some (some t, c :: cs) := next?_token ht hc
  rw [hchars] at hn hnext ⊢
  rw [List.cons_append, List.length_cons, List.length_append] at hn
  obtain ⟨m, rfl⟩ : ∃ m, n = m + 1 := ⟨n - 1, by omega⟩
  rw [List.cons_append] at hnext ⊢
  simp [lexemesWithin, hnext, h m (by omega)]

theorem Lexes.margin (h : Lexes A broken cs ls) (n : Nat) :
    Lexes A broken (List.replicate n ' ' ++ cs) ls := by
  induction n with
  | zero => exact h
  | succ n ih => exact ih.space

/-- Where a line begins after cells, a token before them is followed by a character before which
it ends. -/
theorem Renders.exists_stop {cells : List Cell} {t : Token} (h : Renders false cells cs true)
    (hclear : Clear A cells)
    (hnext : ∀ y ∈ cells.head?, Cell.Apart A (.item (.token t)) y) :
    ∃ c ds, cs = c :: ds ∧ t.stops A c = true := by
  cases h with
  | @item i cells cs _ more =>
    have hi := hclear.spelled i List.mem_cons_self
    obtain ⟨c, ds, hchars⟩ := Item.exists_chars hi
    refine ⟨c, ds ++ cs, by rw [hchars]; rfl, ?_⟩
    cases i with
    | gap d =>
      cases hchars
      exact stops_blank (.inl hi) t
    | token u => exact hnext _ rfl c (by rw [show u.text.toList = c :: ds from hchars]; rfl)
  | line more => exact ⟨_, _, rfl, stops_blank (.inr rfl) t⟩
  | apart more => exact ⟨_, _, rfl, stops_blank (.inl rfl) t⟩

theorem Clear.tail {x : Cell} {cells : List Cell} (h : Clear A (x :: cells)) : Clear A cells :=
  ⟨fun i hi => h.spelled i (List.mem_cons_of_mem x hi), h.apart.of_cons⟩

/-- An item, and the cells that follow it. -/
theorem Renders.lexes_item {i : Item} {cells : List Cell} (h : Renders false cells cs true)
    (hclear : Clear A (.item i :: cells))
    (hmore : ∀ broken, Lexes A broken cs (lexemesOf broken cells)) :
    Lexes A broken (i.chars ++ cs) (lexemesOf broken (.item i :: cells)) := by
  have hi := hclear.spelled i List.mem_cons_self
  cases i with
  | gap c =>
    cases hi
    exact (hmore broken).space
  | token t =>
    obtain ⟨c, ds, rfl, hstop⟩ := h.exists_stop hclear.tail fun y hy => by
      cases cells with
      | nil => cases hy
      | cons z cells =>
        cases hy
        exact hclear.apart.rel
    exact Lexes.token hi hstop (hmore false)

/-- **The text of cells is cut into their lexemes.** -/
theorem Renders.lexes {b b' : Bool} {cells : List Cell} (h : Renders b cells cs b')
    (hend : b' = true) (hclear : Clear A cells) (hb : b = true → broken = true) :
    Lexes A broken cs (lexemesOf broken cells) := by
  induction h generalizing broken with
  | nil => exact lexes_nil
  | item more ih =>
    subst hend
    exact more.lexes_item hclear fun _ => ih rfl hclear.tail (by rintro ⟨⟩)
  | margin n more ih =>
    subst hend
    exact (more.lexes_item hclear fun _ => ih rfl hclear.tail (by rintro ⟨⟩)).margin n
  | line _ ih => exact (ih hend hclear.tail fun _ => rfl).newline
  | lineStart _ ih =>
    obtain rfl := hb rfl
    exact ih hend hclear.tail fun _ => rfl
  | apart _ ih => exact (ih hend hclear.tail (by rintro ⟨⟩)).space
  | apartStart _ ih => exact ih hend hclear.tail hb

end Lexes

/-- **The lexemes of a page are those of its cells.** -/
theorem lexemes_finish {A : Alphabet} {s : Script} {cells : List Cell} (h : Typeset A s cells)
    (o : Options) :
    lexemes A (Script.run (Printer.new o).sheet s).page.finish = some (lexemesOf true cells) := by
  have hline := h.append .line (.inr (by rintro _ ⟨⟩; rfl))
  obtain ⟨cs, houtput, hrenders⟩ := hline.fills (Printer.new o).sheet
  have hfinish : (Script.run (Printer.new o).sheet s).page.finish.toList = cs := by
    rw [Script.run_append] at houtput
    exact houtput
  have hstart : (Script.run (Printer.new o).sheet (s ++ line)).page.atLineStart = true := by
    rw [Script.run_append]
    show (Page.endLine _).atLineStart = true
    unfold Page.endLine
    split_ifs with hstart
    · exact hstart
    · rfl
  have hlexes := hrenders.lexes hstart hline.clear fun _ => (rfl : true = true)
  unfold lexemes
  rw [hfinish, hlexes _ (Nat.le_refl _), lexemesOf_append]
  simp [lexemesOf]

end Typeshift.Statement
