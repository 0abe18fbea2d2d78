import Typeshift.Proofs.Print.KeywordArgument
import Typeshift.Tree.Target

/-! # Comments on the page

The comments that are put on a page are logged with what stands before them. A comment in the form
of a line is followed by the end of its line, one in the form of a block is closed by its own end,
and no place in the source is written twice.

* `Page.writeComments_cons`: comments are written one after the other.
* `Script.log`: the comments that a script writes, in order. `Script.stands_log`: where they stand.
* `pickFresh_spec`, `Script.logged_spec`: no place is written twice.
* `comments_delimited`: all that a printer writes. -/

namespace Typeshift.Print

open Script Expression

/-! ### One comment after the other -/

/-- Whether comments are written in their own form. -/
def CommentStyle.ownForm : CommentStyle → Bool
  | .lines | .afterLine => true
  | .before | .inside _ | .after => false

namespace Page

/-- The page on which a comment is about to be written. -/
def lead (p : Page) : CommentStyle → Page
  | .lines => p.endLine
  | .afterLine => if p.atLineStart then p else p.space
  | .before | .inside _ => p
  | .after => p.space

/-- Write a comment in the form of a style. -/
def writeStyled (p : Page) (style : CommentStyle) (c : Comment) : Page :=
  if style.ownForm then p.writeComment c else p.writeAsBlock c

/-- Set off what follows a comment, which may be more comments. -/
def setOff (p : Page) (style : CommentStyle) (c : Comment) (more : Bool) : Page :=
  match style with
  | .lines => p.endLine
  | .afterLine => if c.isBlock then p else p.endLine
  | .before => p.space
  | .inside spaced => if more || spaced then p.space else p
  | .after => p

/-- **Comments are written one after the other.** -/
theorem writeComments_cons (p : Page) (style : CommentStyle) (c : Comment) (cs : List Comment) :
    p.writeComments style (c :: cs) =
      (((p.lead style).writeStyled style c).setOff style c
        (!cs.isEmpty)).writeComments style cs := by
  cases style with
  | lines | afterLine | before | after => rfl
  | inside spaced =>
    cases spaced with
    | true =>
      rw [writeComments_inside, writeComments_inside]
      simp [setOff, writeStyled, lead, writeComments, CommentStyle.ownForm]
    | false =>
      cases cs with
      | nil => rfl
      | cons d cs => rfl

end Page

/-! ### What is logged -/

/-- A comment on a page. -/
structure Entry where
  /-- What stands before it. -/
  before : List Char
  comment : Comment
  /-- Whether it has its own form; otherwise it is a block comment in any case. -/
  ownForm : Bool

/-- Whether a comment goes on to the end of its line. -/
def Entry.toLineEnd (e : Entry) : Bool := e.ownForm && !e.comment.isBlock

/-- What a comment is written as. -/
def Entry.text (e : Entry) : List Char :=
  if e.toLineEnd then "//".toList ++ e.comment.value.toList else asBlock e.comment

/-- The comments that are written in a style. -/
def Page.log (p : Page) (style : CommentStyle) : List Comment → List Entry
  | [] => []
  | c :: cs =>
    ⟨(p.lead style).beginLine.output.toList, c, style.ownForm⟩ ::
      log (((p.lead style).writeStyled style c).setOff style c (!cs.isEmpty)) style cs

/-- The comments that a piece writes. -/
def Piece.log (t : Sheet) : Piece → List Entry
  | .comments style cs => t.page.log style (pickFresh t.taken cs).1
  | _ => []

/-- **The comments that a script writes**, in order. -/
def Script.log (t : Sheet) : Script → List Entry
  | [] => []
  | piece :: s => piece.log t ++ log (piece.run t) s

@[simp] theorem Page.map_comment_log (p : Page) (style : CommentStyle) (cs : List Comment) :
    (p.log style cs).map Entry.comment = cs := by
  induction cs generalizing p with
  | nil => rfl
  | cons c cs ih => rw [log, List.map_cons, ih]

/-! ### Where comments stand -/

/-- An entry stands in a text: its comment follows what is before it, and the end of the line
follows the comment if it goes on to there. -/
def Entry.Stands (e : Entry) (text : List Char) : Prop :=
  ∃ rest, text = e.before ++ (e.text ++ rest) ∧ (e.toLineEnd = true → rest.head? = some '\n')

theorem Entry.Stands.mono {e : Entry} {text text' : List Char} (h : e.Stands text)
    (hgrows : text <+: text') : e.Stands text' := by
  obtain ⟨rest, rfl, hline⟩ := h
  obtain ⟨more, rfl⟩ := hgrows
  refine ⟨rest ++ more, by simp, fun h => ?_⟩
  rw [List.head?_append, hline h]
  rfl

namespace Page

/-- A comment is written as its entry says, and does not end its line. -/
theorem output_writeStyled (p : Page) (style : CommentStyle) (c : Comment) :
    (p.writeStyled style c).output.toList = p.beginLine.output.toList ++
        (Entry.mk p.beginLine.output.toList c style.ownForm).text ∧
      (p.writeStyled style c).atLineStart = false := by
  have hstart : p.beginLine.atLineStart = false := by
    unfold beginLine
    split
    · rfl
    · exact Bool.eq_false_iff.mpr ‹_›
  have hwrite (x y : String) (hx : x.isEmpty = false) : (p.write (x ++ y)).output.toList =
      p.beginLine.output.toList ++ (x ++ y).toList ∧ (p.write (x ++ y)).atLineStart = false := by
    have hne : (x ++ y).isEmpty = false := by
      simp_all [String.isEmpty_eq_false_iff]
    rw [write, hne, if_neg Bool.false_ne_true]
    exact ⟨String.toList_append, hstart⟩
  have hraw (x : String) : (p.writeRaw ("/*" ++ x ++ "*/")).output.toList =
      p.beginLine.output.toList ++ ("/*" ++ x ++ "*/").toList ∧
        (p.writeRaw ("/*" ++ x ++ "*/")).atLineStart = false := by
    have hne : ("/*" ++ x ++ "*/").isEmpty = false := by
      simp [String.isEmpty_eq_false_iff]
    rw [writeRaw, hne, if_neg Bool.false_ne_true]
    refine ⟨String.toList_append, ?_⟩
    show (("/*" ++ x ++ "*/").toList.getLast? == some '\n') = false
    rw [String.toList_append, List.getLast?_append]
    rfl
  unfold writeStyled writeAsBlock writeComment Entry.text Entry.toLineEnd asBlock
  cases c.isBlock with
  | true => cases style.ownForm <;> simpa using hraw c.value
  | false =>
    cases style.ownForm with
    | true => simpa using hwrite "//" c.value rfl
    | false =>
      simpa [String.append_assoc] using hwrite "/*" (Text.replaceAll "*/" "* /" c.value ++ "*/") rfl

theorem grows_setOff (p : Page) (style : CommentStyle) (c : Comment) (more : Bool) :
    p.Grows (p.setOff style c more) := by
  cases style with
  | lines => exact p.grows_endLine
  | afterLine =>
    unfold setOff
    dsimp only
    split
    · exact grows_refl p
    · exact p.grows_endLine
  | before => exact p.grows_space
  | inside _ =>
    unfold setOff
    dsimp only
    split
    · exact p.grows_space
    · exact grows_refl p
  | after => exact grows_refl p

/-- **A comment stands where it is written.** -/
theorem stands_setOff (p : Page) (style : CommentStyle) (c : Comment) (more : Bool) :
    (Entry.mk p.beginLine.output.toList c style.ownForm).Stands
      ((p.writeStyled style c).setOff style c more).output.toList := by
  obtain ⟨houtput, hstart⟩ := p.output_writeStyled style c
  have hgrows := (p.writeStyled style c).grows_setOff style c more
  by_cases hline : (Entry.mk p.beginLine.output.toList c style.ownForm).toLineEnd = true
  · obtain ⟨hown, hblock⟩ := Bool.and_eq_true_iff.mp hline
    have hend : (p.writeStyled style c).setOff style c more = (p.writeStyled style c).endLine := by
      cases style with
      | lines => rfl
      | afterLine => exact if_neg (by simpa using hblock)
      | before | inside _ | after => cases hown
    refine ⟨['\n'], ?_, fun _ => rfl⟩
    rw [hend, endLine, hstart, if_neg Bool.false_ne_true]
    simp [append, houtput]
  · obtain ⟨rest, hrest⟩ := hgrows
    refine ⟨rest, ?_, fun h => absurd h hline⟩
    rw [← hrest, houtput, List.append_assoc]

theorem stands_log {p : Page} {style : CommentStyle} {cs : List Comment} {e : Entry}
    (he : e ∈ p.log style cs) : e.Stands (p.writeComments style cs).output.toList := by
  induction cs generalizing p with
  | nil => cases he
  | cons c cs ih =>
    rw [writeComments_cons]
    rcases List.mem_cons.mp he with rfl | he
    · exact ((p.lead style).stands_setOff style c _).mono (grows_writeComments _ style cs)
    · exact ih he

end Page

theorem Piece.stands_log {t : Sheet} {piece : Piece} {e : Entry} (he : e ∈ piece.log t) :
    e.Stands (piece.run t).page.output.toList := by
  cases piece with
  | comments style cs => exact Page.stands_log he
  | text _ | raw _ | space | line | indent | dedent | apart _ => cases he

/-- **The comments of a script stand on the page** after it. -/
theorem Script.stands_log {t : Sheet} {s : Script} {e : Entry} (he : e ∈ s.log t) :
    e.Stands (s.run t).page.output.toList := by
  induction s generalizing t with
  | nil => cases he
  | cons piece s ih =>
    rcases List.mem_append.mp he with he | he
    · exact (Piece.stands_log he).mono (Script.grows_run (piece.run t) s)
    · exact ih he

/-! ### Which comments are written -/

/-- A script writes none but the comments that it may. -/
theorem Script.comment_of_mem_log {ok : Comment → Bool} {t : Sheet} {s : Script}
    {level level' : Nat}
    (hs : s.levelAfter ok level = some level') {e : Entry} (he : e ∈ s.log t) :
    ok e.comment = true := by
  induction s generalizing t level with
  | nil => cases he
  | cons piece s ih =>
    obtain ⟨next, hnext, hs⟩ := Option.bind_eq_some_iff.mp hs
    rcases List.mem_append.mp he with he | he
    · cases piece with
      | comments style cs =>
        have hcomment : e.comment ∈ (pickFresh t.taken cs).1 := by
          rw [← t.page.map_comment_log style (pickFresh t.taken cs).1]
          exact List.mem_map_of_mem he
        have hall : cs.all ok = true := by
          by_contra hall
          rw [Piece.levelAfter, if_neg hall] at hnext
          cases hnext
        exact List.all_eq_true.mp hall _ (mem_of_mem_pickFresh hcomment)
      | text _ | raw _ | space | line | indent | dedent | apart _ => cases he
    · exact ih hs he

/-- The places in the source of some comments. -/
def places (cs : List Comment) : List (Nat × Nat) := cs.filterMap Comment.position

/-- **No place is picked twice**, nor one that is taken; all that are picked are taken then. -/
theorem pickFresh_spec (taken : List (Nat × Nat)) (cs : List Comment) :
    (places (pickFresh taken cs).1).Nodup ∧
      (∀ place ∈ places (pickFresh taken cs).1, place ∉ taken) ∧
      ∀ place, place ∈ (pickFresh taken cs).2 ↔
        place ∈ taken ∨ place ∈ places (pickFresh taken cs).1 := by
  induction cs generalizing taken with
  | nil => exact ⟨List.nodup_nil, nofun, by simp [places, pickFresh]⟩
  | cons c cs ih =>
    rw [pickFresh]
    cases hc : c.position with
    | none =>
      have hplaces (ds : List Comment) : places (c :: ds) = places ds := by simp [places, hc]
      simp only [hplaces]
      exact ih taken
    | some place =>
      dsimp only
      split
      · exact ih taken
      · next hfresh =>
        rw [List.contains_iff_mem] at hfresh
        have hplaces (ds : List Comment) : places (c :: ds) = place :: places ds := by
          simp [places, hc]
        obtain ⟨hnodup, hnew, hall⟩ := ih (place :: taken)
        simp only [hplaces]
        refine ⟨List.nodup_cons.mpr ⟨fun h => hnew _ h List.mem_cons_self, hnodup⟩, ?_, ?_⟩
        · intro other hother
          rcases List.mem_cons.mp hother with rfl | hother
          · exact hfresh
          · exact fun h => hnew other hother (List.mem_cons_of_mem place h)
        · intro other
          rw [hall, List.mem_cons, List.mem_cons]
          tauto

/-- The places in the source of logged comments. -/
def logged (es : List Entry) : List (Nat × Nat) := places (es.map Entry.comment)

theorem Piece.logged_spec (t : Sheet) (piece : Piece) :
    (logged (piece.log t)).Nodup ∧ (∀ place ∈ logged (piece.log t), place ∉ t.taken) ∧
      ∀ place, place ∈ (piece.run t).taken ↔ place ∈ t.taken ∨ place ∈ logged (piece.log t) := by
  cases piece with
  | comments style cs =>
    unfold logged log
    rw [Page.map_comment_log]
    exact pickFresh_spec t.taken cs
  | text _ | raw _ | space | line | indent | dedent | apart _ =>
    exact ⟨List.nodup_nil, nofun, fun place => (or_iff_left List.not_mem_nil).symm⟩

/-- **No place in the source is written twice.** -/
theorem Script.logged_spec (t : Sheet) (s : Script) :
    (logged (s.log t)).Nodup ∧ (∀ place ∈ logged (s.log t), place ∉ t.taken) := by
  induction s generalizing t with
  | nil => exact ⟨List.nodup_nil, nofun⟩
  | cons piece s ih =>
    obtain ⟨hnodup, hnew, htaken⟩ := piece.logged_spec t
    obtain ⟨hnodup', hnew'⟩ := ih (piece.run t)
    have hsplit : logged (Script.log t (piece :: s)) =
        logged (piece.log t) ++ logged (Script.log (piece.run t) s) := by
      simp [logged, places, log]
    rw [hsplit]
    constructor
    · refine List.nodup_append.mpr ⟨hnodup, hnodup', ?_⟩
      rintro place h _ h' rfl
      exact hnew' place h' ((htaken place).mpr (.inr h))
    · intro place hplace
      rcases List.mem_append.mp hplace with h | h
      · exact hnew place h
      · exact fun htakenBefore => hnew' place h ((htaken place).mpr (.inl htakenBefore))

/-! ### The life of a printer -/

/-- A comment ends where it says: no end of a line stands in one that goes on to the end of its
line, and no `*/` in one that is delimited. -/
def Plain (c : Comment) : Prop :=
  if c.isBlock then ¬ ['*', '/'] <:+: c.value.toList
  else c.value.toList.any StringLiteral.isLineEnd = false

instance (c : Comment) : Decidable (Plain c) :=
  inferInstanceAs (Decidable (if c.isBlock = true then ¬ ['*', '/'] <:+: c.value.toList
    else c.value.toList.any StringLiteral.isLineEnd = false))

theorem staysInside_of_noEnd {cs : List Char} (h : ¬ ['*', '/'] <:+: cs) : StaysInside cs := by
  induction cs with
  | nil => rfl
  | cons c cs ih =>
    refine (ih fun hwithin => h (hwithin.trans (List.suffix_cons c cs).isInfix)).cons ?_
    rintro rfl hhead
    obtain ⟨rest, rfl⟩ := List.head?_eq_some_iff.mp hhead
    exact h ⟨[], rest, rfl⟩

theorem Plain.closes {c : Comment} (h : Plain c) : Comment.Closes c := by
  intro hblock
  rw [Plain, if_pos hblock] at h
  exact staysInside_of_noEnd h

/-- **An entry is a comment of a text** and no more than that: in the form of a line, it is followed
by the end of that line and by none before; in the form of a block, it is closed by its own end. -/
def Entry.Delimited (e : Entry) (text : List Char) : Prop :=
  ∃ rest, text = e.before ++ (e.text ++ rest) ∧
    if e.toLineEnd then
      rest.head? = some '\n' ∧ ∀ d ∈ e.text, StringLiteral.isLineEnd d = false
    else ∃ inside, e.text = '/' :: '*' :: (inside ++ ['*', '/']) ∧
      skipBlock? (inside ++ ['*', '/'] ++ rest) = some rest

theorem Entry.Stands.delimited {e : Entry} {text : List Char} (h : e.Stands text)
    (hplain : Plain e.comment) : e.Delimited text := by
  obtain ⟨rest, htext, hline⟩ := h
  refine ⟨rest, htext, ?_⟩
  split
  · next hend =>
    have hblock : e.comment.isBlock = false := by
      simpa using (Bool.and_eq_true_iff.mp hend).2
    rw [Plain, hblock, if_neg Bool.false_ne_true] at hplain
    have hnone : e.text.any StringLiteral.isLineEnd = false := by
      rw [Entry.text, if_pos hend, List.any_append, hplain]
      rfl
    exact ⟨hline hend, fun d hd => Bool.eq_false_iff.mpr (List.any_eq_false.mp hnone d hd)⟩
  · next hend =>
    obtain ⟨inside, heq, hinside, -⟩ := asBlock_eq hplain.closes
    refine ⟨inside, by rw [Entry.text, if_neg hend, heq], ?_⟩
    exact skipBlock?_append hinside rest

end Typeshift.Print

namespace Typeshift

open Print

variable {o : Options}

/-- Trees that can be printed are printed one after the other. -/
theorem Printer.foldlM_print {ts : List Node} (hts : ∀ t ∈ ts, t.printError? = none)
    (sheet : Sheet) : ts.foldlM Printer.print ⟨o, sheet⟩ =
      .ok ⟨o, Script.run sheet (ts.flatMap (script o))⟩ := by
  induction ts generalizing sheet with
  | nil => rfl
  | cons t ts ih =>
    have hprint : Printer.print ⟨o, sheet⟩ t = .ok ⟨o, Script.run sheet (script o t)⟩ := by
      rw [Printer.print, hts t List.mem_cons_self]
    rw [List.foldlM_cons, hprint, List.flatMap_cons, Script.run_append]
    exact ih (fun t ht => hts t (List.mem_cons_of_mem _ ht)) _

/-- The comments that a new printer writes with some trees. -/
def Print.written (o : Options) (ts : List Node) : List Entry :=
  Script.log (Printer.new o).sheet (ts.flatMap (script o))

/-- **Comments do not swallow code and are not repeated.** A printer prints trees whose comments end
where they say. In all that it has written then, every comment is delimited where it stands: one in
the form of a line by the end of that line, one in the form of a block by its own end. No two of
them have the same place in the source. -/
theorem Print.comments_delimited (o : Options) {ts : List Node}
    (hts : ∀ t ∈ ts, t.printError? = none)
    (hplain : ∀ t ∈ ts, EachComment (fun c => decide (Plain c)) t) :
    ∃ p, ts.foldlM Printer.print (.new o) = .ok p ∧
      (∀ e ∈ written o ts, e.Delimited p.finish.toList) ∧ (logged (written o ts)).Nodup := by
  refine ⟨_, Printer.foldlM_print hts _, fun e he => ?_, (Script.logged_spec _ _).1⟩
  have hsteady : Script.Steady (fun c => decide (Plain c)) (ts.flatMap (script o)) :=
    Script.steady_flatMap fun t ht => (steady_printed o (hplain t ht)).note .program
  have hcomment : Plain e.comment :=
    of_decide_eq_true (Script.comment_of_mem_log (hsteady 0) he)
  exact ((Script.stands_log he).mono (Page.grows_endLine _)).delimited hcomment

namespace Print

/-- A line comment between two names of a call; both have it. -/
def sharedComment : Node :=
  let comment : Comment := ⟨.line, " of */ g", some 2, some 12⟩
  let f := (Target.ident "f").withComments ⟨[], [comment], []⟩
  let a := (Target.ident "a").withComments ⟨[comment], [], []⟩
  .of .program [(.sourceType, .textOrNone (some "module"))]
    [(.interpreter, .maybe none), (.directives, .many []),
      (.body, .many [(Target.statement (Target.call f [a] none)).withComments
        ⟨[.line " call"], [], []⟩])]

theorem comments_delimited_sharedComment :
    (∀ t ∈ [sharedComment, sharedComment], t.printError? = none) ∧
      (∀ t ∈ [sharedComment, sharedComment], EachComment (fun c => decide (Plain c)) t) ∧
      ∃ p, [sharedComment, sharedComment].foldlM Printer.print (.new .standard) = .ok p ∧
        (∀ e ∈ written .standard [sharedComment, sharedComment], e.Delimited p.finish.toList) ∧
        (logged (written .standard [sharedComment, sharedComment])).Nodup := by
  have hts : ∀ t ∈ [sharedComment, sharedComment], t.printError? = none := by decide
  have hplain : ∀ t ∈ [sharedComment, sharedComment],
    EachComment (fun c => decide (Plain c)) t := by
    unfold EachComment
    decide
  exact ⟨hts, hplain, comments_delimited .standard hts hplain⟩

example : ([sharedComment, sharedComment].foldlM Printer.print (.new .standard)).map
    Printer.finish = .ok "// call\nf /* of * / g*/(a);\n// call\nf(a);\n" := by rfl

end Print

end Typeshift
