import Typeshift.Proofs.Expression.RoundTrip
import Typeshift.Proofs.Print.StatementStart
import Typeshift.Proofs.Statement.Layout

/-! # The places of statements

The script of a statement writes lexemes. Whether a line begins before them does not matter to how
they are read, so every place has the same lexemes: the places differ in what is set around them,
and that is blank.

* `Lays`: a script writes lexemes with a property. `SetOff`: and it begins with a blank.
* `Lays.statement`, `Lays.inline`, `Lays.body`, `Lays.otherwise`: a statement at its places. -/

namespace Typeshift.Statement

open Expression Print Script

/-! ### Lexemes on one line -/

/-- Tokens with no end of a line before them. -/
def onLine (ts : List Token) : List Lexeme := ts.map (⟨·, false⟩)

/-- Tokens with no end of a line between them. -/
def lexed (broken : Bool) : List Token → List Lexeme
  | [] => []
  | t :: ts => ⟨t, broken⟩ :: onLine ts

@[simp] theorem onLine_nil : onLine [] = [] := rfl

@[simp] theorem onLine_cons (t : Token) (ts : List Token) :
    onLine (t :: ts) = ⟨t, false⟩ :: onLine ts := rfl

@[simp] theorem onLine_append (ts us : List Token) : onLine (ts ++ us) = onLine ts ++ onLine us :=
  List.map_append

@[simp] theorem tokens_onLine (ts : List Token) : tokens (onLine ts) = ts := by
  simp [tokens, onLine, Function.comp_def]

theorem lexed_false (ts : List Token) : lexed false ts = onLine ts := by cases ts <;> rfl

@[simp] theorem tokens_lexed (broken : Bool) (ts : List Token) : tokens (lexed broken ts) = ts := by
  cases ts with
  | nil => rfl
  | cons t ts => exact congrArg (t :: ·) (tokens_onLine ts)

theorem lexemesOf_items (broken : Bool) (l : List Item) :
    lexemesOf broken (l.map .item) = lexed broken (tokensOf l) := by
  induction l with
  | nil => rfl
  | cons i l ih =>
    cases i with
    | token t =>
      have hrest : lexemesOf false (l.map .item) = lexed false (tokensOf l) := by
        clear ih
        induction l with
        | nil => rfl
        | cons i l ih =>
          cases i with
          | token t =>
            rw [tokensOf_token, lexed_false, onLine_cons, ← lexed_false, ← ih]
            rfl
          | gap c => exact ih
      rw [tokensOf_token, lexed, ← lexed_false, ← hrest]
      rfl
    | gap c => exact ih

@[simp] theorem lexed_append {ts : List Token} (hts : ts ≠ []) (broken : Bool) (us : List Token) :
    lexed broken (ts ++ us) = lexed broken ts ++ onLine us := by
  obtain ⟨t, ts, rfl⟩ := List.exists_cons_of_ne_nil hts
  exact congrArg (_ :: ·) (onLine_append ts us)

/-- The semicolon after a statement, if there is one. -/
def closing (semis : Bool) : List Token := if semis then [.mark ";"] else []

/-- No line ends before an operator that follows its operand. -/
theorem unbroken_lexed (broken : Bool) (ts : List Token) : Unbroken (lexed broken ts) := by
  intro before l after hsplit hl _ us e hsuffix hderives
  -- only before the first token
  have hbefore : before = [] := by
    cases before with
    | nil => rfl
    | cons b before =>
      cases ts with
      | nil => cases hsplit
      | cons t ts =>
        have hmem : l ∈ onLine ts := (List.cons.inj hsplit).2 ▸ by simp
        obtain ⟨u, -, rfl⟩ := List.mem_map.mp hmem
        cases hl
  subst hbefore
  exact hderives.ne_nil (List.suffix_nil.mp hsuffix)

theorem expresses_lexed {ts : List Token} {e : Expr} (h : Derives .expression ts e)
    (broken : Bool) : Expresses (lexed broken ts) e :=
  ⟨by rwa [tokens_lexed], unbroken_lexed broken ts⟩

/-! ### What a script writes -/

/-- The parts of lexemes have properties. -/
def Then (P Q : List Lexeme → Prop) (ls : List Lexeme) : Prop :=
  ∃ before after, ls = before ++ after ∧ P before ∧ Q after

/-- A script writes lexemes with a property, whether a line begins before them or not. -/
def Lays (A : Alphabet) (s : Script) (P : List Lexeme → Prop) : Prop :=
  ∃ cells, Typeset A s cells ∧ ∀ broken, P (lexemesOf broken cells)

/-- And it begins with a blank. -/
def SetOff (A : Alphabet) (s : Script) (P : List Lexeme → Prop) : Prop :=
  ∃ cells, Typeset A s cells ∧ (∀ x ∈ cells.head?, x.isBlank = true) ∧
    ∀ broken, P (lexemesOf broken cells)

section Lays

variable {A : Alphabet} {s s' : Script} {P Q : List Lexeme → Prop}

theorem Typeset.of_same {cells : List Cell} (h : Typeset A s' cells) (hsame : Same s s') :
    Typeset A s cells where
  fills t := by
    rw [hsame t]
    exact h.fills t
  clear := h.clear

theorem lays_strip {l : List Item} (h : Strip A s l)
    (hP : ∀ broken, P (lexed broken (tokensOf l))) :
    Lays A s P :=
  ⟨_, typeset_strip h, fun broken => by rw [lexemesOf_items]; exact hP broken⟩

theorem Lays.of_same (h : Lays A s' P) (hsame : Same s s') : Lays A s P := by
  obtain ⟨cells, hcells, hP⟩ := h
  exact ⟨cells, hcells.of_same hsame, hP⟩

theorem Lays.imp (h : Lays A s P) (himp : ∀ ls, P ls → Q ls) : Lays A s Q := by
  obtain ⟨cells, hcells, hP⟩ := h
  exact ⟨cells, hcells, fun broken => himp _ (hP broken)⟩

theorem Lays.append (h : Lays A s P) (h' : SetOff A s' Q) : Lays A (s ++ s') (Then P Q) := by
  obtain ⟨cells, hcells, hP⟩ := h
  obtain ⟨cells', hcells', hblank, hQ⟩ := h'
  refine ⟨_, hcells.append hcells' (.inr hblank), fun broken => ?_⟩
  exact ⟨_, _, lexemesOf_append _ _ _, hP _, hQ _⟩

namespace SetOff

theorem of_same (h : SetOff A s' P) (hsame : Same s s') : SetOff A s P := by
  obtain ⟨cells, hcells, h⟩ := h
  exact ⟨cells, hcells.of_same hsame, h⟩

theorem imp (h : SetOff A s P) (himp : ∀ ls, P ls → Q ls) : SetOff A s Q := by
  obtain ⟨cells, hcells, hblank, hP⟩ := h
  exact ⟨cells, hcells, hblank, fun broken => himp _ (hP broken)⟩

theorem append (h : SetOff A s P) (h' : SetOff A s' Q) : SetOff A (s ++ s') (Then P Q) := by
  obtain ⟨cells, hcells, hblank, hP⟩ := h
  obtain ⟨cells', hcells', hblank', hQ⟩ := h'
  refine ⟨_, hcells.append hcells' (.inr hblank'), ?_, fun broken => ?_⟩
  · rw [List.head?_append]
    cases hhead : cells.head? with
    | none => exact hblank'
    | some x =>
      rw [hhead] at hblank
      exact hblank
  · exact ⟨_, _, lexemesOf_append _ _ _, hP _, hQ _⟩

theorem indented (h : SetOff A s P) : SetOff A (Script.indented s) P := by
  obtain ⟨cells, hcells, h⟩ := h
  exact ⟨cells, hcells.indented, h⟩

theorem nil (hP : P []) : SetOff A [] P := ⟨[], .nil, nofun, fun _ => hP⟩

end SetOff

/-- Lexemes with a property that begin on a line of their own. -/
def OnNewLine (P : List Lexeme → Prop) (ls : List Lexeme) : Prop :=
  P ls ∧ ∀ l ∈ ls.head?, l.broken = true

/-- After the end of a line the first lexeme has one before it. -/
theorem broken_head?_lexemesOf (cells : List Cell) :
    ∀ l ∈ (lexemesOf true cells).head?, l.broken = true := by
  induction cells with
  | nil => nofun
  | cons x cells ih =>
    cases x with
    | item i =>
      cases i with
      | token t =>
        rintro _ ⟨⟩
        rfl
      | gap c => exact ih
    | line => exact ih
    | apart => exact ih

/-- Lines of their own. -/
theorem Lays.ownLines (h : Lays A s P) : SetOff A (line ++ s ++ line) (OnNewLine P) := by
  obtain ⟨cells, hcells, hP⟩ := h
  refine ⟨_, hcells.lines, by rintro _ ⟨⟩; rfl, fun broken => ?_⟩
  have hlexemes : lexemesOf broken (Cell.line :: cells ++ [.line]) = lexemesOf true cells := by
    rw [lexemesOf_append]
    exact List.append_nil _
  rw [hlexemes]
  exact ⟨hP true, broken_head?_lexemesOf cells⟩

/-- After the end of a line. -/
theorem SetOff.afterLine (h : SetOff A s P) : SetOff A (line ++ s) (OnNewLine P) := by
  obtain ⟨cells, hcells, -, hP⟩ := h
  refine ⟨_, Typeset.line.append hcells (.inl ?_), by rintro _ ⟨⟩; rfl, fun _ =>
    ⟨hP true, broken_head?_lexemesOf cells⟩⟩
  rintro _ ⟨⟩
  rfl

/-- On the same line, after a space. -/
theorem Lays.spaced (h : Lays A s P) : SetOff A (space ++ s) P := by
  obtain ⟨cells, hcells, hP⟩ := h
  refine ⟨_, (typeset_strip Strip.space).append hcells (.inl ?_), by rintro _ ⟨⟩; rfl, hP⟩
  rintro _ ⟨⟩
  rfl

/-- On a line that has begun or begins. -/
theorem Lays.onNewLine (h : Lays A s P) : SetOff A (line ++ s) P := by
  obtain ⟨cells, hcells, hP⟩ := h
  refine ⟨_, Typeset.line.append hcells (.inl ?_), by rintro _ ⟨⟩; rfl, fun _ => hP true⟩
  rintro _ ⟨⟩
  rfl

/-- A text that is set off, with what follows it on the line. -/
theorem setOff_apart {w : String} {front l : List Item} (hw : w.toList = spell front)
    (hne : front ≠ []) (hfront : Strip A (text w) front) (h : Strip A s l) (hmeet : Meet A front l)
    (hP : ∀ broken, P (lexed broken (tokensOf (front ++ l)))) : SetOff A (.apart w :: s) P := by
  have hstrip := typeset_strip (hfront.append h hmeet)
  obtain ⟨i, front, rfl⟩ := List.exists_cons_of_ne_nil hne
  have hfills := (fills_apart hw (hfront.spelled i List.mem_cons_self)).append
    (fills_of_writes h.writes h.spelled)
  refine ⟨.apart :: (i :: front ++ l).map .item, ⟨?_, ?_⟩, ?_, fun broken => ?_⟩
  · simpa using hfills
  · exact clear_apart.append hstrip.clear (.inl (by rintro _ ⟨⟩; rfl))
  · rintro _ ⟨⟩
    rfl
  · show P (lexemesOf broken ((i :: front ++ l).map .item))
    rw [lexemesOf_items]
    exact hP broken

end Lays

/-! ### The places -/

section Places

variable {A : Alphabet} {o : Options} {t : Node} {P : List Lexeme → Prop}

/-- The script of a statement in itself. -/
def ownScript (o : Options) (t : Node) : Script :=
  statementText o t.head (Tree.annotateSlots (printedRule o) t.slots) .none

theorem same_comments_nil (style : CommentStyle) : Same (comments style []) [] :=
  .of_silent (writes_comments_nil style)

theorem same_inline (hf : t.head.family = .statement) (hc : t.head.comments = .none)
    (o : Options) : Same (printed o t .inline) (ownScript o t) := by
  have hsplit : printed o t .inline =
      comments .before [] ++ ownScript o t ++ comments .afterLine [] := by
    obtain ⟨n, h, s⟩ := t
    have hf : h.family = .statement := hf
    have hc : h.comments = .none := hc
    show comments .before h.comments.leading ++
      (content o _ [.statement]).script { h.comments with leading := [] } ++
      (content o _ [.statement]).trailing .afterLine h.comments = _
    simp [content, hf, hc, ownText, ownScript, Content.trailing, when, Tree.head_mk, Comments.none]
  rw [hsplit]
  exact (((same_comments_nil _).append (.refl _)).append (same_comments_nil _)).trans
    (.of_eq (by simp))

theorem same_body_block (ht : t.head.tag? = some .blockStatement) (hc : t.head.comments = .none)
    (o : Options) : Same (printed o t .body) (space ++ ownScript o t) := by
  have hsplit : printed o t .body =
      space ++ comments .before [] ++ ownScript o t ++ comments .after [] := by
    obtain ⟨n, h, s⟩ := t
    have ht : h.tag? = some .blockStatement := ht
    have hc : h.comments = .none := hc
    show bodyText o _ h.comments = _
    simp [bodyText, Head.is, ht, hc, ownScript, statementText, Comments.none]
  rw [hsplit]
  exact ((((Same.refl _).append (same_comments_nil _)).append (.refl _)).append
    (same_comments_nil _)).trans (.of_eq (by simp))

theorem printed_body (ht : t.head.tag? ≠ some .blockStatement) (o : Options) :
    printed o t .body = indented (printed o t .statement) := by
  obtain ⟨n, h, s⟩ := t
  have ht : h.is .blockStatement = false := beq_eq_false_iff_ne.mpr ht
  show bodyText o _ h.comments = _
  rw [bodyText, Tree.head_mk, ht]
  rfl

theorem same_otherwise_if (ht : t.head.tag? = some .ifStatement) (hc : t.head.comments = .none)
    (o : Options) : Same (printed o t .otherwise) (space ++ ownScript o t) := by
  have hsplit : printed o t .otherwise = space ++ comments .before [] ++ ownScript o t := by
    obtain ⟨n, h, s⟩ := t
    have ht : h.tag? = some .ifStatement := ht
    have hc : h.comments = .none := hc
    show (if h.is .ifStatement then space ++ comments .before h.comments.leading ++ ifText _
      else bodyText o _ h.comments) = _
    simp [Head.is, ht, hc, ownScript, statementText, Comments.none]
  rw [hsplit]
  exact ((((Same.refl _).append (same_comments_nil _)).append (.refl _))).trans (.of_eq (by simp))

theorem printed_otherwise (ht : t.head.tag? ≠ some .ifStatement) (o : Options) :
    printed o t .otherwise = printed o t .body := by
  obtain ⟨n, h, s⟩ := t
  exact if_neg (Bool.eq_false_iff.mp (beq_eq_false_iff_ne.mpr ht))

/-- A statement without comments. -/
structure Bare (t : Node) : Prop where
  family : t.head.family = .statement
  comments : t.head.comments = .none

/-- On lines of its own. -/
theorem Lays.ownStatement (h : Lays A (ownScript o t) P) (ht : Bare t) :
    SetOff A (printed o t .statement) (OnNewLine P) :=
  h.ownLines.of_same ((same_statement ht.family ht.comments o).trans (.of_eq (by simp [ownScript])))

theorem Lays.statement (h : Lays A (ownScript o t) P) (ht : Bare t) :
    SetOff A (printed o t .statement) P := (h.ownStatement ht).imp fun _ => And.left

/-- After other text on the line. -/
theorem Lays.inline (h : Lays A (ownScript o t) P) (ht : Bare t) :
    Lays A (printed o t .inline) P :=
  h.of_same (same_inline ht.family ht.comments o)

/-- As the body of a loop or a branch. -/
theorem Lays.body (h : Lays A (ownScript o t) P) (ht : Bare t) :
    SetOff A (printed o t .body) P := by
  by_cases htag : t.head.tag? = some .blockStatement
  · exact h.spaced.of_same (same_body_block htag ht.comments o)
  · rw [printed_body htag]
    exact (h.statement ht).indented

theorem same_dedent_line : Same [.line, .dedent] [.dedent, .line] := by
  intro t
  show Sheet.mk (Page.dedent (Page.endLine t.page)) _ =
    Sheet.mk (Page.endLine (Page.dedent t.page)) _
  unfold Page.endLine Page.dedent
  split_ifs <;> rfl

/-- As a body before other text: a line ends between them, but for blocks. -/
theorem Lays.body_append {s : Script} {Q : List Lexeme → Prop} (h : Lays A (ownScript o t) P)
    (ht : Bare t) (hs : SetOff A s Q) : SetOff A (printed o t .body ++ s)
      (Then P fun ls => Q ls ∧ (t.head.tag? ≠ some .blockStatement →
        ∀ l ∈ ls.head?, l.broken = true)) := by
  by_cases htag : t.head.tag? = some .blockStatement
  · exact (h.body ht).append (hs.imp fun _ hQ => ⟨hQ, absurd htag⟩)
  · have hbegun : SetOff A (indented (line ++ ownScript o t)) P := h.onNewLine.indented
    refine (hbegun.append (hs.afterLine.imp fun _ hQ => ⟨hQ.1, fun _ => hQ.2⟩)).of_same ?_
    have hstatement := same_statement ht.family ht.comments o
    rw [printed_body htag]
    refine (((Same.refl [.indent]).append hstatement).append (.refl [.dedent])).append (.refl s)
      |>.trans ?_
    have hline := (((Same.refl (.indent :: (line ++ ownScript o t))).append
      same_dedent_line).append (.refl s))
    exact (Same.of_eq (by simp [ownScript, line])).trans (hline.trans (.of_eq (by
      simp [indented, line])))

/-- After `else`. -/
theorem Lays.otherwise (h : Lays A (ownScript o t) P) (ht : Bare t) :
    SetOff A (printed o t .otherwise) P := by
  by_cases htag : t.head.tag? = some .ifStatement
  · exact h.spaced.of_same (same_otherwise_if htag ht.comments o)
  · rw [printed_otherwise htag]
    exact h.body ht

end Places

end Typeshift.Statement
