import Typeshift.Proofs.Statement.Heads
import Typeshift.Proofs.Statement.Programs

/-! # Where a line ends a statement

A statement without a semicolon ends with its line if it cannot go on with what follows. A token is
fresh if no phrase goes on with it. Every statement begins with a fresh token, but for those that
the printer puts a semicolon in front of.

* `Token.IsFresh`: no phrase goes on with a token.
* `Denotes.exists_fresh`: the first token of a statement.
* `Stays`: a statement without a semicolon ends before some lexemes. `Stays.ends`: so the grammar
  ends it. -/

namespace Typeshift.Expression

open Print Script

/-! ### Fresh tokens -/

/-- **A token with which no phrase goes on**, and that is no end of a statement or a label. -/
def Token.IsFresh (t : Token) : Prop :=
  t.step.level? = none ∧ t ∉ [.mark ";", .mark ":", .mark "\x7d"]

instance (t : Token) : Decidable t.IsFresh :=
  inferInstanceAs (Decidable (_ ∧ _))

theorem Token.IsFresh.ne_semicolon {t : Token} (h : t.IsFresh) : t ≠ .mark ";" := by
  rintro rfl
  exact h.2 List.mem_cons_self

/-- The characters that do not begin a line of their own: a blank, and those with which an
expression may go on. -/
def joiners : List Char := [' ', '(', '+', '-']

variable {A : Alphabet}

/-- The words among the operators are reserved. -/
theorem mem_reserved_of_operator {x : String} (hx : A.isName x = true)
    (hlevel : (operatorStep x).level? ≠ none) : x ∈ reserved := by
  unfold operatorStep at hlevel
  cases hfound : operatorLevel? x with
  | none =>
    rw [hfound] at hlevel
    dsimp only at hlevel
    split at hlevel
    · next hassign =>
      simp only [assignmentOperators, List.mem_cons, List.not_mem_nil, or_false] at hassign
      rcases hassign with rfl | rfl | rfl | rfl | rfl | rfl | rfl | rfl | rfl | rfl | rfl | rfl |
        rfl | rfl | rfl | rfl <;> cases hx
    · exact absurd rfl hlevel
  | some level =>
    unfold operatorLevel? at hfound
    split at hfound <;> first | decide | cases hx | cases hfound

/-- Names are fresh. -/
theorem isFresh_name {x : String} (hx : A.isName x = true) (hr : x ∉ reserved) :
    (Token.word x).IsFresh :=
  ⟨by_contra fun hlevel => hr (mem_reserved_of_operator hx hlevel), by simp⟩

/-- A token that an expression may begin with is fresh, unless it goes on with one as well. -/
theorem isFresh_opening {t : Token} (ht : Statement.isOpening t = true)
    (hfirst : ∀ c ∈ t.text.toList.head?, c ∉ joiners) : t.IsFresh := by
  have hwords : ∀ w ∈ "new" :: unaryOperators,
      w.toList.head?.all (· ∉ joiners) → (Token.word w).IsFresh := by decide
  have hmarks : ∀ m ∈ "(" :: updateOperators ++ unaryOperators,
      m.toList.head?.all (· ∉ joiners) → (Token.mark m).IsFresh := by decide
  have hall : t.text.toList.head?.all (· ∉ joiners) :=
    (Option.all_eq_true _ _).2 fun c hc => decide_eq_true (hfirst c hc)
  cases t with
  | numeral digits => exact ⟨rfl, by simp⟩
  | word w => exact hwords w (of_decide_eq_true ht) hall
  | mark m => exact hmarks m (of_decide_eq_true ht) hall

/-! ### The first character of an expression -/

section First

variable {t u v : Node} {e : Expr} {o : Options} {least : Precedence} {forced : Bool}
  {cs : List Comment} {opening : Opening}

theorem Denotes.uncommented (h : Denotes A t e) : Uncommented t := by
  refine h.of_built fun {t _ _} built hparts => ?_
  obtain ⟨n, head, s⟩ := t
  exact .mk built.comments fun u hu => hparts u (built.parts hu)

/-- The operand on the left of an expression is one. -/
theorem Denotes.leftOperand (h : Denotes A t e)
    (hleft : leftOperand? t.head t.slots = some (u, least, forced)) : ∃ e', Denotes A u e' := by
  unfold leftOperand? at hleft
  cases h with
  | name name => rw [name.built.tag] at hleft; cases hleft
  | numeral built | paren built | new built | unary built =>
    rw [built.tag] at hleft
    cases hleft
  | member built _ hu _ value | index built _ hu _ value | call built _ hu _ value
  | conditional built hu _ _ value | assign built _ _ hu _ value | binary built _ _ hu _ value
  | logical built _ _ hu _ value =>
    simp only [built.tag, hu, Option.map_some, Option.some.injEq, Prod.mk.injEq] at hleft
    exact ⟨_, hleft.1 ▸ value⟩
  | update built _ _ hu value =>
    simp only [built.tag, hu, Option.map_some] at hleft
    split at hleft
    · cases hleft
    · cases hleft
      exact ⟨_, value⟩
  | sequence built _ hparts items =>
    simp only [built.tag, hparts, List.head?_map, Option.map_map] at hleft
    obtain ⟨part, hpart, heq⟩ := Option.map_eq_some_iff.mp hleft
    cases heq
    exact ⟨_, items part (List.mem_of_mem_head? hpart)⟩

/-- The text of an expression begins with that of an expression without an operand on its left. -/
theorem Denotes.exists_leaf (h : Denotes A t e) (hopens : OpensAt t least forced cs (.node v)) :
    leftOperand? v.head v.slots = none ∧ ∃ e', Denotes A v e' := by
  generalize hopening : Opening.node v = opening at hopens
  induction hopens generalizing e with
  | paren => cases hopening
  | here _ hleft =>
    cases hopening
    exact ⟨hleft, e, h⟩
  | left _ hleft _ ih =>
    obtain ⟨e', h'⟩ := h.leftOperand hleft
    exact ih h' hopening

/-- Whether a node begins with a sign or a parenthesis of its own. -/
def beginsWithSign (h : Head) : Bool :=
  h.is .parenthesizedExpression || h.isAny [.unaryExpression, .updateExpression] &&
    startsWithSign (h.text .operator)

/-- A node without an operand on its left begins with a word of its own. -/
theorem Denotes.exists_word (h : Denotes A v e) (hleft : leftOperand? v.head v.slots = none)
    (hsign : beginsWithSign v.head = false) (o : Options) :
    ∃ w rest, heldText o v = text w ++ rest ∧ ∃ c ∈ w.toList.head?, c ∉ joiners := by
  unfold leftOperand? at hleft
  cases h with
  | @name _ x name =>
    obtain ⟨pending, hheld⟩ := heldText_tag name.built.tag rfl o
    rw [expressionText, name.built.tag] at hheld
    dsimp only at hheld
    rw [name.name, List.append_assoc] at hheld
    obtain ⟨c, hc, hstart⟩ := (Option.any_eq_true _ _).mp (Bool.and_eq_true_iff.mp name.spelled).1
    refine ⟨_, _, hheld, c, hc, fun hmem => ?_⟩
    simp only [joiners, List.mem_cons, List.not_mem_nil, or_false] at hmem
    rcases hmem with rfl | rfl | rfl | rfl <;> cases hstart
  | numeral built digits =>
    obtain ⟨pending, hheld⟩ := heldText_tag built.tag rfl o
    rw [expressionText, built.tag] at hheld
    obtain ⟨hne, hall⟩ := Bool.and_eq_true_iff.mp digits
    cases hdigits : (numeralText v.head).toList with
    | nil => simp [String.toList_eq_nil_iff.mp hdigits] at hne
    | cons c cs =>
      refine ⟨_, [], by rw [hheld, List.append_nil], c, by rw [hdigits]; rfl, fun hmem => ?_⟩
      have hdigit := List.all_eq_true.mp hall c (hdigits ▸ List.mem_cons_self)
      simp only [joiners, List.mem_cons, List.not_mem_nil, or_false] at hmem
      rcases hmem with rfl | rfl | rfl | rfl <;> cases hdigit
  | paren built => simp [beginsWithSign, Head.is, built.tag] at hsign
  | new built =>
    obtain ⟨pending, hheld⟩ := heldText_tag built.tag rfl o
    rw [expressionText, built.tag] at hheld
    dsimp only at hheld
    rw [List.append_assoc, List.append_assoc] at hheld
    exact ⟨_, _, hheld, 'n', rfl, by decide⟩
  | @unary _ u e operator built ho known =>
    obtain ⟨pending, hheld⟩ := heldText_tag built.tag rfl o
    rw [expressionText, built.tag] at hheld
    dsimp only at hheld
    rw [List.append_assoc, ho] at hheld
    have hplain : startsWithSign operator = false := by
      simpa [beginsWithSign, Head.is, Head.isAny, built.tag, ho] using hsign
    have hfirst : ∀ operator ∈ unaryOperators, startsWithSign operator = false →
        operator.toList.head?.any (· ∉ joiners) := by decide
    obtain ⟨c, hc, hjoins⟩ := (Option.any_eq_true _ _).1 (hfirst operator known hplain)
    exact ⟨_, _, hheld, c, hc, of_decide_eq_true hjoins⟩
  | @update _ u e operator built ho known hu =>
    have hsigned : ∀ operator ∈ updateOperators, startsWithSign operator = true := by decide
    simp [beginsWithSign, Head.is, Head.isAny, built.tag, ho, hsigned operator known] at hsign
  | member built _ hu | index built _ hu | call built _ hu | conditional built hu
  | assign built _ _ hu | binary built _ _ hu | logical built _ _ hu =>
    simp [built.tag, hu] at hleft
  | sequence built hlength hparts =>
    simp only [built.tag, hparts, Option.map_eq_none_iff, List.head?_eq_none_iff,
      List.map_eq_nil_iff] at hleft
    subst hleft
    cases hlength

/-- What a script begins with, it writes first. -/
theorem prefix_of_leads {s : Script} {cs ds : List Char} (h : Leads s cs) (hs : Writes s ds) :
    cs <+: ds := by
  obtain ⟨es, hes⟩ := h.exists_output (t := ⟨⟨"", 0, 0, false⟩, []⟩) rfl
  have houtput : (Sheet.add ⟨⟨"", 0, 0, false⟩, []⟩ ds).page.output.toList = ds := by
    cases ds <;> simp [Sheet.add, Page.write, Page.beginLine, Page.append]
  rw [hs, houtput] at hes
  exact ⟨es, hes.symm⟩

theorem beginsWithSign_of_continuesLine (hline : continuesLine t = false) :
    ∃ h, Start.ofTree t .comma = some h ∧ beginsWithSign h = false := by
  obtain ⟨-, hstart⟩ := Bool.or_eq_false_iff.mp hline
  cases hfound : Start.ofTree t .comma with
  | none => rw [hfound] at hstart; cases hstart
  | some h =>
    rw [hfound] at hstart
    refine ⟨h, rfl, ?_⟩
    unfold beginsWithSign Head.isAny Head.is
    dsimp only at hstart
    split at hstart <;> simp_all

/-- The first character of an expression that does not continue a line. -/
theorem Denotes.exists_first (h : Denotes A t e) (hline : continuesLine t = false) {l : List Item}
    (hl : Strip A (printed o t (.expression .comma false)) l) :
    ∃ c ∈ (spell l).head?, c ∉ joiners := by
  obtain ⟨head, hstart, hsign⟩ := beginsWithSign_of_continuesLine hline
  obtain ⟨cs, opening, hopens⟩ := exists_opensAt t .comma false
  have hhead : Start.ofTree t .comma = opening.head? := hopens.start_eq
  rw [hstart] at hhead
  cases opening with
  | paren v => cases hhead
  | node v =>
    cases hhead
    obtain ⟨hleft, e', h'⟩ := h.exists_leaf hopens
    obtain ⟨w, rest, hheld, c, hc, hjoin⟩ := h'.exists_word hleft hsign o
    obtain ⟨more, hsame, -⟩ := hopens.same o
    rw [(hopens.comments_eq_nil h.uncommented).1, Opening.script, hheld, List.append_assoc] at hsame
    obtain ⟨es, hes⟩ := prefix_of_leads
      (((leads_text w (rest ++ more)).after_silent (writes_comments_nil _)).of_same hsame) hl.writes
    refine ⟨c, ?_, hjoin⟩
    rw [← hes, List.head?_append, hc]
    rfl

/-- **The first token of an expression that does not continue a line** is fresh. -/
theorem Denotes.exists_fresh {p : Phrase} (h : Denotes A t e) (hline : continuesLine t = false)
    {l : List Item} (hl : Strip A (printed o t (.expression .comma false)) l)
    (hderives : Derives p (tokensOf l) e) : ∃ k ks, tokensOf l = k :: ks ∧ k.IsFresh := by
  obtain ⟨c, hc, hjoin⟩ := h.exists_first hline hl
  cases l with
  | nil => cases hc
  | cons i l =>
    have hi := hl.spelled i List.mem_cons_self
    obtain ⟨d, ds, hchars⟩ := Item.exists_chars hi
    have hcd : d = c := by simpa [spell, hchars] using hc
    subst hcd
    cases i with
    | gap b =>
      cases hchars
      cases hi
      exact absurd (by decide) hjoin
    | token k =>
      refine ⟨k, tokensOf l, rfl, ?_⟩
      have hfirst : ∀ c ∈ k.text.toList.head?, c ∉ joiners := by
        rintro _ hmem
        rw [show k.text.toList = d :: ds from hchars] at hmem
        cases hmem
        exact hjoin
      rcases Statement.opensAs_of_derives hderives k rfl with hopen | ⟨x, hx, rfl, -⟩
      · exact isFresh_opening hopen hfirst
      · exact isFresh_name hi hx

end First

end Typeshift.Expression

namespace Typeshift.Statement

open Expression

/-! ### The ends of statements without a semicolon -/

section Stays

variable {ls rest more : List Lexeme} {l : Lexeme} {e : Expr} {bs : Bindings}

/-- **A statement without a semicolon ends** before some lexemes, whatever it is. -/
def Stays (rest : List Lexeme) : Prop :=
  ∀ l ∈ rest.head?, l.token ∈ [.mark ";", .mark "\x7d"] ∨ l.broken = true ∧ l.token.IsFresh

theorem stays_fresh (hbroken : l.broken = true) (hl : l.token.IsFresh) : Stays (l :: rest) := by
  rintro _ ⟨⟩
  exact .inr ⟨hbroken, hl⟩

theorem stays_of_end (h : ∀ l ∈ rest.head?, l.token = .mark "\x7d") : Stays rest := by
  intro l hl
  rw [h l hl]
  exact .inl (by decide)

theorem skipSemicolon_of_ne (h : ∀ l ∈ rest.head?, l.token ≠ .mark ";") :
    skipSemicolon rest = rest := by
  cases rest with
  | nil => rfl
  | cons l rest => exact if_neg (h l rfl)

/-- So the grammar ends it, before or after a semicolon. -/
theorem Stays.ends {kind : List Lexeme → Prop} (h : Stays rest)
    (hkind : ∀ (l : Lexeme) (more : List Lexeme), l.token.IsFresh → ¬ kind (ls ++ l :: more)) :
    Ends kind ls rest (skipSemicolon rest) := by
  cases rest with
  | nil => exact .finish
  | cons l rest =>
    rcases h l rfl with hl | ⟨hbroken, hfresh⟩
    · simp only [List.mem_cons, List.not_mem_nil, or_false] at hl
      rcases hl with hl | hl
      · rw [skipSemicolon, if_pos hl]
        exact .semicolon hl
      · rw [skipSemicolon, if_neg (by rw [hl]; decide)]
        exact .brace hl
    · have hends := hfresh.2
      simp only [List.mem_cons, List.not_mem_nil, or_false, not_or] at hends
      rw [skipSemicolon, if_neg hends.1]
      exact .line (by simp [hends]) hbroken fun more => hkind l more hfresh

/-- No expression and no label goes on with a fresh token. -/
theorem not_isExpression (h : Expresses ls e) (hl : l.token.IsFresh) :
    ¬ IsExpression (ls ++ l :: more) := by
  rintro (⟨e', he'⟩ | ⟨x, -, hx⟩)
  · have hfollows : Follows .expression (tokens (l :: more)) :=
      follows_cons fun level hlevel => by rw [hl.1] at hlevel; cases hlevel
    have hderives := he'.derives
    rw [tokens_append] at hderives
    obtain ⟨-, hnil⟩ := h.derives.unique_before hderives (by decide) hfollows (follows_nil _)
      (List.append_nil _).symm
    cases hnil
  · -- the label would be the whole, and the token its colon
    rw [tokens_append, tokens_cons] at hx
    cases hls : tokens ls with
    | nil => exact h.derives.ne_nil hls
    | cons t ts =>
      rw [hls] at hx
      cases ts with
      | nil =>
        have hcolon := hl.2
        simp only [List.cons_append, List.nil_append, List.cons.injEq] at hx
        simp [hx.2.1] at hcolon
      | cons u ts => simp at hx

/-- No names that are declared go on with a fresh token. -/
theorem not_isBindings (h : Binds ls bs) (hl : l.token.IsFresh) :
    ¬ IsBindings (ls ++ l :: more) := by
  rintro ⟨bs', h'⟩
  obtain ⟨parts, hne, htokens, -, hparts⟩ := h.bindings
  obtain ⟨parts', hne', htokens', -, hparts'⟩ := h'.bindings
  have hends : EndsBindings (tokens (l :: more)) := by
    rintro _ ⟨⟩
    exact hl.1
  have hnothing : EndsBindings [] := by rintro _ ⟨⟩
  rw [tokens_append, htokens] at htokens'
  obtain ⟨-, hnil⟩ := bindings_unique hne hne' hparts hparts' hends hnothing
    (htokens'.trans (List.append_nil _).symm)
  cases hnil

end Stays

end Typeshift.Statement
