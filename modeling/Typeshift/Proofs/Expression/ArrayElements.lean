import Typeshift.Proofs.Expression.RoundTrip
import Typeshift.Proofs.Print.Elements
import Typeshift.Proofs.Print.Opening

/-! # Expressions of the grammar as elements of arrays

The phrases of the grammar of expressions are a grammar of elements: a text is cut into tokens from
left to right, so of two phrases that a text begins with, one is the beginning of the other, and a
comma or a bracket goes on with no phrase.

* `Lexes`: reading some tokens from a text. `Lexes.linear`: of two readings one goes on from the
  other.
* `phrases`: the grammar of elements. `entries`: with strings, and with elements after `...`.
* `Denotes.isElement`: trees that stand for expressions of the grammar are elements.
  `isElement_default`: so are names and places with a default. -/

namespace Typeshift.Expression

open Print Script
open Elements (Gap Delimits ElementSyntax IsElement IsString)

variable {A : Alphabet}

/-! ### Reading some tokens of a text -/

/-- Reading some tokens from a text, up to a rest. -/
inductive Lexes (A : Alphabet) : List Char → List Token → List Char → Prop where
  | refl (cs : List Char) : Lexes A cs [] cs
  | step {cs rest stop : List Char} {t : Option Token} {ts : List Token}
      (hnext : A.next? cs = some (t, rest)) (later : Lexes A rest ts stop) :
    Lexes A cs (t.toList ++ ts) stop

/-- **Of two readings of a text, one goes on from the other.** -/
theorem Lexes.linear {cs a b : List Char} {ts us : List Token} (h : Lexes A cs ts a)
    (h' : Lexes A cs us b) :
    (∃ vs, Lexes A a vs b ∧ us = ts ++ vs) ∨ ∃ vs, Lexes A b vs a ∧ ts = us ++ vs := by
  induction h generalizing us with
  | refl => exact .inl ⟨us, h', rfl⟩
  | step hnext later ih =>
    cases h' with
    | refl => exact .inr ⟨_, .step hnext later, rfl⟩
    | step hnext' later' =>
      cases hnext.symm.trans hnext'
      rcases ih later' with ⟨vs, hvs, rfl⟩ | ⟨vs, hvs, rfl⟩
      · exact .inl ⟨vs, hvs, by rw [List.append_assoc]⟩
      · exact .inr ⟨vs, hvs, by rw [List.append_assoc]⟩

/-- The tokens among items are read from their text. -/
theorem lexes_items {items : List Item} {c : Char} (hs : ∀ i ∈ items, i.IsSpelled A)
    (ha : (items ++ [Item.gap c]).IsChain (Item.Apart A)) (rest : List Char) :
    Lexes A (spell items ++ c :: rest) (tokensOf items) (c :: rest) := by
  induction items with
  | nil => exact .refl _
  | cons i items ih =>
    have hitems : ∀ j ∈ items, j.IsSpelled A := fun j hj => hs j (List.mem_cons_of_mem i hj)
    obtain ⟨d, ds, hd, hapart⟩ := exists_spell_cons hitems ha
    have htail : spell items ++ c :: rest = d :: (ds ++ rest) := by
      have := congrArg (· ++ rest) hd
      simpa [spell, Item.chars] using this
    have hnext := next?_item (hs i List.mem_cons_self) hapart (ds ++ rest)
    rw [← htail, ← List.append_assoc] at hnext
    have htokens : tokensOf (i :: items) = i.token?.toList ++ tokensOf items := by
      cases i <;> rfl
    rw [htokens]
    exact .step hnext (ih hitems ha.of_cons)

/-! ### Blanks and delimiters -/

/-- No blank goes on with a word or a numeral. -/
def Alphabet.Blankless (A : Alphabet) : Prop := ∀ c, isGap c = true → A.continues c = false

section Blanks

variable (hA : A.Blankless) {c : Char}

theorem Alphabet.Blankless.isGap_eq_false (hA : A.Blankless) {c : Char}
    (hc : A.continues c = true) :
    isGap c = false := by
  rw [Bool.eq_false_iff]
  intro hgap
  rw [hA c hgap] at hc
  cases hc

theorem next?_delimiter (hc : c = ',' ∨ c = ']') (rest : List Char) :
    A.next? (c :: rest) = some (some (.mark (String.singleton c)), rest) := by
  rcases hc with rfl | rfl <;> rfl

theorem continues_delimiter (hc : c = ',' ∨ c = ']') : A.continues c = false :=
  continues_eq_false (by rcases hc with rfl | rfl <;> decide)

/-- An expression ends before what goes on with no word and no numeral. -/
theorem Token.Closes.stops_of {t : Token} {bare : Prop} (h : t.Closes bare)
    (hc : A.continues c = false) (hpoint : c ≠ '.') : t.stops A c = true := by
  simp only [Alphabet.continues, Bool.or_eq_false_iff] at hc
  cases t with
  | word s => simp [Token.stops, Alphabet.continues, hc]
  | numeral s => simp [Token.stops, hc, hpoint]
  | mark s =>
    simp only [Token.Closes, List.mem_cons, List.not_mem_nil, or_false] at h
    rcases h with rfl | rfl | rfl | rfl <;> rfl

include hA

theorem next?_blank (hc : isGap c = true) (rest : List Char) :
    A.next? (c :: rest) = some (none, rest) := by
  have hcontinues := hA c hc
  simp only [Alphabet.continues, Bool.or_eq_false_iff] at hcontinues
  rw [Alphabet.next?, if_neg (by simp [hcontinues]), if_neg (by simp [hcontinues]), if_pos hc]

/-- Where a delimiter follows blanks, nothing is read but blanks, or the delimiter first. -/
theorem Lexes.of_delimits {gap rest stop : List Char} {ts : List Token} (hgap : Gap gap)
    (hc : c = ',' ∨ c = ']') (h : Lexes A (gap ++ c :: rest) ts stop) :
    (ts = [] ∧ ∃ gap', Gap gap' ∧ gap ++ c :: rest = gap' ++ stop) ∨
      ∃ us, ts = .mark (String.singleton c) :: us := by
  induction gap generalizing ts with
  | nil =>
    cases h with
    | refl => exact .inl ⟨rfl, [], Elements.gap_nil, rfl⟩
    | step hnext later =>
      cases (next?_delimiter hc rest).symm.trans hnext
      exact .inr ⟨_, rfl⟩
  | cons g gap ih =>
    have hgap' : Gap gap := fun d hd => hgap d (List.mem_cons_of_mem g hd)
    cases h with
    | refl => exact .inl ⟨rfl, [], Elements.gap_nil, rfl⟩
    | step hnext later =>
      cases (next?_blank hA (hgap g List.mem_cons_self) _).symm.trans hnext
      rcases ih hgap' later with ⟨rfl, gap₂, hgap₂, heq⟩ | ⟨us, rfl⟩
      · refine .inl ⟨rfl, g :: gap₂, ?_, by rw [List.cons_append, heq]; rfl⟩
        exact List.forall_mem_cons.mpr ⟨hgap g List.mem_cons_self, hgap₂⟩
      · exact .inr ⟨us, rfl⟩

end Blanks

/-! ### Phrases as texts -/

/-- Items that are a phrase, from its first token to its last. -/
structure Phrased (A : Alphabet) (p : Phrase) (l : List Item) (e : Expr) : Prop where
  spelled : ∀ i ∈ l, i.IsSpelled A
  apart : l.IsChain (Item.Apart A)
  derives : Derives p (tokensOf l) e
  first : ∃ t, l.head? = some (.token t)
  back : Back l True

/-- The text of a phrase. -/
def IsPhrase (A : Alphabet) (p : Phrase) (cs : List Char) : Prop :=
  ∃ l e, Phrased A p l e ∧ cs = spell l

namespace Phrased

variable {p : Phrase} {l l' : List Item} {e e' : Expr}

/-- Reading a phrase up to what stands after it. -/
theorem lexes (h : Phrased A p l e) {c : Char} (hc : A.continues c = false) (hpoint : c ≠ '.')
    (rest : List Char) : Lexes A (spell l ++ c :: rest) (tokensOf l) (c :: rest) := by
  obtain ⟨_, ht, t, rfl, hcloses⟩ := h.back
  refine lexes_items h.spelled ?_ rest
  exact List.isChain_append.mpr ⟨h.apart, .singleton _,
    meet_of_stops ht (hcloses.stops_of hc hpoint) (by rintro _ ⟨⟩; rfl)⟩

/-- Reading a phrase up to where it may end as an element. -/
theorem lexes_of_delimits (hA : A.Blankless) (h : Phrased A p l e) {xs : List Char}
    (hxs : Delimits xs) : Lexes A (spell l ++ xs) (tokensOf l) xs := by
  obtain ⟨gap, c, rest, hgap, hc, rfl⟩ := hxs
  cases gap with
  | nil => exact h.lexes (continues_delimiter hc) (by rcases hc with rfl | rfl <;> decide) rest
  | cons g gap =>
    have hblank := hgap g List.mem_cons_self
    refine h.lexes (hA g hblank) ?_ _
    rintro rfl
    cases hblank

/-- A phrase does not end with a blank. -/
theorem getLast (hA : A.Blankless) (h : Phrased A p l e) :
    ∃ c, (spell l).getLast? = some c ∧ isGap c = false := by
  obtain ⟨_, ht, t, rfl, hcloses⟩ := h.back
  have hspelled : t.isSpelled A = true := h.spelled _ (List.mem_of_getLast? ht)
  obtain ⟨init, hl⟩ := List.getLast?_eq_some_iff.mp ht
  have htext : spell l = spell init ++ t.text.toList := by
    rw [hl, spell_append]
    simp [spell, Item.chars]
  have hne : t.text.toList ≠ [] := by
    obtain ⟨c, cs, hcs⟩ := Item.exists_chars (show (Item.token t).IsSpelled A from hspelled)
    rw [show t.text.toList = c :: cs from hcs]
    exact List.cons_ne_nil c cs
  rw [htext, List.getLast?_append_of_ne_nil _ hne]
  have hall (hcs : ∀ c ∈ t.text.toList, A.continues c = true) :
      ∃ c, t.text.toList.getLast? = some c ∧ isGap c = false :=
    ⟨_, List.getLast?_eq_some_getLast hne, hA.isGap_eq_false (hcs _ (List.getLast_mem hne))⟩
  cases t with
  | word s => exact hall (List.all_eq_true.mp (Bool.and_eq_true_iff.mp hspelled).2)
  | numeral s =>
    refine hall fun c hc => ?_
    have := List.all_eq_true.mp (Bool.and_eq_true_iff.mp hspelled).2 c hc
    simp [Alphabet.continues, this]
  | mark s =>
    simp only [Token.Closes, List.mem_cons, List.not_mem_nil, or_false] at hcloses
    rcases hcloses with rfl | rfl | rfl | rfl <;> exact ⟨_, rfl, rfl⟩

/-- A comma or a bracket goes on with no element. -/
theorem not_derives {c : Char} (h : Phrased A .assignment l e) (hc : c = ',' ∨ c = ']')
    (us : List Token) {e' : Expr} :
    ¬ Derives .assignment (tokensOf l ++ .mark (String.singleton c) :: us) e' := by
  intro h'
  have hfollows : Follows .assignment (.mark (String.singleton c) :: us) := by
    refine follows_cons ?_
    rcases hc with rfl | rfl
    · exact fun _ hl => by cases hl; decide
    · exact fun _ hl => nomatch hl
  have hshort := h.derives.complete.alone (Nat.le_refl 1) (Nat.le_refl 1) hfollows
  have hlong := h'.complete.alone (Nat.le_refl 1) (Nat.le_refl 1) (follows_nil _)
  rw [List.append_nil] at hlong
  cases (hshort.unique hlong).2

/-- A longer element ends where the shorter one does, before blanks. -/
theorem eq_of_lexes (hA : A.Blankless) (h : Phrased A .assignment l e)
    (h' : Phrased A .assignment l' e') {xs ys : List Char} {vs : List Token} (hxs : Delimits xs)
    (heq : spell l ++ xs = spell l' ++ ys) (hlexes : Lexes A xs vs ys)
    (htokens : tokensOf l' = tokensOf l ++ vs) : spell l = spell l' := by
  obtain ⟨gap, c, rest, hgap, hc, rfl⟩ := hxs
  rcases Lexes.of_delimits hA hgap hc hlexes with ⟨rfl, gap', hgap', hrest⟩ | ⟨us, rfl⟩
  · rw [hrest, ← List.append_assoc] at heq
    have heq := List.append_cancel_right heq
    -- the last character of the longer one is no blank
    obtain ⟨d, hd, hplain⟩ := h'.getLast hA
    cases hgap'' : gap' using List.reverseRecOn with
    | nil => rw [← heq, hgap'', List.append_nil]
    | append_singleton init b =>
      rw [← heq, hgap'', ← List.append_assoc, List.getLast?_concat] at hd
      obtain rfl := Option.some.inj hd
      rw [hgap' b (by simp [hgap''])] at hplain
      cases hplain
  · have hderives := h'.derives
    rw [htokens] at hderives
    exact absurd hderives (h.not_derives hc us)

/-- A phrase begins with what goes on with a word or a numeral, or with a mark of its own. -/
theorem exists_first (h : Phrased A p l e) :
    ∃ c rest, spell l = c :: rest ∧ (A.continues c = true ∨ c ∈ ['(', '+', '-', '~', '!']) := by
  obtain ⟨t, ht⟩ := h.first
  obtain ⟨l, rfl⟩ : ∃ l', l = .token t :: l' := ⟨_, (List.eq_cons_of_mem_head? ht)⟩
  have hopens : t.Opens := by
    obtain ⟨u, us, htokens, hu⟩ := h.derives.startsWith
    rw [tokensOf_token] at htokens
    obtain ⟨rfl, -⟩ := List.cons_eq_cons.mp htokens
    exact hu
  have hspelled : t.isSpelled A = true := h.spelled _ List.mem_cons_self
  obtain ⟨c, cs, hcs⟩ := Item.exists_chars (show (Item.token t).IsSpelled A from hspelled)
  refine ⟨c, cs ++ spell l, congrArg (· ++ spell l) hcs, ?_⟩
  cases t with
  | word s =>
    refine .inl (List.all_eq_true.mp (Bool.and_eq_true_iff.mp hspelled).2 c ?_)
    rw [show s.toList = c :: cs from hcs]
    exact List.mem_cons_self
  | numeral s =>
    have hdigit : c.isDigit = true := by
      refine List.all_eq_true.mp (Bool.and_eq_true_iff.mp hspelled).2 c ?_
      rw [show s.toList = c :: cs from hcs]
      exact List.mem_cons_self
    exact .inl (by simp [Alphabet.continues, hdigit])
  | mark s =>
    simp only [Token.Opens, List.mem_cons, List.not_mem_nil, or_false] at hopens
    refine .inr ?_
    rcases hopens with rfl | rfl | rfl | rfl | rfl | rfl | rfl <;> cases hcs <;> decide

/-- A phrase begins with no blank, no comma and no closing bracket. -/
theorem begins (hA : A.Blankless) (h : Phrased A p l e) :
    ∃ c rest, spell l = c :: rest ∧ isGap c = false ∧ c ≠ ',' ∧ c ≠ ']' := by
  obtain ⟨c, rest, hspell, hc | hc⟩ := h.exists_first
  · refine ⟨c, rest, hspell, hA.isGap_eq_false hc, ?_, ?_⟩
    all_goals
      rintro rfl
      rw [continues_delimiter (by simp)] at hc
      cases hc
  · simp only [List.mem_cons, List.not_mem_nil, or_false] at hc
    rcases hc with rfl | rfl | rfl | rfl | rfl <;>
      exact ⟨_, rest, hspell, by decide, by decide, by decide⟩

end Phrased

/-! ### The grammar of elements -/

theorem IsPhrase.paren {cs : List Char} (h : IsPhrase A .expression cs) :
    IsPhrase A .assignment ('(' :: (cs ++ [')'])) := by
  obtain ⟨l, e, h, rfl⟩ := h
  have hinner : Strip A (text (String.ofList (spell l))) l :=
    ⟨by simpa using writes_text (String.ofList (spell l)), h.spelled, h.apart⟩
  have hstrip := strip_between "(" ")" hinner (by decide) (by decide) (.inr h.back)
  refine ⟨_, e, ⟨hstrip.spelled, hstrip.apart, ?_, ⟨_, rfl⟩, ?_⟩, ?_⟩
  · have hparen := (Derives.paren h.derives).within (by decide : Phrase.primary.Within .assignment)
    simpa using hparen
  · exact (back_token (by simp [Token.Closes])).append _
  · simp [spell, Item.chars, Token.text]

/-- **No text begins with two phrases** that end before a comma or a bracket. -/
theorem IsPhrase.delimited (hA : A.Blankless) {cs ds xs ys : List Char}
    (h : IsPhrase A .assignment cs) (h' : IsPhrase A .assignment ds) (hxs : Delimits xs)
    (hys : Delimits ys) (heq : cs ++ xs = ds ++ ys) : cs = ds := by
  obtain ⟨l, e, h, rfl⟩ := h
  obtain ⟨l', e', h', rfl⟩ := h'
  have hlexes := h.lexes_of_delimits hA hxs
  have hlexes' := h'.lexes_of_delimits hA hys
  rw [← heq] at hlexes'
  rcases hlexes.linear hlexes' with ⟨vs, hvs, htokens⟩ | ⟨vs, hvs, htokens⟩
  · exact h.eq_of_lexes hA h' hxs heq hvs htokens
  · exact (h'.eq_of_lexes hA h hys heq.symm hvs htokens).symm

/-- **The grammar of expressions as a grammar of elements.** -/
def phrases (A : Alphabet) (hA : A.Blankless) : ElementSyntax where
  expression := IsPhrase A .expression
  element := IsPhrase A .assignment
  paren := IsPhrase.paren
  begins := by
    rintro _ ⟨l, e, h, rfl⟩
    exact h.begins hA
  delimited := IsPhrase.delimited hA

/-- No phrase begins with a point or a quote. -/
theorem IsPhrase.not_begins {p : Phrase} {c : Char} {cs : List Char} (h : IsPhrase A p (c :: cs)) :
    c ∉ ['.', '"', '\x27'] := by
  obtain ⟨l, e, h, heq⟩ := h
  obtain ⟨d, rest, hspell, hd⟩ := h.exists_first
  obtain ⟨rfl, -⟩ := List.cons_eq_cons.mp (heq.trans hspell)
  intro hc
  rcases hd with hd | hd
  · have hplain : ∀ b ∈ ['.', '"', '\x27'], A.continues b = false := by
      simp [Alphabet.continues, Alphabet.starts]
    rw [hplain c hc] at hd
    cases hd
  · have hmarks : ∀ b ∈ ['.', '"', '\x27'], b ∉ ['(', '+', '-', '~', '!'] := by simp
    exact hmarks c hc hd

theorem admits_strings_phrases (hA : A.Blankless) : (phrases A hA).Admits IsString := by
  refine Elements.admits_strings fun {c cs} hcs hquote => IsPhrase.not_begins hcs ?_
  rcases hquote with rfl | rfl <;> decide

theorem admits_spreads_strings (hA : A.Blankless) :
    ((phrases A hA).adjoin (admits_strings_phrases hA)).Admits
      ((phrases A hA).adjoin (admits_strings_phrases hA)).IsSpread := by
  refine Elements.admits_spreads ?_
  rintro cs (hcs | ⟨s, hs⟩)
  · exact IsPhrase.not_begins hcs (by decide)
  · rcases StringLiteral.isQuote_of_read? hs with h | h <;> cases h

/-- **Expressions of the grammar, strings, and both after `...`** as elements. -/
def entries (A : Alphabet) (hA : A.Blankless) : ElementSyntax :=
  ((phrases A hA).adjoin (admits_strings_phrases hA)).adjoin (admits_spreads_strings hA)

/-! ### Trees as elements -/

/-- A script that begins with a character that is no blank. -/
def LeadsPlain (s : Script) : Prop := ∃ c cs, Leads s (c :: cs) ∧ isGap c = false

section LeadsPlain

variable {s : Script}

theorem LeadsPlain.append (h : LeadsPlain s) (s' : Script) : LeadsPlain (s ++ s') := by
  obtain ⟨c, cs, hleads, hc⟩ := h
  exact ⟨c, cs, hleads.append s', hc⟩

theorem LeadsPlain.after_silent (h : LeadsPlain s) {s' : Script} (hs : Writes s' []) :
    LeadsPlain (s' ++ s) := by
  obtain ⟨c, cs, hleads, hc⟩ := h
  exact ⟨c, cs, hleads.after_silent hs, hc⟩

theorem leadsPlain_text {w : String} (hw : ∃ c ∈ w.toList.head?, isGap c = false) (s : Script) :
    LeadsPlain (text w ++ s) := by
  obtain ⟨c, hmem, hc⟩ := hw
  obtain ⟨cs, hcs⟩ : ∃ cs, w.toList = c :: cs := ⟨_, List.eq_cons_of_mem_head? hmem⟩
  exact ⟨c, cs, hcs ▸ leads_text w s, hc⟩

/-- What the chunk of a script begins with. -/
theorem LeadsPlain.chunk (h : LeadsPlain s) (level width : Nat) :
    ∃ c ∈ (s.chunk level width).text.toList.head?, isGap c = false := by
  obtain ⟨c, cs, hleads, hc⟩ := h
  obtain ⟨ds, hds⟩ := hleads.exists_output (t := ⟨⟨"", level, width, false⟩, []⟩) rfl
  refine ⟨c, ?_, hc⟩
  unfold Script.chunk
  rw [hds]
  rfl

end LeadsPlain

theorem leadsPlain_printed {o : Options} {u : Node} (hf : u.head.family = .expression)
    (hc : u.head.comments = .none) (h : LeadsPlain (body o u)) (least : Precedence)
    (forced : Bool) :
    LeadsPlain (printed o u (.expression least forced)) := by
  have hinner (b : Bool) : LeadsPlain (when b (comments (.inside true) []) ++ body o u) :=
    h.after_silent (writes_when_comments b)
  rw [printed_expression hf hc, expressionFrame, inlineFrame_none]
  refine LeadsPlain.append (LeadsPlain.after_silent ?_ (writes_comments_nil _)) _
  unfold parenIf
  split
  · exact (leadsPlain_text (w := "(") ⟨'(', rfl, rfl⟩ _).append _
  · exact hinner _

theorem heldText_eq_body {t : Node} (hf : t.head.family = .expression)
    (hc : t.head.comments = .none) (o : Options) : heldText o t = body o t := by
  rw [heldText_expression hf, hc, body]
  split <;> rfl

/-- A node with an operand on its left begins as the operand does. -/
theorem leadsPlain_leftOperand {o : Options} {t u : Node} {e : Expr}
    (hleft : ∃ least forced, leftOperand? t.head t.slots = some (u, least, forced))
    (hc : t.head.comments = .none) (hu : Sound A o u e) (h : LeadsPlain (body o u)) :
    LeadsPlain (body o t) := by
  obtain ⟨least, forced, hleft⟩ := hleft
  obtain ⟨more, hheld, -⟩ := heldText_leftOperand hleft o
  rw [← heldText_eq_body (family_of_leftOperand? hleft) hc, hheld]
  exact (leadsPlain_printed hu.family hu.comments h least forced).append more

/-- A node whose text begins with an operator. -/
theorem leadsPlain_operator {operator : String} (ho : operator ∈ unaryOperators ++ updateOperators)
    (s : Script) : LeadsPlain (text operator ++ s) := by
  have hfirst : ∀ operator ∈ unaryOperators ++ updateOperators,
      operator.toList.head?.any (!isGap ·) = true := by decide
  refine leadsPlain_text ?_ s
  obtain ⟨c, hc, hplain⟩ := Option.any_eq_true _ _ |>.mp (hfirst operator ho)
  exact ⟨c, hc, by simpa using hplain⟩

/-- **The text of an expression of the grammar begins with no blank.** -/
theorem Denotes.leadsPlain (hA : A.Blankless) {t : Node} {e : Expr} (h : Denotes A t e)
    (o : Options) : LeadsPlain (body o t) := by
  induction h with
  | @name t x name hx =>
    rw [name.body_eq, ← List.append_nil (text x)]
    obtain ⟨c, hc, hstarts⟩ := Option.any_eq_true _ _ |>.mp (Bool.and_eq_true_iff.mp name.spelled).1
    refine leadsPlain_text ⟨c, hc, hA.isGap_eq_false ?_⟩ []
    simp [Alphabet.continues, hstarts]
  | @numeral t built digits =>
    have hbody : body o t = text (numeralText t.head) ++ [] := by
      rw [body, expressionText, built.tag, List.append_nil]
    obtain ⟨hne, hall⟩ := Bool.and_eq_true_iff.mp digits
    rw [hbody]
    cases hs : (numeralText t.head).toList with
    | nil => simp [← String.toList_inj, hs] at hne
    | cons c cs =>
      have hdigit : c.isDigit = true :=
        List.all_eq_true.mp hall c (by rw [hs]; exact List.mem_cons_self)
      refine leadsPlain_text ⟨c, by rw [hs]; rfl, hA.isGap_eq_false ?_⟩ []
      simp [Alphabet.continues, hdigit]
  | paren built hu inner ih =>
    rw [body, expressionText, built.tag]
    exact (leadsPlain_text (w := "(") ⟨'(', rfl, rfl⟩ _).append _
  | member built plain hu hv object property ih =>
    exact leadsPlain_leftOperand (by simp [leftOperand?, built.tag, hu]) built.comments
      (object.sound o) ih
  | index built computed hu hv object property ih =>
    exact leadsPlain_leftOperand (by simp [leftOperand?, built.tag, hu]) built.comments
      (object.sound o) ih
  | call built untyped hu hparts callee arguments ih =>
    exact leadsPlain_leftOperand (by simp [leftOperand?, built.tag, hu]) built.comments
      (callee.sound o) ih
  | new built untyped hu hparts callee arguments =>
    rw [body, expressionText, built.tag]
    exact ((leadsPlain_text (w := "new ") ⟨'n', rfl, rfl⟩ _).append _).append _
  | unary built ho known hu argument =>
    rw [body, expressionText, built.tag]
    exact (leadsPlain_operator (ho.symm ▸ List.mem_append_left _ known) _).append _
  | @update t u a operator built ho known hu argument ih =>
    cases hfirst : t.head.flag .operatorFirst with
    | true =>
      rw [body, expressionText, built.tag]
      dsimp only
      rw [hfirst, if_pos rfl]
      exact (leadsPlain_operator (ho.symm ▸ List.mem_append_right _ known) _).append _
    | false =>
      exact leadsPlain_leftOperand (by simp [leftOperand?, built.tag, hu, hfirst]) built.comments
        (argument.sound o) ih
  | binary built ho known hu hv left right ih =>
    exact leadsPlain_leftOperand (by simp [leftOperand?, built.tag, hu]) built.comments
      (left.sound o) ih
  | logical built ho known hu hv left right ih =>
    exact leadsPlain_leftOperand (by simp [leftOperand?, built.tag, hu]) built.comments
      (left.sound o) ih
  | conditional built hu hv hw test consequent alternate ih =>
    exact leadsPlain_leftOperand (by simp [leftOperand?, built.tag, hu]) built.comments
      (test.sound o) ih
  | assign built ho known hu hv target htarget value ih =>
    exact leadsPlain_leftOperand (by simp [leftOperand?, built.tag, hu]) built.comments
      (target.sound o) ih
  | @sequence t parts built hlength hparts items ihs =>
    cases parts with
    | nil => simp at hlength
    | cons part parts =>
      exact leadsPlain_leftOperand (by simp [leftOperand?, built.tag, hparts]) built.comments
        ((items part List.mem_cons_self).sound o) (ihs part List.mem_cons_self)

/-- **Expressions of the grammar are elements.** -/
theorem Denotes.isElement (hA : A.Blankless) {t : Node} {e : Expr} (h : Denotes A t e)
    (o : Options) : IsElement (phrases A hA) o t := by
  have hsound := h.sound o
  obtain ⟨l, hl, hd, ⟨i, hi, -⟩, hback⟩ := hsound.laid
  have hback : Back l True := hback.mono fun _ => trivial
  have htext (level width : Nat) : ((body o t).chunk level width).text.toList = spell l :=
    (Elements.adds_of_writes hl.writes).chunk_eq
  have hhead : ∃ u, l.head? = some (.token u) := by
    cases i with
    | token u => exact ⟨u, hi⟩
    | gap b =>
      obtain ⟨l', rfl⟩ : ∃ l', l = .gap b :: l' := ⟨_, List.eq_cons_of_mem_head? hi⟩
      obtain ⟨c, hc, hplain⟩ := (h.leadsPlain hA o).chunk 0 0
      rw [htext] at hc
      obtain rfl : b = c := Option.some.inj hc
      rw [show b = ' ' from hl.spelled _ List.mem_cons_self] at hplain
      cases hplain
  have hphrase {p : Phrase} (hp : (home t).Within p) : IsPhrase A p (spell l) :=
    ⟨l, e, ⟨hl.spelled, hl.apart, hd.within hp, hhead, hback⟩, rfl⟩
  refine ⟨hsound.family, h.of_built Elements.uncommented_of_built, fun level width => ?_,
    fun level width _ => ?_, fun level width hp => ?_⟩
  · unfold Script.chunk
    rw [hl.writes, Elements.add_of_begun rfl]
  · rw [htext]
    exact hphrase (phraseOf_within rfl : (home t).Within (placeOf .comma))
  · rw [htext]
    refine hphrase (phraseOf_within ?_ : (home t).Within (placeOf .assignment))
    split
    · rfl
    · exact hp

/-- **A name or a place with a default is an element**: it is written like an assignment. -/
theorem isElement_default (hA : A.Blankless) {t u v : Node} {l r : Expr}
    (built : Built t .assignmentPattern [u, v]) (hu : t.slots.child? .left = some u)
    (hv : t.slots.child? .right = some v) (target : Denotes A u l) (htarget : l.IsTarget)
    (value : Denotes A v r) (o : Options) : IsElement (phrases A hA) o t := by
  obtain ⟨assigned, hassigned, ho, hu', hv'⟩ : ∃ w : Node,
      Built w .assignmentExpression [u, v] ∧ w.head.text .operator = "=" ∧
        w.slots.child? .left = some u ∧ w.slots.child? .right = some v :=
    ⟨.of .assignmentExpression [(.operator, .text "=")] [(.left, .one u), (.right, .one v)],
      ⟨rfl, rfl, List.Subset.refl _⟩, rfl, rfl, rfl⟩
  have helement : IsElement (phrases A hA) o assigned :=
    (Denotes.assign hassigned ho (by decide) hu' hv' target htarget value).isElement hA o
  -- the mark between blanks is one piece here, and three there
  have hmark (sheet : Sheet) : Script.run (Script.run (Script.run sheet space) (text "=")) space =
      Script.run sheet (text " = ") := by
    rw [← run_append, ← run_append, writes_text " = "]
    exact (writes_space.append (writes_text "=")).append writes_space sheet
  have hrun (sheet : Sheet) : Script.run sheet (body o t) = Script.run sheet (body o assigned) := by
    rw [body_assign hassigned.tag ho hu' hv', body, expressionText, built.tag]
    dsimp only
    rw [Slots.child_annotateSlots _ hu, Slots.child_annotateSlots _ hv, infixed]
    simp only [run_append, hmark]
    rfl
  have hchunk (level width : Nat) :
      (body o t).chunk level width = (body o assigned).chunk level width := by
    unfold Script.chunk
    rw [hrun]
  have hprec : Precedence.ofHead t.head = .primary := by rw [Precedence.ofHead, built.tag]
  have hprec' : Precedence.ofHead assigned.head = .assignment := by
    rw [Precedence.ofHead, hassigned.tag]
  refine ⟨family_of_tag built.tag, Elements.uncommented_of_built built ?_,
    fun level width => hchunk level width ▸ helement.inLine level width,
    fun level width hl => ?_, fun level width _ => ?_⟩
  · exact List.forall_mem_cons.mpr ⟨target.of_built Elements.uncommented_of_built,
      List.forall_mem_singleton.mpr (value.of_built Elements.uncommented_of_built)⟩
  · rw [hprec] at hl
    cases hl
  · rw [hchunk]
    exact helement.element level width (by rw [hprec']; rfl)

/-! ### An array with holes -/

theorem blankless_asciiNames : asciiNames.Blankless := by
  intro c hc
  have hrange : c.toNat ≤ 0x20 ∨ 0x85 ≤ c.toNat := by
    rcases Bool.or_eq_true_iff.mp hc with hblank | hmark
    · obtain ⟨r, hr, hmem⟩ := List.any_eq_true.mp (Bool.and_eq_true_iff.mp hblank).1
      have hranges : ∀ r ∈ Text.blankRanges, r.2 ≤ 0x20 ∨ 0x85 ≤ r.1 := by decide
      simp only [Bool.and_eq_true, decide_eq_true_eq] at hmem
      have := hranges r hr
      omega
    · obtain rfl := eq_of_beq hmark
      decide
  rw [Bool.eq_false_iff]
  intro hcontinues
  have hval : c.toNat = c.val.toNat := rfl
  have hascii : 0x20 < c.toNat ∧ c.toNat < 0x85 := by
    simp only [Alphabet.continues, Alphabet.starts, asciiNames, Bool.and_false, Bool.or_false,
      Bool.or_eq_true, beq_iff_eq] at hcontinues
    rcases hcontinues with ((halpha | rfl) | rfl) | hdigit
    · delta Char.isAlpha Char.isUpper Char.isLower at halpha
      simp only [Bool.or_eq_true, Bool.and_eq_true, decide_eq_true_eq, ge_iff_le,
        UInt32.le_iff_toNat_le] at halpha
      have hbounds : 'A'.val.toNat = 65 ∧ 'Z'.val.toNat = 90 ∧ 'a'.val.toNat = 97 ∧
          'z'.val.toNat = 122 := ⟨rfl, rfl, rfl, rfl⟩
      omega
    · decide
    · decide
    · simp only [Char.isDigit, Bool.and_eq_true, decide_eq_true_eq,
        UInt32.le_iff_toNat_le] at hdigit
      have hbounds : '0'.val.toNat = 48 ∧ '9'.val.toNat = 57 := ⟨rfl, rfl⟩
      omega
  omega

/-- `b, c`. -/
def sequence : Node :=
  .of .sequenceExpression [] [(.expressions, .many [Source.ident "b", Source.ident "c"])]

/-- `...d`. -/
def spread : Node := .of .spreadElement [] [(.argument, .one (Source.ident "d"))]

/-- `",]"`. -/
def bracketString : Node := .of .stringLiteral [(.value, .text ",]")] []

/-- An array with a hole before, between and after its elements: `[, a,, (b, c), ...d, ",]",,]`. -/
def holedArray : Node :=
  .of .arrayExpression []
    [(.elements, .holes [none, some (Source.ident "a"), none, some sequence, some spread,
      some bracketString, none])]

theorem run_array_holedArray :
    holedArray.head.tag? = some .arrayExpression ∧
      (∀ e, some e ∈ holedArray.slots.gaps .elements →
        IsElement (entries asciiNames blankless_asciiNames) .standard e) ∧
      ∃ inside,
        Script.run (Printer.new .standard).sheet (body .standard holedArray) =
          (Printer.new .standard).sheet.add ('[' :: (inside ++ [']'])) ∧
        ∀ more es rest,
          Elements.ReadsElements (entries asciiNames blankless_asciiNames) (inside ++ ']' :: more)
              es rest ↔
            es = [none, some ['a'], none, some ['(', 'b', ',', ' ', 'c', ')'],
                some ['.', '.', '.', 'd'], some ['"', ',', ']', '"'], none] ∧
              rest = more := by
  have hname {x : String} (hx : asciiNames.isName x = true ∧ x ∉ reserved) :
      Denotes asciiNames (Source.ident x) (.name x) := denotes_ident hx.1 hx.2
  have hsequence : Denotes asciiNames sequence (.sequence [.name "b", .name "c"]) := by
    have hitems : ∀ part ∈ [(Source.ident "b", Expr.name "b"), (Source.ident "c", .name "c")],
        Denotes asciiNames part.1 part.2 := by
      simp only [List.forall_mem_cons]
      exact ⟨hname (by decide), hname (by decide), List.forall_mem_nil _⟩
    exact .sequence ⟨rfl, rfl, List.Subset.refl _⟩ (by decide) rfl hitems
  have hplain {e : Node} (h : IsElement (phrases asciiNames blankless_asciiNames) .standard e) :
      IsElement (entries asciiNames blankless_asciiNames) .standard e :=
    (h.adjoin (admits_strings_phrases _)).adjoin (admits_spreads_strings _)
  have hspread : IsElement (entries asciiNames blankless_asciiNames) .standard spread :=
    Elements.isElement_spread (admits_spreads_strings _) ⟨rfl, rfl, List.Subset.refl _⟩ (.inl rfl)
      rfl rfl (((hname (by decide)).isElement _ _).adjoin (admits_strings_phrases _))
  have hstring : IsElement (entries asciiNames blankless_asciiNames) .standard bracketString := by
    have hraw : bracketString.head.raw? = none := rfl
    exact (Elements.isElement_string (admits_strings_phrases _) ⟨rfl, rfl, List.Subset.refl _⟩
      (by simp [hraw])).adjoin (admits_spreads_strings _)
  have helements : ∀ e, some e ∈ holedArray.slots.gaps .elements →
      IsElement (entries asciiNames blankless_asciiNames) .standard e := by
    have hgaps : holedArray.slots.gaps .elements =
      [none, some (Source.ident "a"), none, some sequence, some spread, some bracketString,
        none] := rfl
    intro e he
    simp only [hgaps, List.mem_cons, List.not_mem_nil, or_false, reduceCtorEq, false_or,
      Option.some.injEq] at he
    rcases he with rfl | rfl | rfl | rfl
    · exact hplain ((hname (by decide)).isElement _ _)
    · exact hplain (hsequence.isElement _ _)
    · exact hspread
    · exact hstring
  obtain ⟨inside, ascribed, hrun, hascribed, hreads⟩ :=
    Elements.run_array (entries asciiNames blankless_asciiNames) .standard
      (.inl rfl : holedArray.head.tag? = _ ∨ _) helements (Printer.new .standard).sheet
  rw [hascribed rfl] at hrun
  exact ⟨rfl, helements, inside, hrun, hreads⟩

example : printText .standard holedArray = .ok "[, a,, (b, c), ...d, \",]\",,]\n" := by rfl

end Typeshift.Expression
