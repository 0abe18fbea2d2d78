import Typeshift.Proofs.Expression.Places
import Typeshift.Proofs.Print.Chunk
import Typeshift.Proofs.StringLiteral

/-! # The elements of arrays

An array is a list with holes. In its text a comma ends an element, or stands for a hole if there is
no element before it; so a comma after the last element adds nothing, and a hole at the end needs a
comma of its own. How the elements themselves are read is left to a grammar of expressions, of which
it is known only what makes it a grammar of elements.

* `ElementSyntax`: a grammar of the expressions that may be elements; `ElementSyntax.adjoin`: with
  further elements that begin otherwise, such as strings and what stands after `...`.
* `ReadsElements`: how the text of an array is read; `ReadsElements.unique`: in one way only.
* `IsElement`: a node without comments whose own text is an expression of the grammar.
* `run_array`: what is written for an array is read as its elements and holes. -/

namespace Typeshift.Elements

open Print Script
open Expression (Built isGap printed body printed_expression inlineFrame_none)

/-! ### How an array is read -/

/-- Blanks. -/
def Gap (cs : List Char) : Prop := ∀ c ∈ cs, isGap c = true

/-- What may follow an element: a comma or the closing bracket, after blanks. -/
def Delimits (cs : List Char) : Prop :=
  ∃ gap c rest, Gap gap ∧ (c = ',' ∨ c = ']') ∧ cs = gap ++ c :: rest

/-- **A grammar of elements**: the texts of expressions, and of those that may be elements because
they have no comma outside brackets. -/
structure ElementSyntax where
  expression : List Char → Prop
  element : List Char → Prop
  /-- Every expression in parentheses may be an element. -/
  paren : ∀ {cs}, expression cs → element ('(' :: (cs ++ [')']))
  /-- An element begins with a character of its own. -/
  begins : ∀ {cs}, element cs → ∃ c rest, cs = c :: rest ∧ isGap c = false ∧ c ≠ ',' ∧ c ≠ ']'
  /-- No text begins with two elements that end before a comma or a bracket. -/
  delimited : ∀ {cs ds xs ys}, element cs → element ds → Delimits xs → Delimits ys →
    cs ++ xs = ds ++ ys → cs = ds

/-- **How the elements of an array are read**, up to the closing bracket, with the text that follows
it. A hole is `none`. -/
inductive ReadsElements (G : ElementSyntax) :
    List Char → List (Option (List Char)) → List Char → Prop where
  | close {gap rest : List Char} (hgap : Gap gap) : ReadsElements G (gap ++ ']' :: rest) [] rest
  | hole {gap text rest : List Char} {es : List (Option (List Char))} (hgap : Gap gap)
      (later : ReadsElements G text es rest) :
      ReadsElements G (gap ++ ',' :: text) (none :: es) rest
  | last {gap cs gap' rest : List Char} (hgap : Gap gap) (helement : G.element cs)
      (hgap' : Gap gap') : ReadsElements G (gap ++ (cs ++ (gap' ++ ']' :: rest))) [some cs] rest
  | element {gap cs gap' text rest : List Char} {es : List (Option (List Char))} (hgap : Gap gap)
      (helement : G.element cs) (hgap' : Gap gap') (later : ReadsElements G text es rest) :
    ReadsElements G (gap ++ (cs ++ (gap' ++ ',' :: text))) (some cs :: es) rest

theorem gap_nil : Gap [] := fun _ h => nomatch h

theorem gap_space : Gap [' '] := List.forall_mem_singleton.mpr rfl

/-- Blanks end where a character is none. -/
theorem Gap.inj {gap gap' xs ys : List Char} {c d : Char} (h : Gap gap) (h' : Gap gap')
    (hc : isGap c = false) (hd : isGap d = false) (heq : gap ++ c :: xs = gap' ++ d :: ys) :
    gap = gap' ∧ c = d ∧ xs = ys := by
  induction gap generalizing gap' with
  | nil =>
    cases gap' with
    | nil => exact ⟨rfl, List.cons_eq_cons.mp heq⟩
    | cons b gap' =>
      obtain ⟨rfl, -⟩ := List.cons_eq_cons.mp heq
      rw [h' c List.mem_cons_self] at hc
      cases hc
  | cons a gap ih =>
    cases gap' with
    | nil =>
      obtain ⟨rfl, -⟩ := List.cons_eq_cons.mp heq
      rw [h a List.mem_cons_self] at hd
      cases hd
    | cons b gap' =>
      obtain ⟨rfl, htail⟩ := List.cons_eq_cons.mp heq
      obtain ⟨rfl, rfl, rfl⟩ := ih (fun c hc => h c (List.mem_cons_of_mem _ hc))
        (fun c hc => h' c (List.mem_cons_of_mem _ hc)) htail
      exact ⟨rfl, rfl, rfl⟩

/-- **A text begins with one element only**, if blanks stand before it. -/
theorem ElementSyntax.inj (G : ElementSyntax) {gap gap' cs ds xs ys : List Char} (hgap : Gap gap)
    (hgap' : Gap gap') (hcs : G.element cs) (hds : G.element ds) (hxs : Delimits xs)
    (hys : Delimits ys) (heq : gap ++ (cs ++ xs) = gap' ++ (ds ++ ys)) : cs = ds ∧ xs = ys := by
  obtain ⟨c, cs', rfl, hc, -⟩ := G.begins hcs
  obtain ⟨d, ds', rfl, hd, -⟩ := G.begins hds
  obtain ⟨-, rfl, htail⟩ := hgap.inj hgap' hc hd heq
  have hwhole : c :: cs' ++ xs = c :: ds' ++ ys := congrArg (c :: ·) htail
  have hsame := G.delimited hcs hds hxs hys hwhole
  rw [hsame] at hwhole
  exact ⟨hsame, List.append_cancel_left hwhole⟩

namespace ReadsElements

variable {G : ElementSyntax} {gap cs text rest : List Char} {es : List (Option (List Char))}

theorem of_close (hgap : Gap gap) (h : ReadsElements G (gap ++ ']' :: text) es rest) :
    es = [] ∧ rest = text := by
  generalize htext : gap ++ ']' :: text = whole at h
  cases h with
  | close hgap' =>
    obtain ⟨-, -, rfl⟩ := hgap.inj hgap' (by decide) (by decide) htext
    exact ⟨rfl, rfl⟩
  | hole hgap' =>
    obtain ⟨-, hc, -⟩ := hgap.inj hgap' (by decide) (by decide) htext
    cases hc
  | last hgap' helement | element hgap' helement =>
    obtain ⟨c, cs, rfl, hc, -, hbracket⟩ := G.begins helement
    exact absurd (hgap.inj hgap' (by decide) hc htext).2.1.symm hbracket

theorem of_hole (hgap : Gap gap) (h : ReadsElements G (gap ++ ',' :: text) es rest) :
    ∃ es', es = none :: es' ∧ ReadsElements G text es' rest := by
  generalize htext : gap ++ ',' :: text = whole at h
  cases h with
  | close hgap' =>
    obtain ⟨-, hc, -⟩ := hgap.inj hgap' (by decide) (by decide) htext
    cases hc
  | hole hgap' later =>
    obtain ⟨-, -, rfl⟩ := hgap.inj hgap' (by decide) (by decide) htext
    exact ⟨_, rfl, later⟩
  | last hgap' helement | element hgap' helement =>
    obtain ⟨c, cs, rfl, hc, hcomma, -⟩ := G.begins helement
    exact absurd (hgap.inj hgap' (by decide) hc htext).2.1.symm hcomma

theorem of_element (hgap : Gap gap) (helement : G.element cs) (hends : Delimits text)
    (h : ReadsElements G (gap ++ (cs ++ text)) es rest) :
    ∃ gap' es', Gap gap' ∧ es = some cs :: es' ∧ (text = gap' ++ ']' :: rest ∧ es' = [] ∨
      ∃ later, text = gap' ++ ',' :: later ∧ ReadsElements G later es' rest) := by
  generalize htext : gap ++ (cs ++ text) = whole at h
  cases h with
  | close hgap' =>
    obtain ⟨c, cs, rfl, hc, -, hbracket⟩ := G.begins helement
    exact absurd (hgap.inj hgap' hc (by decide) htext).2.1 hbracket
  | hole hgap' =>
    obtain ⟨c, cs, rfl, hc, hcomma, -⟩ := G.begins helement
    exact absurd (hgap.inj hgap' hc (by decide) htext).2.1 hcomma
  | last hgap' helement' hgap₂ =>
    obtain ⟨rfl, rfl⟩ := G.inj hgap hgap' helement helement' hends
      ⟨_, _, _, hgap₂, .inr rfl, rfl⟩ htext
    exact ⟨_, _, hgap₂, rfl, .inl ⟨rfl, rfl⟩⟩
  | element hgap' helement' hgap₂ later =>
    obtain ⟨rfl, rfl⟩ := G.inj hgap hgap' helement helement' hends
      ⟨_, _, _, hgap₂, .inl rfl, rfl⟩ htext
    exact ⟨_, _, hgap₂, rfl, .inr ⟨_, rfl, later⟩⟩

/-- **An array is read in one way only.** -/
theorem unique (h : ReadsElements G text es rest) {es' : List (Option (List Char))}
    {rest' : List Char} (h' : ReadsElements G text es' rest') : es' = es ∧ rest' = rest := by
  induction h generalizing es' rest' with
  | close hgap => exact h'.of_close hgap
  | hole hgap _ ih =>
    obtain ⟨es', rfl, hlater⟩ := h'.of_hole hgap
    obtain ⟨rfl, rfl⟩ := ih hlater
    exact ⟨rfl, rfl⟩
  | last hgap helement hgap₁ =>
    obtain ⟨gap₂, es', hgap₂, rfl, ⟨heq, rfl⟩ | ⟨later, heq, -⟩⟩ :=
      h'.of_element hgap helement ⟨_, _, _, hgap₁, .inr rfl, rfl⟩
    · exact ⟨rfl, (hgap₁.inj hgap₂ (by decide) (by decide) heq).2.2.symm⟩
    · obtain ⟨-, hc, -⟩ := hgap₁.inj hgap₂ (by decide) (by decide) heq
      cases hc
  | element hgap helement hgap₁ _ ih =>
    obtain ⟨gap₂, es', hgap₂, rfl, ⟨heq, -⟩ | ⟨later, heq, hlater⟩⟩ :=
      h'.of_element hgap helement ⟨_, _, _, hgap₁, .inl rfl, rfl⟩
    · obtain ⟨-, hc, -⟩ := hgap₁.inj hgap₂ (by decide) (by decide) heq
      cases hc
    · obtain ⟨-, -, rfl⟩ := hgap₁.inj hgap₂ (by decide) (by decide) heq
      obtain ⟨rfl, rfl⟩ := ih hlater
      exact ⟨rfl, rfl⟩

end ReadsElements

/-! ### What stands between the brackets -/

/-- The texts of the elements after the first. -/
def laterChars : List (Option (List Char)) → List Char
  | [] => []
  | none :: rest => ',' :: laterChars rest
  | some cs :: rest => ',' :: ' ' :: (cs ++ laterChars rest)

/-- The comma after a hole at the end. -/
def closingComma (texts : List (Option (List Char))) : List Char :=
  if texts.getLast? = some none then [','] else []

/-- What stands between the brackets of an array with the given texts as elements. -/
def insideChars (texts : List (Option (List Char))) : List Char :=
  (match texts with
    | [] => []
    | none :: rest => laterChars rest
    | some cs :: rest => cs ++ laterChars rest) ++ closingComma texts

theorem closingComma_cons_cons (a b : Option (List Char)) (texts : List (Option (List Char))) :
    closingComma (a :: b :: texts) = closingComma (b :: texts) := by
  unfold closingComma
  rw [List.getLast?_cons_cons]

section Inside

variable {G : ElementSyntax} {texts : List (Option (List Char))}

/-- An element or a hole and those after it, with blanks before them. -/
theorem readsElements_cons {gap : List Char} (hgap : Gap gap) (a : Option (List Char))
    (h : ∀ cs, some cs ∈ a :: texts → G.element cs) (more : List Char) :
    ReadsElements G (gap ++ (a.getD [] ++ (laterChars texts ++ (closingComma (a :: texts) ++
      ']' :: more)))) (a :: texts) more := by
  induction texts generalizing a gap with
  | nil =>
    cases a with
    | none => exact .hole hgap (.close gap_nil)
    | some cs => exact .last hgap (h cs List.mem_cons_self) gap_nil
  | cons b texts ih =>
    have htexts : ∀ cs, some cs ∈ b :: texts → G.element cs :=
      fun cs hcs => h cs (List.mem_cons_of_mem a hcs)
    -- what follows the comma after `a`
    have hlater : ∃ later, ReadsElements G later (b :: texts) more ∧
        laterChars (b :: texts) ++ (closingComma (b :: texts) ++ ']' :: more) = ',' :: later := by
      cases b with
      | none => exact ⟨_, ih gap_nil none htexts, rfl⟩
      | some cs => exact ⟨_, ih gap_space (some cs) htexts, by simp [laterChars]⟩
    obtain ⟨later, hreads, heq⟩ := hlater
    rw [closingComma_cons_cons, heq]
    cases a with
    | none => exact .hole hgap hreads
    | some cs => exact .element hgap (h cs List.mem_cons_self) gap_nil hreads

/-- **What stands between the brackets is read as the elements and holes.** -/
theorem readsElements_insideChars (h : ∀ cs, some cs ∈ texts → G.element cs) (more : List Char) :
    ReadsElements G (insideChars texts ++ ']' :: more) texts more := by
  cases texts with
  | nil => exact .close gap_nil
  | cons a texts =>
    have hreads := readsElements_cons gap_nil a h more
    cases a <;> simpa [insideChars] using hreads

end Inside

/-! ### What a script adds to a line -/

/-- What a script adds in the middle of a line, at a level and with a width of a step. -/
def Adds (level width : Nat) (s : Script) (cs : List Char) : Prop :=
  ∀ t : Sheet, t.page.atLineStart = false → t.page.level = level → t.page.width = width →
    Script.run t s = t.add cs

section Adds

variable {level width : Nat} {s s' : Script} {cs cs' : List Char}

theorem add_of_begun {t : Sheet} (ht : t.page.atLineStart = false) (cs : List Char) :
    t.add cs = { t with page := { t.page with output := t.page.output ++ String.ofList cs } } := by
  obtain ⟨⟨output, level, width, atLineStart⟩, taken⟩ := t
  cases ht
  cases cs with
  | nil => simp [Sheet.add, Page.write]
  | cons c cs => simp [Sheet.add, Page.write, Page.beginLine, Page.append]

theorem adds_of_writes (h : Writes s cs) : Adds level width s cs := fun t _ _ _ => h t

theorem Adds.append (h : Adds level width s cs) (h' : Adds level width s' cs') :
    Adds level width (s ++ s') (cs ++ cs') := by
  intro t ht hlevel hwidth
  have hadd := add_of_begun ht cs
  rw [run_append, h t ht hlevel hwidth, h' (t.add cs) (by rw [hadd]; exact ht)
    (by rw [hadd]; exact hlevel) (by rw [hadd]; exact hwidth), Sheet.add_add]

/-- A script without comments that does not end its line adds its chunk. -/
theorem adds_chunk (hs : s.Steady noComment) (hline : (s.chunk level width).endsLine = false) :
    Adds level width s (s.chunk level width).text.toList := by
  rintro t ht rfl rfl
  rw [run_eq_chunk hs t ht, add_of_begun ht, hline, String.ofList_toList, ← ht]

theorem Adds.chunk_eq (h : Adds level width s cs) : (s.chunk level width).text.toList = cs := by
  have hrun := h ⟨⟨"", level, width, false⟩, []⟩ rfl rfl rfl
  rw [add_of_begun rfl] at hrun
  unfold Script.chunk
  rw [hrun]
  simp

end Adds

/-! ### Elements -/

/-- The text of a node as an element. -/
def elementText (o : Options) (level width : Nat) (t : Node) : List Char :=
  ((printed o t (.expression .assignment false)).chunk level width).text.toList

/-- **A node that is an expression of the grammar**, without comments: its own text is one, and may
be an element unless the node binds looser than an element must. -/
structure IsElement (G : ElementSyntax) (o : Options) (t : Node) : Prop where
  family : t.head.family = .expression
  uncommented : Uncommented t
  inLine : ∀ level width, ((body o t).chunk level width).endsLine = false
  expression : ∀ level width, (Precedence.ofHead t.head).looser .assignment = true →
    G.expression ((body o t).chunk level width).text.toList
  element : ∀ level width, (Precedence.ofHead t.head).looser .assignment = false →
    G.element ((body o t).chunk level width).text.toList

theorem steady_body {t : Node} (ht : Uncommented t) (o : Options) :
    (body o t).Steady noComment := by
  have hparts := (steady_printed o ht.eachComment).parts
  rw [Tree.slots_annotate] at hparts
  intro level
  rw [body, Slots.annotateSlots_eq_mapTrees]
  exact levelAfter_expressionText ⟨rfl, rfl, rfl⟩ hparts

/-- **A node at the place of an element** is put in parentheses if its own text may have commas. -/
theorem IsElement.adds {G : ElementSyntax} {o : Options} {t : Node} (h : IsElement G o t)
    (level width : Nat) :
    Adds level width (printed o t (.expression .assignment false)) (elementText o level width t) ∧
      G.element (elementText o level width t) := by
  have hcomments : t.head.comments = .none := by
    cases h.uncommented with
    | mk here _ => exact here
  have hbody := adds_chunk (steady_body h.uncommented o) (h.inLine level width)
  have hinner (b : Bool) : Adds level width (when b (comments (.inside true) []) ++ body o t)
      ((body o t).chunk level width).text.toList :=
    (adds_of_writes (Expression.writes_when_comments b)).append hbody
  have hframe {s : Script} {cs : List Char} (hs : Adds level width s cs) :
      Adds level width (comments .before [] ++ s ++ comments .after []) cs := by
    have := ((adds_of_writes (writes_comments_nil .before)).append hs).append
      (adds_of_writes (writes_comments_nil .after))
    rwa [List.nil_append, List.append_nil] at this
  suffices hsuffices : ∃ cs, G.element cs ∧
      Adds level width (printed o t (.expression .assignment false)) cs by
    obtain ⟨cs, hcs, hadds⟩ := hsuffices
    have htext : elementText o level width t = cs := hadds.chunk_eq
    exact htext ▸ ⟨hadds, hcs⟩
  rw [printed_expression h.family hcomments, expressionFrame, inlineFrame_none, Bool.false_or]
  cases hlooser : (Precedence.ofHead t.head).looser .assignment with
  | true =>
    refine ⟨_, G.paren (h.expression level width hlooser), hframe ?_⟩
    exact ((adds_of_writes (writes_text "(")).append (hinner _)).append
      (adds_of_writes (writes_text ")"))
  | false => exact ⟨_, h.element level width hlooser, hframe (hinner _)⟩

/-! ### Further elements -/

/-- Texts that may be elements beside those of a grammar: none begins as an element of the grammar
does, and it is clear where they end. -/
structure ElementSyntax.Admits (G : ElementSyntax) (more : List Char → Prop) : Prop where
  begins : ∀ {cs}, more cs → ∃ c rest, cs = c :: rest ∧ isGap c = false ∧ c ≠ ',' ∧ c ≠ ']'
  apart : ∀ {c cs ds}, G.element (c :: cs) → ¬ more (c :: ds)
  delimited : ∀ {cs ds xs ys}, more cs → more ds → Delimits xs → Delimits ys →
    cs ++ xs = ds ++ ys → cs = ds

/-- **A grammar of elements with further ones.** -/
def ElementSyntax.adjoin (G : ElementSyntax) {more : List Char → Prop} (h : G.Admits more) :
    ElementSyntax where
  expression := G.expression
  element cs := G.element cs ∨ more cs
  paren hcs := .inl (G.paren hcs)
  begins hcs := hcs.elim G.begins h.begins
  delimited := by
    have hmixed {cs ds xs ys : List Char} (hcs : G.element cs) (hds : more ds) :
        cs ++ xs ≠ ds ++ ys := by
      intro heq
      obtain ⟨c, cs, rfl, -⟩ := G.begins hcs
      obtain ⟨d, ds, rfl, -⟩ := h.begins hds
      obtain ⟨rfl, -⟩ := List.cons_eq_cons.mp heq
      exact h.apart hcs hds
    rintro cs ds xs ys (hcs | hcs) (hds | hds) hxs hys heq
    · exact G.delimited hcs hds hxs hys heq
    · exact absurd heq (hmixed hcs hds)
    · exact absurd heq.symm (hmixed hds hcs)
    · exact h.delimited hcs hds hxs hys heq

/-- The text of a string. -/
def IsString (cs : List Char) : Prop := ∃ s, StringLiteral.read? cs = some (s, [])

/-- An element with three points before it. -/
def ElementSyntax.IsSpread (G : ElementSyntax) (cs : List Char) : Prop :=
  ∃ ds, cs = '.' :: '.' :: '.' :: ds ∧ G.element ds

theorem uncommented_of_built {t : Node} {tag : Tag} {parts : List Node} (h : Built t tag parts)
    (hparts : ∀ u ∈ parts, Uncommented u) : Uncommented t := by
  obtain ⟨n, head, s⟩ := t
  exact .mk h.comments fun u hu => hparts u (h.parts hu)

section Further

variable {G : ElementSyntax} {o : Options} {t u : Node} {tag : Tag} {more : List Char → Prop}

theorem admits_strings (hG : ∀ {c cs}, G.element (c :: cs) → ¬ StringLiteral.IsQuote c) :
    G.Admits IsString where
  begins := by
    rintro (_ | ⟨c, cs⟩) ⟨s, hs⟩
    · cases hs
    · rcases StringLiteral.isQuote_of_read? hs with rfl | rfl <;> exact ⟨_, cs, rfl, by decide⟩
  apart hcs := fun ⟨_, hs⟩ => hG hcs (StringLiteral.isQuote_of_read? hs)
  delimited := by
    rintro cs ds xs ys ⟨s, hs⟩ ⟨s', hs'⟩ - - heq
    have hread := StringLiteral.read?_append hs xs
    rw [heq] at hread
    obtain ⟨-, hrest⟩ := Prod.mk.inj
      (Option.some.inj (hread.symm.trans (StringLiteral.read?_append hs' ys)))
    rw [show xs = ys from hrest] at heq
    exact List.append_cancel_right heq

theorem admits_spreads (hG : ∀ {cs}, ¬ G.element ('.' :: cs)) : G.Admits G.IsSpread where
  begins := by
    rintro _ ⟨ds, rfl, -⟩
    exact ⟨'.', _, rfl, by decide⟩
  apart := by
    rintro c cs ds hcs ⟨es, heq, -⟩
    obtain ⟨rfl, -⟩ := List.cons_eq_cons.mp heq
    exact hG hcs
  delimited := by
    rintro _ _ xs ys ⟨cs, rfl, hcs⟩ ⟨ds, rfl, hds⟩ hxs hys heq
    have htail := congrArg (List.drop 3) heq
    rw [G.delimited hcs hds hxs hys htail]

theorem IsElement.adjoin (h : IsElement G o t) (hmore : G.Admits more) :
    IsElement (G.adjoin hmore) o t where
  family := h.family
  uncommented := h.uncommented
  inLine := h.inLine
  expression := h.expression
  element level width hl := .inl (h.element level width hl)

/-- A node that binds tightly, and whose text is one of the further ones. -/
theorem isElement_of_adds (hmore : G.Admits more) (hf : t.head.family = .expression)
    (hc : Uncommented t) (hl : (Precedence.ofHead t.head).looser .assignment = false)
    (h : ∀ level width, ∃ cs, Adds level width (body o t) cs ∧ more cs) :
    IsElement (G.adjoin hmore) o t := by
  refine ⟨hf, hc, fun level width => ?_, fun level width hloose => ?_, fun level width _ => ?_⟩
  · obtain ⟨cs, hadds, -⟩ := h level width
    unfold Script.chunk
    rw [hadds _ rfl rfl rfl, add_of_begun rfl]
  · rw [hl] at hloose
    cases hloose
  · obtain ⟨cs, hadds, hcs⟩ := h level width
    exact .inr (hadds.chunk_eq.symm ▸ hcs)

/-- **Strings are elements**, as they are quoted or as they were written. -/
theorem isElement_string (hmore : G.Admits IsString) (built : Built t .stringLiteral [])
    (hraw : ∀ raw ∈ t.head.raw?, IsString raw.toList) : IsElement (G.adjoin hmore) o t := by
  have hbody : body o t =
      text (t.head.raw?.getD (quote (t.head.text .value) o.singleQuote)) := by
    rw [body, expressionText, built.tag]
  refine isElement_of_adds hmore (Expression.family_of_tag built.tag)
    (uncommented_of_built built (List.forall_mem_nil _)) (by rw [Precedence.ofHead, built.tag]; rfl)
    fun level width => ⟨_, hbody ▸ adds_of_writes (writes_text _), ?_⟩
  cases hr : t.head.raw? with
  | none =>
    exact ⟨_, by simpa using StringLiteral.read?_quote (t.head.text .value) o.singleQuote []⟩
  | some raw => exact hraw raw hr

/-- **What stands after `...` is an element**, where all items are taken in or the rest of them is
set. -/
theorem isElement_spread (hmore : G.Admits G.IsSpread) (built : Built t tag [u])
    (htag : tag = .spreadElement ∨ tag = .restElement) (hu : t.slots.child? .argument = some u)
    (untyped : t.slots.child? .ty = none) (h : IsElement G o u) :
    IsElement (G.adjoin hmore) o t := by
  have hargument : (Tree.annotateSlots (printedRule o) t.slots).child .argument =
      u.annotate (printedRule o) := by
    rw [Slots.child, Slots.child?_annotateSlots, hu]
    rfl
  have hty : (Tree.annotateSlots (printedRule o) t.slots).child? .ty = none := by
    rw [Slots.child?_annotateSlots, untyped]
    rfl
  have hbody : body o t = text "..." ++ printed o u (.expression .assignment false) := by
    rw [body, expressionText, built.tag]
    rcases htag with rfl | rfl
    · exact congrArg (text "..." ++ expression · .assignment) hargument
    · dsimp only
      rw [hargument, hty]
      exact List.append_nil _
  have hfamily : tag.family = .expression := by rcases htag with rfl | rfl <;> rfl
  refine isElement_of_adds hmore ((Expression.family_of_tag built.tag).trans hfamily)
    (uncommented_of_built built (List.forall_mem_singleton.mpr h.uncommented)) ?_
    fun level width => ?_
  · rw [Precedence.ofHead, built.tag]
    rcases htag with rfl | rfl <;> rfl
  · obtain ⟨hadds, helement⟩ := h.adds level width
    exact ⟨_, hbody ▸ (adds_of_writes (writes_text "...")).append hadds, _, rfl, helement⟩

end Further

/-! ### Arrays -/

section Arrays

variable {G : ElementSyntax} {o : Options} {es : List (Option Node)}

theorem adds_laterElements (hes : ∀ e, some e ∈ es → IsElement G o e) (level width : Nat) :
    Adds level width (laterElements (es.map (Option.map (Tree.annotate (printedRule o)))))
      (laterChars (es.map (Option.map (elementText o level width)))) := by
  induction es with
  | nil => exact adds_of_writes writes_nil
  | cons a es ih =>
    have ih := ih fun e he => hes e (List.mem_cons_of_mem a he)
    cases a with
    | none => exact (adds_of_writes (writes_text ",")).append ih
    | some e =>
      have helement : Adds level width (expression (e.annotate (printedRule o)) .assignment)
          (elementText o level width e) := ((hes e List.mem_cons_self).adds level width).1
      have hcomma : Adds level width (text "," ++ space) [',', ' '] :=
        (adds_of_writes (writes_text ",")).append (adds_of_writes writes_space)
      have hspaced := hcomma.append helement
      simpa [laterElements, laterChars] using hspaced.append ih

theorem adds_closingComma (es : List (Option Node)) (o : Options) (level width : Nat) :
    Adds level width
      (when (match (es.map (Option.map (Tree.annotate (printedRule o)))).getLast? with
        | some none => true
        | _ => false) (text ","))
      (closingComma (es.map (Option.map (elementText o level width)))) := by
  unfold closingComma
  rw [List.getLast?_map, List.getLast?_map]
  rcases es.getLast? with _ | _ | e
  · exact adds_of_writes writes_nil
  · exact adds_of_writes (writes_text ",")
  · exact adds_of_writes writes_nil

theorem adds_inside (hes : ∀ e, some e ∈ es → IsElement G o e) (level width : Nat) :
    ∃ inside, elementsText .none (es.map (Option.map (Tree.annotate (printedRule o)))) =
        between "[" "]" inside ∧
      Adds level width inside (insideChars (es.map (Option.map (elementText o level width)))) := by
  have hclosing := adds_closingComma es o level width
  cases es with
  | nil => exact ⟨_, rfl, (adds_of_writes (writes_comments_nil _)).append hclosing⟩
  | cons a es =>
    have hlater := adds_laterElements (fun e he => hes e (List.mem_cons_of_mem a he)) level width
    cases a with
    | none => exact ⟨_, rfl, hlater.append hclosing⟩
    | some e =>
      have helement := ((hes e List.mem_cons_self).adds level width).1
      exact ⟨_, rfl, (helement.append hlater).append hclosing⟩

/-- **What is written for a list of elements and holes.** -/
theorem run_elementsText (hes : ∀ e, some e ∈ es → IsElement G o e) (sheet : Sheet) :
    Script.run sheet
        (elementsText .none (es.map (Option.map (Tree.annotate (printedRule o))))) =
      sheet.add ('[' :: (insideChars (es.map (Option.map
        (elementText o sheet.page.level sheet.page.width))) ++ [']'])) := by
  obtain ⟨inside, heq, hinside⟩ := adds_inside hes sheet.page.level sheet.page.width
  have hbegun : (sheet.add ['[']).page.atLineStart = false ∧
      (sheet.add ['[']).page.level = sheet.page.level ∧
      (sheet.add ['[']).page.width = sheet.page.width := by
    obtain ⟨⟨output, level, width, atLineStart⟩, taken⟩ := sheet
    cases atLineStart <;> exact ⟨rfl, rfl, rfl⟩
  have hopen : Script.run sheet (text "[") = sheet.add ['['] := writes_text "[" sheet
  rw [heq, between, run_append, run_append, hopen, hinside _ hbegun.1 hbegun.2.1 hbegun.2.2,
    writes_text, Sheet.add_add, Sheet.add_add]
  rfl

end Arrays

/-- **The holes of an array survive.** Let all elements of an array, in an expression or a pattern,
be expressions of a grammar, without comments. Then what is written for it is a text in brackets,
with nothing after it but the type of a pattern, and whatever follows, this text is read in exactly
one way: as many elements and holes as there are, in their order, each element as its own text. -/
theorem run_array (G : ElementSyntax) (o : Options) {t : Node}
    (htag : t.head.tag? = some .arrayExpression ∨ t.head.tag? = some .arrayPattern)
    (helements : ∀ e, some e ∈ t.slots.gaps .elements → IsElement G o e) (sheet : Sheet) :
    let texts := (t.slots.gaps .elements).map
      (Option.map (elementText o sheet.page.level sheet.page.width))
    ∃ inside ascribed,
      Script.run sheet (body o t) =
        Script.run (sheet.add ('[' :: (inside ++ [']']))) ascribed ∧
      (t.head.tag? = some .arrayExpression → ascribed = []) ∧
      ∀ more es rest,
        ReadsElements G (inside ++ ']' :: more) es rest ↔ es = texts ∧ rest = more := by
  intro texts
  have hrun := run_elementsText helements sheet
  have htexts : ∀ cs, some cs ∈ texts → G.element cs := by
    intro cs hcs
    obtain ⟨e, he, heq⟩ := List.mem_map.mp hcs
    obtain ⟨u, rfl, rfl⟩ := Option.map_eq_some_iff.mp heq
    exact ((helements u he).adds _ _).2
  have hreads (more : List Char) (es : List (Option (List Char))) (rest : List Char) :
      ReadsElements G (insideChars texts ++ ']' :: more) es rest ↔ es = texts ∧ rest = more := by
    refine ⟨(readsElements_insideChars htexts more).unique, ?_⟩
    rintro ⟨rfl, rfl⟩
    exact readsElements_insideChars htexts rest
  rw [body, expressionText]
  rcases htag with htag | htag
  all_goals
    rw [htag]
    dsimp only
    rw [Slots.gaps_annotateSlots]
  · exact ⟨_, [], hrun, fun _ => rfl, hreads⟩
  · rw [run_append, hrun]
    exact ⟨_, _, rfl, nofun, hreads⟩

end Typeshift.Elements
