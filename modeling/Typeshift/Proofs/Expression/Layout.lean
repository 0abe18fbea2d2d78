import Typeshift.Print.Expression
import Typeshift.Proofs.Expression.Lexer
import Typeshift.Proofs.Expression.Unambiguous

/-! # Laying out expressions

The script of an expression writes tokens and spaces on one line. It is put together of the scripts
of its parts, and no two tokens run together: only the first character and the last token of a part
matter to what stands beside it.

* `Writes`: a script writes some characters on the line and does nothing else.
* `Strip`: a script writes items, no two of which run together.
* `Laid`: a script writes a phrase of the grammar, with what may stand at its ends. -/

namespace Typeshift.Print

/-! ### What a script writes -/

/-- A sheet with some characters added to its line. -/
def Sheet.add (t : Sheet) (cs : List Char) : Sheet :=
  { t with page := t.page.write (String.ofList cs) }

namespace Sheet

@[simp] theorem add_nil (t : Sheet) : t.add [] = t := by simp [add, Page.write]

@[simp] theorem add_add (t : Sheet) (cs ds : List Char) : (t.add cs).add ds = t.add (cs ++ ds) := by
  cases cs with
  | nil => rw [add_nil, List.nil_append]
  | cons c cs =>
    cases ds with
    | nil => rw [add_nil, List.append_nil]
    | cons d ds =>
      unfold add Page.write Page.beginLine Page.append
      split_ifs <;> simp_all [String.append_assoc]

end Sheet

/-- A script writes some characters on the line and does nothing else. -/
def Writes (s : Script) (cs : List Char) : Prop := ∀ t : Sheet, Script.run t s = t.add cs

theorem writes_nil : Writes [] [] := fun t => t.add_nil.symm

theorem Writes.append {s s' : Script} {cs cs' : List Char} (h : Writes s cs) (h' : Writes s' cs') :
    Writes (s ++ s') (cs ++ cs') := by
  intro t
  rw [Script.run_append, h, h', Sheet.add_add]

/-- A script writes the same characters in all lines. -/
theorem Writes.unique {s : Script} {cs cs' : List Char} (h : Writes s cs) (h' : Writes s cs') :
    cs = cs' := by
  -- a line that has begun has no margin before the characters
  have houtput (cs : List Char) :
    (Sheet.add ⟨⟨"", 0, 0, false⟩, []⟩ cs).page.output.toList = cs := by
    cases cs <;> simp [Sheet.add, Page.write, Page.beginLine, Page.append]
  rw [← houtput cs, ← h, h', houtput]

theorem writes_text (s : String) : Writes (Script.text s) s.toList := by
  intro t
  unfold Sheet.add
  rw [String.ofList_toList]
  rfl

theorem writes_space : Writes Script.space [' '] := fun _ => rfl

theorem writes_comments_nil (style : CommentStyle) : Writes (Script.comments style []) [] := by
  intro t
  rw [Sheet.add_nil]
  cases style <;> simp [Script.comments, Script.run, Piece.run, pickFresh, Page.writeComments,
    Page.writeSpaced]

end Typeshift.Print

namespace Typeshift.Expression

open Print Script

/-! ### Strips of items -/

variable {A : Alphabet}

@[simp] theorem spell_append (l l' : List Item) : spell (l ++ l') = spell l ++ spell l' :=
  List.flatMap_append

@[simp] theorem tokensOf_append (l l' : List Item) :
    tokensOf (l ++ l') = tokensOf l ++ tokensOf l' := List.filterMap_append

@[simp] theorem tokensOf_token (t : Token) (l : List Item) :
    tokensOf (.token t :: l) = t :: tokensOf l := rfl

@[simp] theorem tokensOf_gap (c : Char) (l : List Item) : tokensOf (.gap c :: l) = tokensOf l := rfl

@[simp] theorem tokensOf_nil : tokensOf [] = [] := rfl

/-- Two lists of items may stand one after the other. -/
def Meet (A : Alphabet) (l l' : List Item) : Prop :=
  ∀ i ∈ l.getLast?, ∀ j ∈ l'.head?, Item.Apart A i j

/-- A script writes items, no two of which run together. -/
structure Strip (A : Alphabet) (s : Script) (l : List Item) : Prop where
  writes : Writes s (spell l)
  spelled : ∀ i ∈ l, i.IsSpelled A
  apart : l.IsChain (Item.Apart A)

namespace Strip

theorem nil : Strip A [] [] := ⟨writes_nil, by simp, .nil⟩

theorem append {s s' : Script} {l l' : List Item} (h : Strip A s l) (h' : Strip A s' l')
    (hm : Meet A l l') : Strip A (s ++ s') (l ++ l') where
  writes := by
    rw [spell_append]
    exact h.writes.append h'.writes
  spelled i hi := (List.mem_append.mp hi).elim (h.spelled i) (h'.spelled i)
  apart := List.isChain_append.mpr ⟨h.apart, h'.apart, hm⟩

theorem token {t : Token} (ht : t.isSpelled A = true) : Strip A (text t.text) [.token t] where
  writes := by
    have h := writes_text t.text
    simpa [spell, Item.chars] using h
  spelled i hi := by
    rw [List.mem_singleton.mp hi]
    exact ht
  apart := .singleton _

theorem space : Strip A Script.space [.gap ' '] where
  writes := writes_space
  spelled i hi := by
    rw [List.mem_singleton.mp hi]
    rfl
  apart := .singleton _

/-- A token with a space behind it. -/
theorem tokenSpace {s : Script} {t : Token} (ht : t.isSpelled A = true)
    (h : Writes s (t.text.toList ++ [' '])) : Strip A s ([Item.token t] ++ [Item.gap ' ']) where
  writes := by simpa [spell, Item.chars] using h
  spelled := List.forall_mem_append.mpr
    ⟨List.forall_mem_singleton.mpr ht, List.forall_mem_singleton.mpr rfl⟩
  apart := by
    refine .cons_cons ?_ (.singleton _)
    rintro _ ⟨⟩
    exact stops_blank (.inl rfl) t

/-- Scripts that write nothing may stand around a strip. -/
theorem silent {s before after : Script} {l : List Item} (h : Strip A s l)
    (hbefore : Writes before []) (hafter : Writes after []) : Strip A (before ++ s ++ after) l where
  writes := by
    have hwrites := (hbefore.append h.writes).append hafter
    rwa [List.nil_append, List.append_nil] at hwrites
  spelled := h.spelled
  apart := h.apart

end Strip

/-! ### The ends of a phrase -/

/-- The first character is none that would run together with an operator before it, but for the
given signs. -/
def Front (l : List Item) (sign : Char → Prop) : Prop :=
  ∃ i ∈ l.head?, ∀ c ∈ i.chars.head?, c ≠ '=' ∧ (c = '+' ∨ c = '-' → sign c)

/-- Whether a token may be the last of an expression. A numeral is one only where it may be. -/
def Token.Closes (bare : Prop) : Token → Prop
  | .word _ => True
  | .numeral _ => bare
  | .mark m => m ∈ [")", "]", "++", "--"]

/-- The last item is a token that may end an expression. -/
def Back (l : List Item) (bare : Prop) : Prop := ∃ t ∈ l.getLast?, ∃ u, t = .token u ∧ u.Closes bare

section Ends

variable {l l' : List Item} {sign sign' : Char → Prop} {bare bare' : Prop} {c : Char} {t : Token}

theorem Front.append (h : Front l sign) (l' : List Item) : Front (l ++ l') sign := by
  obtain ⟨i, hi, hc⟩ := h
  refine ⟨i, ?_, hc⟩
  rw [List.head?_append, hi]
  rfl

theorem Front.mono (h : Front l sign) (hs : ∀ c, sign c → sign' c) : Front l sign' := by
  obtain ⟨i, hi, hc⟩ := h
  exact ⟨i, hi, fun c hmem => ⟨(hc c hmem).1, fun hsign => hs c ((hc c hmem).2 hsign)⟩⟩

theorem Back.append (h : Back l' bare) (l : List Item) : Back (l ++ l') bare := by
  obtain ⟨i, hi, hu⟩ := h
  refine ⟨i, ?_, hu⟩
  rw [List.getLast?_append, hi]
  rfl

theorem Back.mono (h : Back l bare) (hb : bare → bare') : Back l bare' := by
  obtain ⟨_, hi, u, rfl, hu⟩ := h
  refine ⟨_, hi, u, rfl, ?_⟩
  cases u with
  | word s => trivial
  | numeral s => exact hb hu
  | mark s => exact hu

theorem back_token (ht : t.Closes bare) : Back [.token t] bare := ⟨_, rfl, t, rfl, ht⟩

theorem continues_eq_false (hc : c ∈ [' ', '\n', ')', ']', ',', ';', '(', '[', '+', '-', '.']) :
    A.continues c = false := by
  simp only [List.mem_cons, List.not_mem_nil, or_false] at hc
  rcases hc with rfl | rfl | rfl | rfl | rfl | rfl | rfl | rfl | rfl | rfl | rfl <;> rfl

theorem Token.Closes.stops (h : t.Closes bare)
    (hc : c ∈ [' ', '\n', ')', ']', ',', ';', '(', '[', '+', '-']) : t.stops A c = true := by
  cases t with
  | word s =>
    have := continues_eq_false (A := A) (List.mem_append_left ['.'] hc)
    simp [Token.stops, this]
  | numeral s =>
    simp only [List.mem_cons, List.not_mem_nil, or_false] at hc
    rcases hc with rfl | rfl | rfl | rfl | rfl | rfl | rfl | rfl | rfl | rfl <;> rfl
  | mark s =>
    simp only [Token.Closes, List.mem_cons, List.not_mem_nil, or_false] at h
    rcases h with rfl | rfl | rfl | rfl <;> rfl

theorem Token.Closes.stops_point (h : t.Closes False) : t.stops A '.' = true := by
  cases t with
  | word s => rfl
  | numeral s => exact h.elim
  | mark s =>
    simp only [Token.Closes, List.mem_cons, List.not_mem_nil, or_false] at h
    rcases h with rfl | rfl | rfl | rfl <;> rfl

theorem meet_of_stops (ht : .token t ∈ l.getLast?) (hc : t.stops A c = true)
    (hl : ∀ j ∈ l'.head?, j.chars.head? = some c) : Meet A l l' := by
  intro i hi j hj
  obtain rfl := Option.mem_unique ht hi
  intro d hd
  rw [hl j hj] at hd
  rw [← Option.some.inj hd]
  exact hc

/-- After the end of a phrase may stand a space, a comma, a semicolon, a bracket or `++`. -/
theorem Back.meet (h : Back l bare) (hc : c ∈ [' ', '\n', ')', ']', ',', ';', '(', '[', '+', '-'])
    (hl : ∀ j ∈ l'.head?, j.chars.head? = some c) : Meet A l l' := by
  obtain ⟨_, ht, t, rfl, hcloses⟩ := h
  exact meet_of_stops ht (hcloses.stops hc) hl

/-- After a phrase that does not end with a numeral may stand a point. -/
theorem Back.meet_point (h : Back l False) (hl : ∀ j ∈ l'.head?, j.chars.head? = some '.') :
    Meet A l l' := by
  obtain ⟨_, ht, t, rfl, hcloses⟩ := h
  exact meet_of_stops ht hcloses.stops_point hl

theorem meet_gap (l l' : List Item) (c : Char) : Meet A (l ++ [Item.gap c]) l' := by
  intro i hi j _
  rw [List.getLast?_concat] at hi
  rw [← Option.some.inj hi]
  trivial

theorem meet_token (h : ∀ j ∈ l'.head?, ∀ c ∈ j.chars.head?, t.stops A c = true) :
    Meet A (l ++ [Item.token t]) l' := by
  intro i hi j hj
  rw [List.getLast?_concat] at hi
  rw [← Option.some.inj hi]
  exact h j hj

theorem Front.meet (h : Front l' sign)
    (ht : ∀ c, c ≠ '=' → (c = '+' ∨ c = '-' → sign c) → t.stops A c = true) :
    Meet A (l ++ [Item.token t]) l' := by
  obtain ⟨i, hi, hi'⟩ := h
  refine meet_token fun j hj c hc => ?_
  obtain rfl := Option.mem_unique hi hj
  exact ht c (hi' c hc).1 (hi' c hc).2

end Ends

/-- The characters of a strip that ends as an expression does are cut into its tokens. -/
theorem Strip.lex {s : Script} {l : List Item} {bare : Prop} (h : Strip A s l) (hb : Back l bare) :
    A.lex (String.ofList (spell l ++ ['\n'])) = some (tokensOf l) := by
  have hchain : (l ++ [Item.gap '\n']).IsChain (Item.Apart A) :=
    List.isChain_append.mpr ⟨h.apart, .singleton _,
      hb.meet (c := '\n') (by decide) (by rintro _ ⟨⟩; rfl)⟩
  exact lex_items (.inr rfl) h.spelled hchain (by simp [spell, Item.chars])

/-- A script writes the same tokens in whatever way it is cut. -/
theorem Strip.tokens_unique {s : Script} {l l' : List Item} {bare bare' : Prop} (h : Strip A s l)
    (h' : Strip A s l') (hb : Back l bare) (hb' : Back l' bare') : tokensOf l = tokensOf l' := by
  have hlex := h.lex hb
  rw [h.writes.unique h'.writes, h'.lex hb'] at hlex
  exact (Option.some.inj hlex).symm

/-! ### Phrases -/

/-- **A script writes a phrase**, and only the given signs and a numeral where it may be stand at
its ends. -/
def Laid (A : Alphabet) (s : Script) (p : Phrase) (e : Expr) (sign : Char → Prop) (bare : Prop) :
    Prop :=
  ∃ l, Strip A s l ∧ Derives p (tokensOf l) e ∧ Front l sign ∧ Back l bare

section Laid

variable {s s' : Script} {p q r : Phrase} {a b c e : Expr} {sign sign' : Char → Prop}
  {bare bare' : Prop}

theorem Laid.imp (h : Laid A s p e sign bare) (hd : ∀ ts, Derives p ts e → Derives q ts e)
    (hs : ∀ c, sign c → sign' c) (hb : bare → bare') : Laid A s q e sign' bare' := by
  obtain ⟨l, hl, hder, hf, hback⟩ := h
  exact ⟨l, hl, hd _ hder, hf.mono hs, hback.mono hb⟩

theorem Laid.silent (h : Laid A s p e sign bare) {before after : Script}
    (hbefore : Writes before []) (hafter : Writes after []) :
    Laid A (before ++ s ++ after) p e sign bare := by
  obtain ⟨l, hl, h⟩ := h
  exact ⟨l, hl.silent hbefore hafter, h⟩

theorem starts_of_isName {x : String} {c : Char} (hx : A.isName x = true)
    (hc : c ∈ (Token.word x).text.toList.head?) : A.starts c = true := by
  have hx := (Bool.and_eq_true_iff.mp hx).1
  rw [show x.toList.head? = some c from hc] at hx
  exact hx

theorem front_word {x : String} (hx : A.isName x = true) : Front [.token (.word x)] sign := by
  refine ⟨_, rfl, fun c hc => ?_⟩
  have hstart := starts_of_isName hx hc
  refine ⟨?_, ?_⟩
  · rintro rfl
    cases hstart
  · rintro (rfl | rfl) <;> cases hstart

theorem laid_name {x : String} (hx : A.isName x = true) (hr : x ∉ reserved) :
    Laid A (text x) .primary (.name x) sign bare :=
  ⟨_, Strip.token (t := .word x) hx, .name hr, front_word hx, back_token trivial⟩

theorem laid_numeral {x : String} (hx : isDigits x = true) (hb : bare) :
    Laid A (text x) .primary (.numeral x) sign bare := by
  have hspelled : (Token.numeral x).isSpelled A = true := by
    simpa [isDigits, Token.isSpelled] using hx
  refine ⟨_, Strip.token hspelled, .numeral x, ⟨_, rfl, fun c hc => ?_⟩, back_token hb⟩
  have hdigit : c.isDigit = true :=
    List.all_eq_true.mp (Bool.and_eq_true_iff.mp hx).2 c (List.mem_of_mem_head? hc)
  refine ⟨?_, ?_⟩
  · rintro rfl
    cases hdigit
  · rintro (rfl | rfl) <;> cases hdigit

/-- Brackets around nothing, or around a phrase. -/
theorem strip_between {l : List Item} (left right : String) (h : Strip A s l)
    (hleft : left ∈ ["(", "["]) (hright : right ∈ [")", "]"]) (hl : l = [] ∨ Back l bare) :
    Strip A (between left right s)
      ([Item.token (.mark left)] ++ l ++ [Item.token (.mark right)]) := by
  simp only [List.mem_cons, List.not_mem_nil, or_false] at hleft hright
  have hopen : Strip A (text left) [Item.token (.mark left)] := by
    rcases hleft with rfl | rfl <;> exact Strip.token (t := .mark _) rfl
  have hclose : Strip A (text right) [Item.token (.mark right)] := by
    rcases hright with rfl | rfl <;> exact Strip.token (t := .mark _) rfl
  -- nothing goes on after an opening bracket
  have hstops : ∀ c, (Token.mark left).stops A c = true := by
    rcases hleft with rfl | rfl <;> exact fun _ => rfl
  refine (hopen.append h (meet_token (l := []) fun _ _ c _ => hstops c)).append hclose ?_
  rcases hl with rfl | hl
  · exact meet_token (l := []) fun _ _ c _ => hstops c
  · rcases hright with rfl | rfl
    · exact (hl.append _).meet (c := ')') (by decide) (by rintro _ ⟨⟩; rfl)
    · exact (hl.append _).meet (c := ']') (by decide) (by rintro _ ⟨⟩; rfl)

theorem Laid.paren (h : Laid A s .expression e sign bare) :
    Laid A (between "(" ")" s) .primary e sign' bare' := by
  obtain ⟨l, hl, hd, -, hb⟩ := h
  refine ⟨_, strip_between "(" ")" hl (by decide) (by decide) (.inr hb), ?_, ?_, ?_⟩
  · simpa using Derives.paren hd
  · refine Front.append (Front.append ⟨_, rfl, ?_⟩ _) _
    rintro c ⟨⟩
    exact ⟨by decide, by rintro (h | h) <;> cases h⟩
  · exact (back_token (by simp [Token.Closes])).append _

theorem Strip.spaced {mid : Script} {t : Token} {l l' : List Item} (h : Strip A s l)
    (hb : Back l bare) (h' : Strip A s' l') (ht : t.isSpelled A = true)
    (hstop : t.stops A ' ' = true) (hmid : Writes mid (' ' :: t.text.toList ++ [' '])) :
    Strip A (s ++ mid ++ s') (l ++ [Item.gap ' ', .token t, .gap ' '] ++ l') := by
  have hinner : Strip A mid [Item.gap ' ', .token t, .gap ' '] := by
    refine ⟨by simpa [spell, Item.chars] using hmid, ?_, ?_⟩
    · simp [Item.IsSpelled, ht]
    · simpa [Item.Apart, Item.chars] using hstop
  refine (h.append hinner (hb.meet (c := ' ') (by decide) (by rintro _ ⟨⟩; rfl))).append h' ?_
  have := meet_gap (A := A) (l ++ [Item.gap ' ', .token t]) l' ' '
  simpa using this

/-- An operator between two phrases. -/
theorem Laid.infixed {operator : String} {t : Token} (hl : Laid A s p a sign bare)
    (hr : Laid A s' q b sign' bare') (htext : t.text = operator) (ht : t.isSpelled A = true)
    (hstop : t.stops A ' ' = true)
    (hd : ∀ ⦃ts us⦄, Derives p ts a → Derives q us b → Derives r (ts ++ t :: us) e) :
    Laid A (infixed s operator s') r e sign bare' := by
  obtain ⟨l, hl, hdl, hfront, hbl⟩ := hl
  obtain ⟨l', hr, hdr, -, hback⟩ := hr
  subst htext
  have hmid : Writes (space ++ text t.text ++ space) (' ' :: t.text.toList ++ [' ']) :=
    (writes_space.append (writes_text _)).append writes_space
  have hscript : Print.infixed s t.text s' = s ++ (space ++ text t.text ++ space) ++ s' := by
    simp [Print.infixed]
  rw [hscript]
  refine ⟨_, hl.spaced hbl hr ht hstop hmid, ?_, (hfront.append _).append _, hback.append _⟩
  simpa using hd hdl hdr

theorem Laid.conditional (hc : Laid A s .shortCircuit c sign bare)
    (ha : Laid A s' .assignment a sign' bare') {s'' : Script} {sign'' : Char → Prop} {bare'' : Prop}
    (hb : Laid A s'' .assignment b sign'' bare'') :
    Laid A (s ++ text " ? " ++ s' ++ text " : " ++ s'') .conditional (.conditional c a b) sign
      bare'' := by
  obtain ⟨l, hs, hdc, hfront, hback⟩ := hc
  obtain ⟨l', hs', hda, -, hback'⟩ := ha
  obtain ⟨l'', hs'', hdb, -, hback''⟩ := hb
  have htest := hs.spaced (t := .mark "?") hback hs' rfl rfl (writes_text " ? ")
  have hall := htest.spaced (t := .mark ":") (hback'.append _) hs'' rfl rfl (writes_text " : ")
  refine ⟨_, hall, ?_, ((((hfront.append _).append _).append _).append _), hback''.append _⟩
  simpa using Derives.conditional hdc hda hdb

/-- An operator before a phrase, with a space if the two would run together. -/
theorem Laid.operatorFirst {operator : String} {t : Token} {spaced : Bool}
    (h : Laid A s p a sign bare) (htext : t.text = operator) (ht : t.isSpelled A = true)
    (hfront : Front [Item.token t] sign')
    (hstop : spaced = true → t.stops A ' ' = true)
    (hrun : spaced = false → ∀ c, c ≠ '=' → (c = '+' ∨ c = '-' → sign c) → t.stops A c = true)
    (hd : ∀ ⦃ts⦄, Derives p ts a → Derives r (t :: ts) e) :
    Laid A (text operator ++ when spaced space ++ s) r e sign' bare := by
  obtain ⟨l, hl, hda, hfirst, hback⟩ := h
  subst htext
  cases spaced with
  | true =>
    have hgap : Strip A (text t.text ++ space) ([Item.token t] ++ [Item.gap ' ']) :=
      (Strip.token ht).append Strip.space
        (meet_of_stops (t := t) rfl (hstop rfl) (by rintro _ ⟨⟩; rfl))
    refine ⟨_, hgap.append hl (meet_gap _ _ _), ?_, (hfront.append _).append _, hback.append _⟩
    simpa using hd hda
  | false =>
    have hstrip := (Strip.token ht).append hl (hfirst.meet (l := []) (hrun rfl))
    refine ⟨_, ?_, ?_, hfront.append l, hback.append _⟩
    · simpa [when] using hstrip
    · simpa using hd hda

theorem Laid.updateLast {operator : String} (h : Laid A s .leftHandSide a sign bare)
    (ho : operator ∈ updateOperators) :
    Laid A (s ++ text operator) .update (.update operator false a) sign bare' := by
  obtain ⟨l, hl, hda, hfront, hback⟩ := h
  have hderives := Derives.updateLast ho hda
  simp only [updateOperators, List.mem_cons, List.not_mem_nil, or_false] at ho
  refine ⟨l ++ [.token (.mark operator)], ?_, by simpa using hderives, hfront.append _, ?_⟩
  · rcases ho with rfl | rfl
    · exact hl.append (Strip.token (t := .mark "++") rfl)
        (hback.meet (c := '+') (by decide) (by rintro _ ⟨⟩; rfl))
    · exact hl.append (Strip.token (t := .mark "--") rfl)
        (hback.meet (c := '-') (by decide) (by rintro _ ⟨⟩; rfl))
  · refine (back_token ?_).append _
    rcases ho with rfl | rfl <;> simp [Token.Closes]

theorem Laid.member {x : String} (h : Laid A s p a sign False) (hp : p ∈ [Phrase.member, .call])
    (hx : A.isName x = true) (h' : Strip A s' [Item.token (.word x)]) :
    Laid A (s ++ (text "." ++ s')) p (.member a x) sign bare := by
  obtain ⟨l, hl, hda, hfront, hback⟩ := h
  have hname : Strip A (text "." ++ s') ([Item.token (.mark ".")] ++ [Item.token (.word x)]) := by
    refine (Strip.token (t := .mark ".") rfl).append h' (meet_token (l := []) ?_)
    rintro _ ⟨⟩ c hc
    have hstart := starts_of_isName hx hc
    have hpoint : c ≠ '.' := by
      rintro rfl
      cases hstart
    have hdigit : c.isDigit = false := by
      cases hd : c.isDigit with
      | false => rfl
      | true => rw [starts_of_isDigit hd] at hstart; cases hstart
    simp [Token.stops, marks, List.isPrefixOf, hpoint, hdigit]
  refine ⟨_, hl.append hname (hback.meet_point (by rintro _ ⟨⟩; rfl)), ?_, hfront.append _, ?_⟩
  · simpa using Derives.member hp hda x
  · exact ((back_token (t := .word x) trivial).append _).append _

theorem Laid.index (h : Laid A s p a sign bare) (hp : p ∈ [Phrase.member, .call])
    (hk : Laid A s' .expression b sign' bare') :
    Laid A (s ++ between "[" "]" s') p (.index a b) sign bare := by
  obtain ⟨l, hl, hda, hfront, hback⟩ := h
  obtain ⟨l', hl', hdb, -, hback'⟩ := hk
  have hbrackets := strip_between "[" "]" hl' (by decide) (by decide) (.inr hback')
  refine ⟨_, hl.append hbrackets (hback.meet (c := '[') (by decide) (by rintro _ ⟨⟩; rfl)), ?_,
    hfront.append _, ?_⟩
  · simpa using Derives.index hp hda hdb
  · exact ((back_token (by simp [Token.Closes])).append _).append _

/-! ### Lists of phrases -/

/-- A script writes phrases with commas between them. -/
structure Row (A : Alphabet) (s : Script) (l : List Item) (phrases : List (List Token × Expr)) :
    Prop where
  strip : Strip A s l
  tokens : tokensOf l = separated (phrases.map Prod.fst)
  derives : ∀ phrase ∈ phrases, Derives .assignment phrase.1 phrase.2
  ends : phrases = [] ∧ l = [] ∨ Front l (fun _ => True) ∧ Back l True

theorem commas_cons_cons (s s' : Script) (ss : List Script) :
    commas (s :: s' :: ss) = s ++ text ", " ++ commas (s' :: ss) := by
  simp [commas, Script.separated, List.intercalate]

theorem strip_comma {l l' : List Item} (h : Strip A s l) (hb : Back l bare) (h' : Strip A s' l') :
    Strip A (s ++ text ", " ++ s') (l ++ [Item.token (.mark ","), .gap ' '] ++ l') := by
  have hcomma : Strip A (text ", ") [Item.token (.mark ","), .gap ' '] :=
    Strip.tokenSpace (t := .mark ",") rfl (writes_text ", ")
  refine (h.append hcomma (hb.meet (c := ',') (by decide) (by rintro _ ⟨⟩; rfl))).append h' ?_
  have := meet_gap (A := A) (l ++ [Item.token (.mark ",")]) l' ' '
  simpa using this

theorem exists_row_singleton (h : Laid A s .assignment e (fun _ => True) True) :
    ∃ l ts, Row A s l [(ts, e)] := by
  obtain ⟨l, hl, hd, hfront, hback⟩ := h
  refine ⟨l, tokensOf l, hl, ?_, ?_, .inr ⟨hfront, hback⟩⟩
  · rw [List.map_singleton, separated_singleton]
  · simpa using hd

theorem Row.exists_cons {l : List Item} {phrase : List Token × Expr}
    {phrases : List (List Token × Expr)} (h : Laid A s .assignment e (fun _ => True) True)
    (hrow : Row A s' l (phrase :: phrases)) :
    ∃ l' ts, Row A (s ++ text ", " ++ s') l' ((ts, e) :: phrase :: phrases) := by
  obtain ⟨l', hl, hd, hfront, hback⟩ := h
  have hlast : Back l True := hrow.ends.elim (fun h => nomatch h.1) And.right
  refine ⟨_, tokensOf l', strip_comma hl hback hrow.strip, ?_, ?_, .inr ⟨?_, hlast.append _⟩⟩
  · simp [hrow.tokens, separated_cons_cons]
  · intro part hpart
    rcases List.mem_cons.mp hpart with rfl | hpart
    · exact hd
    · exact hrow.derives part hpart
  · exact (hfront.append _).append _

/-- Phrases with commas between them. -/
theorem exists_row (parts : List (Script × Expr))
    (h : ∀ part ∈ parts, Laid A part.1 .assignment part.2 (fun _ => True) True) :
    ∃ l phrases, Row A (commas (parts.map Prod.fst)) l phrases ∧
      phrases.map Prod.snd = parts.map Prod.snd := by
  induction parts with
  | nil => exact ⟨[], [], ⟨Strip.nil, rfl, by simp, .inl ⟨rfl, rfl⟩⟩, rfl⟩
  | cons part rest ih =>
    have hpart := h part List.mem_cons_self
    obtain ⟨l, phrases, hrow, hphrases⟩ := ih fun part hmem => h part (List.mem_cons_of_mem _ hmem)
    cases rest with
    | nil =>
      obtain ⟨l, ts, hrow⟩ := exists_row_singleton hpart
      refine ⟨l, [(ts, part.2)], ?_, rfl⟩
      simpa [commas, Script.separated, List.intercalate] using hrow
    | cons next rest =>
      cases phrases with
      | nil => cases hphrases
      | cons phrase phrases =>
        obtain ⟨l, ts, hrow⟩ := hrow.exists_cons hpart
        rw [List.map_cons, ← commas_cons_cons] at hrow
        exact ⟨l, _, hrow, congrArg (part.2 :: ·) hphrases⟩

theorem Laid.call {l : List Item} {phrases : List (List Token × Expr)}
    (h : Laid A s p c sign bare) (hp : p ∈ [Phrase.member, .call]) (hrow : Row A s' l phrases) :
    Laid A (s ++ between "(" ")" s') .call (.call c (phrases.map Prod.snd)) sign bare' := by
  obtain ⟨l, hl, hdc, hfront, hback⟩ := h
  have hbrackets := strip_between "(" ")" hrow.strip (by decide) (by decide)
    (hrow.ends.imp And.right And.right)
  refine ⟨_, hl.append hbrackets (hback.meet (c := '(') (by decide) (by rintro _ ⟨⟩; rfl)), ?_,
    hfront.append _, ?_⟩
  · have hcall : Derives .call (tokensOf l ++ bracketed (phrases.map Prod.fst) false) _ :=
      .call hp hdc hrow.derives (by simp)
    simpa [bracketed, hrow.tokens] using hcall
  · exact ((back_token (by simp [Token.Closes])).append _).append _

theorem Laid.new {l : List Item} {phrases : List (List Token × Expr)}
    (h : Laid A s .member c sign bare) (hrow : Row A s' l phrases) :
    Laid A (text "new " ++ s ++ between "(" ")" s') .member (.new c (phrases.map Prod.snd)) sign'
      bare' := by
  obtain ⟨l, hl, hdc, -, hback⟩ := h
  have hword : Strip A (text "new ") ([Item.token (.word "new")] ++ [Item.gap ' ']) :=
    Strip.tokenSpace rfl (writes_text "new ")
  have hbrackets := strip_between "(" ")" hrow.strip (by decide) (by decide)
    (hrow.ends.imp And.right And.right)
  refine ⟨_, (hword.append hl (meet_gap _ _ _)).append hbrackets
    ((hback.append _).meet (c := '(') (by decide) (by rintro _ ⟨⟩; rfl)), ?_,
    (((front_word (A := A) (x := "new") rfl).append _).append _).append _, ?_⟩
  · have hnew : Derives .member
        (.word "new" :: (tokensOf l ++ bracketed (phrases.map Prod.fst) false)) _ :=
      .new hdc hrow.derives (by simp)
    simpa [bracketed, hrow.tokens] using hnew
  · exact ((back_token (by simp [Token.Closes])).append _).append _

theorem Row.laid_sequence {l : List Item} {phrases : List (List Token × Expr)}
    (h : Row A s l phrases) (hlength : 2 ≤ phrases.length) :
    Laid A s .expression (.sequence (phrases.map Prod.snd)) (fun _ => True) True := by
  obtain ⟨hfront, hback⟩ : Front l (fun _ => True) ∧ Back l True := by
    refine h.ends.resolve_left ?_
    rintro ⟨rfl, -⟩
    cases hlength
  refine ⟨l, h.strip, ?_, hfront, hback⟩
  rw [h.tokens]
  exact Derives.sequence hlength h.derives

end Laid

end Typeshift.Expression
