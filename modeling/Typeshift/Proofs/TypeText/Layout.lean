import Typeshift.Print.TypeText
import Typeshift.Proofs.Expression.Layout
import Typeshift.Proofs.TypeText.Lexer
import Typeshift.Proofs.TypeText.Unambiguous

/-! # Laying out types

The script of a type writes tokens and spaces on one line, and is put together of the scripts of its
parts. What matters to the text beside a part is only how the part begins and what it is read
before.

* `Spells`: a script writes tokens that are read before some characters.
* `Spells.append`, `Spells.andThen`: scripts one after the other.
* `Spells.separated`: lists with a mark between the members.
* `Laid`: a script writes a phrase of the grammar. -/

namespace Typeshift.TypeText

open Print Script
open Expression (Alphabet)

/-- The characters that may stand after a type. -/
def ends : List Char := [' ', '\n', ')', ']', '>', ',', '[']

/-- The character would not go on with `<`, so that what it begins may stand after that. -/
def Opens (c : Char) : Prop := c ≠ '<' ∧ c ≠ '='

instance : DecidablePred Opens := fun c => by unfold Opens; infer_instance

/-- **A script writes tokens**, which are read before the given characters. -/
def Spells (A : Alphabet) (before : Char → Prop) (s : Script) (ts : List Token) : Prop :=
  ∃ c cs, Writes s (c :: cs) ∧ Opens c ∧ ∀ d, before d → Reads A (c :: cs) ts d

/-- The lists that types have: what is written between two members, and the mark it stands for. -/
def separators : List (String × String) := [(" | ", "|"), (" & ", "&"), (", ", ",")]

section Spells

variable {A : Alphabet} {P Q : Char → Prop} {s s' : Script} {ts us : List Token}
  {c d : Char} {cs ds : List Char} {x m sep : String}

theorem Spells.mono (h : Spells A P s ts) (hb : ∀ c, Q c → P c) :
    Spells A Q s ts := by
  obtain ⟨c, cs, hw, hc, hr⟩ := h
  exact ⟨c, cs, hw, hc, fun d hd => hr d (hb d hd)⟩

theorem Spells.silent (h : Spells A P s ts) {l r : Script} (hl : Writes l [])
    (hr : Writes r []) : Spells A P (l ++ s ++ r) ts := by
  obtain ⟨c, cs, hw, h⟩ := h
  have hall := (hl.append hw).append hr
  rw [List.nil_append, List.append_nil] at hall
  exact ⟨c, cs, hall, h⟩

theorem Spells.append (h : Spells A Opens s ts) (h' : Spells A P s' us) :
    Spells A P (s ++ s') (ts ++ us) := by
  obtain ⟨c, cs, hw, hc, hr⟩ := h
  obtain ⟨d, ds, hw', hd, hr'⟩ := h'
  exact ⟨c, cs ++ d :: ds, hw.append hw', hc, fun e he => (hr d hd).append (hr' e he)⟩

/-- A text after a script, which is read before the beginning of the text. -/
theorem Spells.andThen (h : Spells A P s ts) (hx : x.toList = d :: ds) (hd : P d)
    (hr : ∀ c, Q c → Reads A (d :: ds) us c) :
    Spells A Q (s ++ text x) (ts ++ us) := by
  obtain ⟨c, cs, hw, hc, hr'⟩ := h
  have hw' := writes_text x
  rw [hx] at hw'
  exact ⟨c, cs ++ d :: ds, hw.append hw', hc, fun e he => (hr' d hd).append (hr e he)⟩

theorem Spells.space (h : Spells A P s ts) (hb : P ' ') :
    Spells A Q (s ++ space) ts := by
  obtain ⟨c, cs, hw, hc, hr⟩ := h
  refine ⟨c, cs ++ [' '], hw.append writes_space, hc, fun d _ => ?_⟩
  simpa using (hr ' ' hb).append (reads_space d)

theorem spells_text (hx : x.toList = c :: cs) (hc : Opens c)
    (hr : ∀ d, P d → Reads A (c :: cs) ts d) : Spells A P (text x) ts := by
  have hw := writes_text x
  rw [hx] at hw
  exact ⟨c, cs, hw, hc, hr⟩

/-! ### Words, marks and brackets -/

theorem continues_eq_false (hc : c ∈ ['?', '.', '<'] ++ ':' :: ends) : A.continues c = false := by
  simp only [ends, List.mem_append, List.mem_cons, List.not_mem_nil, or_false] at hc
  rcases hc with (rfl | rfl | rfl) | rfl | rfl | rfl | rfl | rfl | rfl | rfl | rfl <;> rfl

theorem opens_of_starts (h : A.starts c = true) : Opens c := by
  constructor <;> rintro rfl <;> cases h

theorem spells_word (hx : A.isName x = true) :
    Spells A (fun c => A.continues c = false) (text x) [.word x] := by
  have hfirst := (Bool.and_eq_true_iff.mp hx).1
  cases hs : x.toList with
  | nil => rw [hs] at hfirst; cases hfirst
  | cons c cs =>
    rw [hs] at hfirst
    refine spells_text hs (opens_of_starts hfirst) fun d hd => ?_
    rw [← hs]
    exact reads_word hx hd

/-- The marks that nothing goes on with. -/
theorem reads_mark_always (hm : m ∈ ["(", ")", "[", "]", ",", ":"]) (c : Char) :
    Reads A m.toList [.mark m] c := by
  simp only [List.mem_cons, List.not_mem_nil, or_false] at hm
  rcases hm with rfl | rfl | rfl | rfl | rfl | rfl <;>
    exact reads_mark rfl (by rintro _ ⟨⟩; rfl) rfl

/-- A mark between two spaces. -/
theorem reads_spaced (hm : (Expression.Token.mark m).isSpelled A = true)
    (hown : ∀ d ∈ m.toList.head?, isOwn d = false)
    (hstop : (Expression.Token.mark m).stops A ' ' = true) (c : Char) :
    Reads A (' ' :: m.toList ++ [' ']) [.mark m] c := by
  have hmark := (reads_mark hm hown hstop).append (reads_space c)
  cases hs : m.toList with
  | nil =>
    obtain ⟨d, ds, hd⟩ := Expression.Item.exists_chars (i := .token (.mark m)) hm
    cases hs.symm.trans hd
  | cons d ds =>
    rw [hs] at hmark
    exact (reads_space d).append hmark

theorem reads_separator (h : (sep, m) ∈ separators) :
    ∃ d ds, sep.toList = d :: ds ∧ d ∈ ends ∧ ∀ c, Reads A (d :: ds) [.mark m] c := by
  simp only [separators, List.mem_cons, List.not_mem_nil, or_false, Prod.mk.injEq] at h
  rcases h with ⟨rfl, rfl⟩ | ⟨rfl, rfl⟩ | ⟨rfl, rfl⟩
  · exact ⟨_, _, rfl, by decide, reads_spaced (m := "|") rfl (by rintro _ ⟨⟩; rfl) rfl⟩
  · exact ⟨_, _, rfl, by decide, reads_spaced (m := "&") rfl (by rintro _ ⟨⟩; rfl) rfl⟩
  · exact ⟨_, _, rfl, by decide, fun c =>
      (reads_mark_always (m := ",") (by decide) ' ').append (reads_space c)⟩

theorem spells_open (hm : m ∈ ["(", "["]) : Spells A P (text m) [.mark m] := by
  simp only [List.mem_cons, List.not_mem_nil, or_false] at hm
  rcases hm with rfl | rfl
  · exact spells_text rfl (by decide) fun d _ => reads_mark_always (m := "(") (by decide) d
  · exact spells_text rfl (by decide) fun d _ => reads_mark_always (m := "[") (by decide) d

theorem Spells.close (h : Spells A (· ∈ ends) s ts) (hm : m ∈ [")", "]", ">"]) :
    Spells A P (s ++ text m) (ts ++ [Token.mark m]) := by
  simp only [List.mem_cons, List.not_mem_nil, or_false] at hm
  rcases hm with rfl | rfl | rfl
  · exact h.andThen rfl (by decide) fun d _ => reads_mark_always (m := ")") (by decide) d
  · exact h.andThen rfl (by decide) fun d _ => reads_mark_always (m := "]") (by decide) d
  · exact h.andThen rfl (by decide) fun d _ => reads_close d

/-- A list in angle brackets after a name. -/
theorem Spells.angles (h : Spells A P s ts) (hb : P '<')
    (h' : Spells A (· ∈ ends) s' us) :
    Spells A Q (s ++ Script.between "<" ">" s') (ts ++ .mark "<" :: us ++ [Token.mark ">"]) := by
  have hopen : Spells A Opens (s ++ text "<") (ts ++ [Token.mark "<"]) := by
    refine h.andThen rfl hb fun c hc => reads_mark (m := "<") rfl (by rintro _ ⟨⟩; rfl) ?_
    simp [Expression.Token.stops, Expression.marks, List.isPrefixOf, hc.1, hc.2]
  have hall := (hopen.append h').close (P := Q) (m := ">") (by decide)
  simpa [Script.between] using hall

/-- A name after a point. -/
theorem Spells.member (h : Spells A P s ts) (hb : P '.') (hx : A.isName x = true)
    (hw : Writes s' x.toList) :
    Spells A (fun c => A.continues c = false) (s ++ text "." ++ s')
      (ts ++ [Token.mark ".", .word x]) := by
  obtain ⟨c, cs, hs, hc, hr⟩ := h
  have hfirst := (Bool.and_eq_true_iff.mp hx).1
  cases hchars : x.toList with
  | nil => rw [hchars] at hfirst; cases hfirst
  | cons d ds =>
    rw [hchars] at hfirst hw
    have hstart : A.starts d = true := hfirst
    have hpoint : d ≠ '.' := by
      rintro rfl
      cases hstart
    have hdigit : d.isDigit = false := by
      refine Bool.eq_false_iff.mpr fun hdigit => ?_
      rw [Expression.starts_of_isDigit hdigit] at hstart
      cases hstart
    have hmark : Reads A ['.'] [.mark "."] d := by
      refine reads_mark (m := ".") rfl (by rintro _ ⟨⟩; rfl) ?_
      simp [Expression.Token.stops, Expression.marks, List.isPrefixOf, hpoint, hdigit]
    refine ⟨c, cs ++ '.' :: d :: ds, ?_, hc, fun e he => ?_⟩
    · simpa using (hs.append (writes_text ".")).append hw
    · have hword := reads_word hx he
      rw [hchars] at hword
      exact (hr '.' hb).append (hmark.append hword)

/-! ### Lists -/

theorem separated_cons_cons (sep : String) (s s' : Script) (ss : List Script) :
    Script.separated sep (s :: s' :: ss) = s ++ text sep ++ Script.separated sep (s' :: ss) := by
  simp [Script.separated, List.intercalate]

theorem Spells.separated {α : Type} {script : α → Script} {tokens : α → List Token}
    (hsep : (sep, m) ∈ separators) :
    ∀ {as : List α}, as ≠ [] → (∀ a ∈ as, Spells A (· ∈ ends) (script a) (tokens a)) →
      Spells A (· ∈ ends) (Script.separated sep (as.map script)) (joined m (as.map tokens))
  | [a], _, h => by
    rw [List.map_singleton, List.map_singleton, joined_singleton]
    simpa [Script.separated, List.intercalate] using h a List.mem_cons_self
  | a :: b :: as, _, h => by
    obtain ⟨d, ds, hd, hends, hr⟩ := reads_separator (A := A) hsep
    have hrest := Spells.separated hsep (List.cons_ne_nil b as)
      fun c hc => h c (List.mem_cons_of_mem a hc)
    have hfirst := (h a List.mem_cons_self).andThen (Q := Opens) hd hends fun c _ => hr c
    have hall := hfirst.append hrest
    simpa [separated_cons_cons, joined_cons_cons] using hall

/-- A list in brackets, which may be empty. -/
theorem spells_bracketed {α : Type} {script : α → Script} {tokens : α → List Token} {as : List α}
    {l r : String} (hl : l ∈ ["(", "["]) (hr : r ∈ [")", "]"])
    (h : ∀ a ∈ as, Spells A (· ∈ ends) (script a) (tokens a)) :
    Spells A P (Script.between l r (commas (as.map script)))
      (.mark l :: joined "," (as.map tokens) ++ [Token.mark r]) := by
  have hopen : Spells A Opens (text l) [.mark l] := spells_open hl
  by_cases hne : as = []
  · have hclose := (spells_open (A := A) hl).close (P := P) (List.mem_append_left [">"] hr)
    simpa [hne, Script.between, commas, Script.separated, joined] using hclose
  · have hsep : (", ", ",") ∈ separators := by decide
    exact (hopen.append (Spells.separated hsep hne h)).close (List.mem_append_left [">"] hr)

/-- A name with what follows it in a list of parameters. -/
theorem spells_parameter (hx : A.isName x = true) (isOptional : Bool)
    (type? : Option (List Token)) {type : Script} (hnone : type? = none → type = [])
    (hsome : ∀ us ∈ type?, ∃ s, type = text ": " ++ s ∧ Spells A (· ∈ ends) s us) :
    Spells A (· ∈ ends) (text x ++ when isOptional (text "?") ++ type)
      (Parameter.tokens ⟨x, isOptional, type?⟩) := by
  have hstem : Spells A (· ∈ ':' :: ends) (text x ++ when isOptional (text "?"))
      (.word x :: markIf "?" isOptional) := by
    cases isOptional with
    | false =>
      have hword := (spells_word hx).mono (Q := (· ∈ ':' :: ends)) fun c hc =>
        continues_eq_false (List.mem_append_right _ hc)
      simpa [when, markIf] using hword
    | true =>
      refine (spells_word hx).andThen rfl (continues_eq_false (by decide)) fun c hc => ?_
      refine reads_mark (m := "?") rfl (by rintro _ ⟨⟩; rfl) ?_
      simp only [ends, List.mem_cons, List.not_mem_nil, or_false] at hc
      rcases hc with rfl | rfl | rfl | rfl | rfl | rfl | rfl | rfl <;> rfl
  cases type? with
  | none =>
    rw [hnone rfl, List.append_nil]
    simpa [Parameter.tokens] using hstem.mono fun c hc => List.mem_cons_of_mem ':' hc
  | some us =>
    obtain ⟨s, rfl, hs⟩ := hsome us rfl
    have hcolon := hstem.andThen (x := ": ") (Q := Opens) rfl (by decide) fun c _ =>
      (reads_mark_always (m := ":") (by decide) ' ').append (reads_space c)
    have hall := hcolon.append hs
    simpa [Parameter.tokens] using hall

end Spells

/-! ### Phrases -/

/-- **A script writes a phrase** that may stand before the ends of types. -/
def Laid (A : Alphabet) (s : Script) (p : Phrase) (τ : Typ) : Prop :=
  ∃ ts, Spells A (· ∈ ends) s ts ∧ Derives p ts τ

section Laid

variable {A : Alphabet} {s s' : Script} {p q : Phrase} {τ κ : Typ} {x sep m : String}

theorem Laid.imp (h : Laid A s p τ) (hd : ∀ ts, Derives p ts τ → Derives q ts κ) :
    Laid A s q κ := by
  obtain ⟨ts, hs, hp⟩ := h
  exact ⟨ts, hs, hd ts hp⟩

theorem Laid.silent (h : Laid A s p τ) {l r : Script} (hl : Writes l []) (hr : Writes r []) :
    Laid A (l ++ s ++ r) p τ := by
  obtain ⟨ts, hs, hp⟩ := h
  exact ⟨ts, hs.silent hl hr, hp⟩

theorem Laid.paren (h : Laid A s .whole τ) : Laid A (between "(" ")" s) .primary τ := by
  obtain ⟨ts, hs, hd⟩ := h
  have hopen : Spells A Opens (text "(") [.mark "("] := spells_open (by decide)
  exact ⟨_, (hopen.append hs).close (by decide), .paren hd⟩

theorem Laid.array (h : Laid A s .access τ) : Laid A (s ++ text "[]") .access (.array τ) := by
  obtain ⟨ts, hs, hd⟩ := h
  refine ⟨_, hs.andThen rfl (by decide) fun c _ => ?_, .array hd⟩
  exact (reads_mark_always (m := "[") (by decide) ']').append
    (reads_mark_always (m := "]") (by decide) c)

theorem Laid.access (h : Laid A s .access τ) (h' : Laid A s' .whole κ) :
    Laid A (s ++ between "[" "]" s') .access (.access τ κ) := by
  obtain ⟨ts, hs, hd⟩ := h
  obtain ⟨us, hs', hd'⟩ := h'
  have hopen := hs.andThen (x := "[") (Q := Opens) rfl (by decide) fun c _ =>
    reads_mark_always (m := "[") (by decide) c
  have hall := (hopen.append hs').close (m := "]") (P := (· ∈ ends)) (by decide)
  exact ⟨_, by simpa [between] using hall, by simpa using Derives.access hd hd'⟩

theorem Laid.operator (ho : x ∈ operators) (h : Laid A s .operator τ) :
    Laid A (text x ++ space ++ s) .operator (.operator x τ) := by
  obtain ⟨ts, hs, hd⟩ := h
  have hname : ∀ x ∈ operators, A.isName x = true := by
    simp only [operators, List.forall_mem_cons]
    exact ⟨rfl, rfl, rfl, List.forall_mem_nil _⟩
  have hword := (spells_word (hname x ho)).space (Q := Opens) (continues_eq_false (by decide))
  exact ⟨_, hword.append hs, .operator ho hd⟩

theorem Laid.query {xs : List Token} {ys : List String} {y : String}
    (h : Spells A (· ∈ ends) s xs) (hxs : xs = .word y :: pointed ys)
    (hy : y ∉ Expression.reserved) :
    Laid A (text "typeof " ++ s) .primary (.query (y :: ys)) := by
  have hword : Spells A Opens (text "typeof ") [.word "typeof"] := by
    refine spells_text rfl (by decide) fun c _ => ?_
    exact (reads_word (x := "typeof") rfl (continues_eq_false (by decide))).append (reads_space c)
  rw [hxs] at h
  exact ⟨_, hword.append h, .query hy⟩

/-- The phrases that scripts with the same kind of phrase write. -/
theorem exists_tokens {α : Type} (script : α → Script) (type : α → Typ) {as : List α}
    (h : ∀ a ∈ as, Laid A (script a) p (type a)) :
    ∃ tokens : α → List Token, ∀ a ∈ as,
      Spells A (· ∈ ends) (script a) (tokens a) ∧ Derives p (tokens a) (type a) := by
  choose! tokens htokens using h
  exact ⟨tokens, htokens⟩

end Laid

end Typeshift.TypeText
