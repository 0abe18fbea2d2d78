import Typeshift.Proofs.Expression.OpenIn
import Typeshift.Proofs.Statement.Grammar

/-! # How the heads of loops begin

Two things tell the heads of loops apart. An `in` before the first semicolon is the one of a loop
over keys, if it is bare: what stands between `?` and `:` is bracketed to the grammar. And a head
that begins with `let` is one that declares names.

* `Bares`: tokens that hold a bare `in`, or not.
  `Derives.not_hasBareIn`: a phrase that shows no `in` has no bare one.
* `Expr.leadingName`: the name that an expression begins with.
  `OpensAs.plain`: an expression begins no other statement, unless that name is `let`. -/

namespace Typeshift.Statement

open Expression

/-! ### The bare operator -/

/-- Tokens that leave as many brackets open as there were, and hold a bare `in` or not. -/
abbrev Bares (ts : List Token) (b : Bool) : Prop := Outside ["(", "[", "?"] [")", "]", ":"] ts b

/-- Tokens that show an `in` or not, and hold no bare one if they show none. -/
def Covers (ts : List Token) (b : Bool) : Prop :=
  Shows ts b ∧ ∃ c, Bares ts c ∧ (c = true → b = true)

theorem bares_brackets {ts : List Token} {b : Bool} {l r : String} (h : Bares ts b)
    (hl : l ∈ ["(", "[", "?"]) (hr : r ∈ [")", "]", ":"]) :
    Bares (.mark l :: ts ++ [Token.mark r]) false :=
  h.brackets hl hr (by decide) (by decide)

theorem finds_covers : Finds Covers where
  nil := ⟨.nil, _, .nil, id⟩
  append := by
    rintro ts us b c ⟨h, d, hd, hle⟩ ⟨h', d', hd', hle'⟩
    refine ⟨h.append h', _, hd.append hd', ?_⟩
    simp only [Bool.or_eq_true]
    exact Or.imp hle hle'
  word w := ⟨.word w, _, .word w, id⟩
  numeral digits := ⟨.numeral digits, _, .numeral digits, id⟩
  mark hm := ⟨finds_shows.mark hm, _, .mark (mt (fun h =>
    (by decide : "." :: ["(", "[", "?"] ++ [")", "]", ":"] ⊆ punctuation) h) hm), id⟩
  group := by
    rintro ts b ⟨h, d, hd, -⟩
    exact ⟨finds_shows.group h, _, bares_brackets hd (by decide) (by decide), id⟩
  index := by
    rintro ts b ⟨h, d, hd, -⟩
    exact ⟨finds_shows.index h, _, bares_brackets hd (by decide) (by decide), id⟩
  branch := by
    rintro ts b ⟨h, d, hd, -⟩
    exact ⟨finds_shows.branch h, _, bares_brackets hd (by decide) (by decide), nofun⟩
  member := by
    rintro ts b x ⟨h, d, hd, hle⟩
    exact ⟨h.member x, _, hd.member x, hle⟩

/-- Tokens that show no `in` hold no bare one. -/
theorem Covers.not_hasBareIn {ts : List Token} {b : Bool} (h : Covers ts b)
    (hin : openIn 0 ts = false) : hasBareIn ts = false := by
  obtain ⟨hshows, c, hc, hle⟩ := h
  rw [hasBareIn, hc.inOutside_eq, Bool.eq_false_iff]
  intro htrue
  rw [hshows.openIn_eq, hle htrue] at hin
  cases hin

/-- An `in` after a phrase is bare. -/
theorem hasBareIn_target {p : Phrase} {ts : List Token} {e : Expr} (h : Derives p ts e)
    (more : List Token) : hasBareIn (ts ++ .word "in" :: more) = true := by
  obtain ⟨b, ⟨-, c, hc, -⟩, -⟩ := h.finds finds_covers
  rw [hasBareIn, hc]
  simp [inOutside]

theorem Binding.covers {ts : List Token} {b : String × Option Expr} (h : Binding ts b) :
    ∃ c, Covers ts c := by
  cases h with
  | bare => exact ⟨_, finds_covers.word _⟩
  | valued _ value =>
    obtain ⟨c, hc, -⟩ := value.finds finds_covers
    have hset := finds_covers.append (finds_covers.mark (m := "=") (by decide)) hc
    exact ⟨_, finds_covers.append (finds_covers.word _) hset⟩

/-! ### The leading name -/

end Typeshift.Statement

namespace Typeshift.Expression

/-- The name that an expression begins with, if it begins with one. -/
def Expr.leadingName : Expr → Option String
  | .name x => some x
  | .member object _ | .index object _ => object.leadingName
  | .call callee _ => callee.leadingName
  | .update _ isFirst argument => if isFirst then none else argument.leadingName
  | .binary _ left _ => left.leadingName
  | .conditional test _ _ => test.leadingName
  | .assign _ target _ => target.leadingName
  | .sequence (first :: _) => first.leadingName
  | .numeral _ | .new _ _ | .unary _ _ | .sequence [] => none

end Typeshift.Expression

namespace Typeshift.Statement

open Expression

/-- Whether an expression may begin with a token that is no name. -/
def isOpening : Token → Bool
  | .numeral _ => true
  | .word w => w ∈ "new" :: unaryOperators
  | .mark m => m ∈ "(" :: updateOperators ++ unaryOperators

/-- Tokens begin as an expression does: with a token that is no name, or with the leading name. -/
def OpensAs (ts : List Token) (e : Expr) : Prop :=
  ∀ t ∈ ts.head?, isOpening t = true ∨ ∃ x ∉ reserved, t = .word x ∧ e.leadingName = some x

theorem OpensAs.append {ts : List Token} {e e' : Expr} (h : OpensAs ts e) (hne : ts ≠ [])
    (hname : e'.leadingName = e.leadingName) (us : List Token) : OpensAs (ts ++ us) e' := by
  unfold OpensAs
  rwa [List.head?_append_of_ne_nil _ hne, hname]

/-- **How an expression begins.** -/
theorem opensAs_of_derives {p : Phrase} {ts : List Token} {e : Expr} (h : Derives p ts e) :
    OpensAs ts e := by
  have hupdate : ∀ operator ∈ updateOperators, isOpening (.mark operator) = true := by decide
  have hunary : ∀ operator ∈ unaryOperators, isOpening (operatorToken operator) = true := by decide
  induction h with
  | wider _ _ ih => exact ih
  | @name x hx =>
    rintro _ ⟨⟩
    exact .inr ⟨x, hx, rfl, rfl⟩
  | numeral | paren | new | newBare =>
    rintro _ ⟨⟩
    exact .inl rfl
  | updateFirst ho =>
    rintro _ ⟨⟩
    exact .inl (hupdate _ ho)
  | unary ho =>
    rintro _ ⟨⟩
    exact .inl (hunary _ ho)
  | member _ object _ ih => exact ih.append object.ne_nil rfl _
  | index _ object _ ih => exact ih.append object.ne_nil rfl _
  | call _ callee _ _ ih => exact ih.append callee.ne_nil rfl _
  | updateLast _ argument ih => exact ih.append argument.ne_nil rfl _
  | exponent left _ ih => exact ih.append left.ne_nil rfl _
  | binary _ _ left _ ih => exact ih.append left.ne_nil rfl _
  | coalesce _ left _ ih => exact ih.append left.ne_nil rfl _
  | conditional test _ _ ih =>
    rw [List.append_assoc]
    exact ih.append test.ne_nil rfl _
  | assign _ target _ ih => exact ih.append target.ne_nil rfl _
  | @sequence parts hparts items ihs =>
    match parts, hparts with
    | first :: next :: more, _ =>
      rw [List.map_cons, List.map_cons, separated_cons_cons]
      exact (ihs first List.mem_cons_self).append (items first List.mem_cons_self).ne_nil rfl _

theorem form_word {x : String} (hx : x ∉ reserved) (hlet : x ≠ "let") :
    form (.word x) = .plain := by
  have hne {w : String} (hw : w ∈ reserved) : Token.word x ≠ .word w := by
    rintro ⟨⟩
    exact hx hw
  have hlet : Token.word x ≠ .word "let" := fun h => hlet (Token.word.inj h)
  rw [form, if_neg nofun, if_neg nofun, if_neg (hne (by decide)), if_neg (hne (by decide)),
    if_neg (hne (by decide)), if_neg (hne (by decide)), if_neg (hne (by decide)),
    if_neg (hne (by decide)), if_neg hlet, if_neg (hne (by decide))]

theorem form_opening {t : Token} (ht : isOpening t = true) : form t = .plain := by
  have hwords : ∀ w ∈ "new" :: unaryOperators, form (.word w) = .plain := by decide
  have hmarks : ∀ m ∈ "(" :: updateOperators ++ unaryOperators, form (.mark m) = .plain := by decide
  cases t with
  | numeral => rfl
  | word w => exact hwords w (of_decide_eq_true ht)
  | mark m => exact hmarks m (of_decide_eq_true ht)

/-- **An expression begins no other statement**, unless it begins with the name `let`. -/
theorem OpensAs.plain {ts : List Token} {e : Expr} (h : OpensAs ts e)
    (hlet : e.leadingName ≠ some "let") : ∀ t ∈ ts.head?, form t = .plain := by
  intro t ht
  rcases h t ht with hopen | ⟨x, hx, rfl, hname⟩
  · exact form_opening hopen
  · exact form_word hx fun heq => hlet (heq ▸ hname)

/-- No expression begins with a word that is neither a name nor an operator. -/
theorem OpensAs.ne_word {ts : List Token} {e : Expr} (h : OpensAs ts e) {w : String}
    (hw : w ∈ reserved) (hnot : w ∉ "new" :: unaryOperators) : ∀ t ∈ ts.head?, t ≠ .word w := by
  rintro t ht rfl
  rcases h _ ht with hopen | ⟨x, hx, ⟨⟩, -⟩
  · exact hnot (of_decide_eq_true hopen)
  · exact hx hw

end Typeshift.Statement
