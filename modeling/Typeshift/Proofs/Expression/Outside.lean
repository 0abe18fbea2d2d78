import Typeshift.Proofs.Expression.Unambiguous

/-! # The operator `in` outside of brackets

Where `in` has a meaning of its own, an operator `in` must stand in brackets. What counts as a
bracket depends on the place.

* `inOutside`: whether tokens hold an `in` outside of the given brackets.
  `Outside`: such tokens, wherever they stand.
* `Finds`: a way to find `in` in the tokens of a phrase. `Derives.finds`: every phrase that binds as
  tightly as a unary operator has none. -/

namespace Typeshift.Expression

/-! ### Tokens -/

/-- **Whether tokens hold the operator `in` outside of the given brackets**, if so many are open
before them. A word after a point is a name. -/
def inOutside (openers closers : List String) : Nat → List Token → Bool
  | _, [] => false
  | depth, .mark "." :: .word _ :: ts => inOutside openers closers depth ts
  | depth, .mark m :: ts =>
    inOutside openers closers
      (if openers.contains m then depth + 1 else if closers.contains m then depth - 1 else depth) ts
  | depth, .word w :: ts => depth == 0 && w == "in" || inOutside openers closers depth ts
  | depth, .numeral _ :: ts => inOutside openers closers depth ts

/-- Tokens that leave as many brackets open as there were, and hold an `in` outside of them or
not. -/
def Outside (openers closers : List String) (ts : List Token) (b : Bool) : Prop :=
  ∀ depth us, inOutside openers closers depth (ts ++ us) =
    (depth == 0 && b || inOutside openers closers depth us)

namespace Outside

variable {openers closers : List String} {ts us : List Token} {b c : Bool} {l r m : String}

theorem nil : Outside openers closers [] false := by
  intro depth us
  simp

theorem append (h : Outside openers closers ts b) (h' : Outside openers closers us c) :
    Outside openers closers (ts ++ us) (b || c) := by
  intro depth vs
  rw [List.append_assoc, h, h', ← Bool.or_assoc, Bool.and_or_distrib_left]

theorem inOutside_eq (h : Outside openers closers ts b) : inOutside openers closers 0 ts = b := by
  have := h 0 []
  simpa [inOutside] using this

theorem word (w : String) : Outside openers closers [.word w] (w == "in") := by
  intro depth us
  rfl

theorem numeral (digits : String) : Outside openers closers [.numeral digits] false := by
  intro depth us
  simp [inOutside]

theorem inOutside_mark (hm : m ≠ ".") (depth : Nat) (us : List Token) :
    inOutside openers closers depth (.mark m :: us) =
      inOutside openers closers
        (if openers.contains m then depth + 1 else if closers.contains m then depth - 1 else depth)
        us := by
  rw [inOutside]
  exact fun _ _ _ h => hm h

theorem mark (hm : m ∉ "." :: openers ++ closers) : Outside openers closers [.mark m] false := by
  simp only [List.cons_append, List.mem_cons, List.mem_append, not_or] at hm
  obtain ⟨hpoint, hopen, hclose⟩ := hm
  intro depth us
  rw [List.singleton_append, inOutside_mark hpoint]
  simp [hopen, hclose]

/-- Brackets around tokens hide what they hold. -/
theorem brackets (h : Outside openers closers ts b) (hl : l ∈ openers) (hr : r ∈ closers)
    (hopen : "." ∉ openers) (hclose : ∀ m ∈ closers, m ∉ "." :: openers) :
    Outside openers closers (.mark l :: ts ++ [Token.mark r]) false := by
  have hpoint : l ≠ "." := fun heq => hopen (heq ▸ hl)
  obtain ⟨hrpoint, hropen⟩ := not_or.mp (mt List.mem_cons.mpr (hclose r hr))
  intro depth us
  rw [List.cons_append, List.cons_append, List.append_assoc, inOutside_mark hpoint, h,
    List.singleton_append, inOutside_mark hrpoint]
  simp [hl, hr, hropen]

/-- A name after a point is no operator. -/
theorem member (h : Outside openers closers ts b) (x : String) :
    Outside openers closers (ts ++ [Token.mark ".", .word x]) b := by
  intro depth us
  rw [List.append_assoc, h]
  rfl

end Outside

/-! ### Phrases -/

/-- The kinds of phrases that bind at least as tightly as a unary operator. -/
def Phrase.tight : List Phrase :=
  [.primary, .member, .newExpression, .call, .leftHandSide, .update, .unary]

theorem tight_of_chain : ∀ p ∈ [Phrase.member, .call], p ∈ Phrase.tight := by decide

/-- The marks that are no operators between operands, and those that may be brackets. -/
def punctuation : List String := [".", "?", ":", "(", ")", "[", "]", "\x7b", "\x7d"]

/-- **A way to find** the operator `in`: the tokens of a phrase, and whether it is found among them
outside of brackets. What stands between `?` and `:` may be bracketed or not. -/
structure Finds (P : List Token → Bool → Prop) : Prop where
  nil : P [] false
  append {ts us : List Token} {b c : Bool} : P ts b → P us c → P (ts ++ us) (b || c)
  word (w : String) : P [.word w] (w == "in")
  numeral (digits : String) : P [.numeral digits] false
  mark {m : String} : m ∉ punctuation → P [.mark m] false
  group {ts : List Token} {b : Bool} : P ts b → P (.mark "(" :: ts ++ [.mark ")"]) false
  index {ts : List Token} {b : Bool} : P ts b → P (.mark "[" :: ts ++ [.mark "]"]) false
  branch {ts : List Token} {b : Bool} : P ts b → P (.mark "?" :: ts ++ [.mark ":"]) b
  member {ts : List Token} {b : Bool} (x : String) : P ts b → P (ts ++ [.mark ".", .word x]) b

namespace Finds

variable {P : List Token → Bool → Prop}

theorem separated (hP : Finds P) {parts : List (List Token)} (h : ∀ part ∈ parts, ∃ b, P part b) :
    ∃ b, P (separated parts) b := by
  induction parts with
  | nil => exact ⟨false, hP.nil⟩
  | cons part rest ih =>
    obtain ⟨b, hb⟩ := h part List.mem_cons_self
    obtain ⟨c, hc⟩ := ih fun part hmem => h part (List.mem_cons_of_mem _ hmem)
    cases rest with
    | nil => exact ⟨b, by rwa [separated_singleton]⟩
    | cons next rest =>
      rw [separated_cons_cons]
      exact ⟨_, hP.append hb (hP.append (hP.mark (m := ",") (by decide)) hc)⟩

theorem bracketed (hP : Finds P) {parts : List (List Token)} (comma : Bool)
    (h : ∀ part ∈ parts, ∃ b, P part b) : P (bracketed parts comma) false := by
  obtain ⟨b, hb⟩ := hP.separated h
  unfold Expression.bracketed
  cases comma with
  | false => exact hP.group hb
  | true =>
    have := hP.group (hP.append hb (hP.mark (m := ",") (by decide)))
    simpa using this

/-- Of all operators only `in` is found. -/
theorem operator (hP : Finds P) {operator : String}
    (ho : operator ∈ wordOperators ∨ operator ∉ "in" :: punctuation) :
    P [operatorToken operator] (operator == "in") := by
  unfold operatorToken
  split
  · exact hP.word operator
  · next hword =>
    obtain ⟨hne, hmark⟩ := not_or.mp (mt List.mem_cons.mpr (ho.resolve_left hword))
    rw [beq_eq_false_iff_ne.mpr hne]
    exact hP.mark hmark

end Finds

/-- **Where `in` is found in a phrase**: never in one that binds tightly. -/
theorem Derives.finds {P : List Token → Bool → Prop} (hP : Finds P) {p : Phrase} {ts : List Token}
    {e : Expr} (h : Derives p ts e) : ∃ b, P ts b ∧ (p ∈ Phrase.tight → b = false) := by
  have hupdate : ∀ operator ∈ updateOperators, operator ∉ punctuation := by decide
  have hassign : ∀ operator ∈ assignmentOperators, operator ∉ punctuation := by decide
  induction h with
  | @wider p q ts e narrow hq ih =>
    obtain ⟨b, hb, htight⟩ := ih
    refine ⟨b, hb, fun hp => htight ?_⟩
    revert hq hp
    cases q <;> decide +revert
  | @name x hx =>
    have hne : (x == "in") = false := by
      rw [beq_eq_false_iff_ne]
      rintro rfl
      exact hx (by decide)
    exact ⟨_, hP.word x, fun _ => hne⟩
  | numeral digits => exact ⟨false, hP.numeral digits, fun _ => rfl⟩
  | paren _ ih =>
    obtain ⟨b, hb, -⟩ := ih
    exact ⟨false, hP.group hb, fun _ => rfl⟩
  | member hp _ x ih =>
    obtain ⟨b, hb, htight⟩ := ih
    exact ⟨b, hP.member x hb, htight⟩
  | index hp _ _ ih ih' =>
    obtain ⟨⟨b, hb, htight⟩, c, hc, -⟩ := And.intro ih ih'
    exact ⟨_, hP.append hb (hP.index hc), fun hp => by rw [htight hp]; rfl⟩
  | new _ _ _ ih ihs =>
    obtain ⟨b, hb, htight⟩ := ih
    have harguments (comma : Bool) := hP.bracketed comma (List.forall_mem_map.mpr
      fun part hpart => (ihs part hpart).imp fun _ => And.left)
    refine ⟨_, hP.append (hP.word "new") (hP.append hb (harguments _)), fun _ => ?_⟩
    rw [htight (by decide)]
    rfl
  | newBare _ ih =>
    obtain ⟨b, hb, htight⟩ := ih
    refine ⟨_, hP.append (hP.word "new") hb, fun _ => ?_⟩
    rw [htight (by decide)]
    rfl
  | call hp _ _ _ ih ihs =>
    obtain ⟨b, hb, htight⟩ := ih
    have harguments (comma : Bool) := hP.bracketed comma (List.forall_mem_map.mpr
      fun part hpart => (ihs part hpart).imp fun _ => And.left)
    refine ⟨_, hP.append hb (harguments _), fun _ => ?_⟩
    rw [htight (tight_of_chain _ hp)]
    rfl
  | updateLast ho _ ih =>
    obtain ⟨b, hb, htight⟩ := ih
    refine ⟨_, hP.append hb (hP.mark (hupdate _ ho)), fun _ => ?_⟩
    rw [htight (by decide)]
    rfl
  | updateFirst ho _ ih =>
    obtain ⟨b, hb, htight⟩ := ih
    refine ⟨_, hP.append (hP.mark (hupdate _ ho)) hb, fun _ => ?_⟩
    rw [htight (by decide)]
    rfl
  | @unary operator _ _ ho _ ih =>
    obtain ⟨b, hb, htight⟩ := ih
    have hknown : ∀ operator ∈ unaryOperators,
        (operator ∈ wordOperators ∨ operator ∉ "in" :: punctuation) ∧
          (operator == "in") = false := by
      decide
    refine ⟨_, hP.append (hP.operator (hknown operator ho).1) hb, fun _ => ?_⟩
    rw [htight (by decide), (hknown operator ho).2]
    rfl
  | exponent _ _ ih ih' =>
    obtain ⟨⟨b, hb, -⟩, c, hc, -⟩ := And.intro ih ih'
    exact ⟨_, hP.append hb (hP.append (hP.mark (m := "**") (by decide)) hc), fun hp => nomatch hp⟩
  | @binary p q operator _ _ _ _ ho _ _ _ ih ih' =>
    obtain ⟨⟨b, hb, -⟩, c, hc, -⟩ := And.intro ih ih'
    have hknown : ∀ operator ∈ p.operators,
        operator ∈ wordOperators ∨ operator ∉ "in" :: punctuation := by cases p <;> decide
    refine ⟨_, hP.append hb (hP.append (hP.operator (hknown operator ho)) hc), fun hp => ?_⟩
    have hnone : ∀ p ∈ Phrase.tight, p.operators = [] := by decide
    rw [hnone p hp] at ho
    cases ho
  | coalesce _ _ _ ih ih' =>
    obtain ⟨⟨b, hb, -⟩, c, hc, -⟩ := And.intro ih ih'
    exact ⟨_, hP.append hb (hP.append (hP.mark (m := "??") (by decide)) hc), fun hp => nomatch hp⟩
  | conditional _ _ _ ih ih' ih'' =>
    obtain ⟨⟨b, hb, -⟩, ⟨c, hc, -⟩, d, hd, -⟩ := And.intro ih (And.intro ih' ih'')
    have hall := hP.append hb (hP.append (hP.branch hc) hd)
    exact ⟨_, by simpa using hall, fun hp => nomatch hp⟩
  | assign ho _ _ ih ih' =>
    obtain ⟨⟨b, hb, -⟩, c, hc, -⟩ := And.intro ih ih'
    exact ⟨_, hP.append hb (hP.append (hP.mark (hassign _ ho)) hc), fun hp => nomatch hp⟩
  | sequence _ _ ihs =>
    obtain ⟨b, hb⟩ := hP.separated (List.forall_mem_map.mpr fun part hpart =>
      (ihs part hpart).imp fun _ => And.left)
    exact ⟨b, hb, fun hp => nomatch hp⟩

end Typeshift.Expression
