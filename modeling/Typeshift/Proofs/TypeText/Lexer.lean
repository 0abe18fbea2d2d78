import Typeshift.Proofs.Expression.Lexer
import Typeshift.Proofs.StringLiteral
import Typeshift.Proofs.TypeText.Grammar

/-! # Tokens of the text of a type

The text of a type is cut into tokens like that of an expression, but for two things. Strings are
tokens, and `>` is one whatever follows, since it may close several lists of arguments in a row.

* `lex`: the tokens of a text.
* `Reads`: the tokens of a part of a text, if the text goes on with a given character.
* `Reads.append`: texts stand one after the other if the first is read before the beginning of the
  second. -/

namespace Typeshift.TypeText

open Expression (Alphabet)

/-! ### Cutting a text into tokens -/

/-- A token of an expression as one of a type. -/
def Token.ofExpression : Expression.Token → Token
  | .word s => .word s
  | .numeral s => .numeral s
  | .mark s => .mark s

/-- The characters that tokens of types begin with and those of expressions do not, or not
always. -/
def isOwn (c : Char) : Bool := c = '>' || c = '"' || c = '\x27'

/-- The first token of a text, if it begins with one, and the rest. -/
def next? (A : Alphabet) : List Char → Option (Option Token × List Char)
  | [] => none
  | c :: cs =>
    if c = '>' then some (some (.mark ">"), cs)
    else if isOwn c then
      (StringLiteral.read? (c :: cs)).map fun part => (some (.string part.1), part.2)
    else (A.next? (c :: cs)).map fun part => (part.1.map Token.ofExpression, part.2)

/-- The tokens of a text, found in so many steps. -/
def lexWithin (A : Alphabet) : Nat → List Char → Option (List Token)
  | _, [] => some []
  | 0, _ :: _ => none
  | n + 1, c :: cs =>
    (next? A (c :: cs)).bind fun part => (lexWithin A n part.2).map (part.1.toList ++ ·)

/-- **The tokens of the text of a type.** -/
def lex (A : Alphabet) (s : String) : Option (List Token) := lexWithin A s.toList.length s.toList

/-! ### Reading a part of a text -/

variable {A : Alphabet}

/-- A text is cut into tokens up to where the rest begins. -/
inductive Cut (A : Alphabet) : List Char → List Token → List Char → Prop where
  | done (cs : List Char) : Cut A cs [] cs
  | step {cs mid rest : List Char} {t : Option Token} {ts : List Token}
      (hnext : next? A cs = some (t, mid)) (hlength : mid.length < cs.length)
      (more : Cut A mid ts rest) : Cut A cs (t.toList ++ ts) rest

theorem Cut.trans {cs mid rest : List Char} {ts us : List Token} (h : Cut A cs ts mid)
    (h' : Cut A mid us rest) : Cut A cs (ts ++ us) rest := by
  induction h with
  | done => exact h'
  | step hnext hlength _ ih =>
    rw [List.append_assoc]
    exact .step hnext hlength (ih h')

theorem Cut.lexWithin_eq {cs rest : List Char} {ts : List Token} (h : Cut A cs ts rest)
    (hrest : rest = []) {n : Nat} (hn : cs.length ≤ n) : lexWithin A n cs = some ts := by
  induction h generalizing n with
  | done cs => rw [hrest, lexWithin]
  | @step cs mid rest t ts hnext hlength _ ih =>
    obtain ⟨m, rfl⟩ : ∃ m, n = m + 1 := ⟨n - 1, by omega⟩
    cases cs with
    | nil => cases hnext
    | cons c cs => rw [lexWithin, hnext, Option.bind_some, ih hrest (by omega), Option.map_some]

/-- A text that goes on with a character is cut into tokens up to there. -/
def Reads (A : Alphabet) (cs : List Char) (ts : List Token) (c : Char) : Prop :=
  ∀ rest, Cut A (cs ++ c :: rest) ts (c :: rest)

section Reads

variable {cs ds : List Char} {ts us : List Token} {c d : Char}

theorem Reads.append (h : Reads A cs ts d) (h' : Reads A (d :: ds) us c) :
    Reads A (cs ++ d :: ds) (ts ++ us) c := by
  intro rest
  rw [List.append_assoc]
  exact (h (ds ++ c :: rest)).trans (h' rest)

theorem reads_of_next? {t : Option Token} (hne : cs ≠ [])
    (h : ∀ rest, next? A (cs ++ c :: rest) = some (t, c :: rest)) : Reads A cs t.toList c := by
  intro rest
  have hlength : (c :: rest).length < (cs ++ c :: rest).length := by
    have := List.length_pos_of_ne_nil hne
    rw [List.length_append]
    omega
  simpa using Cut.step (h rest) hlength (.done _)

theorem reads_space (c : Char) : Reads A [' '] [] c :=
  reads_of_next? (t := none) (by simp) fun _ => rfl

theorem reads_close (c : Char) : Reads A ['>'] [.mark ">"] c :=
  reads_of_next? (t := some (.mark ">")) (by simp) fun _ => rfl

/-- A string ends with its quote. -/
theorem reads_string {s : String} (h : StringLiteral.read? cs = some (s, [])) (c : Char) :
    Reads A cs [.string s] c := by
  cases cs with
  | nil => cases h
  | cons mark cs =>
    refine reads_of_next? (t := some (.string s)) (by simp) fun rest => ?_
    obtain ⟨hclose, hown⟩ : mark ≠ '>' ∧ isOwn mark = true := by
      rcases StringLiteral.isQuote_of_read? h with rfl | rfl <;> decide
    have hread := StringLiteral.read?_append h (c :: rest)
    rw [List.cons_append] at hread ⊢
    rw [next?, if_neg hclose, if_pos hown, hread]
    rfl

/-- A token of an expression is read before what it ends at. -/
theorem reads_token {t : Expression.Token} (ht : t.isSpelled A = true) (hc : t.stops A c = true)
    (hown : ∀ d ∈ t.text.toList.head?, isOwn d = false) :
    Reads A t.text.toList [.ofExpression t] c := by
  cases hs : t.text.toList with
  | nil =>
    obtain ⟨d, ds, hd⟩ := Expression.Item.exists_chars (i := .token t) ht
    cases hs.symm.trans hd
  | cons d ds =>
    refine reads_of_next? (t := some (.ofExpression t)) (by simp) fun rest => ?_
    have hd : isOwn d = false := hown d (by rw [hs]; rfl)
    have hclose : d ≠ '>' := by
      rintro rfl
      cases hd
    have hnext : A.next? (t.text.toList ++ c :: rest) = some (some t, c :: rest) :=
      Expression.next?_token ht hc
    rw [hs] at hnext
    rw [List.cons_append] at hnext ⊢
    rw [next?, if_neg hclose, if_neg (Bool.eq_false_iff.mp hd), hnext]
    rfl

theorem isOwn_eq_false_of_starts (h : A.starts c = true) : isOwn c = false := by
  refine Bool.eq_false_iff.mpr fun hown => ?_
  simp only [isOwn, Bool.or_eq_true, decide_eq_true_eq] at hown
  rcases hown with (rfl | rfl) | rfl <;> cases h

theorem reads_word {x : String} (hx : A.isName x = true) (hc : A.continues c = false) :
    Reads A x.toList [.word x] c := by
  refine reads_token (t := .word x) hx (by simp [Expression.Token.stops, hc]) fun d hd => ?_
  have hfirst := (Bool.and_eq_true_iff.mp hx).1
  rw [show x.toList.head? = some d from hd] at hfirst
  exact isOwn_eq_false_of_starts hfirst

theorem isOwn_eq_false_of_isDigit (h : c.isDigit = true) : isOwn c = false := by
  refine Bool.eq_false_iff.mpr fun hown => ?_
  simp only [isOwn, Bool.or_eq_true, decide_eq_true_eq] at hown
  rcases hown with (rfl | rfl) | rfl <;> cases h

theorem reads_numeral {x : String} (hx : (Expression.Token.numeral x).isSpelled A = true)
    (hc : (Expression.Token.numeral x).stops A c = true) : Reads A x.toList [.numeral x] c := by
  refine reads_token (t := .numeral x) hx hc fun d hd => ?_
  have hall := (Bool.and_eq_true_iff.mp hx).2
  exact isOwn_eq_false_of_isDigit (List.all_eq_true.mp hall d (List.mem_of_mem_head? hd))

/-- A mark other than `>`. -/
theorem reads_mark {m : String} (hm : (Expression.Token.mark m).isSpelled A = true)
    (hown : ∀ d ∈ m.toList.head?, isOwn d = false)
    (hc : (Expression.Token.mark m).stops A c = true) : Reads A m.toList [.mark m] c :=
  reads_token (t := .mark m) hm hc hown

end Reads

end Typeshift.TypeText
