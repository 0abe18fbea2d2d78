import Typeshift.Proofs.Expression.Lexer

/-! # Numerals

The grammar of numerals: decimal ones with a fraction and an exponent, those of the radices 16, 8
and 2, and the old forms that begin with a zero. An underscore may stand between two digits. A
numeral in a text is as long as it can be, so a point that follows one is part of it if a longer
numeral comes of that.

* `IsNumeral`: the grammar.
* `Cuts`: a text is cut into tokens, all numerals among them.
* `IsNumeral.before_point`: what stands before the point of a numeral.
* `IsNumeral.append_point`: which numerals take a point that follows them. -/

namespace Typeshift.Expression

/-! ### The grammar -/

/-- Digits, with underscores between some of them. -/
inductive Digits (p : Char → Bool) : List Char → Prop where
  | one {c : Char} (hc : p c = true) : Digits p [c]
  | next {c : Char} {cs : List Char} (hc : p c = true) (more : Digits p cs) : Digits p (c :: cs)
  | separated {c : Char} {cs : List Char} (hc : p c = true) (more : Digits p cs) :
    Digits p (c :: '_' :: cs)

/-- The digits of the radix 16. -/
def isHexDigit (c : Char) : Bool := "0123456789abcdefABCDEF".toList.contains c

/-- The digits of the radix 8. -/
def isOctalDigit (c : Char) : Bool := "01234567".toList.contains c

/-- The digits of the radix 2. -/
def isBinaryDigit (c : Char) : Bool := c == '0' || c == '1'

/-- The digits of the radix that a letter after a zero tells. -/
def radixDigit? : Char → Option (Char → Bool)
  | 'x' | 'X' => some isHexDigit
  | 'o' | 'O' => some isOctalDigit
  | 'b' | 'B' => some isBinaryDigit
  | _ => none

/-- The part of a decimal numeral before its point. -/
inductive IsInteger : List Char → Prop where
  | zero : IsInteger ['0']
  | digits {c : Char} {cs : List Char} (hc : c ≠ '0') (digits : Digits Char.isDigit (c :: cs)) :
    IsInteger (c :: cs)
  /-- The old form with a zero in front, which is decimal if some digit is not octal. -/
  | zeroFirst {cs : List Char} (digits : ∀ c ∈ cs, c.isDigit = true)
      (decimal : ∃ c ∈ cs, isOctalDigit c = false) : IsInteger ('0' :: cs)

/-- A point with the digits after it, or neither. -/
inductive IsFraction : List Char → Prop where
  | none : IsFraction []
  | point : IsFraction ['.']
  | digits {cs : List Char} (digits : Digits Char.isDigit cs) : IsFraction ('.' :: cs)

/-- An exponent, or none. -/
inductive IsExponent : List Char → Prop where
  | none : IsExponent []
  | some {c : Char} {sign cs : List Char} (hc : c ∈ ['e', 'E']) (hsign : sign ∈ [[], ['+'], ['-']])
      (digits : Digits Char.isDigit cs) : IsExponent (c :: (sign ++ cs))

/-- **The grammar of numerals.** -/
inductive IsNumeral : List Char → Prop where
  | decimal {cs fraction exponent : List Char} (integer : IsInteger cs)
      (hf : IsFraction fraction) (he : IsExponent exponent) :
    IsNumeral (cs ++ (fraction ++ exponent))
  | pointFirst {cs exponent : List Char} (digits : Digits Char.isDigit cs)
      (he : IsExponent exponent) : IsNumeral ('.' :: (cs ++ exponent))
  | radix {c : Char} {digit : Char → Bool} {cs : List Char} (hc : radixDigit? c = some digit)
      (digits : Digits digit cs) : IsNumeral ('0' :: c :: cs)
  /-- The old form of an octal numeral. -/
  | octal {c : Char} {cs : List Char} (digits : ∀ d ∈ c :: cs, isOctalDigit d = true) :
    IsNumeral ('0' :: c :: cs)

/-! ### The characters of numerals -/

/-- Whether a character is a digit or stands between digits. -/
def inDigits (c : Char) : Bool := c.isDigit || c == '_'

/-- The characters of numerals but for the point. -/
def inNumeral (c : Char) : Bool := inDigits c || c.isAlpha || c == '+' || c == '-'

section Characters

variable {p : Char → Bool} {n u v : List Char} {c : Char}

theorem Digits.mem (h : Digits p n) (hc : c ∈ n) : p c = true ∨ c = '_' := by
  induction h with
  | one hd =>
    obtain rfl := List.mem_singleton.mp hc
    exact .inl hd
  | next hd _ ih =>
    rcases List.mem_cons.mp hc with rfl | hc
    · exact .inl hd
    · exact ih hc
  | separated hd _ ih =>
    rcases List.mem_cons.mp hc with rfl | hc
    · exact .inl hd
    · rcases List.mem_cons.mp hc with rfl | hc
      · exact .inr rfl
      · exact ih hc

theorem Digits.exists_cons (h : Digits p n) : ∃ c cs, n = c :: cs ∧ p c = true := by
  cases h with
  | one hc | next hc _ | separated hc _ => exact ⟨_, _, rfl, hc⟩

theorem Digits.inDigits (h : Digits Char.isDigit n) (hc : c ∈ n) : inDigits c = true := by
  rcases h.mem hc with h | rfl
  · simp [Expression.inDigits, h]
  · rfl

theorem isDigit_of_isOctalDigit (h : isOctalDigit c = true) : c.isDigit = true := by
  have hall : "01234567".toList.all Char.isDigit = true := by decide
  exact List.all_eq_true.mp hall c (by simpa [isOctalDigit] using h)

theorem inNumeral_of_isHexDigit (h : isHexDigit c = true) : inNumeral c = true := by
  have hall : "0123456789abcdefABCDEF".toList.all inNumeral = true := by decide
  exact List.all_eq_true.mp hall c (by simpa [isHexDigit] using h)

theorem inNumeral_of_inDigits (h : inDigits c = true) : inNumeral c = true := by
  simp [inNumeral, h]

theorem IsInteger.inDigits (h : IsInteger n) (hc : c ∈ n) : inDigits c = true := by
  cases h with
  | zero =>
    obtain rfl := List.mem_singleton.mp hc
    rfl
  | digits _ digits => exact digits.inDigits hc
  | zeroFirst digits _ =>
    rcases List.mem_cons.mp hc with rfl | hc
    · rfl
    · simp [Expression.inDigits, digits c hc]

theorem IsExponent.inNumeral (h : IsExponent n) (hc : c ∈ n) : inNumeral c = true := by
  cases h with
  | none => cases hc
  | some he hsign digits =>
    simp only [List.mem_cons, List.not_mem_nil, or_false] at he hsign
    rcases List.mem_cons.mp hc with rfl | hc
    · rcases he with rfl | rfl <;> rfl
    · rcases List.mem_append.mp hc with hc | hc
      · rcases hsign with rfl | rfl | rfl
        · cases hc
        · obtain rfl := List.mem_singleton.mp hc
          rfl
        · obtain rfl := List.mem_singleton.mp hc
          rfl
      · exact inNumeral_of_inDigits (digits.inDigits hc)

theorem inNumeral_of_radixDigit? {digit : Char → Bool} (h : radixDigit? c = some digit) :
    inNumeral c = true ∧ inDigits c = false ∧ ∀ d, digit d = true → inNumeral d = true := by
  have hoctal : ∀ d, isOctalDigit d = true → inNumeral d = true := fun d hd => by
    simp [inNumeral, inDigits, isDigit_of_isOctalDigit hd]
  have hbinary : ∀ d, isBinaryDigit d = true → inNumeral d = true := fun d hd => by
    rcases Bool.or_eq_true_iff.mp hd with hd | hd <;> rw [eq_of_beq hd] <;> rfl
  unfold radixDigit? at h
  split at h
  · cases h
    exact ⟨rfl, rfl, fun _ => inNumeral_of_isHexDigit⟩
  · cases h
    exact ⟨rfl, rfl, fun _ => inNumeral_of_isHexDigit⟩
  · cases h
    exact ⟨rfl, rfl, hoctal⟩
  · cases h
    exact ⟨rfl, rfl, hoctal⟩
  · cases h
    exact ⟨rfl, rfl, hbinary⟩
  · cases h
    exact ⟨rfl, rfl, hbinary⟩
  · cases h

/-- A part of a numeral without its point. -/
theorem ne_point_of_inNumeral (h : ∀ c ∈ n, inNumeral c = true) : '.' ∉ n :=
  fun hmem => nomatch h '.' hmem

/-- **A numeral is a part before a point, of digits, and a part after it**, or it has no point. -/
theorem IsNumeral.exists_point (h : IsNumeral n) : (∀ c ∈ n, inNumeral c = true) ∨
    ∃ cs ds, n = cs ++ '.' :: ds ∧ (∀ c ∈ cs, inDigits c = true) ∧
      ∀ c ∈ ds, inNumeral c = true := by
  cases h with
  | @decimal cs fraction exponent integer hf he =>
    have hinteger : ∀ c ∈ cs, inDigits c = true := fun c hc => integer.inDigits hc
    have hexponent : ∀ c ∈ exponent, inNumeral c = true := fun c hc => he.inNumeral hc
    cases hf with
    | none =>
      exact .inl (List.forall_mem_append.mpr
        ⟨fun c hc => inNumeral_of_inDigits (hinteger c hc), hexponent⟩)
    | point => exact .inr ⟨cs, exponent, rfl, hinteger, hexponent⟩
    | @digits ds digits =>
      refine .inr ⟨cs, ds ++ exponent, rfl, hinteger, List.forall_mem_append.mpr ⟨?_, hexponent⟩⟩
      exact fun c hc => inNumeral_of_inDigits (digits.inDigits hc)
  | @pointFirst cs exponent digits he =>
    refine .inr ⟨[], cs ++ exponent, rfl, by simp, List.forall_mem_append.mpr ⟨?_, ?_⟩⟩
    · exact fun c hc => inNumeral_of_inDigits (digits.inDigits hc)
    · exact fun c hc => he.inNumeral hc
  | radix hc digits =>
    obtain ⟨hletter, -, hdigit⟩ := inNumeral_of_radixDigit? hc
    refine .inl (List.forall_mem_cons.mpr ⟨rfl, List.forall_mem_cons.mpr ⟨hletter, ?_⟩⟩)
    intro d hd
    rcases digits.mem hd with hd | rfl
    · exact hdigit d hd
    · rfl
  | octal digits =>
    refine .inl (List.forall_mem_cons.mpr ⟨rfl, fun d hd => ?_⟩)
    simp [inNumeral, inDigits, isDigit_of_isOctalDigit (digits d hd)]

/-- The characters of numerals are these. -/
theorem IsNumeral.mem (h : IsNumeral n) (hc : c ∈ n) : inNumeral c = true ∨ c = '.' := by
  rcases h.exists_point with hall | ⟨cs, ds, rfl, hcs, hds⟩
  · exact .inl (hall c hc)
  · rcases List.mem_append.mp hc with hc | hc
    · exact .inl (inNumeral_of_inDigits (hcs c hc))
    · rcases List.mem_cons.mp hc with rfl | hc
      · exact .inr rfl
      · exact .inl (hds c hc)

/-- **Before the point of a numeral stand digits** and underscores. -/
theorem IsNumeral.before_point (h : IsNumeral (u ++ '.' :: v)) : ∀ c ∈ u, inDigits c = true := by
  have hmem : '.' ∈ u ++ '.' :: v := by simp
  rcases h.exists_point with hall | ⟨cs, ds, heq, hcs, hds⟩
  · exact absurd hmem (ne_point_of_inNumeral hall)
  · -- the two points are the same one
    have hcspoint : '.' ∉ cs := ne_point_of_inNumeral fun c hc => inNumeral_of_inDigits (hcs c hc)
    have hdspoint : '.' ∉ ds := ne_point_of_inNumeral hds
    rcases List.append_eq_append_iff.mp heq with ⟨as, rfl, hv⟩ | ⟨as, rfl, hds'⟩
    · exact fun c hc => hcs c (List.mem_append_left _ hc)
    · cases as with
      | nil => simpa using hcs
      | cons a as =>
        have hmem : '.' ∈ ds := by
          rw [List.cons_append, List.cons.injEq] at hds'
          rw [hds'.2]
          simp
        exact absurd hmem hdspoint

/-- Whether a numeral is an integer with underscores. -/
def isSeparated (n : List Char) : Bool := n.all inDigits && n.contains '_'

/-- **An integer with underscores takes a point that follows it.** -/
theorem IsNumeral.append_point (h : IsNumeral n) (hn : isSeparated n = true) :
    IsNumeral (n ++ ['.']) := by
  obtain ⟨hall, hunder⟩ := Bool.and_eq_true_iff.mp hn
  have hall : ∀ c ∈ n, inDigits c = true := List.all_eq_true.mp hall
  have hunder : '_' ∈ n := by simpa using hunder
  cases h with
  | @decimal cs fraction exponent integer hf he =>
    obtain rfl : exponent = [] := by
      cases he with
      | none => rfl
      | @some c sign ds hc =>
        have hletter := hall c (by simp)
        simp only [List.mem_cons, List.not_mem_nil, or_false] at hc
        rcases hc with rfl | rfl <;> cases hletter
    obtain rfl : fraction = [] := by
      cases hf with
      | none => rfl
      | point | digits => nomatch hall '.' (by simp)
    have hpoint := IsNumeral.decimal integer .point .none
    simpa using hpoint
  | pointFirst => nomatch hall '.' List.mem_cons_self
  | @radix c _ _ hc =>
    have hletter := hall c (by simp)
    rw [(inNumeral_of_radixDigit? hc).2.1] at hletter
    cases hletter
  | octal digits =>
    rcases List.mem_cons.mp hunder with h | h
    · cases h
    · nomatch digits '_' h

/-- A numeral begins with a digit, or with a point before one. -/
theorem IsNumeral.begins (h : IsNumeral n) : ∃ c cs, n = c :: cs ∧
    (c.isDigit = true ∨ c = '.' ∧ cs.head?.any Char.isDigit = true) := by
  cases h with
  | decimal integer =>
    cases integer with
    | zero => exact ⟨_, _, rfl, .inl rfl⟩
    | digits _ digits =>
      obtain ⟨c, cs, heq, hc⟩ := digits.exists_cons
      obtain ⟨rfl, rfl⟩ := List.cons.inj heq
      exact ⟨_, _, rfl, .inl hc⟩
    | zeroFirst => exact ⟨_, _, rfl, .inl rfl⟩
  | pointFirst digits =>
    obtain ⟨c, cs, rfl, hc⟩ := digits.exists_cons
    exact ⟨_, _, rfl, .inr ⟨rfl, by simpa using hc⟩⟩
  | radix | octal => exact ⟨_, _, rfl, .inl rfl⟩

end Characters

/-! ### Cutting a text with numerals of all kinds -/

/-- A text begins with no numeral. -/
def NoNumeral (cs : List Char) : Prop := ∀ n rest, cs = n ++ rest → ¬ IsNumeral n

/-- **A text is cut into tokens**, numerals of all kinds among them: a numeral is as long as it can
be, and neither a name nor a digit may follow it. -/
inductive Cuts (A : Alphabet) : List Char → List Token → Prop where
  | nil : Cuts A [] []
  | numeral {n cs all : List Char} {ts : List Token} (split : all = n ++ cs) (hn : IsNumeral n)
      (longest : ∀ m rest, all = m ++ rest → IsNumeral m → m.length ≤ n.length)
      (ends : ∀ c ∈ cs.head?, (A.starts c || c.isDigit) = false) (more : Cuts A cs ts) :
    Cuts A all (.numeral (String.ofList n) :: ts)
  | other {cs rest : List Char} {t : Option Token} {ts : List Token} (none : NoNumeral cs)
      (next : A.next? cs = some (t, rest)) (more : Cuts A rest ts) :
    Cuts A cs (t.toList ++ ts)

section Cuts

variable {A : Alphabet} {cs rest : List Char} {ts ts' : List Token} {c : Char}

theorem noNumeral_of_head (hc : c.isDigit = false) (hpoint : c ≠ '.') : NoNumeral (c :: rest) := by
  rintro n more heq hn
  obtain ⟨d, ds, rfl, hd⟩ := hn.begins
  obtain ⟨rfl, -⟩ := List.cons.inj heq
  rcases hd with hd | ⟨hd, -⟩
  · rw [hc] at hd
    cases hd
  · exact hpoint hd

theorem noNumeral_point (hc : rest.head?.any Char.isDigit = false) : NoNumeral ('.' :: rest) := by
  rintro n more heq hn
  obtain ⟨d, ds, rfl, hd⟩ := hn.begins
  rw [List.cons_append] at heq
  obtain ⟨rfl, rfl⟩ := List.cons.inj heq
  rcases hd with hd | ⟨-, hd⟩
  · cases hd
  · cases ds with
    | nil => cases hd
    | cons e ds =>
      rw [List.cons_append, List.head?_cons, Option.any_some] at hc
      rw [List.head?_cons, Option.any_some, hc] at hd
      cases hd

/-- A text is cut in one way. -/
theorem Cuts.unique (h : Cuts A cs ts) (h' : Cuts A cs ts') : ts = ts' := by
  induction h generalizing ts' with
  | nil =>
    cases h' with
    | nil => rfl
    | numeral split hn =>
      obtain ⟨c, cs, rfl, -⟩ := hn.begins
      cases split
    | other _ next => cases next
  | @numeral n cs all ts split hn longest _ _ ih =>
    cases h' with
    | nil =>
      obtain ⟨c, cs, rfl, -⟩ := hn.begins
      cases split
    | @numeral m ds _ ts' split' hm longest' _ more' =>
      have hlength : n.length = m.length :=
        Nat.le_antisymm (longest' n cs split hn) (longest m ds split' hm)
      obtain ⟨rfl, rfl⟩ := List.append_inj (split.symm.trans split') hlength
      rw [ih more']
    | other none => exact absurd hn (none n cs split)
  | other none next _ ih =>
    cases h' with
    | nil => cases next
    | numeral split hn => exact absurd hn (none _ _ split)
    | other _ next' more' =>
      rw [next] at next'
      obtain ⟨rfl, rfl⟩ := Prod.mk.inj (Option.some.inj next')
      rw [ih more']

end Cuts

end Typeshift.Expression
