import Typeshift.Proofs.Expression.Numeral
import Typeshift.Proofs.Expression.RoundTrip
import Typeshift.Tree.Target

/-! # Members of numerals

`1.p` is no access to a member: the point belongs to the numeral. The printer puts a numeral of
digits in parentheses before a point. It looks for digits only, so an integer with underscores has
none, and takes the point.

* `IsAccess`: a tree is a member of a numeral.
* `cuts_access_iff`: when the text is cut into the numeral, a point and the name. -/

namespace Typeshift.Print

open Script Expression

/-- **A member of a numeral** that has source text. -/
inductive IsAccess (A : Alphabet) : Node → String → String → Prop where
  | mk {t u v : Node} {raw x : String} (built : Built t .memberExpression [u, v])
      (plain : t.head.flag .isComputed = false) (hu : t.slots.child? .object = some u)
      (hv : t.slots.child? .property = some v) (object : Built u .numericLiteral [])
      (hraw : u.head.raw? = some raw) (numeral : IsNumeral raw.toList) (name : IsName A v x) :
    IsAccess A t raw x

/-- The tokens that a member of a numeral stands for, in parentheses or without. -/
def accessTokens (raw x : String) : List (List Token) :=
  [[.numeral raw, .mark ".", .word x], [.mark "(", .numeral raw, .mark ")", .mark ".", .word x]]

section Text

variable {A : Alphabet} {o : Options} {t : Node} {raw x : String} {cs : List Char}

/-- An expression without comments in its place. -/
theorem writes_printed (hf : t.head.family = .expression) (hc : t.head.comments = .none)
    (h : Writes (body o t) cs) (least : Precedence) (forced : Bool) :
    Writes (printed o t (.expression least forced))
      (if forced || (Precedence.ofHead t.head).looser least then '(' :: cs ++ [')'] else cs) := by
  have hinner (b : Bool) : Writes (when b (comments (.inside true) []) ++ body o t) cs :=
    (writes_when_comments b).append h
  have hparen (b b' : Bool) :
      Writes (parenIf b (when b' (comments (.inside true) []) ++ body o t))
        (if b then '(' :: cs ++ [')'] else cs) := by
    cases b with
    | false => exact hinner b'
    | true => exact ((writes_text "(").append (hinner b')).append (writes_text ")")
  have hall (b b' : Bool) := ((writes_comments_nil .before).append (hparen b b')).append
    (writes_comments_nil .after)
  simp only [List.nil_append, List.append_nil] at hall
  rw [printed_expression hf hc, expressionFrame, inlineFrame_none]
  exact hall _ _

theorem writes_text_numeral {u : Node} (h : Built u .numericLiteral [])
    (hraw : u.head.raw? = some raw) : Writes (body o u) raw.toList := by
  have hbody : body o u = text raw := by
    rw [body, expressionText, h.tag]
    dsimp only
    rw [numeralText, hraw]
    rfl
  rw [hbody]
  exact writes_text raw

/-- The text of a member of a numeral. -/
theorem IsAccess.printText_eq (h : IsAccess A t raw x) (o : Options) :
    ∃ text, printText o t = .ok text ∧ text.toList =
      (if isDigits raw then '(' :: raw.toList ++ [')'] else raw.toList) ++
        '.' :: (x.toList ++ ['\n']) := by
  obtain ⟨built, plain, hu, hv, object, hraw, numeral, name⟩ := h
  rename_i u v
  have hbare : isBareInteger u.head = isDigits raw := by
    rw [isBareInteger, Head.is, object.tag, numeralText, hraw]
    simp
  have hprec : Precedence.ofHead u.head = .primary := by rw [Precedence.ofHead, object.tag]
  have hbody : body o t =
      printed o u (.expression .leftHandSide (isBareInteger u.head))
        ++ (text "." ++ printed o v (.expression .primary false)) := by
    rw [body, expressionText, built.tag]
    dsimp only
    rw [Slots.child_annotateSlots _ hu, Slots.child_annotateSlots _ hv, plain, Tree.head_annotate]
    rfl
  have hobject := writes_printed (o := o) (object.family.trans rfl) object.comments
    (writes_text_numeral object hraw) .leftHandSide (isBareInteger u.head)
  rw [hbare, hprec, show Precedence.primary.looser .leftHandSide = false from rfl,
    Bool.or_false] at hobject
  have hname : Writes (printed o v (.expression .primary false)) x.toList := by
    simpa [spell, Item.chars, Token.text] using (name.strip (o := o)).writes
  have hwrites := hobject.append ((writes_text ".").append hname)
  rw [← hbare, ← hbody] at hwrites
  have hplace := writes_printed (built.family.trans rfl) built.comments hwrites .comma false
  have hmember : Precedence.ofHead t.head = .member := by rw [Precedence.ofHead, built.tag]
  rw [hmember, show (false || Precedence.member.looser .comma) = false from rfl,
    if_neg Bool.false_ne_true, ← script_eq (built.family.trans rfl) built.comments] at hplace
  have hne : x.toList ≠ [] := by
    intro hnil
    have hspelled := name.spelled
    rw [Alphabet.isName, hnil] at hspelled
    cases hspelled
  have herror : t.printError? = none :=
    built.printError?_eq_none (by
      simpa using ⟨object.printError?_eq_none (by simp), name.printError?_eq_none⟩)
  refine ⟨(Script.run (Printer.new o).sheet (script o t)).page.finish, ?_, ?_⟩
  · unfold printText Printer.print
    rw [herror]
    rfl
  · rw [finish_writes hplace (by simp), hbare]
    simp

end Text

section Cut

variable {A : Alphabet} {raw x : String} {cs : List Char}

theorem head_of_isName (hx : A.isName x = true) : ∃ c cs, x.toList = c :: cs ∧ c ≠ '.' ∧
    c.isDigit = false := by
  obtain ⟨c, hc, hstart⟩ := (Option.any_eq_true _ _).mp (Bool.and_eq_true_iff.mp hx).1
  cases hcs : x.toList with
  | nil =>
    rw [hcs] at hc
    cases hc
  | cons d cs =>
    rw [hcs] at hc
    obtain rfl := Option.some.inj hc
    refine ⟨d, cs, rfl, ?_, ?_⟩
    · rintro rfl
      cases hstart
    · cases hd : d.isDigit with
      | false => rfl
      | true =>
        rw [starts_of_isDigit hd] at hstart
        cases hstart

/-- A point and a name. -/
theorem cuts_point_name (hx : A.isName x = true) :
    Cuts A ('.' :: (x.toList ++ ['\n'])) [.mark ".", .word x] := by
  obtain ⟨c, cs, hcs, hpoint, hdigit⟩ := head_of_isName hx
  have hline : Cuts A ['\n'] [] :=
    .other (t := none) (noNumeral_of_head (by decide) (by decide)) (next?_gap (.inr rfl) [])
      .nil
  have hname : Cuts A (x.toList ++ ['\n']) [.word x] := by
    refine .other (t := some (.word x)) ?_
      (next?_word (s := x) hx (stops_blank (.inr rfl) _)) hline
    rw [hcs]
    exact noNumeral_of_head hdigit hpoint
  refine .other (t := some (.mark ".")) (noNumeral_point ?_) ?_ hname
  · rw [hcs]
    exact hdigit
  · rw [hcs]
    exact next?_mark (m := ".") (c := c) rfl
      (by simp [Token.stops, marks, List.isPrefixOf, hpoint, hdigit])

/-- Before a character that is in no numeral a numeral has its end. -/
theorem cuts_numeral (hn : IsNumeral raw.toList) {c : Char} {ts : List Token}
    (hlongest : ∀ m rest, raw.toList ++ c :: cs = m ++ rest → IsNumeral m →
      m.length ≤ raw.toList.length)
    (hc : c = '.' ∨ c = ')') (more : Cuts A (c :: cs) ts) :
    Cuts A (raw.toList ++ c :: cs) (.numeral raw :: ts) := by
  have hcuts := Cuts.numeral rfl hn hlongest (by
    rintro _ ⟨⟩
    rcases hc with rfl | rfl <;> rfl) more
  rwa [String.ofList_toList] at hcuts

/-- A longer beginning of a text goes on with the next character. -/
theorem exists_longer {n m rest : List Char} {c : Char} (heq : n ++ c :: cs = m ++ rest)
    (hlength : n.length < m.length) : ∃ ds, m = n ++ c :: ds := by
  rcases List.append_eq_append_iff.mp heq with ⟨as, rfl, has⟩ | ⟨as, rfl, -⟩
  · cases as with
    | nil => simp at hlength
    | cons a as =>
      obtain ⟨rfl, -⟩ := List.cons.inj has
      exact ⟨as, rfl⟩
  · rw [List.length_append] at hlength
    omega

/-- A numeral in parentheses. -/
theorem cuts_inParens (hn : IsNumeral raw.toList) (hx : A.isName x = true) :
    Cuts A ('(' :: raw.toList ++ [')'] ++ '.' :: (x.toList ++ ['\n']))
      [.mark "(", .numeral raw, .mark ")", .mark ".", .word x] := by
  have hclose : Cuts A (')' :: '.' :: (x.toList ++ ['\n'])) [.mark ")", .mark ".", .word x] :=
    .other (t := some (.mark ")")) (noNumeral_of_head (by decide) (by decide))
      (next?_mark (m := ")") (c := '.') rfl rfl) (cuts_point_name hx)
  have hnumeral : Cuts A (raw.toList ++ ')' :: '.' :: (x.toList ++ ['\n']))
      [.numeral raw, .mark ")", .mark ".", .word x] := by
    refine cuts_numeral hn ?_ (.inr rfl) hclose
    intro m rest heq hm
    by_contra hlength
    obtain ⟨ds, rfl⟩ := exists_longer heq (Nat.lt_of_not_le hlength)
    rcases hm.mem (c := ')') (by simp) with h | h <;> cases h
  have hopen : Cuts A ('(' :: (raw.toList ++ ')' :: '.' :: (x.toList ++ ['\n'])))
      [.mark "(", .numeral raw, .mark ")", .mark ".", .word x] := by
    refine .other (t := some (.mark "(")) (noNumeral_of_head (by decide) (by decide)) ?_ hnumeral
    obtain ⟨c, cs, hcs, -⟩ := hn.begins
    rw [hcs]
    exact next?_mark (m := "(") (c := c) rfl rfl
  simpa using hopen

/-- A numeral that takes no point. -/
theorem cuts_bare (hn : IsNumeral raw.toList) (hx : A.isName x = true)
    (hpoint : ∃ c ∈ raw.toList, inDigits c = false) :
    Cuts A (raw.toList ++ '.' :: (x.toList ++ ['\n'])) [.numeral raw, .mark ".", .word x] := by
  refine cuts_numeral hn ?_ (.inl rfl) (cuts_point_name hx)
  intro m rest heq hm
  by_contra hlength
  obtain ⟨ds, rfl⟩ := exists_longer heq (Nat.lt_of_not_le hlength)
  obtain ⟨c, hc, hdigits⟩ := hpoint
  rw [hm.before_point c hc] at hdigits
  cases hdigits

/-- **A numeral that takes the point** is no token of the text. -/
theorem not_cuts_of_isSeparated (hn : IsNumeral raw.toList) (hs : isSeparated raw.toList = true)
    {ts : List Token} (hts : ts ∈ accessTokens raw x) : ¬ Cuts A (raw.toList ++ '.' :: cs) ts := by
  generalize hall : raw.toList ++ '.' :: cs = text
  intro hcuts
  cases hcuts with
  | nil => simp at hall
  | @numeral n _ _ _ _ _ hlongest =>
    simp only [accessTokens, List.mem_cons, List.cons.injEq, Token.numeral.injEq, reduceCtorEq,
      false_and, List.not_mem_nil, or_false] at hts
    have hlength := hlongest (raw.toList ++ ['.']) cs (by simp [← hall]) (hn.append_point hs)
    rw [← hts.1, String.toList_ofList, List.length_append, List.length_singleton] at hlength
    omega
  | other none => exact none raw.toList ('.' :: cs) hall.symm hn

end Cut

/-- **When a member of a numeral is read as one**: if the numeral is no integer with underscores,
the text is cut into the numeral, in parentheses or without, a point and the name; otherwise it is
not. -/
theorem cuts_access_iff {A : Alphabet} {t : Node} {raw x : String} (h : IsAccess A t raw x)
    (o : Options) : ∃ text, printText o t = .ok text ∧
      ((∃ ts ∈ accessTokens raw x, Cuts A text.toList ts ∧
        ∀ ts', Cuts A text.toList ts' → ts' = ts) ↔ isSeparated raw.toList = false) := by
  obtain ⟨text, hprint, htext⟩ := h.printText_eq o
  obtain ⟨-, -, -, -, -, -, hn, hname⟩ := h
  refine ⟨text, hprint, ?_⟩
  rw [htext]
  constructor
  · rintro ⟨ts, hts, hcuts, -⟩
    by_contra hs
    rw [Bool.not_eq_false] at hs
    have hdigits : isDigits raw = false := by
      obtain ⟨-, hunder⟩ := Bool.and_eq_true_iff.mp hs
      rw [isDigits, Bool.and_eq_false_iff, List.all_eq_false]
      exact .inr ⟨'_', by simpa using hunder, by decide⟩
    rw [hdigits, if_neg Bool.false_ne_true] at hcuts
    exact not_cuts_of_isSeparated hn hs hts hcuts
  · intro hs
    cases hdigits : isDigits raw with
    | true =>
      have hcuts := cuts_inParens hn hname.spelled
      exact ⟨_, List.mem_cons_of_mem _ List.mem_cons_self, hcuts, fun ts' h' => h'.unique hcuts⟩
    | false =>
      have hpoint : ∃ c ∈ raw.toList, inDigits c = false := by
        by_contra hall
        simp only [not_exists, not_and, Bool.not_eq_false] at hall
        rw [isSeparated, List.all_eq_true.mpr hall, Bool.true_and] at hs
        obtain ⟨c, cs, hcs, -⟩ := hn.begins
        rw [isDigits, Bool.and_eq_false_iff] at hdigits
        rcases hdigits with hempty | hdigits
        · have hraw : raw = "" := by simpa using hempty
          rw [hraw] at hcs
          cases hcs
        · obtain ⟨d, hd, hnot⟩ := List.all_eq_false.mp hdigits
          have hunder : d = '_' := by
            have := hall d hd
            simpa [inDigits, hnot] using this
          rw [hunder] at hd
          simp [hd] at hs
      have hcuts := cuts_bare hn hname.spelled hpoint
      exact ⟨_, List.mem_cons_self, hcuts, fun ts' h' => h'.unique hcuts⟩

/-- `raw.x`. -/
def accessOf (raw x : String) : Node :=
  Target.member (.of .numericLiteral [(.extra, .extra (some ⟨some raw⟩))] []) (Target.ident x) false

theorem isAccess_accessOf {A : Alphabet} {raw x : String} (hraw : IsNumeral raw.toList)
    (hx : A.isName x = true) : IsAccess A (accessOf raw x) raw x :=
  .mk ⟨rfl, rfl, List.Subset.refl _⟩ rfl rfl rfl ⟨rfl, rfl, List.Subset.refl _⟩ rfl hraw
    ⟨⟨rfl, rfl, List.Subset.refl _⟩, rfl, hx, rfl⟩

theorem isNumeral_separatedFraction : IsNumeral "1_0.5e-3".toList := by
  have hinteger : IsInteger "1_0".toList := .digits (by decide) (.separated rfl (.one rfl))
  have hfraction : IsFraction ".5".toList := .digits (.one rfl)
  have hexponent : IsExponent ('e' :: (['-'] ++ ['3'])) := .some (by decide) (by decide) (.one rfl)
  exact .decimal hinteger hfraction hexponent

theorem cuts_access_iff_separatedFraction :
    IsAccess asciiNames (accessOf "1_0.5e-3" "a") "1_0.5e-3" "a" ∧
      isSeparated "1_0.5e-3".toList = false ∧
      ∃ text, printText .standard (accessOf "1_0.5e-3" "a") = .ok text ∧
        ((∃ ts ∈ accessTokens "1_0.5e-3" "a", Cuts asciiNames text.toList ts ∧
          ∀ ts', Cuts asciiNames text.toList ts' → ts' = ts) ↔
          isSeparated "1_0.5e-3".toList = false) :=
  ⟨isAccess_accessOf isNumeral_separatedFraction rfl, rfl,
    cuts_access_iff (isAccess_accessOf isNumeral_separatedFraction rfl) .standard⟩

example : printText .standard (accessOf "1_0.5e-3" "a") = .ok "1_0.5e-3.a\n" := by rfl

theorem isNumeral_separatedInteger : IsNumeral "1_000".toList := by
  have hinteger : IsInteger "1_000".toList :=
    .digits (by decide) (.separated rfl (.next rfl (.next rfl (.one rfl))))
  exact .decimal hinteger .none .none

/-- `1_000.a` is not read as a member of `1_000`. -/
theorem not_cuts_separatedInteger :
    ¬ ∀ (A : Alphabet) (t : Node) (raw x : String), IsAccess A t raw x → ∀ (o : Options) text,
      printText o t = .ok text → ∃ ts ∈ accessTokens raw x, Cuts A text.toList ts := by
  intro h
  obtain ⟨ts, hts, hcuts⟩ := h asciiNames (accessOf "1_000" "a") "1_000" "a"
    (isAccess_accessOf isNumeral_separatedInteger rfl) .standard "1_000.a\n" (by rfl)
  have hcuts : Cuts asciiNames ("1_000".toList ++ '.' :: "a\n".toList) ts := hcuts
  exact not_cuts_of_isSeparated isNumeral_separatedInteger rfl hts hcuts

end Typeshift.Print
