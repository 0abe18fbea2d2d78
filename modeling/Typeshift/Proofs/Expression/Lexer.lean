import Mathlib.Data.List.Chain
import Typeshift.Proofs.Expression.Grammar
import Typeshift.Text.Blank

/-! # Tokens of a text

A text is cut into tokens from left to right, and every token is as long as it can be. Blanks and
comments stand between tokens. Numerals that are not all digits are none of the tokens, and neither
are strings.

* `Alphabet.lex`: the tokens of a text.
* `Item`: a token or a blank.
* `lex_items`: the tokens of a text that is put together of items, no two of which run together. -/

namespace Typeshift.Expression

/-! ### Cutting a text into tokens -/

/-- The characters beyond ASCII that names are made of. -/
structure Alphabet where
  /-- The letters, which may begin a name. -/
  letter : Char → Bool
  /-- The other characters of names. -/
  extender : Char → Bool

/-- The marks, and the beginnings of comments, the longest first. -/
def marks : List String :=
  [">>>=", "...", "===", "!==", "**=", "<<=", ">>=", ">>>", "&&=", "||=", "??=", "=>", "==", "!=",
    "<=", ">=", "&&", "||", "??", "?.", "++", "--", "+=", "-=", "*=", "/=", "%=", "&=", "|=", "^=",
    "<<", ">>", "**", "//", "/*", "\x7b", "\x7d", "(", ")", "[", "]", ";", ",", "<", ">", "+", "-",
    "*", "/", "%", "&", "|", "^", "!", "~", "?", ":", "=", "."]

/-- Whether a character may stand between tokens. -/
def isGap (c : Char) : Bool := Text.isBlank c && c != '\u0085' || c == '\ufeff'

/-- Whether a text begins with a mark. A point after `?` belongs to a digit that follows. -/
def startsWithMark (cs : List Char) (m : String) : Bool :=
  m.toList.isPrefixOf cs && !(m == "?." && (cs.drop 2).head?.any Char.isDigit)

/-- The longest mark that a text begins with. -/
def longestMark? (cs : List Char) : Option String := marks.find? (startsWithMark cs)

/-- A text after a comment that ends with the line. -/
def skipLine (cs : List Char) : List Char :=
  cs.dropWhile fun c => c != '\n' && c != '\r' && c != '\u2028' && c != '\u2029'

/-- A text after a comment that has an end of its own. -/
def skipBlock? : List Char → Option (List Char)
  | '*' :: '/' :: rest => some rest
  | _ :: rest => skipBlock? rest
  | [] => none

namespace Alphabet

variable (A : Alphabet)

/-- Whether a character may begin a name. -/
def starts (c : Char) : Bool := c.isAlpha || c == '$' || c == '_' || 128 ≤ c.toNat && A.letter c

/-- Whether a character may go on with a name. -/
def continues (c : Char) : Bool := A.starts c || c.isDigit || 128 ≤ c.toNat && A.extender c

/-- Whether a text is a name, or a word that is not. -/
def isName (s : String) : Bool := s.toList.head?.any A.starts && s.toList.all A.continues

/-- The first token of a text, if it begins with one, and the rest. -/
def next? : List Char → Option (Option Token × List Char)
  | [] => none
  | c :: cs =>
    if A.starts c then
      some (some (.word (String.ofList ((c :: cs).takeWhile A.continues))),
        (c :: cs).dropWhile A.continues)
    else if c.isDigit then
      let rest := (c :: cs).dropWhile Char.isDigit
      if rest.head?.any (fun d => A.starts d || d == '.') then none
      else some (some (.numeral (String.ofList ((c :: cs).takeWhile Char.isDigit))), rest)
    else if isGap c then some (none, cs)
    else if c == '.' && cs.head?.any Char.isDigit then none
    else
      match longestMark? (c :: cs) with
      | none => none
      | some m =>
        if m = "//" then some (none, skipLine cs)
        else if m = "/*" then (skipBlock? (cs.drop 1)).map (none, ·)
        else some (some (.mark m), (c :: cs).drop m.toList.length)

/-- The tokens of a text, found in so many steps. -/
def lexWithin : Nat → List Char → Option (List Token)
  | _, [] => some []
  | 0, _ :: _ => none
  | n + 1, cs => do
    let (token, rest) ← A.next? cs
    let tokens ← lexWithin n rest
    return token.toList ++ tokens

/-- **The tokens of a text.** -/
def lex (s : String) : Option (List Token) := A.lexWithin s.toList.length s.toList

end Alphabet

/-! ### Tokens that end -/

/-- The text of a token. -/
def Token.text : Token → String
  | .word s => s
  | .numeral s => s
  | .mark s => s

/-- Whether the text of a token is one of its kind. -/
def Token.isSpelled (A : Alphabet) : Token → Bool
  | .word s => A.isName s
  | .numeral s => !s.toList.isEmpty && s.toList.all Char.isDigit
  | .mark s => s ∈ marks && s != "//" && s != "/*" && s != "?."

/-- Whether a token ends before a character. -/
def Token.stops (A : Alphabet) (c : Char) : Token → Bool
  | .word _ => !A.continues c
  | .numeral _ => !(A.starts c || c.isDigit || c == '.')
  | .mark s =>
    marks.all (fun m => !(s.toList ++ [c]).isPrefixOf m.toList) && !(s == "." && c.isDigit)

/-- Every token ends before a blank. -/
theorem stops_blank {A : Alphabet} {c : Char} (hc : c = ' ' ∨ c = '\n') (t : Token) :
    t.stops A c = true := by
  have hmarks : marks.all (fun m => !(m.toList.contains ' ' || m.toList.contains '\n')) = true :=
    rfl
  cases t with
  | word s => rcases hc with rfl | rfl <;> rfl
  | numeral s => rcases hc with rfl | rfl <;> rfl
  | mark s =>
    refine Bool.and_eq_true_iff.mpr ⟨List.all_eq_true.mpr fun m hm => ?_, ?_⟩
    · have hblank := List.all_eq_true.mp hmarks m hm
      rw [Bool.not_eq_true', Bool.eq_false_iff]
      intro hextend
      -- the mark would hold the blank
      have hmem : c ∈ m.toList := (List.isPrefixOf_iff_prefix.mp hextend).subset (by simp)
      rcases hc with rfl | rfl <;> simp [hmem] at hblank
    · rcases hc with rfl | rfl <;> simp

section Next

variable {A : Alphabet} {c : Char} {rest : List Char}

theorem longestMark?_append {m : String} (hm : m ∈ marks) (hq : m ≠ "?.")
    (hc : marks.all (fun n => !(m.toList ++ [c]).isPrefixOf n.toList) = true) :
    longestMark? (m.toList ++ c :: rest) = some m := by
  have hsorted : marks.Pairwise fun a b => b.toList.length ≤ a.toList.length ∧ a ≠ b := by
    decide +kernel
  unfold longestMark?
  obtain ⟨before, after, hsplit⟩ := List.append_of_mem hm
  refine List.find?_eq_some_iff_append.mpr ⟨?_, before, after, hsplit, ?_⟩
  · simp [startsWithMark, hq, List.isPrefixOf_iff_prefix]
  · intro n hn
    rw [hsplit, List.pairwise_append] at hsorted
    obtain ⟨hlength, hne⟩ := hsorted.2.2 n hn m List.mem_cons_self
    rw [Bool.not_eq_true', Bool.eq_false_iff]
    intro hstarts
    unfold startsWithMark at hstarts
    have hpre : n.toList <+: m.toList ++ c :: rest :=
      List.isPrefixOf_iff_prefix.mp (Bool.and_eq_true_iff.mp hstarts).1
    -- `n` is at least as long as `m`, so it is `m` or goes on with `c`
    obtain ⟨ds, hds⟩ := List.prefix_of_prefix_length_le (List.prefix_append _ _) hpre hlength
    cases ds with
    | nil =>
      rw [List.append_nil] at hds
      exact hne (String.toList_inj.mp hds).symm
    | cons d ds =>
      obtain ⟨es, hes⟩ := hpre
      rw [← hds, List.append_assoc, List.append_right_inj, List.cons_append,
        List.cons_eq_cons] at hes
      have hn : n ∈ marks := hsplit ▸ List.mem_append_left _ hn
      have hextend : (m.toList ++ [c]).isPrefixOf n.toList = true := by
        rw [List.isPrefixOf_iff_prefix, ← hds, hes.1]
        exact ⟨ds, by simp⟩
      have hnot := List.all_eq_true.mp hc n hn
      rw [hextend] at hnot
      cases hnot

/-- The first character of a mark tells that it is one. -/
theorem mark_first {m : String} (hm : m ∈ marks) : ∃ d ds, m.toList = d :: ds ∧
    isGap d = false ∧ A.starts d = false ∧ d.isDigit = false := by
  have hfirst : ∀ m ∈ marks, m.toList.head?.any (fun d => !isGap d && !d.isAlpha && d != '$' &&
      d != '_' && d.toNat < 128 && !d.isDigit) = true := by decide
  have hd := hfirst m hm
  cases hs : m.toList with
  | nil => rw [hs] at hd; cases hd
  | cons d ds =>
    rw [hs] at hd
    simp only [List.head?_cons, Option.any_some, Bool.and_eq_true, Bool.not_eq_true', bne_iff_ne,
      decide_eq_true_eq] at hd
    obtain ⟨⟨⟨⟨⟨hgap, halpha⟩, hdollar⟩, hunder⟩, hascii⟩, hdigit⟩ := hd
    refine ⟨d, ds, rfl, hgap, ?_, hdigit⟩
    simp [Alphabet.starts, halpha, hdollar, hunder, Nat.not_le.mpr hascii]

theorem next?_mark {m : String} (hm : (Token.mark m).isSpelled A = true)
    (hc : (Token.mark m).stops A c = true) :
    A.next? (m.toList ++ c :: rest) = some (some (.mark m), c :: rest) := by
  simp only [Token.isSpelled, Bool.and_eq_true, decide_eq_true_eq, bne_iff_ne] at hm
  obtain ⟨⟨⟨hm, hline⟩, hblock⟩, hq⟩ := hm
  obtain ⟨hstop, hpoint⟩ := Bool.and_eq_true_iff.mp hc
  have hlongest : longestMark? (m.toList ++ c :: rest) = some m :=
    longestMark?_append hm hq hstop
  have hpointed : ∀ m ∈ marks, m.toList.head? = some '.' →
      m = "." ∨ m.toList.tail.head? = some '.' := by decide
  obtain ⟨d, ds, hs, hgap, hstart, hdigit⟩ := mark_first (A := A) hm
  have hfraction : (d == '.' && (ds ++ c :: rest).head?.any Char.isDigit) = false := by
    rw [Bool.and_eq_false_imp, beq_iff_eq]
    rintro rfl
    rcases hpointed m hm (by rw [hs]; rfl) with rfl | hds
    · obtain rfl : ds = [] := (List.cons_eq_cons.mp hs).2.symm
      simpa using hpoint
    · rw [hs, List.tail_cons] at hds
      obtain ⟨es, rfl⟩ : ∃ es, ds = '.' :: es := by
        cases ds with
        | nil => cases hds
        | cons e es => exact ⟨es, by rw [Option.some.inj hds]⟩
      rfl
  have hdrop : (m.toList ++ c :: rest).drop m.toList.length = c :: rest := List.drop_left
  rw [hs, List.cons_append] at hlongest hdrop ⊢
  rw [Alphabet.next?, if_neg (by simp [hstart]), if_neg (by simp [hdigit]), if_neg (by simp [hgap]),
    if_neg (Bool.eq_false_iff.mp hfraction), hlongest]
  dsimp only
  rw [if_neg hline, if_neg hblock, hs, hdrop]

theorem starts_of_isDigit (h : c.isDigit = true) : A.starts c = false := by
  simp only [Char.isDigit, Bool.and_eq_true, decide_eq_true_eq, UInt32.le_iff_toNat_le] at h
  have hlow : 48 ≤ c.val.toNat := h.1
  have hhigh : c.val.toNat ≤ 57 := h.2
  have halpha : c.isAlpha = false := by
    delta Char.isAlpha Char.isUpper Char.isLower
    simp only [Bool.or_eq_false_iff, Bool.and_eq_false_iff, decide_eq_false_iff_not,
      UInt32.le_iff_toNat_le, ge_iff_le]
    have hA : 'A'.val.toNat = 65 := rfl
    have ha : 'a'.val.toNat = 97 := rfl
    omega
  have hdollar : (c == '$') = false := by
    rw [beq_eq_false_iff_ne]
    rintro rfl
    exact absurd hlow (by decide)
  have hunder : (c == '_') = false := by
    rw [beq_eq_false_iff_ne]
    rintro rfl
    exact absurd hhigh (by decide)
  have hascii : decide (128 ≤ c.toNat) = false := by
    have : c.toNat = c.val.toNat := rfl
    rw [decide_eq_false_iff_not]
    omega
  simp [Alphabet.starts, halpha, hdollar, hunder, hascii]

theorem next?_word {s : String} (hs : (Token.word s).isSpelled A = true)
    (hc : (Token.word s).stops A c = true) :
    A.next? (s.toList ++ c :: rest) = some (some (.word s), c :: rest) := by
  obtain ⟨hfirst, hall⟩ := Bool.and_eq_true_iff.mp hs
  have hc : A.continues c = false := by simpa [Token.stops] using hc
  have hall : ∀ d ∈ s.toList, A.continues d = true := List.all_eq_true.mp hall
  have htake : (s.toList ++ c :: rest).takeWhile A.continues = s.toList := by
    rw [List.takeWhile_append_of_pos hall, List.takeWhile_cons_of_neg (by simp [hc]),
      List.append_nil]
  have hdrop : (s.toList ++ c :: rest).dropWhile A.continues = c :: rest := by
    rw [List.dropWhile_append_of_pos hall, List.dropWhile_cons_of_neg (by simp [hc])]
  cases hd : s.toList with
  | nil => rw [hd] at hfirst; cases hfirst
  | cons d ds =>
    rw [hd] at hfirst htake hdrop
    have hstart : A.starts d = true := hfirst
    rw [List.cons_append] at htake hdrop ⊢
    rw [Alphabet.next?, if_pos hstart, htake, hdrop, ← hd, String.ofList_toList]

theorem next?_numeral {s : String} (hs : (Token.numeral s).isSpelled A = true)
    (hc : (Token.numeral s).stops A c = true) :
    A.next? (s.toList ++ c :: rest) = some (some (.numeral s), c :: rest) := by
  obtain ⟨hne, hall⟩ := Bool.and_eq_true_iff.mp hs
  have hall : ∀ d ∈ s.toList, d.isDigit = true := List.all_eq_true.mp hall
  simp only [Token.stops, Bool.not_eq_true', Bool.or_eq_false_iff] at hc
  have htake : (s.toList ++ c :: rest).takeWhile Char.isDigit = s.toList := by
    rw [List.takeWhile_append_of_pos hall, List.takeWhile_cons_of_neg (by simp [hc.1.2]),
      List.append_nil]
  have hdrop : (s.toList ++ c :: rest).dropWhile Char.isDigit = c :: rest := by
    rw [List.dropWhile_append_of_pos hall, List.dropWhile_cons_of_neg (by simp [hc.1.2])]
  cases hd : s.toList with
  | nil => rw [hd] at hne; cases hne
  | cons d ds =>
    rw [hd] at hall htake hdrop
    have hdigit : d.isDigit = true := hall d List.mem_cons_self
    have hstart := starts_of_isDigit (A := A) hdigit
    rw [List.cons_append] at htake hdrop ⊢
    rw [Alphabet.next?, if_neg (by simp [hstart]), if_pos hdigit, htake, hdrop,
      if_neg (by simp [hc]), ← hd, String.ofList_toList]

/-- **A token is found** if it ends before what follows. -/
theorem next?_token {t : Token} (ht : t.isSpelled A = true) (hc : t.stops A c = true) :
    A.next? (t.text.toList ++ c :: rest) = some (some t, c :: rest) := by
  cases t with
  | word s => exact next?_word ht hc
  | numeral s => exact next?_numeral ht hc
  | mark s => exact next?_mark ht hc

end Next

/-! ### Texts made of items -/

/-- A token, or a blank between tokens. -/
inductive Item where
  | token (t : Token)
  | gap (c : Char)

namespace Item

/-- The characters of an item. -/
def chars : Item → List Char
  | .token t => t.text.toList
  | .gap c => [c]

/-- The token of an item. -/
def token? : Item → Option Token
  | .token t => some t
  | .gap _ => none

/-- Whether an item is what it says. -/
def IsSpelled (A : Alphabet) : Item → Prop
  | .token t => t.isSpelled A = true
  | .gap c => c = ' '

/-- An item does not run together with the next. -/
def Apart (A : Alphabet) : Item → Item → Prop
  | .token t, next => ∀ c ∈ next.chars.head?, t.stops A c = true
  | .gap _, _ => True

end Item

/-- The text of items. -/
def spell (items : List Item) : List Char := items.flatMap Item.chars

/-- The tokens among items. -/
def tokensOf (items : List Item) : List Token := items.filterMap Item.token?

section Items

variable {A : Alphabet}

theorem Item.exists_chars {i : Item} (h : i.IsSpelled A) : ∃ c cs, i.chars = c :: cs := by
  suffices hne : i.chars ≠ [] by
    cases hi : i.chars with
    | nil => exact absurd hi hne
    | cons c cs => exact ⟨c, cs, rfl⟩
  intro hnil
  cases i with
  | gap c => cases hnil
  | token t =>
    change t.isSpelled A = true at h
    change t.text.toList = [] at hnil
    cases t with
    | word s =>
      change s.toList = [] at hnil
      simp [Token.isSpelled, Alphabet.isName, hnil] at h
    | numeral s =>
      change s.toList = [] at hnil
      simp [Token.isSpelled, hnil] at h
    | mark s =>
      simp only [Token.isSpelled, Bool.and_eq_true, decide_eq_true_eq] at h
      obtain ⟨d, ds, hs, -⟩ := mark_first (A := A) h.1.1.1
      exact absurd (hs.symm.trans hnil) (List.cons_ne_nil d ds)

theorem next?_gap {c : Char} (hc : c = ' ' ∨ c = '\n') (rest : List Char) :
    A.next? (c :: rest) = some (none, rest) := by
  rcases hc with rfl | rfl <;> rfl

theorem lexWithin_cons {n : Nat} {cs rest : List Char} {t : Option Token} {ts : List Token}
    (hne : cs ≠ []) (hnext : A.next? cs = some (t, rest)) (hrest : A.lexWithin n rest = some ts) :
    A.lexWithin (n + 1) cs = some (t.toList ++ ts) := by
  cases cs with
  | nil => exact absurd rfl hne
  | cons c cs => simp [Alphabet.lexWithin, hnext, hrest]

/-- **An item is found** if it ends before what follows. -/
theorem next?_item {i : Item} {c : Char} (hi : i.IsSpelled A) (hc : Item.Apart A i (.gap c))
    (rest : List Char) : A.next? (i.chars ++ c :: rest) = some (i.token?, c :: rest) := by
  cases i with
  | gap c' => exact next?_gap (.inl hi) _
  | token t => exact next?_token hi (hc c rfl)

/-- The text of the items after an item begins with a character before which the item ends. -/
theorem exists_spell_cons {i : Item} {items : List Item} {c : Char}
    (hs : ∀ j ∈ items, j.IsSpelled A) (ha : (i :: (items ++ [Item.gap c])).IsChain (Item.Apart A)) :
    ∃ d ds, spell (items ++ [Item.gap c]) = d :: ds ∧ Item.Apart A i (.gap d) := by
  cases items with
  | nil => exact ⟨c, [], rfl, ha.rel⟩
  | cons j items =>
    obtain ⟨d, ds, hj⟩ := Item.exists_chars (hs j List.mem_cons_self)
    refine ⟨d, ds ++ spell (items ++ [Item.gap c]), ?_, ?_⟩
    · show j.chars ++ _ = _
      rw [hj, List.cons_append]
      rfl
    · cases i with
      | gap c' => trivial
      | token t =>
        rintro _ ⟨⟩
        exact ha.rel d (by rw [hj]; rfl)

theorem lexWithin_items {items : List Item} {c : Char} (hc : c = ' ' ∨ c = '\n')
    (hs : ∀ i ∈ items, i.IsSpelled A) (ha : (items ++ [Item.gap c]).IsChain (Item.Apart A))
    {n : Nat}
    (hn : (spell (items ++ [Item.gap c])).length ≤ n) :
    A.lexWithin n (spell (items ++ [Item.gap c])) = some (tokensOf items) := by
  induction items generalizing n with
  | nil =>
    obtain ⟨m, rfl⟩ : ∃ m, n = m + 1 := ⟨n - 1, by simp [spell, Item.chars] at hn; omega⟩
    exact lexWithin_cons (List.cons_ne_nil c []) (next?_gap hc []) (by rw [Alphabet.lexWithin])
  | cons i items ih =>
    have hspell : spell (i :: items ++ [Item.gap c]) = i.chars ++ spell (items ++ [Item.gap c]) :=
      rfl
    have hi : i.IsSpelled A := hs i List.mem_cons_self
    have hitems : ∀ j ∈ items, j.IsSpelled A := fun j hj => hs j (List.mem_cons_of_mem i hj)
    obtain ⟨d, ds, hchars⟩ := Item.exists_chars hi
    rw [hspell] at hn ⊢
    rw [hchars, List.cons_append, List.length_cons, List.length_append] at hn
    obtain ⟨m, rfl⟩ : ∃ m, n = m + 1 := ⟨n - 1, by omega⟩
    have hrest : A.lexWithin m (spell (items ++ [Item.gap c])) = some (tokensOf items) :=
      ih hitems ha.of_cons (by omega)
    have hne : i.chars ++ spell (items ++ [Item.gap c]) ≠ [] := by simp [hchars]
    obtain ⟨e, es, he, hapart⟩ := exists_spell_cons hitems ha
    have hnext : A.next? (i.chars ++ spell (items ++ [Item.gap c])) =
        some (i.token?, spell (items ++ [Item.gap c])) := by
      rw [he]
      exact next?_item hi hapart es
    have htokens : tokensOf (i :: items) = i.token?.toList ++ tokensOf items := by
      cases i <;> rfl
    rw [htokens]
    exact lexWithin_cons hne hnext hrest

/-- **The tokens of a text made of items** are the tokens among them, if no two run together. -/
theorem lex_items {items : List Item} {c : Char} (hc : c = ' ' ∨ c = '\n')
    (hs : ∀ i ∈ items, i.IsSpelled A) (ha : (items ++ [Item.gap c]).IsChain (Item.Apart A))
    {s : String} (h : s.toList = spell (items ++ [Item.gap c])) :
    A.lex s = some (tokensOf items) := by
  unfold Alphabet.lex
  rw [h]
  exact lexWithin_items hc hs ha (Nat.le_refl _)

end Items

end Typeshift.Expression
