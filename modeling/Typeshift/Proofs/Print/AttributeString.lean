import Typeshift.Proofs.Expression.Places
import Typeshift.Proofs.StringLiteral

/-! # Strings as values of markup attributes

The string of a markup attribute stands between two equal quotes and holds none of them. A backslash
stands for itself in it; what does not stand for itself is a *character reference*: an ampersand, a
name or a number, and a semicolon. Which names there are is left open.

* `decode?`: the characters that a text between the quotes stands for.
* `Writes`: a text is one string with a value.
* `decode?_eq_self_iff`: a text stands for itself exactly if no reference begins in it.
* `writes_attributeText_iff`: when the text of the printer is a string with the value that it was
  made from.
* `run_attribute_iff`: so it is for the value of an attribute, wherever the page stands. -/

namespace Typeshift.AttributeString

open Print Script
open StringLiteral (IsQuote hexValue? chars? chars?_toNat)
open Expression (printed)

/-! ### How a string is read -/

/-- The number that decimal digits stand for. -/
def decimalValue? (cs : List Char) : Option Nat :=
  if cs.isEmpty || !cs.all Char.isDigit then none
  else some (cs.foldl (fun n c => n * 10 + (c.toNat - '0'.toNat)) 0)

/-- The characters that have names. -/
abbrev Named := List Char → Option Char

/-- The code of a reference, from what stands between its ampersand and its semicolon. -/
def code? (names : Named) : List Char → Option Nat
  | '#' :: 'x' :: cs => hexValue? cs
  | '#' :: cs => decimalValue? cs
  | cs => (names cs).map Char.toNat

/-- The reference that an ampersand begins: its code, and what follows it. -/
def reference? (names : Named) (cs : List Char) : Option (Nat × List Char) :=
  match cs.dropWhile (· != ';') with
  | [] => none
  | _ :: rest => (code? names (cs.takeWhile (· != ';'))).map (·, rest)

/-- The codes that a text stands for, found in so many steps. -/
def codesWithin (names : Named) : Nat → List Char → List Nat
  | _, [] => []
  | 0, _ :: _ => []
  | n + 1, c :: cs =>
    match if c = '&' then reference? names cs else none with
    | some (code, rest) => code :: codesWithin names n rest
    | none => c.toNat :: codesWithin names n cs

/-- The codes that a text stands for. -/
def codes (names : Named) (cs : List Char) : List Nat := codesWithin names cs.length cs

/-- **The characters that a text between the quotes stands for.** There are none if a reference has
a code that is none, or if half of a pair of surrogates stands alone. -/
def decode? (names : Named) (cs : List Char) : Option (List Char) :=
  if (codes names cs).all (· ≤ 0x10FFFF) then chars? (codes names cs) else none

/-- **A text is one string with a value**: a quote at each end and none of it between them, and what
stands between them is read as the value. -/
def Writes (names : Named) (text value : List Char) : Prop :=
  ∃ mark body, IsQuote mark ∧ text = mark :: (body ++ [mark]) ∧ mark ∉ body ∧
    decode? names body = some value

/-- No reference begins in a text. -/
def Plain (names : Named) (cs : List Char) : Prop :=
  ∀ before rest, cs = before ++ '&' :: rest → reference? names rest = none

/-- Both quotes occur in a text. -/
def HasBothQuotes (cs : List Char) : Prop := '"' ∈ cs ∧ '\x27' ∈ cs

instance (cs : List Char) : Decidable (HasBothQuotes cs) := by unfold HasBothQuotes; infer_instance

/-! ### What a text stands for -/

section Decode

variable {names : Named} {c : Char} {cs : List Char}

/-- A reference ends after it began. -/
theorem length_of_reference? {code : Nat} {rest : List Char}
    (h : reference? names cs = some (code, rest)) : rest.length < cs.length := by
  unfold reference? at h
  have hdrop := (List.dropWhile_suffix (· != ';') (l := cs)).length_le
  split at h
  · cases h
  · next semicolon rest' heq =>
    obtain ⟨_, -, heq'⟩ := Option.map_eq_some_iff.mp h
    cases heq'
    rw [heq, List.length_cons] at hdrop
    exact hdrop

theorem Plain.of_cons (h : Plain names (c :: cs)) : Plain names cs := by
  rintro before rest rfl
  exact h (c :: before) rest rfl

theorem plain_cons_iff : Plain names (c :: cs) ↔
    (if c = '&' then reference? names cs else none) = none ∧ Plain names cs := by
  refine ⟨fun h => ⟨?_, h.of_cons⟩, ?_⟩
  · split_ifs with hc
    · exact h [] cs (by rw [hc]; rfl)
    · rfl
  · rintro ⟨hhead, htail⟩ before rest heq
    cases before with
    | nil =>
      obtain ⟨rfl, rfl⟩ := List.cons_eq_cons.mp heq
      rwa [if_pos rfl] at hhead
    | cons b before =>
      obtain ⟨rfl, rfl⟩ := List.cons_eq_cons.mp heq
      exact htail before rest rfl

theorem codesWithin_of_plain (h : Plain names cs) :
    codesWithin names cs.length cs = cs.map Char.toNat := by
  induction cs with
  | nil => rfl
  | cons c cs ih =>
    obtain ⟨hhead, htail⟩ := plain_cons_iff.mp h
    rw [List.length_cons, codesWithin, hhead, List.map_cons, ← ih htail]

/-- Every code takes a character, and a reference takes more than one. -/
theorem length_codesWithin (names : Named) (n : Nat) (cs : List Char) :
    (codesWithin names n cs).length ≤ cs.length := by
  induction n generalizing cs with
  | zero => cases cs <;> simp [codesWithin]
  | succ n ih =>
    cases cs with
    | nil => exact Nat.le_refl 0
    | cons c cs =>
      rw [codesWithin]
      split
      · next code rest href =>
        have hrest : rest.length < cs.length := by
          split_ifs at href
          exact length_of_reference? href
        exact Nat.succ_le_succ ((ih rest).trans hrest.le)
      · exact Nat.succ_le_succ (ih cs)

theorem plain_of_length_codesWithin {n : Nat}
    (h : (codesWithin names n cs).length = cs.length) : Plain names cs := by
  induction n generalizing cs with
  | zero =>
    cases cs with
    | nil => exact fun _ _ h => by simp at h
    | cons c cs => cases h
  | succ n ih =>
    cases cs with
    | nil => exact fun _ _ h => by simp at h
    | cons c cs =>
      rw [codesWithin] at h
      split at h
      · next code rest href =>
        have hrest : rest.length < cs.length := by
          split_ifs at href
          exact length_of_reference? href
        have := length_codesWithin names n rest
        rw [List.length_cons, List.length_cons] at h
        omega
      · next href => exact plain_cons_iff.mpr ⟨href, ih (Nat.succ.inj h)⟩

/-- Every character takes at least one code. -/
theorem length_of_chars? {codes : List Nat} {value : List Char} (h : chars? codes = some value) :
    value.length ≤ codes.length := by
  fun_induction chars? codes generalizing value with
  | case1 => cases h; exact Nat.le_refl 0
  | case2 high low rest _ ih =>
    obtain ⟨v, hv, rfl⟩ := Option.map_eq_some_iff.mp h
    exact Nat.succ_le_succ ((ih hv).trans (Nat.le_succ _))
  | case3 => cases h
  | case4 high low rest _ _ ih =>
    obtain ⟨v, hv, rfl⟩ := Option.map_eq_some_iff.mp h
    exact Nat.succ_le_succ (ih hv)
  | case5 => cases h
  | case6 => cases h; exact Nat.le_refl 1

theorem toNat_le (c : Char) : c.toNat ≤ 0x10FFFF := by
  have hc := c.valid
  simp only [UInt32.isValidChar, Nat.isValidChar] at hc
  have : c.toNat = c.val.toNat := rfl
  omega

/-- **A text stands for itself exactly if no reference begins in it.** -/
theorem decode?_eq_self_iff (names : Named) (cs : List Char) :
    decode? names cs = some cs ↔ Plain names cs := by
  constructor
  · intro h
    unfold decode? at h
    split_ifs at h
    have hle : cs.length ≤ (codes names cs).length := length_of_chars? h
    exact plain_of_length_codesWithin ((length_codesWithin names _ cs).antisymm hle)
  · intro h
    have hcodes : codes names cs = cs.map Char.toNat := codesWithin_of_plain h
    rw [decode?, hcodes, if_pos, chars?_toNat]
    simp only [List.all_map, List.all_eq_true, Function.comp_apply, decide_eq_true_eq]
    exact fun c _ => toNat_le c

end Decode

/-! ### What the printer writes -/

/-- The quote that is put around a value. -/
def attributeMark (value : String) : Char := if '"' ∈ value.toList then '\x27' else '"'

theorem isQuote_attributeMark (value : String) : IsQuote (attributeMark value) := by
  unfold attributeMark
  split_ifs <;> decide

theorem toList_attributeText (value : String) : (attributeText value).toList =
    attributeMark value :: (value.toList ++ [attributeMark value]) := by
  unfold attributeText attributeMark
  simp only [List.contains_iff_mem]
  split_ifs <;> simp

/-- The quote occurs in the value only if both do. -/
theorem attributeMark_mem_iff (value : String) :
    attributeMark value ∈ value.toList ↔ HasBothQuotes value.toList := by
  unfold attributeMark HasBothQuotes
  split_ifs with h
  · exact (and_iff_right h).symm
  · exact iff_of_false h fun hboth => h hboth.1

/-- **When the text is a string with the value**: it is one string exactly if the value does not
have both quotes, and is read as the value exactly if no reference begins in the value. -/
theorem writes_attributeText_iff (names : Named) (value : String) :
    Writes names (attributeText value).toList value.toList ↔
      ¬ HasBothQuotes value.toList ∧ Plain names value.toList := by
  rw [toList_attributeText, ← attributeMark_mem_iff, ← decode?_eq_self_iff]
  constructor
  · rintro ⟨mark, body, -, heq, hmark, hdecode⟩
    obtain ⟨rfl, heq⟩ := List.cons_eq_cons.mp heq
    obtain rfl := List.append_cancel_right heq
    exact ⟨hmark, hdecode⟩
  · rintro ⟨hmark, hdecode⟩
    exact ⟨_, _, isQuote_attributeMark value, rfl, hmark, hdecode⟩

theorem run_attributeText (sheet : Sheet) (value : String) :
    Script.run sheet (text (attributeText value)) =
      { sheet with page := sheet.page.beginLine.append (attributeText value) } := by
  have hne : (attributeText value).isEmpty = false := by
    rw [← Bool.not_eq_true, String.isEmpty_iff, ← String.toList_inj, toList_attributeText]
    exact List.cons_ne_nil _ _
  show { sheet with page := sheet.page.write (attributeText value) } = _
  rw [Page.write, hne]
  rfl

/-- **The value of a markup attribute** that is a string without source text: the text that is put
on the page is one string that is read as the value exactly if the value does not have both quotes
and no character reference begins in it. -/
theorem run_attribute_iff (names : Named) (o : Options) {t : Node}
    (htag : t.head.is .stringLiteral = true) (hraw : t.head.raw? = none) (sheet : Sheet) :
    ∃ written : String,
      Script.run sheet (printed o t .markupValue) =
        { sheet with page := sheet.page.beginLine.append written } ∧
      (Writes names written.toList (t.head.text .value).toList ↔
        ¬ HasBothQuotes (t.head.text .value).toList ∧ Plain names (t.head.text .value).toList) := by
  obtain ⟨n, h, s⟩ := t
  replace htag : h.is .stringLiteral = true := htag
  replace hraw : h.raw? = none := hraw
  have hscript : printed o (.mk n h s) .markupValue = text (attributeText (h.text .value)) := by
    show (if h.is .stringLiteral then text (h.raw?.getD (attributeText (h.text .value))) else _) = _
    rw [if_pos htag, hraw, Option.getD_none]
  exact ⟨_, hscript ▸ run_attributeText sheet _, writes_attributeText_iff names _⟩

/-- A string without source text. -/
def bareString (value : String) : Node :=
  .mk () (.ofTag .stringLiteral [(.value, .text value), (.extra, .extra none)]) []

/-- Some of the names that there are. -/
def someNames : Named
  | ['a', 'm', 'p'] => some '&'
  | ['q', 'u', 'o', 't'] => some '"'
  | _ => none

/-- One kind of quotes and an ampersand that begins no reference. -/
theorem run_attribute_oneQuote :
    (bareString "a & \"b\"").head.is .stringLiteral = true ∧
      (bareString "a & \"b\"").head.raw? = none ∧
      ∃ written : String,
        Script.run ⟨.empty 2, []⟩ (printed .standard (bareString "a & \"b\"") .markupValue) =
          ⟨(Page.empty 2).beginLine.append written, []⟩ ∧
        Writes someNames written.toList "a & \"b\"".toList := by
  obtain ⟨written, hrun, hwrites⟩ := run_attribute_iff someNames .standard
    (t := bareString "a & \"b\"") rfl rfl ⟨.empty 2, []⟩
  refine ⟨rfl, rfl, written, hrun, hwrites.mpr ⟨by decide, ?_⟩⟩
  exact (decode?_eq_self_iff _ _).mp (by decide)

/-- A value with both quotes is put between quotes of which it holds one, so that it is no string,
whatever names there are. -/
theorem not_writes_bothQuotes :
    ¬ ∃ names : Named, ∀ (o : Options) (value : String), ∃ written : String,
      Script.run ⟨.empty 2, []⟩ (printed o (bareString value) .markupValue) =
        ⟨(Page.empty 2).beginLine.append written, []⟩ ∧
      Writes names written.toList value.toList := by
  rintro ⟨names, h⟩
  obtain ⟨written, hrun, hwrites⟩ := h .standard "\"'"
  have heq : "" ++ attributeText "\"'" = "" ++ written :=
    congrArg (·.page.output) ((run_attributeText ⟨.empty 2, []⟩ _).symm.trans hrun)
  rw [String.empty_append, String.empty_append] at heq
  subst heq
  exact ((writes_attributeText_iff names _).mp hwrites).1 (by decide)

/-- A reference in a value is read as its character. -/
example : decode? someNames "&amp;".toList = some ['&'] := by decide

end Typeshift.AttributeString
