import Mathlib.Tactic.SplitIfs
import Typeshift.Json.Reader
import Typeshift.Print.Literal

/-! # Reading string literals

A string literal begins with a quote and ends with the next one that no backslash stands before.
Between them, a backslash begins an escape. An escape may give half of a pair of surrogates; a
string with a half that has no other is not read.

* `body?`: what stands between the quotes.
* `decode?`: the characters that it stands for.
* `read?`: the string at the beginning of a text; `read?_append`: what follows does not matter.
* `read?_quote`: a printed string is read as its value.
* `quote_complete`: a printed string is one literal, with nothing between its quotes that could end
  it. -/

namespace Typeshift.StringLiteral

open Json (hexDigit? isHigh isLow)
open Print (quote quoteMark escape hexDigit)

/-! ### Escapes -/

/-- The number that hexadecimal digits stand for. -/
def hexValue? (cs : List Char) : Option Nat :=
  if cs.isEmpty then none else (cs.mapM hexDigit?).map fun ds => ds.foldl (fun n d => n * 16 + d) 0

/-- The code after `\u`, in four digits or in braces, and the rest. -/
def code? : List Char → Option (Nat × List Char)
  | '\x7b' :: cs =>
    match cs.dropWhile (· != '\x7d'), hexValue? (cs.takeWhile (· != '\x7d')) with
    | _ :: rest, some n => if n ≤ 0x10FFFF then some (n, rest) else none
    | _, _ => none
  | a :: b :: c :: d :: cs => (hexValue? [a, b, c, d]).map (·, cs)
  | _ => none

/-- The code of an escape of one letter. -/
def letterCode? : Char → Option Nat
  | 'b' => some 0x08
  | 't' => some 0x09
  | 'n' => some 0x0A
  | 'v' => some 0x0B
  | 'f' => some 0x0C
  | 'r' => some 0x0D
  | _ => none

/-- Whether a character ends a line. -/
def isLineEnd (c : Char) : Bool := c == '\n' || c == '\r' || c == '\u2028' || c == '\u2029'

/-- The codes that an escape gives, after the backslash, and the rest. The end of a line gives
none, and a character without a meaning of its own stands for itself. -/
def escape? : List Char → Option (List Nat × List Char)
  | 'x' :: a :: b :: cs => (hexValue? [a, b]).map ([·], cs)
  | 'u' :: cs => (code? cs).map fun (n, rest) => ([n], rest)
  | '0' :: cs => if cs.head?.any Char.isDigit then none else some ([0], cs)
  | '\r' :: '\n' :: cs => some ([], cs)
  | c :: cs =>
    if c = 'x' || c.isDigit then none
    else if isLineEnd c then some ([], cs)
    else some ([(letterCode? c).getD c.toNat], cs)
  | [] => none

/-- The codes that a text stands for, found in so many steps. -/
def codesWithin : Nat → List Char → Option (List Nat)
  | _, [] => some []
  | 0, _ :: _ => none
  | n + 1, c :: cs =>
    if c = '\\' then (escape? cs).bind fun part => (codesWithin n part.2).map (part.1 ++ ·)
    else (codesWithin n cs).map (c.toNat :: ·)

/-- The characters of codes. Two surrogates make one character. -/
def chars? : List Nat → Option (List Char)
  | [] => some []
  | high :: low :: rest =>
    if isHigh high && isLow low then
      (chars? rest).map (Char.ofNat (0x10000 + (high - 0xD800) * 0x400 + (low - 0xDC00)) :: ·)
    else if isHigh high || isLow high then none
    else (chars? (low :: rest)).map (Char.ofNat high :: ·)
  | [n] => if isHigh n || isLow n then none else some [Char.ofNat n]

/-- The characters that stand between the quotes for themselves or by escapes. -/
def decode? (cs : List Char) : Option (List Char) := (codesWithin cs.length cs).bind chars?

/-! ### Literals -/

/-- What stands before the quote that ends a string, and what follows the quote. -/
def body? (mark : Char) : List Char → Option (List Char × List Char)
  | '\\' :: '\r' :: '\n' :: cs => (body? mark cs).map (Prod.map ('\\' :: '\r' :: '\n' :: ·) id)
  | '\\' :: c :: cs => (body? mark cs).map (Prod.map ('\\' :: c :: ·) id)
  | c :: cs =>
    if c = mark then some ([], cs)
    else if c = '\n' || c = '\r' then none
    else (body? mark cs).map (Prod.map (c :: ·) id)
  | [] => none

/-- A character that strings begin and end with. -/
def IsQuote (c : Char) : Prop := c = '"' ∨ c = '\x27'

instance : DecidablePred IsQuote := fun c => by unfold IsQuote; infer_instance

/-- **The string that a text begins with**, and the rest. -/
def read? : List Char → Option (String × List Char)
  | [] => none
  | mark :: cs =>
    if IsQuote mark then
      (body? mark cs).bind fun part => (decode? part.1).map fun s => (String.ofList s, part.2)
    else none

section Append

variable {mark c : Char} {cs body rest : List Char}

theorem IsQuote.ne_backslash (h : IsQuote mark) : mark ≠ '\\' := by
  rcases h with rfl | rfl <;> decide

/-- A text that begins with a string begins with a quote. -/
theorem isQuote_of_read? {part : String × List Char} (h : read? (mark :: cs) = some part) :
    IsQuote mark := by
  refine Decidable.byContradiction fun hmark => ?_
  rw [read?, if_neg hmark] at h
  cases h

theorem body?_escaped (mark : Char) (hc : c = '\r' → cs.head? ≠ some '\n') :
    body? mark ('\\' :: c :: cs) = (body? mark cs).map (Prod.map ('\\' :: c :: ·) id) := by
  rw [body?]
  rintro cs' rfl rfl
  exact hc rfl rfl

theorem body?_cons (hc : c ≠ '\\') : body? mark (c :: cs) =
    if c = mark then some ([], cs)
    else if c = '\n' || c = '\r' then none
    else (body? mark cs).map (Prod.map (c :: ·) id) := by
  rw [body?]
  · exact fun _ h => absurd h hc
  · exact fun _ _ h => absurd h hc

/-- What follows a string does not change how it is read. -/
theorem body?_append (hmark : mark ≠ '\\') (h : body? mark cs = some (body, rest))
    (more : List Char) : body? mark (cs ++ more) = some (body, rest ++ more) := by
  fun_induction body? mark cs generalizing body rest with
  | case1 cs ih =>
    obtain ⟨⟨b, r⟩, hb, heq⟩ := Option.map_eq_some_iff.mp h
    cases heq
    simp [body?, ih hb]
  | case2 c cs hne ih =>
    obtain ⟨⟨b, r⟩, hb, heq⟩ := Option.map_eq_some_iff.mp h
    cases heq
    rw [List.cons_append, List.cons_append, body?_escaped, ih hb]
    · rfl
    · rintro rfl hhead
      cases cs with
      | nil => cases hb
      | cons d ds => exact hne ds rfl (congrArg (· :: ds) (Option.some.inj hhead))
  | case3 cs =>
    cases h
    simp [body?_cons hmark]
  | case4 c cs => cases h
  | case5 c cs hcr hesc hm hline ih =>
    obtain ⟨⟨b, r⟩, hb, heq⟩ := Option.map_eq_some_iff.mp h
    cases heq
    have hc : c ≠ '\\' := by
      rintro rfl
      cases cs with
      | nil => cases hb
      | cons d ds => exact hesc d ds rfl rfl
    rw [List.cons_append, body?_cons hc, if_neg hm, if_neg hline, ih hb]
    rfl
  | case6 => cases h

theorem read?_append {s : String} (h : read? cs = some (s, rest)) (more : List Char) :
    read? (cs ++ more) = some (s, rest ++ more) := by
  cases cs with
  | nil => cases h
  | cons mark cs =>
    have hmark := isQuote_of_read? h
    rw [List.cons_append]
    rw [read?, if_pos hmark] at h ⊢
    obtain ⟨part, hb, h⟩ := Option.bind_eq_some_iff.mp h
    obtain ⟨v, hv, h⟩ := Option.map_eq_some_iff.mp h
    cases h
    simp [body?_append hmark.ne_backslash hb, hv]

end Append

/-! ### Printed strings -/

section Quote

variable {mark c : Char}

/-- The digits of a code below 32. -/
theorem hexValue?_hexDigits :
    ∀ n < 32, hexValue? [hexDigit (n / 16), hexDigit (n % 16)] = some n := by
  decide

theorem hexDigit_plain (mark : Char) (hmark : IsQuote mark) :
    ∀ n < 16, hexDigit n ∉ ['\\', '\n', '\r', mark] := by
  rcases hmark with rfl | rfl <;> decide

/-- The ways to write a character: as it is, or by an escape. -/
theorem escape_cases (hmark : IsQuote mark) (c : Char) :
    escape mark c = [c] ∧ c ∉ ['\\', '\n', '\r', mark] ∨
      ∃ d ds, escape mark c = '\\' :: d :: ds ∧ d ≠ '\r' ∧
        (∀ e ∈ ds, e ∉ ['\\', '\n', '\r', mark]) ∧
        ∀ rest, escape? (d :: (ds ++ rest)) = some ([c.toNat], rest) := by
  unfold escape
  by_cases h₁ : c = '\\'
  · rw [if_pos h₁]
    exact .inr ⟨_, _, rfl, by decide, by simp, fun rest => by rw [h₁]; rfl⟩
  rw [if_neg h₁]
  by_cases h₂ : c = '\n'
  · rw [if_pos h₂]
    exact .inr ⟨_, _, rfl, by decide, by simp, fun rest => by rw [h₂]; rfl⟩
  rw [if_neg h₂]
  by_cases h₃ : c = '\r'
  · rw [if_pos h₃]
    exact .inr ⟨_, _, rfl, by decide, by simp, fun rest => by rw [h₃]; rfl⟩
  rw [if_neg h₃]
  by_cases h₄ : c = '\t'
  · rw [if_pos h₄]
    exact .inr ⟨_, _, rfl, by decide, by simp, fun rest => by rw [h₄]; rfl⟩
  rw [if_neg h₄]
  by_cases h₅ : c = '\u2028'
  · rw [if_pos h₅]
    refine .inr ⟨_, _, rfl, by decide, ?_, fun rest => by rw [h₅]; rfl⟩
    rcases hmark with rfl | rfl <;> simp
  rw [if_neg h₅]
  by_cases h₆ : c = '\u2029'
  · rw [if_pos h₆]
    refine .inr ⟨_, _, rfl, by decide, ?_, fun rest => by rw [h₆]; rfl⟩
    rcases hmark with rfl | rfl <;> simp
  rw [if_neg h₆]
  by_cases h₇ : c = mark
  · rw [if_pos h₇]
    refine .inr ⟨_, _, rfl, ?_, by simp, fun rest => ?_⟩
    · rcases hmark with rfl | rfl <;> rw [h₇] <;> decide
    · rcases hmark with rfl | rfl <;> rw [h₇] <;> rfl
  rw [if_neg h₇]
  by_cases h₈ : c.toNat < 0x20
  · rw [if_pos h₈]
    refine .inr ⟨_, _, rfl, by decide, ?_, fun rest => ?_⟩
    · have hplain := hexDigit_plain mark hmark
      rintro e (_ | ⟨_, _ | ⟨_, ⟨⟩⟩⟩)
      · exact hplain _ (by omega)
      · exact hplain _ (by omega)
    · simp [escape?, hexValue?_hexDigits c.toNat h₈]
  · rw [if_neg h₈]
    exact .inl ⟨rfl, by simp [h₁, h₂, h₃, h₇]⟩

theorem body?_plain {ds : List Char} (h : ∀ e ∈ ds, e ∉ ['\\', '\n', '\r', mark])
    (cs : List Char) : body? mark (ds ++ cs) = (body? mark cs).map (Prod.map (ds ++ ·) id) := by
  induction ds with
  | nil => exact (congrFun Option.map_id _).symm
  | cons d ds ih =>
    have hd := h d List.mem_cons_self
    simp only [List.mem_cons, List.not_mem_nil, or_false, not_or] at hd
    rw [List.cons_append, body?_cons hd.1, if_neg hd.2.2.2, if_neg (by simp [hd]),
      ih fun e he => h e (List.mem_cons_of_mem d he), Option.map_map]
    rfl

theorem body?_escape (hmark : IsQuote mark) (c : Char) (cs : List Char) :
    body? mark (escape mark c ++ cs) = (body? mark cs).map (Prod.map (escape mark c ++ ·) id) := by
  obtain ⟨heq, hc⟩ | ⟨d, ds, heq, hd, hds, -⟩ := escape_cases hmark c <;> rw [heq]
  · exact body?_plain (by simpa using hc) cs
  · rw [List.cons_append, List.cons_append, body?_escaped mark fun h => absurd h hd,
      body?_plain hds, Option.map_map]
    rfl

theorem codesWithin_escape (hmark : IsQuote mark) (c : Char) (n : Nat)
    (cs : List Char) :
    codesWithin (n + 1) (escape mark c ++ cs) = (codesWithin n cs).map (c.toNat :: ·) := by
  obtain ⟨heq, hc⟩ | ⟨d, ds, heq, -, -, hescape⟩ := escape_cases hmark c <;> rw [heq]
  · rw [List.singleton_append, codesWithin, if_neg fun h => hc (by simp [h])]
  · rw [List.cons_append, List.cons_append, codesWithin, if_pos rfl, hescape]
    rfl

variable (hmark : IsQuote mark) (cs : List Char)

include hmark

theorem body?_escapes (rest : List Char) :
    body? mark (cs.flatMap (escape mark) ++ mark :: rest) =
      some (cs.flatMap (escape mark), rest) := by
  induction cs with
  | nil =>
    rw [List.flatMap_nil, List.nil_append, body?_cons hmark.ne_backslash, if_pos rfl]
  | cons c cs ih =>
    rw [List.flatMap_cons, List.append_assoc, body?_escape hmark, ih]
    rfl

theorem codesWithin_escapes {n : Nat} (hn : cs.length ≤ n) :
    codesWithin n (cs.flatMap (escape mark)) = some (cs.map Char.toNat) := by
  induction cs generalizing n with
  | nil => rw [List.flatMap_nil, codesWithin, List.map_nil]
  | cons c cs ih =>
    obtain ⟨m, rfl⟩ := Nat.exists_eq_add_of_le' hn
    rw [List.flatMap_cons, List.length_cons, ← Nat.add_assoc, codesWithin_escape hmark,
      ih (Nat.le_add_left _ _), List.map_cons]
    rfl

omit hmark

/-- A character is no half of a pair. -/
theorem isSurrogate_toNat (c : Char) : isHigh c.toNat = false ∧ isLow c.toNat = false := by
  have hc := c.valid
  simp only [UInt32.isValidChar, Nat.isValidChar] at hc
  have : c.toNat = c.val.toNat := rfl
  simp only [isHigh, isLow, Bool.and_eq_false_iff, decide_eq_false_iff_not]
  omega

theorem chars?_toNat : ∀ cs : List Char, chars? (cs.map Char.toNat) = some cs
  | [] => rfl
  | [c] => by simp [chars?, isSurrogate_toNat]
  | c :: d :: cs => by
    have ih := chars?_toNat (d :: cs)
    rw [List.map_cons] at ih
    simp [chars?, isSurrogate_toNat, ih]

theorem length_le_escapes (hmark : IsQuote mark) (cs : List Char) :
    cs.length ≤ (cs.flatMap (escape mark)).length := by
  have hone (c : Char) : 1 ≤ (escape mark c).length := by
    rcases escape_cases hmark c with ⟨h, -⟩ | ⟨d, ds, h, -⟩ <;> simp [h]
  induction cs with
  | nil => exact Nat.zero_le _
  | cons c cs ih =>
    have := hone c
    rw [List.flatMap_cons, List.length_append, List.length_cons]
    omega

theorem decode?_escapes (hmark : IsQuote mark) (cs : List Char) :
    decode? (cs.flatMap (escape mark)) = some cs := by
  rw [decode?, codesWithin_escapes hmark cs (length_le_escapes hmark cs)]
  exact chars?_toNat cs

end Quote

/-- **A printed string is read as its value**, whatever follows. -/
theorem read?_quote (s : String) (singleQuote : Bool) (rest : List Char) :
    read? ((quote s singleQuote).toList ++ rest) = some (s, rest) := by
  have hmark : IsQuote (quoteMark singleQuote) := by cases singleQuote <;> decide
  simp only [quote, String.toList_ofList, List.append_assoc, List.cons_append, List.nil_append]
  rw [read?, if_pos hmark, body?_escapes hmark, Option.bind_some, decode?_escapes hmark,
    Option.map_some, String.ofList_toList]

/-! ### Nothing ends a printed string early -/

/-- The characters that no backslash stands before. A backslash that begins an escape is none of
them, but one with nothing after it is. -/
def unescaped : List Char → List Char
  | '\\' :: _ :: cs => unescaped cs
  | c :: cs => c :: unescaped cs
  | [] => []

section Unescaped

variable {mark c : Char} {cs : List Char}

theorem unescaped_escaped (c : Char) (cs : List Char) :
    unescaped ('\\' :: c :: cs) = unescaped cs := by
  rw [unescaped]

theorem unescaped_plain {ds : List Char} (hds : '\\' ∉ ds) (cs : List Char) :
    unescaped (ds ++ cs) = ds ++ unescaped cs := by
  induction ds with
  | nil => rfl
  | cons d ds ih =>
    rw [List.mem_cons, not_or] at hds
    rw [List.cons_append, unescaped, ih hds.2, List.cons_append]
    exact fun _ _ h => absurd h.symm hds.1

/-- The characters of an escape that no backslash stands before are plain. -/
theorem unescaped_escapes (hmark : IsQuote mark) (cs : List Char) :
    ∀ d ∈ unescaped (cs.flatMap (escape mark)), d ∉ ['\\', '\n', '\r', mark] := by
  have hplain {ds : List Char} (hds : ∀ e ∈ ds, e ∉ ['\\', '\n', '\r', mark]) : '\\' ∉ ds :=
    fun h => hds _ h List.mem_cons_self
  induction cs with
  | nil => exact fun _ h => absurd h List.not_mem_nil
  | cons c cs ih =>
    rw [List.flatMap_cons]
    obtain ⟨heq, hc⟩ | ⟨d, ds, heq, -, hds, -⟩ := escape_cases hmark c <;> rw [heq]
    · have hc : ∀ d ∈ [c], d ∉ ['\\', '\n', '\r', mark] := List.forall_mem_singleton.mpr hc
      rw [unescaped_plain (hplain hc), List.forall_mem_append]
      exact ⟨hc, ih⟩
    · rw [List.cons_append, List.cons_append, unescaped_escaped, unescaped_plain (hplain hds),
        List.forall_mem_append]
      exact ⟨hds, ih⟩

/-- No way to write a character has the end of a line in it. -/
theorem isLineEnd_escape (hmark : IsQuote mark) (c : Char) :
    ∀ d ∈ escape mark c, isLineEnd d = false := by
  have hhex : ∀ n < 16, isLineEnd (hexDigit n) = false := by decide
  unfold escape
  split_ifs with _ h₂ h₃ _ h₅ h₆ h₇ h₈
  iterate 6 · simp [isLineEnd]
  · rcases hmark with rfl | rfl <;> simp [h₇, isLineEnd]
  · rintro d (_ | ⟨_, _ | ⟨_, _ | ⟨_, _ | ⟨_, ⟨⟩⟩⟩⟩⟩)
    · rfl
    · rfl
    · exact hhex _ (by omega)
    · exact hhex _ (by omega)
  · simp [isLineEnd, h₂, h₃, h₅, h₆]

end Unescaped

/-- **A printed string is one complete literal.** It stands between two of the chosen quotes. Of
what no backslash stands before, nothing there is that quote, a backslash or the end of a line; the
end of a line is not even there after a backslash. What is there stands for the value, and whatever
follows, the literal ends with its last character. -/
theorem quote_complete (s : String) (singleQuote : Bool) :
    ∃ body, (quote s singleQuote).toList =
        quoteMark singleQuote :: (body ++ [quoteMark singleQuote]) ∧
      (∀ c ∈ unescaped body, c ∉ ['\\', '\n', '\r', quoteMark singleQuote]) ∧
      (∀ c ∈ body, isLineEnd c = false) ∧
      decode? body = some s.toList ∧
      ∀ rest, read? ((quote s singleQuote).toList ++ rest) = some (s, rest) := by
  have hmark : IsQuote (quoteMark singleQuote) := by cases singleQuote <;> decide
  refine ⟨s.toList.flatMap (escape (quoteMark singleQuote)), String.toList_ofList,
    unescaped_escapes hmark _, fun c hc => ?_, decode?_escapes hmark _, read?_quote s singleQuote⟩
  obtain ⟨d, -, hd⟩ := List.mem_flatMap.mp hc
  exact isLineEnd_escape hmark d c hd

end Typeshift.StringLiteral
