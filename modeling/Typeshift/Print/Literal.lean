import Typeshift.Decimal.Layout
import Typeshift.Tree.Basic

/-! # Literals

The text of a literal is what the source had, if the parser kept it; otherwise it is made from the
value.

* `quote`: a string literal.
* `numberText`: a numeric literal. -/

namespace Typeshift.Print

open Decimal (Binary64 Layout)

/-! ### Strings -/

/-- The character at a place in the hexadecimal digits. -/
def hexDigit (n : Nat) : Char := "0123456789abcdef".toList.getD n '0'

/-- A character inside a string literal that the given quote delimits. -/
def escape (mark : Char) (c : Char) : List Char :=
  if c = '\\' then ['\\', '\\']
  else if c = '\n' then ['\\', 'n']
  else if c = '\r' then ['\\', 'r']
  else if c = '\t' then ['\\', 't']
  else if c = '\u2028' then ['\\', 'u', '2', '0', '2', '8']
  else if c = '\u2029' then ['\\', 'u', '2', '0', '2', '9']
  else if c = mark then ['\\', c]
  else if c.toNat < 0x20 then ['\\', 'x', hexDigit (c.toNat / 16), hexDigit (c.toNat % 16)]
  else [c]

/-- The quote that delimits strings. -/
def quoteMark (singleQuote : Bool) : Char := if singleQuote then '\x27' else '"'

/-- **A string as a literal.** -/
def quote (value : String) (singleQuote : Bool) : String :=
  let mark := quoteMark singleQuote
  String.ofList (mark :: value.toList.flatMap (escape mark) ++ [mark])

/-- A string as the value of a markup attribute. Such strings have no escapes: the only choice is
the quote. -/
def attributeText (value : String) : String :=
  if value.toList.contains '"' then "'" ++ value ++ "'" else "\"" ++ value ++ "\""

/-! ### Numbers -/

/-- Numbers are written with all their places and without a needless point; of two equally near
decimals the larger one is taken. -/
def numberLayout : Layout := ⟨.up, fun _ => true, false⟩

/-- **A number as a literal.** -/
def numberText (x : Binary64) : String :=
  match x with
  | .nan => "NaN"
  | .infinite negative => if negative then "-Infinity" else "Infinity"
  | x => (numberLayout.render? x).getD ""

/-- The text of a numeric literal. -/
def numeralText (h : Head) : String := h.raw?.getD (numberText (h.number .value))

/-- Whether a text is all digits, so that a point after it would be read as part of the number. -/
def isDigits (s : String) : Bool := !s.isEmpty && s.toList.all Char.isDigit

/-- Whether a node is a number written without a point. -/
def isBareInteger (h : Head) : Bool := h.is .numericLiteral && isDigits (numeralText h)

end Typeshift.Print
