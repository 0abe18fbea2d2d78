import Typeshift.Json.Basic
import Typeshift.Decimal.Layout

/-! # Numbers in JSON text

An integer that fits 64 bits, with or without sign, is kept exactly; every other number becomes a
floating point number. Its decimal is read in two roundings: the leading digits that fit 64 bits
form the significand, which is rounded once and then multiplied or divided by a rounded power of
ten. Digits beyond those only move the point. A number that is too large is no number.

* `parse`: the value of a numeral, `none` for any other text.
* `layout`: how floating point numbers are written. -/

namespace Typeshift.Json.Number

open Decimal (Binary64 Layout)

/-- The greatest significand that is read exactly. -/
def maxSignificand : Nat := Nat.pow 2 64 - 1

/-- A decimal as it is read: a significand of at most 64 bits and an exponent. -/
structure Parts where
  significand : Nat
  exponent : Int

/-- The value of a digit character. -/
def digit (c : Char) : Nat := c.toNat - '0'.toNat

/-- Read the digits before the point. Once a digit does not fit, it and all later ones only move the
point. -/
def addWhole (dropped : Nat) (significand : Nat) : List Char → Parts
  | [] => ⟨significand, dropped⟩
  | c :: rest =>
    let next := significand * 10 + digit c
    if dropped = 0 ∧ next ≤ maxSignificand then addWhole 0 next rest
    else addWhole (dropped + 1) significand rest

/-- Read the digits after the point, up to the first one that does not fit. -/
def addFraction (p : Parts) : List Char → Parts
  | [] => p
  | c :: rest =>
    let next := p.significand * 10 + digit c
    if next ≤ maxSignificand then addFraction ⟨next, p.exponent - 1⟩ rest else p

/-- The power of ten `10 ^ k`, rounded. -/
def powerOfTen (k : Nat) : Binary64 := .ofNat (Nat.pow 10 k)

/-- The greatest `k` for which `10 ^ k` is finite. -/
def maxPower : Nat := 308

/-- The number that the parts of a decimal stand for, `none` if it is too large. -/
def ofParts (p : Parts) : Option Binary64 :=
  let f := Binary64.ofNat p.significand
  if 0 ≤ p.exponent then
    if p.exponent ≤ maxPower then
      let x := f.mul (powerOfTen p.exponent.toNat)
      if x.isInfinite then none else some x
    else if f.isZero then some f else none
  else
    let k := (-p.exponent).toNat
    if k ≤ maxPower then some (f.div (powerOfTen k))
    else if k ≤ 2 * maxPower then
      some ((f.div (powerOfTen maxPower)).div (powerOfTen (k - maxPower)))
    else some (.zero false)

/-- The greatest exponent that is read as written; a greater one is out of every range. -/
def maxExponent : Nat := Nat.pow 2 31 - 1

/-- Move the point by a written exponent. -/
def scale (p : Parts) (negative : Bool) (exponent : Nat) : Option Binary64 :=
  if exponent ≤ maxExponent then
    ofParts ⟨p.significand, p.exponent + (if negative then -(exponent : Int) else exponent)⟩
  else if p.significand ≠ 0 ∧ negative = false then none
  else some (.zero false)

/-- The value of a run of digits. -/
def natural (ds : List Char) : Nat := ds.foldl (fun n c => n * 10 + digit c) 0

/-- Read an exponent, `e` already consumed: its sign and its value. -/
def exponent? (cs : List Char) : Option (Bool × Nat) :=
  let (negative, ds) := match cs with
    | '-' :: rest => (true, rest)
    | '+' :: rest => (false, rest)
    | rest => (false, rest)
  if ds ≠ [] ∧ ds.all Char.isDigit then some (negative, natural ds) else none

/-- Read what follows the digits before the point: a fraction, an exponent, both or nothing. -/
def tail? (cs : List Char) : Option (List Char × Option (Bool × Nat)) :=
  let (fraction?, rest) := match cs with
    | '.' :: more => (some (more.takeWhile Char.isDigit), more.dropWhile Char.isDigit)
    | _ => (none, cs)
  if fraction? = some [] then none else
    let fraction := fraction?.getD []
    match rest with
    | [] => some (fraction, none)
    | c :: more =>
      if c = 'e' ∨ c = 'E' then (exponent? more).map fun e => (fraction, some e) else none

/-- The value of an unsigned numeral with the given sign. -/
def unsigned (negative : Bool) (cs : List Char) : Option Json :=
  let whole := cs.takeWhile Char.isDigit
  let rest := cs.dropWhile Char.isDigit
  if whole = [] ∨ (whole.head? = some '0' ∧ whole.length ≠ 1) then none
  else if rest = [] then
    let n := natural whole
    if negative = false ∧ n ≤ maxSignificand then some (.int n)
    else if negative ∧ n ≠ 0 ∧ n ≤ Nat.pow 2 63 then some (.int (-(n : Int)))
    else (ofParts (addWhole 0 0 whole)).map fun x => .float (x.withSign negative)
  else do
    let (fraction, exponent) ← tail? rest
    let parts := addFraction (addWhole 0 0 whole) fraction
    let x ← match exponent with
      | none => ofParts parts
      | some (down, e) => scale parts down e
    return .float (x.withSign negative)

/-- **The value of a numeral**, `none` if the text is none or its value is too large. -/
def parse : List Char → Option Json
  | '-' :: cs => unsigned true cs
  | cs => unsigned false cs

/-- Numbers from `0.00001` up to `1e16` are written with all their places and a point. -/
def layout : Layout := ⟨.even, fun p => -5 ≤ p && p < 16, true⟩

end Typeshift.Json.Number
