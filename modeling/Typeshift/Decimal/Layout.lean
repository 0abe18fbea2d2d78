import Typeshift.Decimal.Shortest

/-! # Laying out a decimal

The shortest digits of a number are written either with all their places (`0.00001`, `1200`) or in
scientific form (`1.2e+20`). A `Layout` says which exponents are written with their places, whether
an integral number keeps a point and a zero, and which of two equally near decimals is taken. -/

namespace Typeshift.Decimal

/-- The choices of a number format. -/
structure Layout where
  /-- Which of two equally near decimals is written. -/
  tie : Tie
  /-- Whether a number whose first digit stands at `10 ^ p` is written with all its places. -/
  positional : Int → Bool
  /-- Whether an integral number ends in `.0`. -/
  keepPoint : Bool

namespace Layout

/-- Digits with a point after the first `n` of them; `n` may lie outside the digits, and then zeros
fill the gap. -/
def places (keepPoint : Bool) (ds : List Char) (n : Int) : List Char :=
  if n ≤ 0 then '0' :: '.' :: (List.replicate (-n).toNat '0' ++ ds)
  else if ds.length ≤ n then
    ds ++ List.replicate (n.toNat - ds.length) '0' ++ (if keepPoint then ['.', '0'] else [])
  else ds.take n.toNat ++ '.' :: ds.drop n.toNat

/-- Digits with a point after the first one and an exponent that carries its sign. -/
def scientific (ds : List Char) (p : Int) : List Char :=
  let point := match ds with
    | d :: e :: rest => d :: '.' :: e :: rest
    | short => short
  point ++ 'e' :: (if p < 0 then '-' else '+') :: Nat.toDigits 10 p.natAbs

/-- The digits of a magnitude, laid out. -/
def magnitude (l : Layout) (m : Nat) (e : Int) : List Char :=
  if m = 0 then '0' :: (if l.keepPoint then ['.', '0'] else []) else
    let s := shortest l.tie m e
    let ds := Nat.toDigits 10 s.digits
    let p := s.exponent + ds.length - 1
    if l.positional p then places l.keepPoint ds (p + 1) else scientific ds p

/-- The text of a finite number, `none` for the others. -/
def render? (l : Layout) : Binary64 → Option String
  | .finite negative m e =>
    some (String.ofList ((if negative then ['-'] else []) ++ l.magnitude m e))
  | _ => none

end Layout

end Typeshift.Decimal
