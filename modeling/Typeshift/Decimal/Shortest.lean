import Typeshift.Decimal.Binary64

/-! # The fewest decimal digits that read back

A finite number `m · 2 ^ e` stands for all reals that round to it, an interval around its value that
contains its ends iff `m` is even. Among the decimals `c · 10 ^ g` inside that interval the one with
the fewest digits is written; of two of the same length the nearer one, and a tie goes as the caller
says.

* `interval`: the ends of the interval, in units of `2 ^ (e - 2)`.
* `candidate`: the neighbour of the value on one decimal grid that lies in the interval.
* `shortest`: the digits and the exponent of the chosen decimal. -/

namespace Typeshift.Decimal

/-- Which of two equally near decimals is written. -/
inductive Tie where
  | even
  | up
  deriving DecidableEq, Repr

/-- A decimal `digits · 10 ^ exponent`. -/
structure Scaled where
  digits : Nat
  exponent : Int
  deriving DecidableEq, Repr

/-- The ends of the interval that rounds to `m · 2 ^ e`, in units of `2 ^ (e - 2)`. Below a power of
two the neighbour is half as far away. -/
def interval (m : Nat) (e : Int) : Nat × Nat :=
  (if m = Nat.pow 2 52 ∧ Binary64.minExponent < e then 4 * m - 1 else 4 * m - 2, 4 * m + 2)

/-- How many decimal digits a natural number has. -/
def digitCount (n : Nat) : Nat := (Nat.toDigits 10 n).length

/-- **The decimal magnitude** of `a / b`: the greatest `p` with `10 ^ p ≤ a / b`. -/
def magnitude (a b : Nat) : Int :=
  if b ≤ a then digitCount (a / b) - 1 else -(digitCount ((b + a - 1) / a - 1) : Int)

/-- The neighbour of `m · 2 ^ e` on the grid of multiples of `10 ^ g` that lies in its interval, the
nearer one if both do. -/
def candidate (tie : Tie) (m : Nat) (e g : Int) : Option Nat :=
  let (lo, hi) := interval m e
  let p := Nat.pow 2 (e - 2).toNat * Nat.pow 10 (-g).toNat
  let q := Nat.pow 2 (2 - e).toNat * Nat.pow 10 g.toNat
  let c := 4 * m * p / q
  let r := 4 * m * p % q
  let below := if m % 2 = 0 then lo * p ≤ c * q else lo * p < c * q
  let above := if m % 2 = 0 then (c + 1) * q ≤ hi * p else (c + 1) * q < hi * p
  if below ∧ above then
    if 2 * r < q then some c
    else if q < 2 * r then some (c + 1)
    else match tie with
      | .up => some (c + 1)
      | .even => some (c + c % 2)
  else if below then some c
  else if above then some (c + 1)
  else none

/-- A decimal without trailing zeros in its digits; `fuel` bounds how many are removed. -/
def Scaled.strip : Nat → Scaled → Scaled
  | 0, s => s
  | fuel + 1, s =>
    if s.digits ≠ 0 ∧ s.digits % 10 = 0 then Scaled.strip fuel ⟨s.digits / 10, s.exponent + 1⟩
    else s

/-- **The shortest decimal** that reads back as `m · 2 ^ e`. Seventeen digits always suffice. -/
def shortest (tie : Tie) (m : Nat) (e : Int) : Scaled :=
  if m = 0 then ⟨0, 0⟩ else
    let (a, b) := Binary64.quotient m e
    let p := magnitude a b
    let hit := (List.range 17).findSome? fun (k : Nat) =>
      let g := p - (k : Int)
      (candidate tie m e g).map fun c => Scaled.mk c g
    match hit with
    | some s => s.strip 18
    | none => ⟨m, 0⟩

end Typeshift.Decimal
