/-! # 64-bit binary floating point numbers

A number is not-a-number, an infinity, or `± m · 2 ^ e` in *normal form*: `m < 2 ^ 53` and
`-1074 ≤ e ≤ 971`, with `2 ^ 52 ≤ m` unless `e = -1074`. All arithmetic here is exact arithmetic on
natural numbers followed by one rounding, to the nearest number and from a tie to the even `m`.

* `round`: the number nearest to a quotient of natural numbers, `none` if it is too large.
* `mul`, `div`: the exact product and quotient, rounded once.
* `ofNat`, `ofInt`: the number nearest to an integer. -/

namespace Typeshift.Decimal

/-- A 64-bit binary floating point number. -/
inductive Binary64 where
  | nan
  | infinite (negative : Bool)
  | finite (negative : Bool) (significand : Nat) (exponent : Int)
  deriving DecidableEq, Repr, Inhabited

namespace Binary64

/-- The least exponent of a finite number. -/
def minExponent : Int := -1074

/-- The greatest exponent of a finite number. -/
def maxExponent : Int := 971

/-- Zero, with its sign. -/
def zero (negative : Bool) : Binary64 := .finite negative 0 minExponent

/-- Whether the number is an infinity. -/
def isInfinite : Binary64 → Bool
  | .infinite _ => true
  | _ => false

/-- Whether the number is a zero of either sign. -/
def isZero : Binary64 → Bool
  | .finite _ 0 _ => true
  | _ => false

/-- The number with its sign set. -/
def withSign (negative : Bool) : Binary64 → Binary64
  | .finite _ m e => .finite negative m e
  | .infinite _ => .infinite negative
  | .nan => .nan

/-- `n / d` rounded to the nearest natural number, from a tie to the even one. -/
def divEven (n d : Nat) : Nat :=
  let q := n / d
  let r := n % d
  if 2 * r < d then q else if d < 2 * r then q + 1 else q + q % 2

/-- The quotient `n / d` counted in units of `2 ^ e`, as a pair of a numerator and a denominator. -/
def inUnits (n d : Nat) (e : Int) : Nat × Nat :=
  if 0 ≤ e then (n, d * Nat.pow 2 e.toNat) else (n * Nat.pow 2 (-e).toNat, d)

/-- **The exponent of the rounding grid** for `n / d`: the least one from `-1074` up in whose units
the quotient is below `2 ^ 53`. -/
def gridExponent (n d : Nat) : Int :=
  let guess := max minExponent ((n.log2 : Int) - (d.log2 : Int) - 53)
  let (a, b) := inUnits n d guess
  if a / b < Nat.pow 2 53 then guess else guess + 1

/-- The significand and exponent of the number nearest to `n / d`, `none` if it is too large. -/
def round (n d : Nat) : Option (Nat × Int) :=
  if n = 0 then some (0, minExponent) else
    let e := gridExponent n d
    let (a, b) := inUnits n d e
    let m := divEven a b
    let (m, e) := if m = Nat.pow 2 53 then (Nat.pow 2 52, e + 1) else (m, e)
    if maxExponent < e then none else some (m, e)

/-- The number nearest to `± n / d`, an infinity if it is too large. -/
def ofQuotient (negative : Bool) (n d : Nat) : Binary64 :=
  match round n d with
  | some (m, e) => .finite negative m e
  | none => .infinite negative

/-- `m · 2 ^ e` as a quotient of natural numbers. -/
def quotient (m : Nat) (e : Int) : Nat × Nat :=
  if 0 ≤ e then (m * Nat.pow 2 e.toNat, 1) else (m, Nat.pow 2 (-e).toNat)

/-- The number nearest to a natural number. -/
def ofNat (n : Nat) : Binary64 := ofQuotient false n 1

/-- The number nearest to an integer. -/
def ofInt (i : Int) : Binary64 := ofQuotient (i < 0) i.natAbs 1

/-- The product of two numbers, rounded once. -/
def mul : Binary64 → Binary64 → Binary64
  | .finite s m e, .finite t n f =>
    let (a, b) := quotient (m * n) (e + f)
    ofQuotient (s != t) a b
  | .nan, _ => .nan
  | _, .nan => .nan
  | x, y => if x.isZero || y.isZero then .nan else
    .infinite (sign x != sign y)
where
  /-- Whether a number is written with a minus sign. -/
  sign : Binary64 → Bool
    | .finite s _ _ => s
    | .infinite s => s
    | .nan => false

/-- The quotient of two numbers, rounded once. -/
def div : Binary64 → Binary64 → Binary64
  | .finite s m e, .finite t n f =>
    if n = 0 then (if m = 0 then .nan else .infinite (s != t)) else
      let (a, b) := quotient m (e - f)
      ofQuotient (s != t) a (b * n)
  | .infinite s, .finite t _ _ => .infinite (s != t)
  | .finite s _ _, .infinite t => zero (s != t)
  | _, _ => .nan

end Binary64

end Typeshift.Decimal
