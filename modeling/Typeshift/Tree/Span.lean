import Typeshift.Json.Basic

/-! # Spans

A node that came from a source text has a *span*, the half-open range of offsets it covers. Offsets
are 32-bit numbers; a node whose offsets are not both such numbers has no span. -/

namespace Typeshift

/-- A half-open range of offsets. -/
structure Span where
  start : Nat
  stop : Nat
  deriving DecidableEq, Repr

namespace Span

/-- The empty span at the beginning, used where there is none. -/
def zero : Span := ⟨0, 0⟩

/-- How many offsets a span covers; none if it ends before it starts. -/
def length (s : Span) : Nat := s.stop - s.start

/-- Whether a span covers no offset. -/
def isEmpty (s : Span) : Bool := s.stop ≤ s.start

/-- The span written in a JSON object, if both offsets are there and fit 32 bits. -/
def ofJson? (v : Json) : Option Span := do
  let start ← (← v.get? "start").word32?
  let stop ← (← v.get? "end").word32?
  return ⟨start, stop⟩

theorem isEmpty_iff (s : Span) : s.isEmpty = true ↔ s.length = 0 := by
  simp [isEmpty, length, Nat.sub_eq_zero_iff_le]

end Span

end Typeshift
