import Typeshift.Decimal.Binary64

/-! # JSON values

Objects keep their keys in the order in which they were written, because that order decides which
of two faults of a tree is reported and is kept when an unknown node is written back. Numbers are
integers or floating point numbers.

* `Json.get?`: the value of a key of an object.
* `insertKey`: set a key; a key that is already there keeps its place. -/

namespace Typeshift

open Decimal (Binary64)

/-- A JSON value with ordered keys. -/
inductive Json where
  | null
  | bool (b : Bool)
  | int (i : Int)
  | float (x : Binary64)
  | str (s : String)
  | arr (items : List Json)
  | obj (entries : List (String × Json))
  deriving Inhabited

namespace Json

/-- Set the value of a key: an old key keeps its place, a new one comes last. -/
def insertKey (key : String) (v : Json) : List (String × Json) → List (String × Json)
  | [] => [(key, v)]
  | (k, w) :: rest => if k = key then (k, v) :: rest else (k, w) :: insertKey key v rest

/-- The value of a key among the entries of an object. -/
def lookup (key : String) (entries : List (String × Json)) : Option Json :=
  (entries.find? fun e => e.1 == key).map (·.2)

/-- The value of a key, if the value is an object that has it. -/
def get? (key : String) : Json → Option Json
  | .obj entries => lookup key entries
  | _ => none

/-- The text of a string value. -/
def text? : Json → Option String
  | .str s => some s
  | _ => none

/-- The least integer that needs more than 32 bits. -/
def word32Bound : Int := 4294967296

/-- The value as a 32-bit unsigned integer, if it is an integer in that range. -/
def word32? : Json → Option Nat
  | .int i => if 0 ≤ i ∧ i < word32Bound then some i.toNat else none
  | _ => none

theorem lookup_insertKey (key : String) (v : Json) (entries : List (String × Json)) :
    lookup key (insertKey key v entries) = some v := by
  induction entries with
  | nil => simp [insertKey, lookup]
  | cons e rest ih =>
    obtain ⟨k, w⟩ := e
    by_cases h : k = key
    · simp [insertKey, lookup, h]
    · have ih' : (List.find? (fun e => e.1 == key) (insertKey key v rest)).map (·.2) = some v := ih
      simp [insertKey, lookup, h, ih']

end Json

end Typeshift
