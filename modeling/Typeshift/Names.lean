/-! # Fresh names

A supply of names keeps the names in use. A fresh name for a base is the base itself if it is free,
and otherwise the base followed by the least number from `2` up that makes a free name; it is then
in use too.

* `Names.reserve`: put a name in use.
* `Names.fresh`: a fresh name and the supply after it. -/

namespace Typeshift

/-- The names in use, each once. -/
structure Names where
  used : List String
  deriving Repr

namespace Names

/-- No names in use. -/
def empty : Names := ⟨[]⟩

instance : Inhabited Names := ⟨empty⟩

/-- Whether a name is in use. -/
def contains (s : Names) (name : String) : Bool := s.used.contains name

/-- How many names are in use. -/
def size (s : Names) : Nat := s.used.length

/-- Put a name in use. -/
def reserve (s : Names) (name : String) : Names :=
  if s.contains name then s else ⟨name :: s.used⟩

/-- The supply that starts with some names in use. -/
def ofList (names : List String) : Names := names.foldl reserve empty

/-- The candidates for a base after the base itself: one more than there are names in use, so that
one of them is free. -/
def candidates (s : Names) (base : String) : List String :=
  (List.range' 2 (s.size + 1)).map fun k => base ++ Nat.repr k

/-- **A fresh name for a base.** -/
def freshName (s : Names) (base : String) : String :=
  if s.contains base then ((s.candidates base).find? fun n => !s.contains n).getD base else base

/-- A fresh name and the supply in which it is in use. -/
def fresh (s : Names) (base : String) : String × Names :=
  let name := s.freshName base
  (name, s.reserve name)

@[simp] theorem contains_empty (name : String) : empty.contains name = false := rfl

@[simp] theorem contains_reserve (s : Names) (name other : String) :
    (s.reserve name).contains other = (s.contains other || other == name) := by
  unfold reserve
  split
  · rename_i h
    by_cases ho : other = name
    · subst ho; simp [h]
    · simp [ho]
  · simp only [contains, List.contains_cons]
    exact Bool.or_comm _ _

end Names

end Typeshift
