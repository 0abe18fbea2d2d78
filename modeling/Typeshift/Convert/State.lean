import Typeshift.Diagnostic.Basic
import Typeshift.Names
import Typeshift.Tree.Basic

/-! # The state of a conversion

A conversion gives out fresh names, collects diagnostics, and knows how many ambient contexts are
around it and which temporaries the functions around it have to declare. -/

namespace Typeshift.Convert

/-- The state of a conversion. -/
structure State where
  /-- The names of the source and those given out. -/
  names : Names
  diagnostics : List Diagnostic
  /-- The number of ambient contexts around. -/
  depth : Nat
  /-- The temporaries of the functions and programs around, those of the innermost first. -/
  scopes : List (List String)

/-- The state at the start, with some names in use. -/
def State.start (names : Names) : State := ⟨names, [], 0, []⟩

instance : Inhabited State := ⟨.start .empty⟩

/-- A step of a conversion. -/
abbrev Pass := StateM State

variable {α : Type}

/-- Report a finding at a node. -/
def report (f : Finding) (h : Head) (args : List String) : Pass Unit :=
  modify fun st => { st with diagnostics := st.diagnostics ++ [.ofFinding f h.span args] }

/-- A fresh name. -/
def freshName (base : String) : Pass String := fun st =>
  let (name, names) := st.names.fresh base
  (name, { st with names := names })

/-- The base of the names of temporaries. -/
def temporaryBase : String := "_a"

/-- A fresh temporary of the innermost function or program; outside of any it stays undeclared. -/
def freshTemporary : Pass String := do
  let name ← freshName temporaryBase
  modify fun st => { st with scopes := st.scopes.modifyHead (· ++ [name]) }
  return name

/-- Run a step in a scope of its own: its result and the temporaries that the scope declares. -/
def inScope (step : Pass α) : Pass (α × List String) := fun st =>
  let (a, st') := step { st with scopes := [] :: st.scopes }
  ((a, st'.scopes.headD []), { st' with scopes := st'.scopes.tail })

/-- Run a step in an ambient context. -/
def inAmbient (step : Pass α) : Pass α := fun st =>
  let (a, st') := step { st with depth := st.depth + 1 }
  (a, { st' with depth := st'.depth - 1 })

/-- Whether a declaration has to say that it is ambient. -/
def declares : Pass Bool := return (← get).depth == 0

end Typeshift.Convert
