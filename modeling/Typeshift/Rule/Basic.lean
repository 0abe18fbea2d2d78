import Typeshift.Diagnostic.Basic
import Typeshift.Text.Quoted
import Typeshift.Tree.Basic

/-! # Rules

A rule looks at a source tree and reports what it finds, when it enters a node and when it leaves
it. Rules only look: they have no influence on the conversion. A registry holds rules under names of
their own.

* `Visitor.run`: what a rule finds in a tree.
* `Registry.register`: add a rule; a name is used once.
* `Registry.run`: what all rules find, in the order in which they were added. -/

namespace Typeshift

/-- A rule: what it reports on entering and on leaving a node. -/
structure Visitor where
  enter : Node → List Diagnostic
  leave : Node → List Diagnostic

namespace Visitor

/-- A rule that reports on entering only. -/
def onEnter (enter : Node → List Diagnostic) : Visitor := ⟨enter, fun _ => []⟩

/-- What a rule finds in a node, given what it finds in its parts. -/
def rule (v : Visitor) (h : Head) (s : Slots (List Diagnostic)) : List Diagnostic :=
  let t := (Tree.mk [] h s).forget
  v.enter t ++ s.toList.flatMap Tree.note ++ v.leave t

/-- **What a rule finds in a tree**, depth first. -/
def run (v : Visitor) (t : Node) : List Diagnostic := t.synthesize v.rule

end Visitor

/-- Why a rule cannot be added. -/
inductive RegistryError where
  | duplicateRule (name : String)
  deriving DecidableEq, Repr

/-- The wording of an error. -/
def RegistryError.message : RegistryError → String
  | .duplicateRule name => "a rule named '" ++ name ++ "' is already registered"

/-- Rules under their names, in the order in which they were added. -/
structure Registry where
  rules : List (String × Visitor)

namespace Registry

/-- No rules. -/
def empty : Registry := ⟨[]⟩

/-- The names of the rules. -/
def names (r : Registry) : List String := r.rules.map Prod.fst

/-- Whether a name is used. -/
def contains (r : Registry) (name : String) : Bool := r.names.contains name

/-- How many rules there are. -/
def size (r : Registry) : Nat := r.rules.length

/-- **Add a rule.** -/
def register (r : Registry) (name : String) (v : Visitor) : Except RegistryError Registry :=
  if r.contains name then .error (.duplicateRule name) else .ok ⟨r.rules ++ [(name, v)]⟩

/-- **What all rules find in a tree.** -/
def run (r : Registry) (t : Node) : List Diagnostic := r.rules.flatMap fun e => e.2.run t

/-- What one rule finds in a tree, `none` if there is no such rule. -/
def runRule? (r : Registry) (name : String) (t : Node) : Option (List Diagnostic) :=
  (r.rules.lookup name).map (·.run t)

/-- The names as a list of quoted texts. -/
def display (r : Registry) : String :=
  "[" ++ ", ".intercalate (r.names.map Text.quoted) ++ "]"

end Registry

end Typeshift
