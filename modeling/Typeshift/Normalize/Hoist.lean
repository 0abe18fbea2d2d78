import Typeshift.Tree.Names
import Typeshift.Tree.Source

/-! # Hoisting function types

A function type may stand on the right of an alias, as the value of a property of an object type and
as the signature of a declared function. Anywhere else it is *hoisted*: it gets a name of its own
and the name takes its place. Inner function types are hoisted before those around them, so each one
only refers to names given before.

* `hoist`: the tree with names in place of function types, and the named types in order. -/

namespace Typeshift.Normalize

/-- Where a node stands, as far as hoisting is concerned. -/
inductive Position where
  | other
  /-- The right-hand side of an alias. -/
  | definition
  /-- The value of a property of an object type. -/
  | propertyValue
  /-- The signature of a declared function. -/
  | signature
  deriving DecidableEq, Repr

/-- The position of a child in a slot of a node. An ascription, and an identifier that carries one,
stand for the type in them. -/
def Position.child (p : Position) (h : Head) (f : Field) : Position :=
  match h.tag?, f with
  | some .ascription, _ | some .identifier, _ => p
  | some .typeAlias, .right | some .declareTypeAlias, .right | some .opaqueType, .impltype
  | some .declareOpaqueType, .impltype => .definition
  | some .objectTypeProperty, .value | some .objectTypeCallProperty, .value
  | some .objectTypeInternalSlot, .value => .propertyValue
  | some .declareFunction, .id => .signature
  | _, _ => .other

/-- The base of the names of hoisted types. -/
def baseName : String := "_tmp"

/-- A hoisted function type and its name. -/
structure Hoisted where
  name : String
  type : Node

/-- The names in use, and the hoisted types so far. -/
structure Hoisting where
  names : Names
  hoisted : List Hoisted

/-- Hoist a function type: the node that takes its place. -/
def lift (t : Node) : StateM Hoisting Node := fun st =>
  let (name, names) := st.names.fresh baseName
  ((Source.generic name []).withSpan t.head.span, ⟨names, st.hoisted ++ [⟨name, t⟩]⟩)

/-- What becomes of a node at a position, given what becomes of its parts. -/
def hoistRule (h : Head) (s : Slots (Position → StateM Hoisting Node)) :
    Position → StateM Hoisting Node := fun p => do
  let slots ← s.mapM fun (f, slot) => do
    return (f, ← slot.mapM fun t => t.note (p.child h f))
  let node := Node.make h slots
  if h.is .functionType && p = .other then lift node else return node

/-- **Hoist the function types of a tree.** -/
def hoist (t : Node) : Node × List Hoisted :=
  let (node, st) := t.synthesize hoistRule .other ⟨t.names, []⟩
  (node, st.hoisted)

end Typeshift.Normalize
