import Typeshift.Names
import Typeshift.Tree.Basic

/-! # The names in a tree

A generated name must differ from every name the tree mentions: identifiers, type parameters and the
names of markup elements and attributes. -/

namespace Typeshift

/-- The name that a node mentions. -/
def Head.mention? (h : Head) : Option String :=
  if h.isAny [.identifier, .typeParameter, .jsxIdentifier] then some (h.text .name) else none

/-- The names that a tree mentions, in the order of the text. -/
def Node.mentions (t : Node) : List String := t.preorder.filterMap Head.mention?

/-- The supply of names in which all names of a tree are in use. -/
def Node.names (t : Node) : Names := .ofList t.mentions

end Typeshift
