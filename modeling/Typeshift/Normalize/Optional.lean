import Typeshift.Tree.Basic

/-! # Marking optional parts

A part that accepts null may be left out, so it is marked optional: a parameter of a function type
with a nullable type, a named parameter of a function or method that is annotated with one, and a
class property that is. Other identifiers keep their flag.

* `Node.markOptional`: mark the parts of a tree and count the marks. -/

namespace Typeshift.Normalize

/-- Whether an annotation gives a nullable type, given the answer for the parts: an ascription of
one does, and so does an identifier that carries one. -/
def nullableRule (h : Head) (s : Slots Bool) : Bool :=
  match h.tag? with
  | some .ascription => ((s.child? .ty).map (·.head.is .nullableType)).getD false
  | some .identifier => ((s.child? .ty).map Tree.note).getD false
  | _ => false

/-- Whether an annotation gives a nullable type. -/
def givesNullable {ρ : Type} (t : Tree ρ) : Bool := t.synthesize nullableRule

/-- Whether the parameters of a construct may be marked. -/
def hasParameters (h : Head) : Bool :=
  h.isAny [.functionDeclaration, .functionExpression, .arrowFunctionExpression, .classMethod,
    .classPrivateMethod, .objectMethod]

/-- A tree with its marks, and their number. -/
structure Marked where
  node : Node
  count : Nat

instance : Inhabited Marked := ⟨⟨default, 0⟩⟩

namespace Marked

/-- The mark on a node, unless it has one. -/
def mark : Node → Marked
  | .mk n h s =>
    if h.flag .isOptional then ⟨.mk n h s, 0⟩
    else ⟨.mk n (h.setAttr .isOptional (.flag true)) s, 1⟩

/-- The mark on a node, if a condition holds. -/
def markIf (b : Bool) (m : Marked) : Marked :=
  if b then ⟨(mark m.node).node, m.count + (mark m.node).count⟩ else m

end Marked

/-- Whether a node is marked because of its own type. -/
def marksItself {ρ : Type} (h : Head) (s : Slots ρ) : Bool :=
  match h.tag? with
  | some .functionTypeParam => ((s.child? .ty).map (·.head.is .nullableType)).getD false
  | some .classProperty | some .classPrivateProperty =>
    ((s.child? .ty).map givesNullable).getD false
  | _ => false

/-- Whether a child in a slot is marked as a parameter. -/
def marksChild {ρ : Type} (h : Head) (f : Field) (t : Tree ρ) : Bool :=
  hasParameters h && f = .params && t.head.is .identifier && givesNullable t

/-- The marks on a node, given those on its parts. -/
def markRule (h : Head) (s : Slots Marked) : Marked :=
  let parts := s.map fun (f, slot) =>
    (f, slot.map fun (t : Tree Marked) => t.note.markIf (marksChild h f t))
  let node := Node.make h (parts.map fun (f, slot) => (f, slot.map Marked.node))
  let counts := parts.flatMap fun (_, slot) => slot.toList.map Marked.count
  let count := counts.foldr (· + ·) 0
  (Marked.mk node count).markIf (marksItself h s)

/-- **Mark the optional parts of a tree.** -/
def markOptional (t : Node) : Marked := t.synthesize markRule

end Typeshift.Normalize
