import Typeshift.Convert.State
import Typeshift.Tree.Target

/-! # Parts of a conversion

What becomes of a node depends on who asks. Most constructs ask their parts for the converted node;
a link of an optional chain asks for the chain so far, an optional access to a type for the access
without its `undefined`, and a class for its parent as an expression.

* `Outcome`: the answers of a node.
* `Part`: a source tree whose nodes carry their answers. -/

namespace Typeshift.Convert

/-- What a node offers to the construct around it. -/
structure Outcome where
  /-- The converted node, with its comments and span. -/
  convert : Pass Node
  /-- The value of the optional chain that ends here, and its guard if it has one. -/
  chain : Pass (Node × Option Node)
  /-- The access to a type, and whether it may give `undefined`. -/
  access : Pass (Node × Bool)
  /-- The name of a type as an expression. -/
  entity : Pass Node

instance : Inhabited Outcome :=
  ⟨⟨pure default, pure (default, none), pure (default, false), pure default⟩⟩

/-- A source tree whose nodes carry their answers. -/
abbrev Part := Tree Outcome

/-! ### Asking the parts -/

/-- Convert a part. -/
def convertPart (t : Part) : Pass Node := t.note.convert

/-- Convert a part, if there is one. -/
def convertOption : Option Part → Pass (Option Node)
  | none => pure none
  | some t => do return some (← convertPart t)

/-- Convert parts in order. -/
def convertList (ts : List Part) : Pass (List Node) := ts.mapM convertPart

/-- The converted child of a field. -/
def child (s : Slots Outcome) (f : Field) : Pass Node := convertPart (s.child f)

/-- The converted child of a field that may hold one. -/
def child? (s : Slots Outcome) (f : Field) : Pass (Option Node) := convertOption (s.child? f)

/-- The converted children of a field. -/
def children (s : Slots Outcome) (f : Field) : Pass (List Node) := convertList (s.children f)

/-! ### Building nodes -/

/-- A node that takes the place of a source node: it is wrapped in its comments, and has its span
unless it has one already. -/
def attach (h : Head) (t : Node) : Node :=
  (Node.wrapComments h.comments t).withSpan (t.head.span <|> h.span)

/-- A node made for a source node: it has its comments and its span. -/
def atOrigin (h : Head) (t : Node) : Node := (t.withComments h.comments).withSpan h.span

/-- Pass a node through as it is, and report it. -/
def unsupported (h : Head) : Pass Node := do
  report .unsupportedNode h [h.name]
  let raw := match h.kind with
    | .foreign _ raw => raw
    | .known t => .obj [("type", .str t.name)]
  return Node.make ⟨.foreign h.name raw, [], .none, none⟩ []

/-- A node if there is one, and otherwise the source node passed through. -/
def orUnsupported (h : Head) (step : Pass (Option Node)) : Pass Node := do
  match ← step with
  | some t => return t
  | none => unsupported h

/-- Whether a member may only be read: its variance is `-`. The other sign has no counterpart. -/
def isReadOnly (s : Slots Outcome) : Bool :=
  match s.child? .variance with
  | some v => v.head.is .variance && v.head.word? .kind == some .minus
  | none => false

end Typeshift.Convert
