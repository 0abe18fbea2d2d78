import Typeshift.Rule.Basic

/-! # Lossy conversions

The built-in rule reports the constructs whose conversion loses information about types. -/

namespace Typeshift

namespace Lossy

/-- The name of the rule. -/
def name : String := "lossy-conversions"

/-- Whether a node has the variance `+`. -/
def isCovariant (s : Slots Unit) : Bool :=
  match s.child? .variance with
  | some v => v.head.is .variance && v.head.word? .kind == some .plus
  | none => false

/-- The name of a key, given that of the name inside a private one. -/
def keyRule (h : Head) (s : Slots String) : String :=
  match h.tag? with
  | some .identifier => h.text .name
  | some .stringLiteral => h.text .value
  | some .privateName => ((s.child? .id).map Tree.note).getD ""
  | _ => "<computed>"

/-- The name of a key. -/
def keyName (t : Node) : String := t.synthesize keyRule

/-- What is lost at a node. -/
def enter (t : Node) : List Diagnostic :=
  let h := t.head
  let s := t.slots
  let found (f : Finding) (args : List String) : List Diagnostic := [.ofFinding f h.span args]
  match h.tag? with
  | some .objectType => if h.flag .isExact then found .exactObjectType [] else []
  | some .objectTypeProperty | some .classProperty | some .classPrivateProperty =>
    if isCovariant s then found .varianceDropped [keyName (s.child .key)] else []
  | some .objectTypeIndexer => if isCovariant s then found .varianceDropped ["[indexer]"] else []
  | some .genericType =>
    if (s.child .id).head.identifier? = some "$Diff" then found .diffWidened [] else []
  | some .existsType => found .existentialType []
  | some .objectTypeInternalSlot => found .internalSlotDropped [keyName (s.child .id)]
  | some .importDeclaration =>
    if h.word? .importKind = some .typeof then found .typeofImport [keyName (s.child .source)]
    else []
  | some .importSpecifier =>
    if h.word? .importKind = some .typeof then found .typeofImport [keyName (s.child .localName)]
    else []
  | _ => []

/-- The rule. -/
def visitor : Visitor := .onEnter enter

end Lossy

/-- The registry of the built-in rules. -/
def Registry.builtin : Registry := ⟨[(Lossy.name, Lossy.visitor)]⟩

end Typeshift
