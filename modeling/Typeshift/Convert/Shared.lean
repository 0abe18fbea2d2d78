import Typeshift.Convert.Chain
import Typeshift.Convert.Declaration

/-! # Converting the shared vocabulary

A construct of plain JavaScript keeps its tag. Its fields in the target vocabulary are filled from
those of the source, with the parts converted in the order of the fields.

* `convertShared`: convert a construct of both vocabularies. -/

namespace Typeshift.Convert

/-- The field of the source that fills a field of the target. -/
def sourceField (t : Tag) (f : Field) : Field :=
  if (t = .callExpression || t = .newExpression) && f = .typeParameters then .typeArguments else f

/-- Whether the body of a construct has a scope of its own for temporaries. -/
def hasScope : Tag → Bool
  | .functionDeclaration | .functionExpression | .arrowFunctionExpression | .classMethod
  | .classPrivateMethod | .objectMethod => true
  | _ => false

/-- What an import brings in; `typeof` has no counterpart and becomes `type`. -/
def importKind : Option Word → Word
  | none | some .value => .value
  | _ => .type

/-- An attribute of the target. One that the source does not have is a flag: a member is read-only
by its variance, and nothing says that it is ambient. -/
def convertAttr (h : Head) (s : Slots Outcome) (f : Field) : Attr :=
  match f with
  | .importKind => .word (importKind (h.word? .importKind))
  | .exportKind => .word ((h.word? .exportKind).getD .value)
  | f => (h.attr? f).getD (.flag (f == .isReadonly && isReadOnly s))

/-- A slot of the target. -/
def convertSlot (t : Tag) (s : Slots Outcome) (f : Field) : Pass (Slot Node) := do
  match s.get? (sourceField t f) with
  | none => return .maybe none
  | some slot =>
    if t = .program && f = .body then
      let (body, names) ← inScope (convertStatements slot.toList)
      return .many (declareInProgram names body)
    else slot.mapM (if hasScope t && f = .body then functionBody else convertPart)

/-- **Convert a construct of both vocabularies.** -/
def convertShared (t : Tag) (h : Head) (s : Slots Outcome) : Pass Node := do
  let fields := t.fields .target
  let slots ← (fields.filter FieldSpec.isSlot).mapM fun spec => do
    return (spec.field, ← convertSlot t s spec.field)
  let attrs := (fields.filter (!·.isSlot)).map fun spec =>
    (spec.field, convertAttr h s spec.field)
  return Node.of t attrs (t.slotOrder.filterMap fun f => (slots.lookup f).map (f, ·))

end Typeshift.Convert
