import Typeshift.Print.Place

/-! # Types

The text of types and of the members of object types. -/

namespace Typeshift.Print

open Script

/-- Types separated by an operator; an empty list has a name of its own. -/
def operatorList (ts : List (Tree Printed)) (sep empty : String) (least : TypePrecedence) :
    Script :=
  if ts.isEmpty then text empty else separated sep (ts.map fun t => t.note (.type least))

/-- Things in braces, each written at a place of its own; `{}` if there is nothing to write. -/
def membersBlock (h : Head) (ts : List (Tree Printed)) (place : Place) (pending : Comments) :
    Script :=
  if ts.isEmpty && h.comments.inner.isEmpty then text "\x7b\x7d"
  else braces (ts.flatMap (·.note place) ++ comments .lines pending.inner)

/-- The text of a type. -/
def typeKind (h : Head) (s : Slots Printed) (pending : Comments) : Script :=
  match h.tag? with
  | some .tsAscription => typeText (s.child .ty)
  | some .tsAnyKeyword => text "any"
  | some .tsUnknownKeyword => text "unknown"
  | some .tsNeverKeyword => text "never"
  | some .tsVoidKeyword => text "void"
  | some .tsNullKeyword => text "null"
  | some .tsUndefinedKeyword => text "undefined"
  | some .tsNumberKeyword => text "number"
  | some .tsStringKeyword => text "string"
  | some .tsBooleanKeyword => text "boolean"
  | some .tsSymbolKeyword => text "symbol"
  | some .tsBigIntKeyword => text "bigint"
  | some .tsThisType => text "this"
  | some .tsLiteralType => expression (s.child .literal) .unary
  | some .tsArrayType => (s.child .elementType).note (.type .access) ++ text "[]"
  | some .tsTupleType => between "[" "]" (commas ((s.children .elementTypes).map typeText))
  | some .tsUnionType => operatorList (s.children .types) " | " "never" .intersection
  | some .tsIntersectionType => operatorList (s.children .types) " & " "unknown" .operator
  | some .tsFunctionType =>
    typeParameters s ++ parameters (s.children .parameters) ++ text " => "
      ++ typeText (s.child .ty)
  | some .tsTypeReference =>
    expression (s.child .typeName) .primary ++ typeArguments (s.child? .typeParameters)
  | some .tsTypeQuery => text "typeof " ++ expression (s.child .exprName) .primary
  | some .tsTypeOperator =>
    text (h.text .operator) ++ space ++ (s.child .ty).note (.type .operator)
  | some .tsIndexedAccessType =>
    (s.child .objectType).note (.type .access) ++ between "[" "]" (typeText (s.child .indexType))
  | some .tsTypeLiteral => membersBlock h (s.children .members) .typeMember pending
  | some .tsInterfaceBody => membersBlock h (s.children .body) .typeMember pending
  | some .tsTypeParameterDeclaration | some .tsTypeParameterInstantiation =>
    angled (s.children .params)
  | some .tsTypeParameter =>
    text (h.text .name) ++ after " extends " (s.child? .constraint) (.type .function)
      ++ after " = " (s.child? .default) (.type .function)
  | _ => []

/-- `get` or `set` before a method of that kind. -/
def accessor (h : Head) : Script :=
  match h.word? .kind with
  | some .get => text "get "
  | some .set => text "set "
  | _ => []

/-- The text of a member of an object type. -/
def typeMemberText (h : Head) (s : Slots Printed) : Script :=
  let optionalMark := flagged h .isOptional "?"
  let name := memberName (s.child .key) (h.flag .isComputed)
  let type := ascription (s.child? .ty)
  match h.tag? with
  | some .tsPropertySignature => flagged h .isReadonly "readonly " ++ name ++ optionalMark ++ type
  | some .tsMethodSignature =>
    accessor h ++ name ++ optionalMark ++ typeParameters s ++ parameters (s.children .parameters)
      ++ type
  | some .tsIndexSignature =>
    flagged h .isStatic "static " ++ flagged h .isReadonly "readonly "
      ++ between "[" "]" (expressions (s.children .parameters) .assignment) ++ type
  | some .tsCallSignatureDeclaration =>
    typeParameters s ++ parameters (s.children .parameters) ++ type
  | _ => []

end Typeshift.Print
