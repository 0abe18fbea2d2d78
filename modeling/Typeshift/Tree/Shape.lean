import Typeshift.Tree.Field
import Typeshift.Tree.Tag
import Typeshift.Tree.Word

/-! # Shapes

The *shape* of a tag lists its fields in the order in which they are written, with what each holds
and what may stand in for a missing value. A field of a shared tag may belong to one vocabulary
only. Children are visited in *slot order*, which follows the text of the construct and not the
order of the fields.

* `Tag.shape`: the fields of a tag.
* `Tag.slotOrder`: its fields that hold nodes, in the order of a traversal. -/

namespace Typeshift

/-- What a field holds. -/
inductive FieldType where
  | node
  | nodes
  | holes
  | text
  | flag
  | number
  | extra
  | template
  | word (choices : List Word)
  deriving DecidableEq, Repr

/-- What may stand in for the value of a field. -/
inductive Presence where
  /-- The value must be there. -/
  | required
  /-- A missing value and `null` both mean that there is none. -/
  | optional
  /-- A missing value means the default, `null` is not allowed. -/
  | orMissing
  /-- A missing value and `null` both mean the default. -/
  | orNull
  deriving DecidableEq, Repr

/-- A field of a shape. -/
structure FieldSpec where
  field : Field
  type : FieldType
  presence : Presence
  /-- The vocabulary the field is limited to. -/
  side : Option Side
  /-- A second key under which the field may be written. -/
  otherKey : Option String
  /-- The default of a flag that may be missing. -/
  flagDefault : Bool
  deriving DecidableEq, Repr

namespace FieldSpec

/-- A field of both vocabularies with one key. -/
def plain (type : FieldType) (presence : Presence) (f : Field) : FieldSpec :=
  ⟨f, type, presence, none, none, false⟩

/-- One child. -/
def one : Field → FieldSpec := plain .node .required
/-- One child or none. -/
def maybe : Field → FieldSpec := plain .node .optional
/-- A list of children. -/
def many : Field → FieldSpec := plain .nodes .required
/-- A list of children that may be missing. -/
def manyOrMissing : Field → FieldSpec := plain .nodes .orMissing
/-- A list of children that may be missing or `null`. -/
def manyOrNull : Field → FieldSpec := plain .nodes .orNull
/-- A list of children with gaps. -/
def holes : Field → FieldSpec := plain .holes .required
/-- A text. -/
def text : Field → FieldSpec := plain .text .required
/-- A text that is empty when missing. -/
def textOrMissing : Field → FieldSpec := plain .text .orMissing
/-- A text or none. -/
def textOrNone : Field → FieldSpec := plain .text .optional
/-- A flag. -/
def flag : Field → FieldSpec := plain .flag .required
/-- A flag that is false when missing. -/
def flagOrMissing : Field → FieldSpec := plain .flag .orMissing
/-- A flag that is false when missing or `null`. -/
def flagOrNull : Field → FieldSpec := plain .flag .orNull
/-- A flag that is true when missing. -/
def flagOrTrue (f : Field) : FieldSpec := { flagOrMissing f with flagDefault := true }
/-- A number. -/
def number : Field → FieldSpec := plain .number .required
/-- The extra record of a literal, or none. -/
def extra : Field → FieldSpec := plain .extra .optional
/-- The two texts of a piece of a template. -/
def template : Field → FieldSpec := plain .template .required
/-- One of some words. -/
def word (f : Field) (choices : List Word) : FieldSpec := plain (.word choices) .required f
/-- One of some words, or none. -/
def wordOrNone (f : Field) (choices : List Word) : FieldSpec := plain (.word choices) .optional f
/-- One of some words, the first when missing. -/
def wordOrFirst (f : Field) (choices : List Word) : FieldSpec := plain (.word choices) .orMissing f

/-- The field, limited to the source vocabulary. -/
def sourceOnly (s : FieldSpec) : FieldSpec := { s with side := some .source }
/-- The field, limited to the target vocabulary. -/
def targetOnly (s : FieldSpec) : FieldSpec := { s with side := some .target }
/-- The field with a second key. -/
def alsoKeyed (s : FieldSpec) (key : String) : FieldSpec := { s with otherKey := some key }

/-- Whether the field holds nodes. -/
def isSlot (s : FieldSpec) : Bool :=
  match s.type with
  | .node | .nodes | .holes => true
  | _ => false

/-- Whether the field belongs to a vocabulary. -/
def isIn (side : Side) (s : FieldSpec) : Bool := s.side == none || s.side == some side

/-- Whether the field is written under a key. -/
def hasKey (s : FieldSpec) (key : String) : Bool := s.field.jsonKey == key || s.otherKey == some key

end FieldSpec

namespace Tag

open FieldSpec Word

/-- **The fields of a tag**, in the order in which they are written. -/
def shape : Tag → List FieldSpec
  | .file => [one .program]
  | .program => [many .body, manyOrMissing .directives, textOrNone .sourceType, maybe .interpreter]
  | .directive | .declaredPredicate => [one .value]
  | .directiveLiteral | .stringLiteral | .bigIntLiteral | .jsxText | .stringLiteralType =>
    [text .value, extra .extra]
  | .interpreterDirective => [text .value]
  | .blockStatement => [many .body, manyOrMissing .directives]
  | .expressionStatement | .decorator | .parenthesizedExpression | .jsxExpressionContainer
  | .jsxSpreadChild | .tsExportAssignment => [one .expression]
  | .ifStatement => [one .test, one .consequent, maybe .alternate]
  | .labeledStatement => [one .label, one .body]
  | .breakStatement | .continueStatement => [maybe .label]
  | .withStatement => [one .object, one .body]
  | .switchStatement => [one .discriminant, many .cases]
  | .switchCase => [maybe .test, many .consequent]
  | .returnStatement => [maybe .argument]
  | .throwStatement | .spreadElement | .awaitExpression | .jsxSpreadAttribute | .typeofType
  | .objectTypeSpreadProperty => [one .argument]
  | .tryStatement => [one .block, maybe .handler, maybe .finalizer]
  | .catchClause => [maybe .param, one .body]
  | .whileStatement => [one .test, one .body]
  | .doWhileStatement => [one .body, one .test]
  | .forStatement => [maybe .init, maybe .test, maybe .update, one .body]
  | .forInStatement => [one .left, one .right, one .body]
  | .forOfStatement => [one .left, one .right, one .body, flagOrMissing .isAwait]
  | .variableDeclaration =>
    [word .kind variableKinds, many .declarations, (flag .isDeclare).targetOnly]
  | .variableDeclarator => [one .id, maybe .init]
  | .functionDeclaration | .functionExpression =>
    [maybe .id, many .params, one .body, flagOrMissing .isGenerator, flagOrMissing .isAsync,
      maybe .typeParameters, maybe .returnType, (maybe .predicate).sourceOnly]
  | .arrowFunctionExpression =>
    [many .params, one .body, flagOrMissing .isAsync, maybe .typeParameters, maybe .returnType,
      (maybe .predicate).sourceOnly]
  | .classDeclaration =>
    [maybe .id, maybe .superClass, maybe .superTypeParameters, maybe .typeParameters,
      manyOrNull .implements, one .body, manyOrNull .decorators, (flag .isDeclare).targetOnly]
  | .classExpression =>
    [maybe .id, maybe .superClass, maybe .superTypeParameters, maybe .typeParameters,
      manyOrNull .implements, one .body, manyOrNull .decorators]
  | .classBody | .tsInterfaceBody | .tsModuleBlock => [many .body]
  | .classMethod =>
    [word .kind methodKinds, one .key, many .params, one .body, flagOrMissing .isComputed,
      flagOrMissing .isStatic, flagOrMissing .isAsync, flagOrMissing .isGenerator,
      maybe .typeParameters, maybe .returnType, manyOrNull .decorators]
  | .classPrivateMethod =>
    [word .kind methodKinds, one .key, many .params, one .body, flagOrMissing .isStatic,
      flagOrMissing .isAsync, flagOrMissing .isGenerator, maybe .typeParameters,
      maybe .returnType]
  | .classProperty =>
    [one .key, maybe .value, maybe .ty, flagOrMissing .isComputed, flagOrMissing .isStatic,
      (maybe .variance).sourceOnly, (flag .isReadonly).targetOnly, flagOrNull .isOptional,
      flagOrNull .isDeclare, manyOrNull .decorators]
  | .classPrivateProperty =>
    [one .key, maybe .value, maybe .ty, flagOrMissing .isStatic, (maybe .variance).sourceOnly,
      (flag .isReadonly).targetOnly, flagOrNull .isOptional]
  | .privateName | .declareVariable => [one .id]
  | .classImplements | .interfaceExtends | .genericType => [one .id, maybe .typeParameters]
  | .tsDeclareMethod =>
    [word .kind methodKinds, one .key, many .params, flag .isComputed, flag .isStatic,
      flag .isOptional, maybe .typeParameters, maybe .returnType]
  | .importDeclaration => [many .specifiers, one .source, wordOrNone .importKind importKinds]
  | .importSpecifier => [one .imported, one .localName, wordOrNone .importKind importKinds]
  | .importDefaultSpecifier | .importNamespaceSpecifier => [one .localName]
  | .exportNamedDeclaration =>
    [maybe .declaration, manyOrMissing .specifiers, maybe .source,
      wordOrNone .exportKind exportKinds]
  | .exportDefaultDeclaration => [one .declaration]
  | .exportAllDeclaration | .declareExportAllDeclaration =>
    [one .source, wordOrNone .exportKind exportKinds]
  | .exportSpecifier => [one .localName, one .exported]
  | .exportNamespaceSpecifier | .exportDefaultSpecifier => [one .exported]
  | .identifier => [text .name, maybe .ty, flagOrNull .isOptional]
  | .numericLiteral | .numberLiteralType => [number .value, extra .extra]
  | .booleanLiteral | .booleanLiteralType => [flag .value]
  | .regExpLiteral => [text .pattern, textOrMissing .flags]
  | .templateLiteral => [many .quasis, many .expressions]
  | .templateElement => [template .value, flagOrMissing .isTail]
  | .taggedTemplateExpression => [one .tag, one .quasi, maybe .typeParameters]
  | .metaProperty => [one .metaName, one .property]
  | .arrayExpression => [holes .elements]
  | .objectExpression => [many .properties]
  | .objectProperty =>
    [one .key, one .value, flagOrMissing .isComputed, flagOrMissing .isShorthand,
      manyOrNull .decorators]
  | .objectMethod =>
    [word .kind methodKinds, one .key, many .params, one .body, flagOrMissing .isComputed,
      flagOrMissing .isAsync, flagOrMissing .isGenerator, maybe .typeParameters,
      maybe .returnType]
  | .unaryExpression => [text .operator, one .argument, flagOrTrue .operatorFirst]
  | .updateExpression => [text .operator, one .argument, flagOrMissing .operatorFirst]
  | .binaryExpression | .logicalExpression | .assignmentExpression =>
    [text .operator, one .left, one .right]
  | .conditionalExpression => [one .test, one .consequent, one .alternate]
  | .callExpression =>
    [one .callee, many .arguments, (maybe .typeArguments).sourceOnly,
      (maybe .typeParameters).targetOnly]
  | .newExpression =>
    [one .callee, manyOrMissing .arguments, (maybe .typeArguments).sourceOnly,
      (maybe .typeParameters).targetOnly]
  | .memberExpression => [one .object, one .property, flagOrMissing .isComputed]
  | .optionalMemberExpression =>
    [one .object, one .property, flagOrMissing .isComputed, flagOrMissing .isOptional]
  | .optionalCallExpression =>
    [one .callee, many .arguments, flagOrMissing .isOptional, maybe .typeArguments]
  | .sequenceExpression => [many .expressions]
  | .yieldExpression => [maybe .argument, flagOrMissing .isDelegate]
  | .typeCastExpression | .tsAsExpression => [one .expression, one .ty]
  | .objectPattern => [many .properties, maybe .ty]
  | .arrayPattern => [holes .elements, maybe .ty]
  | .restElement => [one .argument, maybe .ty]
  | .assignmentPattern | .tsQualifiedName => [one .left, one .right]
  | .jsxElement => [one .openingElement, maybe .closingElement, many .children]
  | .jsxOpeningElement => [one .name, many .attributes, flagOrMissing .isSelfClosing]
  | .jsxClosingElement => [one .name]
  | .jsxFragment => [one .openingFragment, one .closingFragment, many .children]
  | .jsxAttribute => [one .name, maybe .value]
  | .jsxIdentifier => [text .name]
  | .jsxMemberExpression => [one .object, one .property]
  | .jsxNamespacedName => [one .nspace, one .name]
  | .typeAlias | .declareTypeAlias => [one .id, maybe .typeParameters, one .right]
  | .opaqueType => [one .id, maybe .typeParameters, maybe .supertype, one .impltype]
  | .interfaceDeclaration | .declareInterface =>
    [one .id, maybe .typeParameters, manyOrNull .heritage, one .body]
  | .declareFunction => [one .id, maybe .predicate]
  | .declareOpaqueType => [one .id, maybe .typeParameters, maybe .supertype, maybe .impltype]
  | .declareClass =>
    [one .id, maybe .typeParameters, manyOrNull .heritage, one .body, manyOrNull .implements,
      manyOrNull .mixins]
  | .declareModule => [one .id, one .body, textOrNone .kind]
  | .declareExportDeclaration =>
    [maybe .declaration, manyOrNull .specifiers, maybe .source, flagOrNull .default]
  | .declareModuleExports | .ascription | .nullableType | .tsAscription => [one .ty]
  | .typeParameterDeclaration | .typeParameterInstantiation | .tsTypeParameterDeclaration
  | .tsTypeParameterInstantiation => [many .params]
  | .typeParameter => [text .name, maybe .bound, maybe .variance, maybe .default]
  | .variance => [word .kind varianceKinds]
  | .bigIntLiteralType => [textOrNone .value, extra .extra]
  | .arrayType | .tsArrayType => [one .elementType]
  | .tupleType => [(many .types).alsoKeyed "elementTypes"]
  | .unionType | .intersectionType | .tsUnionType | .tsIntersectionType => [many .types]
  | .indexedAccessType | .tsIndexedAccessType => [one .objectType, one .indexType]
  | .optionalIndexedAccessType => [one .objectType, one .indexType, flagOrMissing .isOptional]
  | .functionType =>
    [maybe .typeParameters, many .params, maybe .rest, one .returnType, maybe .receiver]
  | .functionTypeParam => [maybe .name, one .ty, flagOrNull .isOptional]
  | .qualifiedTypeIdentifier => [one .qualification, one .id]
  | .objectType =>
    [many .properties, manyOrNull .indexers, manyOrNull .callProperties,
      manyOrNull .internalSlots, flagOrMissing .isExact, flagOrNull .isInexact]
  | .objectTypeProperty =>
    [one .key, one .value, flagOrMissing .isOptional, flagOrMissing .isStatic,
      flagOrMissing .isProto, flagOrMissing .isMethod, wordOrFirst .kind propertyKinds,
      maybe .variance]
  | .objectTypeIndexer =>
    [maybe .id, one .key, one .value, maybe .variance, flagOrMissing .isStatic]
  | .objectTypeCallProperty => [one .value, flagOrMissing .isStatic]
  | .objectTypeInternalSlot =>
    [one .id, one .value, flagOrMissing .isOptional, flagOrMissing .isStatic,
      flagOrMissing .isMethod]
  | .interfaceType => [manyOrNull .heritage, one .body]
  | .tsTypeAliasDeclaration => [one .id, maybe .typeParameters, one .ty, flag .isDeclare]
  | .tsInterfaceDeclaration =>
    [one .id, maybe .typeParameters, many .heritage, one .body, flag .isDeclare]
  | .tsExpressionWithTypeArguments => [one .expression, maybe .typeParameters]
  | .tsModuleDeclaration => [one .id, one .body, flag .isDeclare]
  | .tsDeclareFunction =>
    [one .id, maybe .typeParameters, many .params, maybe .returnType, flag .isDeclare,
      flag .isAsync, flag .isGenerator]
  | .tsTypeParameter => [text .name, maybe .constraint, maybe .default]
  | .tsLiteralType => [one .literal]
  | .tsTupleType => [many .elementTypes]
  | .tsFunctionType => [maybe .typeParameters, many .parameters, one .ty]
  | .tsTypeReference => [one .typeName, maybe .typeParameters]
  | .tsTypeQuery => [one .exprName]
  | .tsTypeOperator => [text .operator, one .ty]
  | .tsTypeLiteral => [many .members]
  | .tsPropertySignature =>
    [one .key, flag .isComputed, flag .isOptional, flag .isReadonly, maybe .ty]
  | .tsMethodSignature =>
    [one .key, flag .isComputed, flag .isOptional, word .kind methodKinds, maybe .typeParameters,
      many .parameters, maybe .ty]
  | .tsIndexSignature => [many .parameters, maybe .ty, flag .isReadonly, flag .isStatic]
  | .tsCallSignatureDeclaration => [maybe .typeParameters, many .parameters, maybe .ty]
  | _ => []

/-- The fields of a tag that hold nodes, in the order of a traversal. -/
def slotOrder : Tag → List Field
  | .program => [.interpreter, .directives, .body]
  | .blockStatement => [.directives, .body]
  | .functionDeclaration | .functionExpression =>
    [.id, .typeParameters, .params, .returnType, .predicate, .body]
  | .arrowFunctionExpression => [.typeParameters, .params, .returnType, .predicate, .body]
  | .classDeclaration | .classExpression =>
    [.decorators, .id, .typeParameters, .superClass, .superTypeParameters, .implements, .body]
  | .classMethod => [.decorators, .key, .typeParameters, .params, .returnType, .body]
  | .classPrivateMethod | .objectMethod => [.key, .typeParameters, .params, .returnType, .body]
  | .classProperty => [.decorators, .key, .variance, .ty, .value]
  | .classPrivateProperty => [.key, .variance, .ty, .value]
  | .tsDeclareMethod => [.key, .typeParameters, .params, .returnType]
  | .taggedTemplateExpression => [.tag, .typeParameters, .quasi]
  | .objectProperty => [.decorators, .key, .value]
  | .callExpression | .newExpression => [.callee, .typeArguments, .typeParameters, .arguments]
  | .optionalCallExpression => [.callee, .typeArguments, .arguments]
  | .jsxElement => [.openingElement, .children, .closingElement]
  | .jsxFragment => [.openingFragment, .children, .closingFragment]
  | .declareClass => [.id, .typeParameters, .heritage, .mixins, .implements, .body]
  | .functionType => [.typeParameters, .receiver, .params, .rest, .returnType]
  | .objectTypeProperty => [.key, .variance, .value]
  | .objectTypeIndexer => [.variance, .id, .key, .value]
  | t => (t.shape.filter isSlot).map (·.field)

/-- The fields of a tag in one vocabulary. -/
def fields (side : Side) (t : Tag) : List FieldSpec := t.shape.filter (FieldSpec.isIn side)

end Tag

end Typeshift
