/-! # Tags

A node of a syntax tree carries a *tag* that says which construct it is. Two vocabularies are in
use: the *source* vocabulary is JavaScript with Flow types, the *target* vocabulary JavaScript with
TypeScript types. They share the tags of plain JavaScript and JSX, so one enumeration holds both, in
an order that lists each vocabulary in its own order.

* `Tag.name`: the name of a tag in JSON.
* `Tag.source`, `Tag.target`: the two vocabularies.
* `Tag.ofName?`: the tag of a vocabulary with a given name. -/

namespace Typeshift

/-- One of the two vocabularies. -/
inductive Side where
  | source
  | target
  deriving DecidableEq, Repr

/-- The constructs of both vocabularies. -/
inductive Tag where
  -- Program structure
  | file | program | directive | directiveLiteral | interpreterDirective
  -- Statements
  | blockStatement | expressionStatement | emptyStatement | debuggerStatement | ifStatement
  | labeledStatement | breakStatement | continueStatement | withStatement | switchStatement
  | switchCase | returnStatement | throwStatement | tryStatement | catchClause | whileStatement
  | doWhileStatement | forStatement | forInStatement | forOfStatement | variableDeclaration
  | variableDeclarator
  -- Functions
  | functionDeclaration | functionExpression | arrowFunctionExpression
  -- Classes
  | classDeclaration | classExpression | classBody | classMethod | classPrivateMethod
  | classProperty | classPrivateProperty | privateName | decorator | classImplements
  | tsDeclareMethod
  -- Modules
  | importDeclaration | importSpecifier | importDefaultSpecifier | importNamespaceSpecifier
  | exportNamedDeclaration | exportDefaultDeclaration | exportAllDeclaration | exportSpecifier
  | exportNamespaceSpecifier | exportDefaultSpecifier
  -- Expressions
  | identifier | stringLiteral | numericLiteral | bigIntLiteral | booleanLiteral | nullLiteral
  | regExpLiteral | templateLiteral | templateElement | taggedTemplateExpression | thisExpression
  | superKeyword | importKeyword | metaProperty | arrayExpression | objectExpression
  | objectProperty | objectMethod | spreadElement | unaryExpression | updateExpression
  | binaryExpression | logicalExpression | assignmentExpression | conditionalExpression
  | callExpression | newExpression | memberExpression | optionalMemberExpression
  | optionalCallExpression | sequenceExpression | awaitExpression | yieldExpression
  | parenthesizedExpression | typeCastExpression | tsAsExpression
  -- Patterns
  | objectPattern | arrayPattern | restElement | assignmentPattern
  -- JSX
  | jsxElement | jsxOpeningElement | jsxClosingElement | jsxFragment | jsxOpeningFragment
  | jsxClosingFragment | jsxAttribute | jsxSpreadAttribute | jsxExpressionContainer
  | jsxEmptyExpression | jsxSpreadChild | jsxText | jsxIdentifier | jsxMemberExpression
  | jsxNamespacedName
  -- Flow declarations
  | typeAlias | opaqueType | interfaceDeclaration | interfaceExtends | declareVariable
  | declareFunction | declareTypeAlias | declareOpaqueType | declareInterface | declareClass
  | declareModule | declareExportDeclaration | declareExportAllDeclaration | declareModuleExports
  | declaredPredicate | inferredPredicate
  -- Flow types
  | ascription | typeParameterDeclaration | typeParameter | typeParameterInstantiation | variance
  | anyType | mixedType | emptyType | voidType | nullType | numberType | stringType | booleanType
  | symbolType | bigIntType | existsType | thisType | stringLiteralType | numberLiteralType
  | booleanLiteralType | bigIntLiteralType | nullableType | arrayType | tupleType | unionType
  | intersectionType | typeofType | indexedAccessType | optionalIndexedAccessType | functionType
  | functionTypeParam | genericType | qualifiedTypeIdentifier | objectType | objectTypeProperty
  | objectTypeSpreadProperty | objectTypeIndexer | objectTypeCallProperty | objectTypeInternalSlot
  | interfaceType
  -- TypeScript declarations
  | tsTypeAliasDeclaration | tsInterfaceDeclaration | tsInterfaceBody
  | tsExpressionWithTypeArguments | tsModuleDeclaration | tsModuleBlock | tsExportAssignment
  | tsDeclareFunction
  -- TypeScript types
  | tsAscription | tsTypeParameterDeclaration | tsTypeParameter | tsTypeParameterInstantiation
  | tsAnyKeyword | tsUnknownKeyword | tsNeverKeyword | tsVoidKeyword | tsNullKeyword
  | tsUndefinedKeyword | tsNumberKeyword | tsStringKeyword | tsBooleanKeyword | tsSymbolKeyword
  | tsBigIntKeyword | tsThisType | tsLiteralType | tsArrayType | tsTupleType | tsUnionType
  | tsIntersectionType | tsFunctionType | tsTypeReference | tsQualifiedName | tsTypeQuery
  | tsTypeOperator | tsIndexedAccessType | tsTypeLiteral | tsPropertySignature | tsMethodSignature
  | tsIndexSignature | tsCallSignatureDeclaration
  deriving DecidableEq, Repr, Inhabited

namespace Tag

/-- The name of a tag in JSON. -/
def name : Tag → String
  | .file => "File"
  | .program => "Program"
  | .directive => "Directive"
  | .directiveLiteral => "DirectiveLiteral"
  | .interpreterDirective => "InterpreterDirective"
  | .blockStatement => "BlockStatement"
  | .expressionStatement => "ExpressionStatement"
  | .emptyStatement => "EmptyStatement"
  | .debuggerStatement => "DebuggerStatement"
  | .ifStatement => "IfStatement"
  | .labeledStatement => "LabeledStatement"
  | .breakStatement => "BreakStatement"
  | .continueStatement => "ContinueStatement"
  | .withStatement => "WithStatement"
  | .switchStatement => "SwitchStatement"
  | .switchCase => "SwitchCase"
  | .returnStatement => "ReturnStatement"
  | .throwStatement => "ThrowStatement"
  | .tryStatement => "TryStatement"
  | .catchClause => "CatchClause"
  | .whileStatement => "WhileStatement"
  | .doWhileStatement => "DoWhileStatement"
  | .forStatement => "ForStatement"
  | .forInStatement => "ForInStatement"
  | .forOfStatement => "ForOfStatement"
  | .variableDeclaration => "VariableDeclaration"
  | .variableDeclarator => "VariableDeclarator"
  | .functionDeclaration => "FunctionDeclaration"
  | .functionExpression => "FunctionExpression"
  | .arrowFunctionExpression => "ArrowFunctionExpression"
  | .classDeclaration => "ClassDeclaration"
  | .classExpression => "ClassExpression"
  | .classBody => "ClassBody"
  | .classMethod => "ClassMethod"
  | .classPrivateMethod => "ClassPrivateMethod"
  | .classProperty => "ClassProperty"
  | .classPrivateProperty => "ClassPrivateProperty"
  | .privateName => "PrivateName"
  | .decorator => "Decorator"
  | .classImplements => "ClassImplements"
  | .tsDeclareMethod => "TSDeclareMethod"
  | .importDeclaration => "ImportDeclaration"
  | .importSpecifier => "ImportSpecifier"
  | .importDefaultSpecifier => "ImportDefaultSpecifier"
  | .importNamespaceSpecifier => "ImportNamespaceSpecifier"
  | .exportNamedDeclaration => "ExportNamedDeclaration"
  | .exportDefaultDeclaration => "ExportDefaultDeclaration"
  | .exportAllDeclaration => "ExportAllDeclaration"
  | .exportSpecifier => "ExportSpecifier"
  | .exportNamespaceSpecifier => "ExportNamespaceSpecifier"
  | .exportDefaultSpecifier => "ExportDefaultSpecifier"
  | .identifier => "Identifier"
  | .stringLiteral => "StringLiteral"
  | .numericLiteral => "NumericLiteral"
  | .bigIntLiteral => "BigIntLiteral"
  | .booleanLiteral => "BooleanLiteral"
  | .nullLiteral => "NullLiteral"
  | .regExpLiteral => "RegExpLiteral"
  | .templateLiteral => "TemplateLiteral"
  | .templateElement => "TemplateElement"
  | .taggedTemplateExpression => "TaggedTemplateExpression"
  | .thisExpression => "ThisExpression"
  | .superKeyword => "Super"
  | .importKeyword => "Import"
  | .metaProperty => "MetaProperty"
  | .arrayExpression => "ArrayExpression"
  | .objectExpression => "ObjectExpression"
  | .objectProperty => "ObjectProperty"
  | .objectMethod => "ObjectMethod"
  | .spreadElement => "SpreadElement"
  | .unaryExpression => "UnaryExpression"
  | .updateExpression => "UpdateExpression"
  | .binaryExpression => "BinaryExpression"
  | .logicalExpression => "LogicalExpression"
  | .assignmentExpression => "AssignmentExpression"
  | .conditionalExpression => "ConditionalExpression"
  | .callExpression => "CallExpression"
  | .newExpression => "NewExpression"
  | .memberExpression => "MemberExpression"
  | .optionalMemberExpression => "OptionalMemberExpression"
  | .optionalCallExpression => "OptionalCallExpression"
  | .sequenceExpression => "SequenceExpression"
  | .awaitExpression => "AwaitExpression"
  | .yieldExpression => "YieldExpression"
  | .parenthesizedExpression => "ParenthesizedExpression"
  | .typeCastExpression => "TypeCastExpression"
  | .tsAsExpression => "TSAsExpression"
  | .objectPattern => "ObjectPattern"
  | .arrayPattern => "ArrayPattern"
  | .restElement => "RestElement"
  | .assignmentPattern => "AssignmentPattern"
  | .jsxElement => "JSXElement"
  | .jsxOpeningElement => "JSXOpeningElement"
  | .jsxClosingElement => "JSXClosingElement"
  | .jsxFragment => "JSXFragment"
  | .jsxOpeningFragment => "JSXOpeningFragment"
  | .jsxClosingFragment => "JSXClosingFragment"
  | .jsxAttribute => "JSXAttribute"
  | .jsxSpreadAttribute => "JSXSpreadAttribute"
  | .jsxExpressionContainer => "JSXExpressionContainer"
  | .jsxEmptyExpression => "JSXEmptyExpression"
  | .jsxSpreadChild => "JSXSpreadChild"
  | .jsxText => "JSXText"
  | .jsxIdentifier => "JSXIdentifier"
  | .jsxMemberExpression => "JSXMemberExpression"
  | .jsxNamespacedName => "JSXNamespacedName"
  | .typeAlias => "TypeAlias"
  | .opaqueType => "OpaqueType"
  | .interfaceDeclaration => "InterfaceDeclaration"
  | .interfaceExtends => "InterfaceExtends"
  | .declareVariable => "DeclareVariable"
  | .declareFunction => "DeclareFunction"
  | .declareTypeAlias => "DeclareTypeAlias"
  | .declareOpaqueType => "DeclareOpaqueType"
  | .declareInterface => "DeclareInterface"
  | .declareClass => "DeclareClass"
  | .declareModule => "DeclareModule"
  | .declareExportDeclaration => "DeclareExportDeclaration"
  | .declareExportAllDeclaration => "DeclareExportAllDeclaration"
  | .declareModuleExports => "DeclareModuleExports"
  | .declaredPredicate => "DeclaredPredicate"
  | .inferredPredicate => "InferredPredicate"
  | .ascription => "TypeAnnotation"
  | .typeParameterDeclaration => "TypeParameterDeclaration"
  | .typeParameter => "TypeParameter"
  | .typeParameterInstantiation => "TypeParameterInstantiation"
  | .variance => "Variance"
  | .anyType => "AnyTypeAnnotation"
  | .mixedType => "MixedTypeAnnotation"
  | .emptyType => "EmptyTypeAnnotation"
  | .voidType => "VoidTypeAnnotation"
  | .nullType => "NullLiteralTypeAnnotation"
  | .numberType => "NumberTypeAnnotation"
  | .stringType => "StringTypeAnnotation"
  | .booleanType => "BooleanTypeAnnotation"
  | .symbolType => "SymbolTypeAnnotation"
  | .bigIntType => "BigIntTypeAnnotation"
  | .existsType => "ExistsTypeAnnotation"
  | .thisType => "ThisTypeAnnotation"
  | .stringLiteralType => "StringLiteralTypeAnnotation"
  | .numberLiteralType => "NumberLiteralTypeAnnotation"
  | .booleanLiteralType => "BooleanLiteralTypeAnnotation"
  | .bigIntLiteralType => "BigIntLiteralTypeAnnotation"
  | .nullableType => "NullableTypeAnnotation"
  | .arrayType => "ArrayTypeAnnotation"
  | .tupleType => "TupleTypeAnnotation"
  | .unionType => "UnionTypeAnnotation"
  | .intersectionType => "IntersectionTypeAnnotation"
  | .typeofType => "TypeofTypeAnnotation"
  | .indexedAccessType => "IndexedAccessType"
  | .optionalIndexedAccessType => "OptionalIndexedAccessType"
  | .functionType => "FunctionTypeAnnotation"
  | .functionTypeParam => "FunctionTypeParam"
  | .genericType => "GenericTypeAnnotation"
  | .qualifiedTypeIdentifier => "QualifiedTypeIdentifier"
  | .objectType => "ObjectTypeAnnotation"
  | .objectTypeProperty => "ObjectTypeProperty"
  | .objectTypeSpreadProperty => "ObjectTypeSpreadProperty"
  | .objectTypeIndexer => "ObjectTypeIndexer"
  | .objectTypeCallProperty => "ObjectTypeCallProperty"
  | .objectTypeInternalSlot => "ObjectTypeInternalSlot"
  | .interfaceType => "InterfaceTypeAnnotation"
  | .tsTypeAliasDeclaration => "TSTypeAliasDeclaration"
  | .tsInterfaceDeclaration => "TSInterfaceDeclaration"
  | .tsInterfaceBody => "TSInterfaceBody"
  | .tsExpressionWithTypeArguments => "TSExpressionWithTypeArguments"
  | .tsModuleDeclaration => "TSModuleDeclaration"
  | .tsModuleBlock => "TSModuleBlock"
  | .tsExportAssignment => "TSExportAssignment"
  | .tsDeclareFunction => "TSDeclareFunction"
  | .tsAscription => "TSTypeAnnotation"
  | .tsTypeParameterDeclaration => "TSTypeParameterDeclaration"
  | .tsTypeParameter => "TSTypeParameter"
  | .tsTypeParameterInstantiation => "TSTypeParameterInstantiation"
  | .tsAnyKeyword => "TSAnyKeyword"
  | .tsUnknownKeyword => "TSUnknownKeyword"
  | .tsNeverKeyword => "TSNeverKeyword"
  | .tsVoidKeyword => "TSVoidKeyword"
  | .tsNullKeyword => "TSNullKeyword"
  | .tsUndefinedKeyword => "TSUndefinedKeyword"
  | .tsNumberKeyword => "TSNumberKeyword"
  | .tsStringKeyword => "TSStringKeyword"
  | .tsBooleanKeyword => "TSBooleanKeyword"
  | .tsSymbolKeyword => "TSSymbolKeyword"
  | .tsBigIntKeyword => "TSBigIntKeyword"
  | .tsThisType => "TSThisType"
  | .tsLiteralType => "TSLiteralType"
  | .tsArrayType => "TSArrayType"
  | .tsTupleType => "TSTupleType"
  | .tsUnionType => "TSUnionType"
  | .tsIntersectionType => "TSIntersectionType"
  | .tsFunctionType => "TSFunctionType"
  | .tsTypeReference => "TSTypeReference"
  | .tsQualifiedName => "TSQualifiedName"
  | .tsTypeQuery => "TSTypeQuery"
  | .tsTypeOperator => "TSTypeOperator"
  | .tsIndexedAccessType => "TSIndexedAccessType"
  | .tsTypeLiteral => "TSTypeLiteral"
  | .tsPropertySignature => "TSPropertySignature"
  | .tsMethodSignature => "TSMethodSignature"
  | .tsIndexSignature => "TSIndexSignature"
  | .tsCallSignatureDeclaration => "TSCallSignatureDeclaration"

/-- Every tag, in vocabulary order. -/
def all : List Tag :=
  [.file, .program, .directive, .directiveLiteral, .interpreterDirective, .blockStatement,
    .expressionStatement, .emptyStatement, .debuggerStatement, .ifStatement, .labeledStatement,
    .breakStatement, .continueStatement, .withStatement, .switchStatement, .switchCase,
    .returnStatement, .throwStatement, .tryStatement, .catchClause, .whileStatement,
    .doWhileStatement, .forStatement, .forInStatement, .forOfStatement, .variableDeclaration,
    .variableDeclarator, .functionDeclaration, .functionExpression, .arrowFunctionExpression,
    .classDeclaration, .classExpression, .classBody, .classMethod, .classPrivateMethod,
    .classProperty, .classPrivateProperty, .privateName, .decorator, .classImplements,
    .tsDeclareMethod, .importDeclaration, .importSpecifier, .importDefaultSpecifier,
    .importNamespaceSpecifier, .exportNamedDeclaration, .exportDefaultDeclaration,
    .exportAllDeclaration, .exportSpecifier, .exportNamespaceSpecifier, .exportDefaultSpecifier,
    .identifier, .stringLiteral, .numericLiteral, .bigIntLiteral, .booleanLiteral, .nullLiteral,
    .regExpLiteral, .templateLiteral, .templateElement, .taggedTemplateExpression,
    .thisExpression, .superKeyword, .importKeyword, .metaProperty, .arrayExpression,
    .objectExpression, .objectProperty, .objectMethod, .spreadElement, .unaryExpression,
    .updateExpression, .binaryExpression, .logicalExpression, .assignmentExpression,
    .conditionalExpression, .callExpression, .newExpression, .memberExpression,
    .optionalMemberExpression, .optionalCallExpression, .sequenceExpression, .awaitExpression,
    .yieldExpression, .parenthesizedExpression, .typeCastExpression, .tsAsExpression,
    .objectPattern, .arrayPattern, .restElement, .assignmentPattern, .jsxElement,
    .jsxOpeningElement, .jsxClosingElement, .jsxFragment, .jsxOpeningFragment,
    .jsxClosingFragment, .jsxAttribute, .jsxSpreadAttribute, .jsxExpressionContainer,
    .jsxEmptyExpression, .jsxSpreadChild, .jsxText, .jsxIdentifier, .jsxMemberExpression,
    .jsxNamespacedName, .typeAlias, .opaqueType, .interfaceDeclaration, .interfaceExtends,
    .declareVariable, .declareFunction, .declareTypeAlias, .declareOpaqueType, .declareInterface,
    .declareClass, .declareModule, .declareExportDeclaration, .declareExportAllDeclaration,
    .declareModuleExports, .declaredPredicate, .inferredPredicate, .ascription,
    .typeParameterDeclaration, .typeParameter, .typeParameterInstantiation, .variance, .anyType,
    .mixedType, .emptyType, .voidType, .nullType, .numberType, .stringType, .booleanType,
    .symbolType, .bigIntType, .existsType, .thisType, .stringLiteralType, .numberLiteralType,
    .booleanLiteralType, .bigIntLiteralType, .nullableType, .arrayType, .tupleType, .unionType,
    .intersectionType, .typeofType, .indexedAccessType, .optionalIndexedAccessType,
    .functionType, .functionTypeParam, .genericType, .qualifiedTypeIdentifier, .objectType,
    .objectTypeProperty, .objectTypeSpreadProperty, .objectTypeIndexer, .objectTypeCallProperty,
    .objectTypeInternalSlot, .interfaceType, .tsTypeAliasDeclaration, .tsInterfaceDeclaration,
    .tsInterfaceBody, .tsExpressionWithTypeArguments, .tsModuleDeclaration, .tsModuleBlock,
    .tsExportAssignment, .tsDeclareFunction, .tsAscription, .tsTypeParameterDeclaration,
    .tsTypeParameter, .tsTypeParameterInstantiation, .tsAnyKeyword, .tsUnknownKeyword,
    .tsNeverKeyword, .tsVoidKeyword, .tsNullKeyword, .tsUndefinedKeyword, .tsNumberKeyword,
    .tsStringKeyword, .tsBooleanKeyword, .tsSymbolKeyword, .tsBigIntKeyword, .tsThisType,
    .tsLiteralType, .tsArrayType, .tsTupleType, .tsUnionType, .tsIntersectionType,
    .tsFunctionType, .tsTypeReference, .tsQualifiedName, .tsTypeQuery, .tsTypeOperator,
    .tsIndexedAccessType, .tsTypeLiteral, .tsPropertySignature, .tsMethodSignature,
    .tsIndexSignature, .tsCallSignatureDeclaration]

/-- The vocabulary a tag is limited to, `none` for the tags of both. -/
def side : Tag → Option Side
  | .classImplements | .optionalMemberExpression | .optionalCallExpression | .typeCastExpression
  | .typeAlias | .opaqueType | .interfaceDeclaration | .interfaceExtends | .declareVariable
  | .declareFunction | .declareTypeAlias | .declareOpaqueType | .declareInterface | .declareClass
  | .declareModule | .declareExportDeclaration | .declareExportAllDeclaration
  | .declareModuleExports | .declaredPredicate | .inferredPredicate | .ascription
  | .typeParameterDeclaration | .typeParameter | .typeParameterInstantiation | .variance
  | .anyType | .mixedType | .emptyType | .voidType | .nullType | .numberType | .stringType
  | .booleanType | .symbolType | .bigIntType | .existsType | .thisType | .stringLiteralType
  | .numberLiteralType | .booleanLiteralType | .bigIntLiteralType | .nullableType | .arrayType
  | .tupleType | .unionType | .intersectionType | .typeofType | .indexedAccessType
  | .optionalIndexedAccessType | .functionType | .functionTypeParam | .genericType
  | .qualifiedTypeIdentifier | .objectType | .objectTypeProperty | .objectTypeSpreadProperty
  | .objectTypeIndexer | .objectTypeCallProperty | .objectTypeInternalSlot
  | .interfaceType => some .source
  | .tsDeclareMethod | .tsAsExpression | .tsTypeAliasDeclaration | .tsInterfaceDeclaration
  | .tsInterfaceBody | .tsExpressionWithTypeArguments | .tsModuleDeclaration | .tsModuleBlock
  | .tsExportAssignment | .tsDeclareFunction | .tsAscription | .tsTypeParameterDeclaration
  | .tsTypeParameter | .tsTypeParameterInstantiation | .tsAnyKeyword | .tsUnknownKeyword
  | .tsNeverKeyword | .tsVoidKeyword | .tsNullKeyword | .tsUndefinedKeyword | .tsNumberKeyword
  | .tsStringKeyword | .tsBooleanKeyword | .tsSymbolKeyword | .tsBigIntKeyword | .tsThisType
  | .tsLiteralType | .tsArrayType | .tsTupleType | .tsUnionType | .tsIntersectionType
  | .tsFunctionType | .tsTypeReference | .tsQualifiedName | .tsTypeQuery | .tsTypeOperator
  | .tsIndexedAccessType | .tsTypeLiteral | .tsPropertySignature | .tsMethodSignature
  | .tsIndexSignature | .tsCallSignatureDeclaration => some .target
  | _ => none

/-- Whether a tag belongs to a vocabulary. -/
def isIn (s : Side) (t : Tag) : Bool := t.side == none || t.side == some s

/-- The tags of a vocabulary, in its order. -/
def vocabulary (s : Side) : List Tag := all.filter (isIn s)

/-- The tag of a vocabulary with a given name. -/
def ofName? (s : Side) (name : String) : Option Tag :=
  all.find? fun t => t.name == name && t.isIn s

end Tag

end Typeshift
