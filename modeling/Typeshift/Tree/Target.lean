import Typeshift.Tree.Basic

/-! # Building target trees

One function for each construct of the target vocabulary that a conversion makes. Attributes are
given in the order of the shape, slots in slot order; nothing built here has comments or a span. -/

namespace Typeshift.Target

open Decimal (Binary64)

/-! ### Expressions -/

/-- A parameter or variable `name?: T`. -/
def param (name : String) (ty : Option Node) (isOptional : Bool) : Node :=
  .of .identifier [(.name, .text name), (.isOptional, .flag isOptional)] [(.ty, .maybe ty)]

/-- An identifier. -/
def ident (name : String) : Node := param name none false

/-- A string literal with its source text, if known. -/
def stringLiteral (value : String) (raw : Option String) : Node :=
  .of .stringLiteral
    [(.value, .text value), (.extra, .extra (raw.map fun s => ⟨some s⟩))] []

/-- A numeric literal without source text. -/
def numericLiteral (value : Binary64) : Node :=
  .of .numericLiteral [(.value, .number value), (.extra, .extra none)] []

/-- `(e)`. -/
def paren (e : Node) : Node := .of .parenthesizedExpression [] [(.expression, .one e)]

/-- `e as T`, without parentheses around it. -/
def cast (e ty : Node) : Node := .of .tsAsExpression [] [(.expression, .one e), (.ty, .one ty)]

/-- `l && r`. -/
def both (l r : Node) : Node :=
  .of .logicalExpression [(.operator, .text "&&")] [(.left, .one l), (.right, .one r)]

/-- `l = r`. -/
def assign (l r : Node) : Node :=
  .of .assignmentExpression [(.operator, .text "=")] [(.left, .one l), (.right, .one r)]

/-- `o.p` or, if computed, `o[p]`. -/
def member (object property : Node) (isComputed : Bool) : Node :=
  .of .memberExpression [(.isComputed, .flag isComputed)]
    [(.object, .one object), (.property, .one property)]

/-- `f<P>(a, …)`. -/
def call (callee : Node) (arguments : List Node) (typeParameters : Option Node) : Node :=
  .of .callExpression []
    [(.callee, .one callee), (.typeParameters, .maybe typeParameters),
      (.arguments, .many arguments)]

/-- `...name: T`. -/
def rest (argument : Node) (ty : Option Node) : Node :=
  .of .restElement [] [(.argument, .one argument), (.ty, .maybe ty)]

/-- `e<P>` in a list of parents. -/
def heritage (e : Node) (typeParameters : Option Node) : Node :=
  .of .tsExpressionWithTypeArguments []
    [(.expression, .one e), (.typeParameters, .maybe typeParameters)]

/-! ### Types -/

/-- `any`. -/
def any : Node := .leaf .tsAnyKeyword
/-- `null` as a type. -/
def null : Node := .leaf .tsNullKeyword
/-- `undefined` as a type. -/
def undefined : Node := .leaf .tsUndefinedKeyword
/-- `string`. -/
def string : Node := .leaf .tsStringKeyword
/-- `unknown`. -/
def unknown : Node := .leaf .tsUnknownKeyword

/-- A type in the place of an ascription; one that already is an ascription stays. -/
def ascribe (ty : Node) : Node :=
  if ty.head.is .tsAscription then ty else .of .tsAscription [] [(.ty, .one ty)]

/-- The type inside an ascription, and any other type itself. -/
def unascribe (ty : Node) : Node :=
  if ty.head.is .tsAscription then ty.slots.child .ty else ty

/-- `A | B`. -/
def union (types : List Node) : Node := .of .tsUnionType [] [(.types, .many types)]

/-- `A & B`. -/
def intersection (types : List Node) : Node := .of .tsIntersectionType [] [(.types, .many types)]

/-- `keyof T`. -/
def keyof (ty : Node) : Node :=
  .of .tsTypeOperator [(.operator, .text "keyof")] [(.ty, .one ty)]

/-- `T[K]`. -/
def indexedAccess (objectType indexType : Node) : Node :=
  .of .tsIndexedAccessType [] [(.objectType, .one objectType), (.indexType, .one indexType)]

/-- `<A, B>` after a name. -/
def typeArguments (params : List Node) : Node :=
  .of .tsTypeParameterInstantiation [] [(.params, .many params)]

/-- `N<A, B>`, the arguments being given as a node. -/
def typeReference (name : Node) (params : Option Node) : Node :=
  .of .tsTypeReference [] [(.typeName, .one name), (.typeParameters, .maybe params)]

/-- `N<A, B>`, without brackets if there are no arguments. -/
def namedReference (name : String) (args : List Node) : Node :=
  typeReference (ident name) (if args.isEmpty then none else some (typeArguments args))

/-- A literal as a type. -/
def literalType (literal : Node) : Node := .of .tsLiteralType [] [(.literal, .one literal)]

/-- `{ members }`. -/
def typeLiteral (members : List Node) : Node := .of .tsTypeLiteral [] [(.members, .many members)]

/-- `<P>(a, …) => T`. -/
def functionType (typeParameters : Option Node) (parameters : List Node) (ty : Node) : Node :=
  .of .tsFunctionType []
    [(.typeParameters, .maybe typeParameters), (.parameters, .many parameters), (.ty, .one ty)]

/-- `T[]`. -/
def arrayType (elementType : Node) : Node := .of .tsArrayType [] [(.elementType, .one elementType)]

/-- `[A, B]`. -/
def tupleType (elementTypes : List Node) : Node :=
  .of .tsTupleType [] [(.elementTypes, .many elementTypes)]

/-- `typeof n`. -/
def typeQuery (name : Node) : Node := .of .tsTypeQuery [] [(.exprName, .one name)]

/-- `A.B` as a name of a type. -/
def qualifiedName (left right : Node) : Node :=
  .of .tsQualifiedName [] [(.left, .one left), (.right, .one right)]

/-- `N extends B = D`. -/
def typeParameter (name : String) (constraint default : Option Node) : Node :=
  .of .tsTypeParameter [(.name, .text name)]
    [(.constraint, .maybe constraint), (.default, .maybe default)]

/-- `<P, Q>` before a list of parameters. -/
def typeParameters (params : List Node) : Node :=
  .of .tsTypeParameterDeclaration [] [(.params, .many params)]

/-! ### Members -/

/-- `key?: T` in an object type. -/
def propertySignature (key : Node) (isComputed isOptional isReadonly : Bool) (ty : Option Node) :
    Node :=
  .of .tsPropertySignature
    [(.isComputed, .flag isComputed), (.isOptional, .flag isOptional),
      (.isReadonly, .flag isReadonly)]
    [(.key, .one key), (.ty, .maybe ty)]

/-- `key(a, …): T` in an object type. -/
def methodSignature (key : Node) (isComputed isOptional : Bool) (kind : Word)
    (typeParameters : Option Node) (parameters : List Node) (ty : Option Node) : Node :=
  .of .tsMethodSignature
    [(.isComputed, .flag isComputed), (.isOptional, .flag isOptional), (.kind, .word kind)]
    [(.key, .one key), (.typeParameters, .maybe typeParameters), (.parameters, .many parameters),
      (.ty, .maybe ty)]

/-- `[key: K]: T`. -/
def indexSignature (parameters : List Node) (ty : Option Node) (isReadonly isStatic : Bool) :
    Node :=
  .of .tsIndexSignature [(.isReadonly, .flag isReadonly), (.isStatic, .flag isStatic)]
    [(.parameters, .many parameters), (.ty, .maybe ty)]

/-- `(a, …): T` in an object type. -/
def callSignature (typeParameters : Option Node) (parameters : List Node) (ty : Option Node) :
    Node :=
  .of .tsCallSignatureDeclaration []
    [(.typeParameters, .maybe typeParameters), (.parameters, .many parameters), (.ty, .maybe ty)]

/-- `key(a, …): T;` in a declared class. -/
def declareMethod (kind : Word) (key : Node) (params : List Node)
    (isComputed isStatic isOptional : Bool) (typeParameters returnType : Option Node) : Node :=
  .of .tsDeclareMethod
    [(.kind, .word kind), (.isComputed, .flag isComputed), (.isStatic, .flag isStatic),
      (.isOptional, .flag isOptional)]
    [(.key, .one key), (.typeParameters, .maybe typeParameters), (.params, .many params),
      (.returnType, .maybe returnType)]

/-- `key?: T;` in a declared class. -/
def classProperty (key : Node) (ty : Option Node) (isStatic isReadonly isOptional : Bool) : Node :=
  .of .classProperty
    [(.isComputed, .flag false), (.isStatic, .flag isStatic), (.isReadonly, .flag isReadonly),
      (.isOptional, .flag isOptional), (.isDeclare, .flag false)]
    [(.decorators, .many []), (.key, .one key), (.ty, .maybe ty), (.value, .maybe none)]

/-! ### Statements -/

/-- An expression as a statement. -/
def statement (e : Node) : Node := .of .expressionStatement [] [(.expression, .one e)]

/-- `return e;`. -/
def returnStatement (e : Option Node) : Node := .of .returnStatement [] [(.argument, .maybe e)]

/-- `{ statements }` without directives. -/
def block (body : List Node) : Node :=
  .of .blockStatement [] [(.directives, .many []), (.body, .many body)]

/-- A program without directives. -/
def program (body : List Node) : Node :=
  .of .program [(.sourceType, .textOrNone none)]
    [(.interpreter, .maybe none), (.directives, .many []), (.body, .many body)]

/-- `id = init` in a declaration. -/
def declarator (id : Node) (init : Option Node) : Node :=
  .of .variableDeclarator [] [(.id, .one id), (.init, .maybe init)]

/-- `let a, b;`. -/
def variableDeclaration (kind : Word) (declarations : List Node) (isDeclare : Bool) : Node :=
  .of .variableDeclaration [(.kind, .word kind), (.isDeclare, .flag isDeclare)]
    [(.declarations, .many declarations)]

/-- `type N<P> = T;`. -/
def typeAlias (id : Node) (typeParameters : Option Node) (ty : Node) (isDeclare : Bool) : Node :=
  .of .tsTypeAliasDeclaration [(.isDeclare, .flag isDeclare)]
    [(.id, .one id), (.typeParameters, .maybe typeParameters), (.ty, .one ty)]

/-- The members of an interface. -/
def interfaceBody (body : List Node) : Node := .of .tsInterfaceBody [] [(.body, .many body)]

/-- `interface N<P> extends … { … }`. -/
def interfaceDeclaration (id : Node) (typeParameters : Option Node) (parents : List Node)
    (body : Node) (isDeclare : Bool) : Node :=
  .of .tsInterfaceDeclaration [(.isDeclare, .flag isDeclare)]
    [(.id, .one id), (.typeParameters, .maybe typeParameters), (.heritage, .many parents),
      (.body, .one body)]

/-- `function f<P>(a, …): T;`. -/
def declareFunction (id : Node) (typeParameters : Option Node) (params : List Node)
    (returnType : Option Node) (isDeclare isAsync isGenerator : Bool) : Node :=
  .of .tsDeclareFunction
    [(.isDeclare, .flag isDeclare), (.isAsync, .flag isAsync), (.isGenerator, .flag isGenerator)]
    [(.id, .one id), (.typeParameters, .maybe typeParameters), (.params, .many params),
      (.returnType, .maybe returnType)]

/-- The members of a class. -/
def classBody (body : List Node) : Node := .of .classBody [] [(.body, .many body)]

/-- `class C<P> extends S<A> implements … { … }` without decorators. -/
def classDeclaration (id superClass superTypeParameters typeParameters : Option Node)
    (implemented : List Node) (body : Node) (isDeclare : Bool) : Node :=
  .of .classDeclaration [(.isDeclare, .flag isDeclare)]
    [(.decorators, .many []), (.id, .maybe id), (.typeParameters, .maybe typeParameters),
      (.superClass, .maybe superClass), (.superTypeParameters, .maybe superTypeParameters),
      (.implements, .many implemented), (.body, .one body)]

/-- The statements of a module. -/
def moduleBlock (body : List Node) : Node := .of .tsModuleBlock [] [(.body, .many body)]

/-- `module N { … }`. -/
def moduleDeclaration (id body : Node) (isDeclare : Bool) : Node :=
  .of .tsModuleDeclaration [(.isDeclare, .flag isDeclare)] [(.id, .one id), (.body, .one body)]

/-- `import kind … from source`. -/
def importDeclaration (kind : Word) (specifiers : List Node) (source : Node) : Node :=
  .of .importDeclaration [(.importKind, .word kind)]
    [(.specifiers, .many specifiers), (.source, .one source)]

/-- `imported as name` in an import. -/
def importSpecifier (kind : Word) (imported localName : Node) : Node :=
  .of .importSpecifier [(.importKind, .word kind)]
    [(.imported, .one imported), (.localName, .one localName)]

/-- `export = e;`. -/
def exportAssignment (e : Node) : Node := .of .tsExportAssignment [] [(.expression, .one e)]

/-- `export default d`. -/
def exportDefault (declaration : Node) : Node :=
  .of .exportDefaultDeclaration [] [(.declaration, .one declaration)]

/-- `export d` or `export { … } from source`. -/
def exportNamed (declaration : Option Node) (specifiers : List Node) (source : Option Node) :
    Node :=
  .of .exportNamedDeclaration [(.exportKind, .word .value)]
    [(.declaration, .maybe declaration), (.specifiers, .many specifiers),
      (.source, .maybe source)]

/-- `export * from source`. -/
def exportAll (source : Node) (kind : Word) : Node :=
  .of .exportAllDeclaration [(.exportKind, .word kind)] [(.source, .one source)]

end Typeshift.Target
