import Typeshift.Tree.Basic

/-! # Building source trees

One function for each construct of the source vocabulary that a pass makes or that is handy for
writing trees down. -/

namespace Typeshift.Source

open Decimal (Binary64)

/-- An identifier with a type, if one is given. -/
def identOf (name : String) (ty : Option Node) : Node :=
  .of .identifier [(.name, .text name), (.isOptional, .flag false)] [(.ty, .maybe ty)]

/-- An identifier. -/
def ident (name : String) : Node := identOf name none

/-- A type in the place of an ascription. -/
def ascribe (ty : Node) : Node := .of .ascription [] [(.ty, .one ty)]

/-- `name: T`. -/
def typedIdent (name : String) (ty : Node) : Node := identOf name (some (ascribe ty))

/-! ### Types -/

/-- `?T`. -/
def nullable (ty : Node) : Node := .of .nullableType [] [(.ty, .one ty)]

/-- `A | B`. -/
def union (types : List Node) : Node := .of .unionType [] [(.types, .many types)]

/-- `N<A, B>`, without brackets if there are no arguments. -/
def generic (name : String) (args : List Node) : Node :=
  .of .genericType []
    [(.id, .one (ident name)),
      (.typeParameters, .maybe (if args.isEmpty then none
        else some (Node.of .typeParameterInstantiation [] [(.params, .many args)])))]

/-- A parameter of a function type. -/
def functionParam (name : Option String) (ty : Node) : Node :=
  .of .functionTypeParam [(.isOptional, .flag false)]
    [(.name, .maybe (name.map ident)), (.ty, .one ty)]

/-- `(a, …) => T`. -/
def functionType (params : List Node) (returnType : Node) : Node :=
  .of .functionType []
    [(.typeParameters, .maybe none), (.receiver, .maybe none), (.params, .many params),
      (.rest, .maybe none), (.returnType, .one returnType)]

/-- `{ properties }`, or `{| properties |}` if exact. -/
def objectType (properties : List Node) (isExact : Bool) : Node :=
  .of .objectType [(.isExact, .flag isExact), (.isInexact, .flag false)]
    [(.properties, .many properties), (.indexers, .many []), (.callProperties, .many []),
      (.internalSlots, .many [])]

/-- `key?: T` in an object type. -/
def property (key : String) (value : Node) (isOptional : Bool) : Node :=
  .of .objectTypeProperty
    [(.isOptional, .flag isOptional), (.isStatic, .flag false), (.isProto, .flag false),
      (.isMethod, .flag false), (.kind, .word .init)]
    [(.key, .one (ident key)), (.variance, .maybe none), (.value, .one value)]

/-! ### Expressions -/

/-- A string literal, written between single quotes. -/
def stringLiteral (value : String) : Node :=
  .of .stringLiteral
    [(.value, .text value), (.extra, .extra (some ⟨some ("'" ++ value ++ "'")⟩))] []

/-- A numeric literal without source text. -/
def numericLiteral (value : Binary64) : Node :=
  .of .numericLiteral [(.value, .number value), (.extra, .extra none)] []

/-- `o.p` or, if computed, `o[p]`. -/
def member (object property : Node) (isComputed : Bool) : Node :=
  .of .memberExpression [(.isComputed, .flag isComputed)]
    [(.object, .one object), (.property, .one property)]

/-- `o?.p`, or `o.p` inside a chain. -/
def optionalMember (object : Node) (property : String) (isOptional : Bool) : Node :=
  .of .optionalMemberExpression [(.isComputed, .flag false), (.isOptional, .flag isOptional)]
    [(.object, .one object), (.property, .one (ident property))]

/-- `f?.(a, …)`, or `f(a, …)` inside a chain. -/
def optionalCall (callee : Node) (arguments : List Node) (isOptional : Bool) : Node :=
  .of .optionalCallExpression [(.isOptional, .flag isOptional)]
    [(.callee, .one callee), (.typeArguments, .maybe none), (.arguments, .many arguments)]

/-- `f(a, …)`. -/
def call (callee : Node) (arguments : List Node) : Node :=
  .of .callExpression []
    [(.callee, .one callee), (.typeArguments, .maybe none), (.arguments, .many arguments)]

/-- `(e)`. -/
def paren (e : Node) : Node := .of .parenthesizedExpression [] [(.expression, .one e)]

/-- `(e: T)`. -/
def typeCast (e ty : Node) : Node :=
  .of .typeCastExpression [] [(.expression, .one e), (.ty, .one (ascribe ty))]

/-- `(a, …) => body`. -/
def arrow (params : List Node) (body : Node) : Node :=
  .of .arrowFunctionExpression [(.isAsync, .flag false)]
    [(.typeParameters, .maybe none), (.params, .many params), (.returnType, .maybe none),
      (.predicate, .maybe none), (.body, .one body)]

/-! ### Statements -/

/-- An expression as a statement. -/
def statement (e : Node) : Node := .of .expressionStatement [] [(.expression, .one e)]

/-- `const id = init;`. -/
def constant (id init : Node) : Node :=
  let declarator := Node.of .variableDeclarator [] [(.id, .one id), (.init, .maybe (some init))]
  .of .variableDeclaration [(.kind, .word .const)] [(.declarations, .many [declarator])]

/-- `{ statements }`. -/
def block (body : List Node) : Node :=
  .of .blockStatement [] [(.directives, .many []), (.body, .many body)]

/-- `function name(a, …) { … }`. -/
def function (name : String) (params body : List Node) : Node :=
  .of .functionDeclaration [(.isGenerator, .flag false), (.isAsync, .flag false)]
    [(.id, .maybe (some (ident name))), (.typeParameters, .maybe none), (.params, .many params),
      (.returnType, .maybe none), (.predicate, .maybe none), (.body, .one (block body))]

/-- `type name = T;`. -/
def typeAlias (name : String) (right : Node) : Node :=
  .of .typeAlias []
    [(.id, .one (ident name)), (.typeParameters, .maybe none), (.right, .one right)]

/-- A module. -/
def program (body : List Node) : Node :=
  .of .program [(.sourceType, .textOrNone (some "module"))]
    [(.interpreter, .maybe none), (.directives, .many []), (.body, .many body)]

/-- A file that holds a module. -/
def file (body : List Node) : Node := .of .file [] [(.program, .one (program body))]

/-- The node with one more leading comment. -/
def withLeading (t : Node) (c : Comment) : Node :=
  t.withComments { t.head.comments with leading := t.head.comments.leading ++ [c] }

end Typeshift.Source
