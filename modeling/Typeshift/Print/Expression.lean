import Typeshift.Print.Declaration
import Typeshift.Print.Markup
import Typeshift.Print.Start

/-! # Expressions

The text of expressions, patterns and of the small parts of declarations: specifiers, declarators,
names. -/

namespace Typeshift.Print

open Script

/-! ### Lists -/

/-- The elements of an array after the first: a gap is a comma alone. -/
def laterElements : List (Option (Tree Printed)) → Script
  | [] => []
  | none :: rest => text "," ++ laterElements rest
  | some t :: rest => text "," ++ space ++ expression t .assignment ++ laterElements rest

/-- **The elements of an array** with their gaps; a gap at the end has a comma of its own. -/
def elementsText (pending : Comments) (ts : List (Option (Tree Printed))) : Script :=
  let inside := match ts with
    | [] => comments (.inside false) pending.inner
    | none :: rest => laterElements rest
    | some t :: rest => expression t .assignment ++ laterElements rest
  let lastIsGap := match ts.getLast? with
    | some none => true
    | _ => false
  between "[" "]" (inside ++ when lastIsGap (text ","))

/-- The properties of an object, each on a line of its own. Its comments stand on lines before
it. -/
def propertyLines : List (Tree Printed) → Script
  | [] => []
  | [t] => line ++ t.note .property
  | t :: rest => line ++ t.note .property ++ text "," ++ propertyLines rest

/-- The properties of an object in braces. -/
def objectText (ts : List (Tree Printed)) (pending : Comments) : Script :=
  if ts.isEmpty then between "\x7b" "\x7d" (comments (.inside false) pending.inner)
  else braces (propertyLines ts ++ comments .lines pending.inner)

/-- The arguments of a call. -/
def argumentsText (ts : List (Tree Printed)) (pending : Comments) : Script :=
  if ts.isEmpty then between "(" ")" (comments (.inside false) pending.inner) else parameters ts

/-- The pieces of a template with the expressions between them. -/
def templatePieces : List (Tree Printed) → List (Tree Printed) → Script
  | [], _ => []
  | q :: quasis, [] => expression q .primary ++ templatePieces quasis []
  | q :: quasis, e :: rest =>
    expression q .primary ++ between "$\x7b" "\x7d" (expression e .comma)
      ++ templatePieces quasis rest

/-! ### Operators -/

/-- `l op r`. -/
def infixed (l : Script) (operator : String) (r : Script) : Script :=
  l ++ space ++ text operator ++ space ++ r

/-- An operand of `operator`, in parentheses in any case if the two may not be mixed. -/
def operand (operator : String) (least : Precedence) (t : Tree Printed) : Script :=
  t.note (.expression least (mixesCoalesce operator t.head))

/-- `a as b`, or `a` if both are the same name. -/
def renamed (a b : Tree Printed) : Script :=
  expression a .primary
    ++ when (a.head.identifier?.isNone || a.head.identifier? != b.head.identifier?)
        (text " as " ++ expression b .primary)

/-- The body of an arrow function; an object that would be read as a block is put in
parentheses. -/
def arrowBody (t : Tree Printed) : Script :=
  if t.head.is .blockStatement then t.note .block
  else t.note (.expression .assignment (startsObject t))

/-! ### Expressions -/

/-- The text of an expression. -/
def expressionText (o : Options) (h : Head) (s : Slots Printed) (pending : Comments) : Script :=
  match h.tag? with
  -- Names and literals
  | some .identifier =>
    text (h.text .name) ++ flagged h .isOptional "?" ++ ascription (s.child? .ty)
  | some .privateName => text "#" ++ expression (s.child .id) .primary
  | some .stringLiteral | some .directiveLiteral =>
    text (h.raw?.getD (quote (h.text .value) o.singleQuote))
  | some .numericLiteral => text (numeralText h)
  | some .bigIntLiteral => text (h.raw?.getD (h.text .value ++ "n"))
  | some .booleanLiteral => text (if h.flag .value then "true" else "false")
  | some .nullLiteral => text "null"
  | some .regExpLiteral => text ("/" ++ h.text .pattern ++ "/" ++ h.text .flags)
  | some .templateLiteral =>
    between "`" "`" (templatePieces (s.children .quasis) (s.children .expressions))
  | some .templateElement =>
    match h.attr? .value with
    | some (.template raw _) => [.raw raw]
    | _ => []
  | some .taggedTemplateExpression =>
    expression (s.child .tag) .member ++ typeArguments (s.child? .typeParameters)
      ++ expression (s.child .quasi) .primary
  | some .thisExpression => text "this"
  | some .superKeyword => text "super"
  | some .importKeyword => text "import"
  | some .metaProperty =>
    expression (s.child .metaName) .primary ++ text "." ++ expression (s.child .property) .primary
  -- Arrays, objects and patterns
  | some .arrayExpression => elementsText pending (s.gaps .elements)
  | some .arrayPattern => elementsText pending (s.gaps .elements) ++ ascription (s.child? .ty)
  | some .objectExpression => objectText (s.children .properties) pending
  | some .objectPattern =>
    let ts := s.children .properties
    (if ts.isEmpty then text "\x7b\x7d" else between "\x7b " " \x7d" (expressions ts .assignment))
      ++ ascription (s.child? .ty)
  | some .objectProperty =>
    let value := expression (s.child .value) .assignment
    (s.children .decorators).flatMap (fun t => expression t .primary ++ space)
      ++ if h.flag .isShorthand && !h.flag .isComputed then value
        else memberName (s.child .key) (h.flag .isComputed) ++ text ": " ++ value
  | some .objectMethod => methodText h s
  | some .spreadElement => text "..." ++ expression (s.child .argument) .assignment
  | some .restElement =>
    text "..." ++ expression (s.child .argument) .assignment ++ ascription (s.child? .ty)
  | some .assignmentPattern =>
    expression (s.child .left) .leftHandSide ++ text " = "
      ++ expression (s.child .right) .assignment
  -- Operators
  | some .unaryExpression =>
    let operator := h.text .operator
    let argument := s.child .argument
    text operator
      ++ when (operator.toList.all Char.isAlpha || repeatsSign operator argument.head) space
      ++ expression argument .unary
  | some .updateExpression =>
    let operator := h.text .operator
    let argument := s.child .argument
    if h.flag .operatorFirst then
      text operator ++ when (repeatsSign operator argument.head) space
        ++ expression argument .unary
    else expression argument .leftHandSide ++ text operator
  | some .binaryExpression | some .logicalExpression =>
    let operator := h.text .operator
    let (least, rightLeast) := Precedence.operands operator
    infixed (operand operator least (s.child .left)) operator
      (operand operator rightLeast (s.child .right))
  | some .assignmentExpression =>
    infixed (expression (s.child .left) .leftHandSide) (h.text .operator)
      (expression (s.child .right) .assignment)
  | some .conditionalExpression =>
    expression (s.child .test) .coalesce ++ text " ? "
      ++ expression (s.child .consequent) .assignment ++ text " : "
      ++ expression (s.child .alternate) .assignment
  | some .callExpression =>
    expression (s.child .callee) .leftHandSide ++ typeArguments (s.child? .typeParameters)
      ++ argumentsText (s.children .arguments) pending
  | some .newExpression =>
    let callee := s.child .callee
    text "new " ++ callee.note (.expression .member (containsCall callee))
      ++ typeArguments (s.child? .typeParameters) ++ argumentsText (s.children .arguments) pending
  | some .memberExpression =>
    let object := s.child .object
    object.note (.expression .leftHandSide (isBareInteger object.head))
      ++ if h.flag .isComputed then between "[" "]" (expression (s.child .property) .comma)
        else text "." ++ expression (s.child .property) .primary
  | some .sequenceExpression => expressions (s.children .expressions) .assignment
  | some .awaitExpression => text "await " ++ expression (s.child .argument) .unary
  | some .yieldExpression =>
    text (if h.flag .isDelegate then "yield*" else "yield")
      ++ after " " (s.child? .argument) (.expression .assignment false)
  | some .parenthesizedExpression => between "(" ")" (expression (s.child .expression) .comma)
  | some .tsAsExpression =>
    expression (s.child .expression) .relational ++ text " as " ++ typeText (s.child .ty)
  -- Functions and classes
  | some .functionExpression => functionText h s
  | some .arrowFunctionExpression =>
    flagged h .isAsync "async " ++ signature s ++ text " => " ++ arrowBody (s.child .body)
  | some .classExpression => classText h s
  | some .classBody => membersBlock h (s.children .body) .classMember pending
  -- Parts of declarations
  | some .decorator => text "@" ++ expression (s.child .expression) .leftHandSide
  | some .variableDeclarator =>
    expression (s.child .id) .leftHandSide
      ++ after " = " (s.child? .init) (.expression .assignment false)
  | some .tsExpressionWithTypeArguments =>
    expression (s.child .expression) .member ++ typeArguments (s.child? .typeParameters)
  | some .tsQualifiedName =>
    expression (s.child .left) .primary ++ text "." ++ expression (s.child .right) .primary
  | some .importSpecifier =>
    let word := importWord h
    when (!word.isEmpty) (text (word ++ " ")) ++ renamed (s.child .imported) (s.child .localName)
  | some .importDefaultSpecifier => expression (s.child .localName) .primary
  | some .importNamespaceSpecifier => text "* as " ++ expression (s.child .localName) .primary
  | some .exportSpecifier => renamed (s.child .localName) (s.child .exported)
  | some .exportNamespaceSpecifier => text "* as " ++ expression (s.child .exported) .primary
  | some .exportDefaultSpecifier => expression (s.child .exported) .primary
  | _ => markupText h s pending

end Typeshift.Print
