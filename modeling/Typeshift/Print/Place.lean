import Typeshift.Print.Precedence
import Typeshift.Print.Script

/-! # Places

Where a node stands decides how it is written: on lines of its own or inside others, with its
comments on lines or in the line, in parentheses or without. Every node can be written at every
place, whatever it is. It belongs to a *family* that knows how to write it; a place that is made for
another family leaves the node to its own.

* `Tag.family`: the family of a construct.
* `Printed`: what is known of a node that is to be written, its script at every place. -/

namespace Typeshift.Print

/-- The choices of the printer. -/
structure Options where
  /-- The number of spaces in a step of indentation. -/
  indentWidth : Nat
  /-- Whether strings without source text are put in single quotes. -/
  singleQuote : Bool
  /-- Whether statements end with a semicolon. -/
  semicolons : Bool
  deriving DecidableEq, Repr

/-- Two spaces, double quotes, semicolons. -/
def Options.standard : Options := ⟨2, false, true⟩

/-- The families of constructs. -/
inductive Family where
  | program
  | statement
  | type
  | classMember
  | typeMember
  | expression
  deriving DecidableEq, Repr

/-- The places of a node. -/
inductive Place where
  /-- The contents of a file. -/
  | program
  /-- A member of a list of statements. -/
  | statement
  /-- After other text on the line. -/
  | inline
  /-- After the keyword of an export. -/
  | exported
  /-- The block of a construct that needs one. -/
  | block
  /-- The body of a loop or a branch. -/
  | body
  /-- After `else`. -/
  | otherwise
  /-- Before the first `;`, or before `in` or `of`, in the head of a loop. -/
  | loopHead
  /-- A part that must bind at least so tightly, or that is put in parentheses in any case. -/
  | expression (least : Precedence) (forced : Bool)
  /-- A member of an object that is spread over lines. -/
  | property
  /-- A type that must bind at least so tightly. -/
  | type (least : TypePrecedence)
  /-- The members of a class. -/
  | classBody
  /-- A member of a class. -/
  | classMember
  /-- A member of an object type. -/
  | typeMember
  /-- A part of a markup element. -/
  | markup
  /-- Between the tags of a markup element. -/
  | markupChild
  /-- The value of a markup attribute. -/
  | markupValue
  deriving DecidableEq, Repr

/-- A node that is to be written: its script at every place. -/
abbrev Printed := Place → Script

end Typeshift.Print

namespace Typeshift

open Print

/-- The family of a construct. -/
def Tag.family : Tag → Family
  | .file | .program => .program
  | .directive | .interpreterDirective | .blockStatement | .expressionStatement | .emptyStatement
  | .debuggerStatement | .ifStatement | .labeledStatement | .breakStatement | .continueStatement
  | .withStatement | .switchStatement | .switchCase | .returnStatement | .throwStatement
  | .tryStatement | .catchClause | .whileStatement | .doWhileStatement | .forStatement
  | .forInStatement | .forOfStatement | .variableDeclaration | .functionDeclaration
  | .classDeclaration | .importDeclaration | .exportNamedDeclaration | .exportDefaultDeclaration
  | .exportAllDeclaration | .tsTypeAliasDeclaration | .tsInterfaceDeclaration
  | .tsModuleDeclaration | .tsModuleBlock | .tsExportAssignment | .tsDeclareFunction => .statement
  | .tsAscription | .tsTypeParameterDeclaration | .tsTypeParameter | .tsTypeParameterInstantiation
  | .tsAnyKeyword | .tsUnknownKeyword | .tsNeverKeyword | .tsVoidKeyword | .tsNullKeyword
  | .tsUndefinedKeyword | .tsNumberKeyword | .tsStringKeyword | .tsBooleanKeyword
  | .tsSymbolKeyword | .tsBigIntKeyword | .tsThisType | .tsLiteralType | .tsArrayType
  | .tsTupleType | .tsUnionType | .tsIntersectionType | .tsFunctionType | .tsTypeReference
  | .tsTypeQuery | .tsTypeOperator | .tsIndexedAccessType | .tsTypeLiteral
  | .tsInterfaceBody => .type
  | .classMethod | .classPrivateMethod | .classProperty | .classPrivateProperty
  | .tsDeclareMethod => .classMember
  | .tsPropertySignature | .tsMethodSignature | .tsIndexSignature
  | .tsCallSignatureDeclaration => .typeMember
  | _ => .expression

/-- Whether a construct is a part of markup. -/
def Tag.isMarkup : Tag → Bool
  | .jsxElement | .jsxOpeningElement | .jsxClosingElement | .jsxFragment | .jsxOpeningFragment
  | .jsxClosingFragment | .jsxAttribute | .jsxSpreadAttribute | .jsxExpressionContainer
  | .jsxEmptyExpression | .jsxSpreadChild | .jsxText | .jsxIdentifier | .jsxMemberExpression
  | .jsxNamespacedName => true
  | _ => false

/-- The family of a node; what is not known is taken for an expression. -/
def Head.family (h : Head) : Family := (h.tag?.map Tag.family).getD .expression

namespace Print

open Script

/-! ### Parts that many constructs share -/

/-- An expression that must bind at least so tightly. -/
def expression (t : Tree Printed) (least : Precedence) : Script := t.note (.expression least false)

/-- A type where any type may stand. -/
def typeText (t : Tree Printed) : Script := t.note (.type .function)

/-- `: T`, if there is a type. -/
def ascription (t : Option (Tree Printed)) : Script :=
  match t with
  | none => []
  | some t => text ": " ++ typeText t

/-- A list of types in angle brackets. -/
def angled (ts : List (Tree Printed)) : Script := between "<" ">" (commas (ts.map typeText))

/-- The list of types in angle brackets that a node of the given construct holds; nothing for
others. -/
def angledOf (t : Tag) (list : Option (Tree Printed)) : Script :=
  match list with
  | none => []
  | some list => when (list.head.is t) (angled (list.slots.children .params))

/-- `<P extends B>` before parameters. -/
def typeParameters (s : Slots Printed) : Script :=
  angledOf .tsTypeParameterDeclaration (s.child? .typeParameters)

/-- `<A>` after a name. -/
def typeArguments (list : Option (Tree Printed)) : Script :=
  angledOf .tsTypeParameterInstantiation list

/-- Expressions separated by commas. -/
def expressions (ts : List (Tree Printed)) (least : Precedence) : Script :=
  commas (ts.map (expression · least))

/-- `(a, b)`. -/
def parameters (ts : List (Tree Printed)) : Script := between "(" ")" (expressions ts .assignment)

/-- A name of a member, in brackets if it is computed. -/
def memberName (t : Tree Printed) (isComputed : Bool) : Script :=
  if isComputed then between "[" "]" (expression t .assignment) else expression t .primary

/-- `;`, if statements end with one. -/
def semicolon (o : Options) : Script := when o.semicolons (text ";")

/-- A word and a space, if a flag is set. -/
def flagged (h : Head) (f : Field) (word : String) : Script := when (h.flag f) (text word)

/-- A part after a text, if there is one. -/
def after (before : String) (t : Option (Tree Printed)) (place : Place) : Script :=
  match t with
  | none => []
  | some t => text before ++ t.note place

end Print

end Typeshift
