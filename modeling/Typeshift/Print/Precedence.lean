import Typeshift.Tree.Basic

/-! # Precedence

How tightly expressions and types bind. A part of a construct is put in parentheses when it binds
looser than its place asks for. -/

namespace Typeshift.Print

/-- How tightly an expression binds, loosest first. -/
inductive Precedence where
  | comma | assignment | conditional | coalesce | logicalOr | logicalAnd | bitwiseOr | bitwiseXor
  | bitwiseAnd | equality | relational | shift | additive | multiplicative | exponent | unary
  | update | leftHandSide | member | primary
  deriving DecidableEq, Repr

namespace Precedence

/-- The place of a precedence in the order, loosest first. -/
def rank : Precedence → Nat
  | .comma => 0
  | .assignment => 1
  | .conditional => 2
  | .coalesce => 3
  | .logicalOr => 4
  | .logicalAnd => 5
  | .bitwiseOr => 6
  | .bitwiseXor => 7
  | .bitwiseAnd => 8
  | .equality => 9
  | .relational => 10
  | .shift => 11
  | .additive => 12
  | .multiplicative => 13
  | .exponent => 14
  | .unary => 15
  | .update => 16
  | .leftHandSide => 17
  | .member => 18
  | .primary => 19

/-- Whether the first binds looser than the second. -/
def looser (a b : Precedence) : Bool := a.rank < b.rank

/-- The next tighter precedence; the tightest stays. -/
def tighter : Precedence → Precedence
  | .comma => .assignment
  | .assignment => .conditional
  | .conditional => .coalesce
  | .coalesce => .logicalOr
  | .logicalOr => .logicalAnd
  | .logicalAnd => .bitwiseOr
  | .bitwiseOr => .bitwiseXor
  | .bitwiseXor => .bitwiseAnd
  | .bitwiseAnd => .equality
  | .equality => .relational
  | .relational => .shift
  | .shift => .additive
  | .additive => .multiplicative
  | .multiplicative => .exponent
  | .exponent => .unary
  | .unary => .update
  | .update => .leftHandSide
  | .leftHandSide => .member
  | .member | .primary => .primary

/-- The precedence of a binary or logical operator. -/
def ofOperator : String → Precedence
  | "??" => .coalesce
  | "||" => .logicalOr
  | "&&" => .logicalAnd
  | "|" => .bitwiseOr
  | "^" => .bitwiseXor
  | "&" => .bitwiseAnd
  | "==" | "!=" | "===" | "!==" => .equality
  | "<" | ">" | "<=" | ">=" | "in" | "instanceof" => .relational
  | "<<" | ">>" | ">>>" => .shift
  | "+" | "-" => .additive
  | "*" | "/" | "%" => .multiplicative
  | "**" => .exponent
  | _ => .comma

/-- The precedence of an expression. -/
def ofHead (h : Head) : Precedence :=
  match h.tag? with
  | some .sequenceExpression => .comma
  | some .assignmentExpression | some .arrowFunctionExpression | some .yieldExpression =>
    .assignment
  | some .conditionalExpression => .conditional
  | some .logicalExpression | some .binaryExpression => ofOperator (h.text .operator)
  | some .tsAsExpression => .relational
  | some .unaryExpression | some .awaitExpression => .unary
  | some .updateExpression => if h.flag .operatorFirst then .unary else .update
  | some .callExpression => .leftHandSide
  | some .memberExpression | some .newExpression | some .taggedTemplateExpression
  | some .metaProperty => .member
  | _ => .primary

/-- What the left and the right side of an operator must bind at least as tightly as. Operators
associate to the left, but `**` to the right, and it takes no unary operator on its left. -/
def operands (operator : String) : Precedence × Precedence :=
  if operator = "**" then (.update, .exponent)
  else (ofOperator operator, (ofOperator operator).tighter)

end Precedence

/-- How tightly a type binds, loosest first. -/
inductive TypePrecedence where
  | function | union | intersection | operator | access | primary
  deriving DecidableEq, Repr

namespace TypePrecedence

/-- The place of a precedence in the order, loosest first. -/
def rank : TypePrecedence → Nat
  | .function => 0
  | .union => 1
  | .intersection => 2
  | .operator => 3
  | .access => 4
  | .primary => 5

/-- Whether the first binds looser than the second. -/
def looser (a b : TypePrecedence) : Bool := a.rank < b.rank

/-- The precedence of a type, given those of the types inside. A union or an intersection of one
type binds as that type does. -/
def rule (h : Head) (s : Slots TypePrecedence) : TypePrecedence :=
  let list (many : TypePrecedence) := match s.children .types with
    | [] => .primary
    | [t] => t.note
    | _ => many
  match h.tag? with
  | some .tsAscription => ((s.child? .ty).map Tree.note).getD .primary
  | some .tsFunctionType => .function
  | some .tsUnionType => list .union
  | some .tsIntersectionType => list .intersection
  | some .tsTypeOperator => .operator
  | some .tsArrayType | some .tsIndexedAccessType => .access
  | _ => .primary

/-- The precedence of a type. -/
def ofTree {ρ : Type} (t : Tree ρ) : TypePrecedence := t.synthesize rule

end TypePrecedence

end Typeshift.Print
