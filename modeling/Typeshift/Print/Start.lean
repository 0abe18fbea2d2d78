import Typeshift.Print.Literal
import Typeshift.Print.Precedence

/-! # How an expression starts

Some decisions look at the first word of an expression: a statement must not start with `{` or
`function`, and without semicolons a line that starts with `(` would continue the one before. The
first word is found by going down the operands on the left, unless parentheses come first.

* `Start.ofTree`: the node whose text comes first, `none` if a parenthesis does.
* `containsCall`, `endsOpen`: two other questions about the shape of a tree. -/

namespace Typeshift.Print

/-- `??` may not be mixed with `||` or `&&` without parentheses. -/
def mixesCoalesce (operator : String) (operand : Head) : Bool :=
  operand.is .logicalExpression &&
    let inner := operand.text .operator
    match operator with
    | "??" => inner == "||" || inner == "&&"
    | "||" | "&&" => inner == "??"
    | _ => false

/-- The operand that is written first, what it must bind at least as tightly as, and whether it is
put in parentheses in any case. -/
def leftOperand? {ρ : Type} (h : Head) (s : Slots ρ) : Option (Tree ρ × Precedence × Bool) :=
  match h.tag? with
  | some .binaryExpression | some .logicalExpression =>
    (s.child? .left).map fun t =>
      (t, (Precedence.operands (h.text .operator)).1, mixesCoalesce (h.text .operator) t.head)
  | some .assignmentExpression => (s.child? .left).map (·, .leftHandSide, false)
  | some .conditionalExpression => (s.child? .test).map (·, .coalesce, false)
  | some .callExpression => (s.child? .callee).map (·, .leftHandSide, false)
  | some .memberExpression =>
    (s.child? .object).map fun t => (t, .leftHandSide, isBareInteger t.head)
  | some .taggedTemplateExpression => (s.child? .tag).map (·, .member, false)
  | some .sequenceExpression => (s.children .expressions).head?.map (·, .assignment, false)
  | some .tsAsExpression => (s.child? .expression).map (·, .relational, false)
  | some .updateExpression =>
    if h.flag .operatorFirst then none else (s.child? .argument).map (·, .leftHandSide, false)
  | _ => none

/-- How an expression starts at a place that asks for a precedence: with the text of a node, or
with a parenthesis. -/
abbrev Start := Precedence → Option Head

namespace Start

/-- The start of an expression, given those of its parts. -/
def rule (h : Head) (s : Slots Start) : Start := fun least =>
  if (Precedence.ofHead h).looser least then none else
    match leftOperand? h s with
    | none => some h
    | some (operand, least, forced) => if forced then none else operand.note least

/-- The node whose text comes first, `none` if a parenthesis does. -/
def ofTree {ρ : Type} (t : Tree ρ) (least : Precedence) : Option Head := t.synthesize rule least

end Start

variable {ρ : Type}

/-- Whether a statement made of an expression would be read as a block or a declaration. -/
def needsStatementParens (t : Tree ρ) : Bool :=
  match Start.ofTree t .comma with
  | none => false
  | some h => h.isAny [.objectExpression, .objectPattern, .functionExpression, .classExpression]

/-- Whether a text starts with a sign. -/
def startsWithSign (s : String) : Bool :=
  match s.toList with
  | c :: _ => c == '+' || c == '-'
  | [] => false

/-- Whether a statement made of an expression could continue the line before it. -/
def continuesLine (t : Tree ρ) : Bool :=
  needsStatementParens t ||
    match Start.ofTree t .comma with
    | none => true
    | some h =>
      match h.tag? with
      | some .parenthesizedExpression | some .arrayExpression | some .arrayPattern
      | some .templateLiteral | some .regExpLiteral | some .jsxElement | some .jsxFragment => true
      | some .arrowFunctionExpression => !h.flag .isAsync
      | some .unaryExpression | some .updateExpression => startsWithSign (h.text .operator)
      | _ => false

/-- Whether the body of an arrow function would be read as a block. -/
def startsObject (t : Tree ρ) : Bool :=
  match Start.ofTree t .assignment with
  | none => false
  | some h => h.isAny [.objectExpression, .objectPattern]

/-- `- -x` and `+ +x` need a space, or they would be read as `--x` and `++x`. -/
def repeatsSign (operator : String) (argument : Head) : Bool :=
  match operator.toList.getLast? with
  | none => false
  | some sign =>
    (sign == '+' || sign == '-') &&
      (argument.is .unaryExpression
        || argument.is .updateExpression && argument.flag .operatorFirst) &&
      (argument.text .operator).toList.head? == some sign

/-- Whether a call stands where `new` would take its arguments, given the answer for the parts. -/
def containsCallRule (h : Head) (s : Slots Bool) : Bool :=
  match h.tag? with
  | some .callExpression => true
  | some .memberExpression => ((s.child? .object).map Tree.note).getD false
  | some .taggedTemplateExpression => ((s.child? .tag).map Tree.note).getD false
  | _ => false

/-- Whether a call stands where `new` would take its arguments. -/
def containsCall (t : Tree ρ) : Bool := t.synthesize containsCallRule

/-- Whether a statement ends with an `if` that an `else` would be attached to, given the answer for
the parts. -/
def endsOpenRule (h : Head) (s : Slots Bool) : Bool :=
  match h.tag? with
  | some .ifStatement => ((s.child? .alternate).map Tree.note).getD true
  | some .labeledStatement | some .whileStatement | some .withStatement | some .forStatement
  | some .forInStatement | some .forOfStatement => ((s.child? .body).map Tree.note).getD false
  | _ => false

/-- Whether a statement ends with an `if` that an `else` would be attached to. -/
def endsOpen (t : Tree ρ) : Bool := t.synthesize endsOpenRule

end Typeshift.Print
