import Typeshift.Print.Expression
import Typeshift.Print.Statement

/-! # Printing trees

A *frame* is what a place writes around the text of a node: comments, parentheses, line ends. If the
node is of the family the place is made for, the frame holds its own text; otherwise it holds the
node in the frame of its family, which then writes the comments that are still to be written.

* `scriptAt`: the script of a node at a place.
* `Printer.print`: print a tree, after all that was printed before; it fails if the tree holds a
  node that is not known.
* `printText`: the text of one tree. -/

namespace Typeshift.Print

open Script

/-! ### Frames -/

/-- What a frame holds. The text is given the comments that are still to be written, and `own` says
whether the frame is left to write those after the node. -/
structure Content where
  own : Bool
  script : Comments → Script

namespace Content

/-- The comments after the node, if the frame writes them. -/
def trailing (c : Content) (style : CommentStyle) (pending : Comments) : Script :=
  when c.own (comments style pending.trailing)

end Content

/-- Around an expression or a type: comments in the line, and parentheses if needed. -/
def inlineFrame (keepInner paren : Bool) (pending : Comments) (c : Content) : Script :=
  comments .before pending.leading
    ++ parenIf paren
      (when (!keepInner) (comments (.inside true) pending.inner)
        ++ c.script { pending with
            leading := [], inner := if keepInner then pending.inner else [] })
    ++ c.trailing .after pending

/-- Around an expression. Blocks in its place do not keep their inner comments. -/
def expressionFrame (h : Head) (least : Precedence) (forced : Bool) : Comments → Content → Script :=
  inlineFrame
    (h.isAny [.objectExpression, .arrayExpression, .arrayPattern, .callExpression, .newExpression,
      .jsxEmptyExpression, .classBody])
    (forced || (Precedence.ofHead h).looser least)

/-- Around a type. -/
def typeFrame {ρ : Type} (t : Tree ρ) (least : TypePrecedence) : Comments → Content → Script :=
  inlineFrame (t.head.isAny [.tsTypeLiteral, .tsInterfaceBody])
    ((TypePrecedence.ofTree t).looser least)

/-- Around a statement: its comments on lines of their own. -/
def statementFrame (h : Head) (pending : Comments) (c : Content) : Script :=
  let keepInner := h.isAny [.blockStatement, .tsModuleBlock]
  line ++ comments .lines pending.leading
    ++ when (!keepInner) (comments .lines pending.inner)
    ++ c.script { pending with leading := [], inner := if keepInner then pending.inner else [] }
    ++ c.trailing .afterLine pending ++ line

/-- Around a member of a class. -/
def classMemberFrame (pending : Comments) (c : Content) : Script :=
  line ++ comments .lines pending.leading ++ c.script { pending with leading := [] }
    ++ c.trailing .afterLine pending ++ line

/-- Around a member of an object type, which ends with a semicolon. -/
def typeMemberFrame (pending : Comments) (c : Content) : Script :=
  line ++ comments .lines pending.leading ++ c.script { pending with leading := [] } ++ text ";"
    ++ c.trailing .afterLine pending ++ line

/-! ### Families -/

variable (o : Options) (t : Tree Printed)

/-- The text of a node as its family writes it. -/
def ownText (pending : Comments) : Script :=
  match t.head.family with
  | .program => programText t.head t.slots pending
  | .statement => statementText o t.head t.slots pending
  | .type => typeKind t.head t.slots pending
  | .classMember => classMemberText t.head t.slots
  | .typeMember => typeMemberText t.head t.slots
  | .expression => expressionText o t.head t.slots pending

/-- A node as its family writes it, with the comments that are still to be written. -/
def familyText (pending : Comments) : Script :=
  let own : Content := ⟨true, ownText o t⟩
  match t.head.family with
  | .program => ownText o t pending
  | .statement => statementFrame t.head pending own
  | .type => typeFrame t .function pending own
  | .classMember => classMemberFrame pending own
  | .typeMember => typeMemberFrame pending own
  | .expression => expressionFrame t.head .comma false pending own

/-- What a frame made for some families holds. -/
def content (families : List Family) : Content :=
  if families.contains t.head.family then ⟨true, ownText o t⟩ else ⟨false, familyText o t⟩

/-- What an expression frame holds; a whole program has no text there. -/
def expressionContent : Content :=
  if t.head.family = .program then ⟨true, fun _ => []⟩ else content o t [.expression]

/-! ### Places -/

/-- The body of a loop or a branch: a block on the same line, or a statement on the next. -/
def bodyText (pending : Comments) : Script :=
  if t.head.is .blockStatement then
    space ++ comments .before pending.leading ++ blockText t.head t.slots pending
      ++ comments .after pending.trailing
  else indented (statementFrame t.head pending (content o t [.statement]))

/-- A node in an expression frame. -/
def expressionAt (least : Precedence) (forced : Bool) (pending : Comments) : Script :=
  expressionFrame t.head least forced pending (expressionContent o t)

/-- A node as a part of markup. -/
def markupAt : Script :=
  if (t.head.tag?.map Tag.isMarkup).getD false then markupText t.head t.slots t.head.comments
  else expressionAt o t .assignment false t.head.comments

/-- **The script of a node at a place.** -/
def scriptAt (place : Place) : Script :=
  let h := t.head
  let pending := h.comments
  match place with
  | .program => familyText o t pending
  | .statement => statementFrame h pending (content o t [.statement])
  | .inline =>
    let c := content o t [.statement]
    comments .before pending.leading ++ c.script { pending with leading := [] }
      ++ c.trailing .afterLine pending
  | .exported =>
    comments .before pending.leading
      ++ (content o t [.statement]).script { pending with leading := [] }
  | .block =>
    if h.isAny [.blockStatement, .tsModuleBlock] then blockText h t.slots pending
    else familyText o t pending
  | .body => bodyText o t pending
  | .otherwise =>
    if h.is .ifStatement then space ++ comments .before pending.leading ++ ifText t.slots
    else bodyText o t pending
  | .loopHead =>
    if h.is .variableDeclaration then
      comments .before pending.leading ++ variablesText h t.slots
    else expressionAt o t .comma false pending
  | .expression least forced => expressionAt o t least forced pending
  | .property =>
    comments .lines pending.leading
      ++ expressionAt o t .assignment false { pending with leading := [] }
  | .type least => typeFrame t least pending (content o t [.type])
  | .classBody =>
    if h.is .classBody then ownText o t pending else familyText o t pending
  | .classMember => classMemberFrame pending (content o t [.classMember, .statement])
  | .typeMember => typeMemberFrame pending (content o t [.typeMember])
  | .markup => markupAt o t
  | .markupChild =>
    if h.isAny [.jsxElement, .jsxFragment] then expressionAt o t .primary false pending
    else markupAt o t
  | .markupValue =>
    if h.is .stringLiteral then text (h.raw?.getD (attributeText (h.text .value))) else markupAt o t

/-- The note that says how a node is written. -/
def printedRule (h : Head) (s : Slots Printed) : Printed := scriptAt o (.mk (fun _ => []) h s)

/-- The script of a tree that stands alone. -/
def script (t : Node) : Script := t.synthesize (printedRule o) .program

end Typeshift.Print

namespace Typeshift

open Print

/-- Why a tree cannot be printed. -/
inductive PrintError where
  /-- It holds a node that is not known, at a place in the source if that is known. -/
  | unsupported (name : String) (start : Option Nat)
  deriving DecidableEq, Repr

/-- The wording of an error. -/
def PrintError.message : PrintError → String
  | .unsupported name start =>
    "cannot print unsupported node '" ++ name ++ "'"
      ++ match start with
        | some n => " at offset " ++ toString n
        | none => ""

/-- The error of a node that is not known. -/
def Head.printError? (h : Head) : Option PrintError :=
  match h.kind with
  | .known _ => none
  | .foreign name _ => some (.unsupported name (h.span.map Span.start))

/-- Why a tree cannot be printed: the first node, in the order of the text, that is not known. -/
def Node.printError? (t : Node) : Option PrintError := t.preorder.findSome? Head.printError?

/-- A printer: its choices and what it has written. -/
structure Printer where
  options : Options
  sheet : Sheet

namespace Printer

/-- A printer that has written nothing. -/
def new (o : Options) : Printer := ⟨o, ⟨.empty o.indentWidth, []⟩⟩

/-- **Print a tree.** Nothing is written if the tree cannot be printed. -/
def print (p : Printer) (t : Node) : Except PrintError Printer :=
  match t.printError? with
  | some e => .error e
  | none => .ok { p with sheet := Script.run p.sheet (script p.options t) }

/-- All that was written. -/
def finish (p : Printer) : String := p.sheet.page.finish

end Printer

/-- **The text of a tree.** -/
def printText (o : Options) (t : Node) : Except PrintError String :=
  (Printer.new o).print t |>.map Printer.finish

end Typeshift
