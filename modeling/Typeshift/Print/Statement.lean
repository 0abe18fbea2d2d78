import Typeshift.Print.Declaration
import Typeshift.Print.Start

/-! # Statements

The text of statements and of whole programs. -/

namespace Typeshift.Print

open Script

/-- The statements of a list, each on lines of its own. -/
def statements (ts : List (Tree Printed)) : Script := ts.flatMap (·.note .statement)

/-- A block: its directives and statements in braces. -/
def blockText (h : Head) (s : Slots Printed) (pending : Comments) : Script :=
  membersBlock h (s.children .directives ++ s.children .body) .statement pending

/-- A keyword with an expression in parentheses and a body. -/
def headed (start : String) (head : Script) (body : Tree Printed) : Script :=
  between start ")" head ++ body.note .body

/-- An `if` with its branches. A branch that ends with an open `if` is put in braces before
`else`. -/
def ifText (s : Slots Printed) : Script :=
  let consequent := s.child .consequent
  let alternate := s.child? .alternate
  between "if (" ")" (expression (s.child .test) .comma)
    ++ (if alternate.isSome && endsOpen consequent then
        space ++ braces (consequent.note .statement)
      else consequent.note .body)
    ++ match alternate with
      | none => []
      | some t => .apart "else" :: t.note .otherwise

/-- An expression as a statement: without semicolons one that could continue the line before starts
with its own, and one that would be read as a block or declaration is put in parentheses. -/
def expressionStatementText (o : Options) (t : Tree Printed) : Script :=
  when (!o.semicolons && continuesLine t) (text ";")
    ++ parenIf (needsStatementParens t) (expression t .comma) ++ semicolon o

/-- The text of a statement. -/
def statementText (o : Options) (h : Head) (s : Slots Printed) (pending : Comments) : Script :=
  match h.tag? with
  | some .directive => expression (s.child .value) .primary ++ semicolon o
  | some .interpreterDirective => text "#!" ++ text (h.text .value)
  | some .blockStatement | some .tsModuleBlock => blockText h s pending
  | some .expressionStatement => expressionStatementText o (s.child .expression)
  | some .emptyStatement => text ";"
  | some .debuggerStatement => text "debugger" ++ semicolon o
  | some .ifStatement => ifText s
  | some .labeledStatement =>
    expression (s.child .label) .primary ++ text ": " ++ (s.child .body).note .inline
  | some .breakStatement =>
    text "break" ++ after " " (s.child? .label) (.expression .primary false) ++ semicolon o
  | some .continueStatement =>
    text "continue" ++ after " " (s.child? .label) (.expression .primary false) ++ semicolon o
  | some .withStatement =>
    headed "with (" (expression (s.child .object) .comma) (s.child .body)
  | some .switchStatement =>
    between "switch (" ") " (expression (s.child .discriminant) .comma)
      ++ braces (statements (s.children .cases) ++ comments .lines pending.inner)
  | some .switchCase =>
    (match s.child? .test with
      | some t => between "case " ":" (expression t .comma)
      | none => text "default:")
      ++ indented (statements (s.children .consequent))
  | some .returnStatement =>
    text "return" ++ after " " (s.child? .argument) (.expression .comma false) ++ semicolon o
  | some .throwStatement => text "throw " ++ expression (s.child .argument) .comma ++ semicolon o
  | some .tryStatement =>
    text "try " ++ (s.child .block).note .block ++ after " " (s.child? .handler) .inline
      ++ after " finally " (s.child? .finalizer) .block
  | some .catchClause =>
    text "catch "
      ++ (match s.child? .param with
        | some t => between "(" ") " (expression t .comma)
        | none => [])
      ++ (s.child .body).note .block
  | some .whileStatement => headed "while (" (expression (s.child .test) .comma) (s.child .body)
  | some .doWhileStatement =>
    text "do" ++ (s.child .body).note .body ++ [.apart "while ("]
      ++ expression (s.child .test) .comma ++ text ")" ++ semicolon o
  | some .forStatement =>
    headed "for (" (after "" (s.child? .init) .loopHead ++ text ";"
      ++ after " " (s.child? .test) (.expression .comma false) ++ text ";"
      ++ after " " (s.child? .update) (.expression .comma false)) (s.child .body)
  | some .forInStatement =>
    headed "for (" ((s.child .left).note .loopHead ++ text " in "
      ++ expression (s.child .right) .comma) (s.child .body)
  | some .forOfStatement =>
    headed (if h.flag .isAwait then "for await (" else "for (")
      ((s.child .left).note .loopHead ++ text " of " ++ expression (s.child .right) .assignment)
      (s.child .body)
  | some .variableDeclaration => variablesText h s ++ semicolon o
  | some .functionDeclaration => functionText h s
  | some .classDeclaration => classText h s
  | some .importDeclaration => importText o h s
  | some .exportNamedDeclaration | some .exportDefaultDeclaration | some .exportAllDeclaration
  | some .tsExportAssignment => exportText o h s
  | some .tsTypeAliasDeclaration | some .tsInterfaceDeclaration | some .tsModuleDeclaration
  | some .tsDeclareFunction => declarationText o h s
  | _ => []

/-- The text of a file or a program, with its comments. -/
def programText (h : Head) (s : Slots Printed) (pending : Comments) : Script :=
  comments .lines pending.leading
    ++ (match h.tag? with
      | some .file => (s.child .program).note .program
      | some .program =>
        after "" (s.child? .interpreter) .statement ++ statements (s.children .directives)
          ++ statements (s.children .body) ++ comments .lines pending.inner
      | _ => [])
    ++ comments .afterLine pending.trailing

end Typeshift.Print
