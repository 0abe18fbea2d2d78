import Typeshift.Proofs.Expression.Lexer
import Typeshift.Proofs.Expression.Outside

/-! # A grammar of statements

Statements are made of expressions and of other statements. A statement that ends with a semicolon
may do without it before a closing brace and at the end of the text, and where a line ends and the
statement cannot go on with what follows. No line may end before `++` and `--` after an operand. A
semicolon that stands alone is a statement that does nothing.

* `Stmt`: a statement. `Stmt.braced`: with braces where an `else` would be attached to another `if`.
* `Ends`: how a statement ends that ends with a semicolon or does without.
* `Begins`: what the first tokens of a statement say.
* `Reads`: the grammar, a statement or a list of statements with the lexemes it is read from. -/

namespace Typeshift.Statement

open Expression

/-! ### Statements -/

/-- Names that are declared, each with its value if it has one. -/
abbrev Bindings := List (String × Option Expr)

/-- What stands before the first semicolon in the head of a loop. -/
inductive Init where
  | expression (e : Expr)
  | declare (kind : String) (bindings : Bindings)

/-- What a loop over keys or items sets. -/
inductive LoopTarget where
  | expression (e : Expr)
  | declare (kind name : String)

/-- A statement. -/
inductive Stmt where
  | empty
  | expression (e : Expr)
  | declare (kind : String) (bindings : Bindings)
  | block (members : List Stmt)
  | ifThen (test : Expr) (consequent : Stmt)
  | ifElse (test : Expr) (consequent alternate : Stmt)
  | whileLoop (test : Expr) (body : Stmt)
  | doLoop (body : Stmt) (test : Expr)
  | forLoop (init : Option Init) (test update : Option Expr) (body : Stmt)
  | forIn (target : LoopTarget) (object : Expr) (body : Stmt)
  | forOf (isAwait : Bool) (target : LoopTarget) (items : Expr) (body : Stmt)
  | withObject (object : Expr) (body : Stmt)
  | labeled (label : String) (body : Stmt)

namespace Stmt

/-- Whether a statement ends with an `if` that an `else` would be attached to. -/
def endsOpen : Stmt → Bool
  | ifThen _ _ => true
  | ifElse _ _ alternate => alternate.endsOpen
  | whileLoop _ body | forLoop _ _ _ body | forIn _ _ body | forOf _ _ _ body | withObject _ body
  | labeled _ body => body.endsOpen
  | empty | expression _ | declare _ _ | block _ | doLoop _ _ => false

/-- A statement in a block of its own, if a condition holds. -/
def braceIf (b : Bool) (s : Stmt) : Stmt := if b then block [s] else s

mutual

/-- **A statement with the braces that it needs**: what stands before an `else` is put in a block if
it ends with an `if` that the `else` would be attached to. -/
def braced : Stmt → Stmt
  | empty => empty
  | expression e => expression e
  | declare kind bindings => declare kind bindings
  | block members => block (bracedAll members)
  | ifThen test consequent => ifThen test consequent.braced
  | ifElse test consequent alternate =>
    ifElse test (braceIf consequent.endsOpen consequent.braced) alternate.braced
  | whileLoop test body => whileLoop test body.braced
  | doLoop body test => doLoop body.braced test
  | forLoop init test update body => forLoop init test update body.braced
  | forIn target object body => forIn target object body.braced
  | forOf isAwait target items body => forOf isAwait target items body.braced
  | withObject object body => withObject object body.braced
  | labeled label body => labeled label body.braced

/-- Statements with the braces that they need. -/
def bracedAll : List Stmt → List Stmt
  | [] => []
  | s :: rest => s.braced :: bracedAll rest

end

end Stmt

/-! ### Lexemes -/

/-- A token, and whether a line ends between the token before it and this one. -/
structure Lexeme where
  token : Token
  broken : Bool

/-- The tokens of lexemes. -/
def tokens (ls : List Lexeme) : List Token := ls.map Lexeme.token

/-- Whether a line ends at a character. -/
def isLineEnd (c : Char) : Bool := c == '\n' || c == '\r' || c == '\u2028' || c == '\u2029'

/-- The lexemes of a text, found in so many steps, after what may be the end of a line. -/
def lexemesWithin (A : Alphabet) : Nat → Bool → List Char → Option (List Lexeme)
  | _, _, [] => some []
  | 0, _, _ :: _ => none
  | n + 1, broken, cs => do
    let (token, rest) ← A.next? cs
    match token with
    | some token => (lexemesWithin A n false rest).map (⟨token, broken⟩ :: ·)
    | none =>
      lexemesWithin A n (broken || (cs.take (cs.length - rest.length)).any isLineEnd) rest

/-- **The lexemes of a text.** -/
def lexemes (A : Alphabet) (s : String) : Option (List Lexeme) :=
  lexemesWithin A s.toList.length true s.toList

/-! ### Expressions and declarations -/

/-- No line ends before an operator that follows its operand. -/
def Unbroken (ls : List Lexeme) : Prop :=
  ∀ before l after, ls = before ++ l :: after → l.broken = true →
    (∃ operator ∈ updateOperators, l.token = .mark operator) →
    ∀ ts e, ts <:+ tokens before → ¬ Derives .leftHandSide ts e

/-- Lexemes are read as an expression. -/
structure Expresses (ls : List Lexeme) (e : Expr) : Prop where
  derives : Derives .expression (tokens ls) e
  unbroken : Unbroken ls

/-- A name that is declared, and its value. -/
inductive Binding : List Token → String × Option Expr → Prop where
  | bare {x : String} (hx : x ∉ reserved) : Binding [.word x] (x, none)
  | valued {x : String} {ts : List Token} {e : Expr} (hx : x ∉ reserved)
      (value : Derives .assignment ts e) : Binding (.word x :: .mark "=" :: ts) (x, some e)

/-- Lexemes are read as names that are declared, with commas between them. -/
structure Binds (ls : List Lexeme) (bs : Bindings) : Prop where
  bindings : ∃ parts ≠ [], tokens ls = separated (parts.map Prod.fst) ∧ bs = parts.map Prod.snd ∧
    ∀ part ∈ parts, Binding part.1 part.2
  unbroken : Unbroken ls

/-! ### The ends of statements -/

/-- **How a statement ends** that ends with a semicolon or does without: what is left after it. It
cannot go on if nothing that begins with its lexemes and the next is of the given kind. -/
inductive Ends (kind : List Lexeme → Prop) (ls : List Lexeme) :
    List Lexeme → List Lexeme → Prop where
  | semicolon {l : Lexeme} {rest : List Lexeme} (hl : l.token = .mark ";") :
    Ends kind ls (l :: rest) rest
  | brace {l : Lexeme} {rest : List Lexeme} (hl : l.token = .mark "\x7d") :
    Ends kind ls (l :: rest) (l :: rest)
  | finish : Ends kind ls [] []
  | line {l : Lexeme} {rest : List Lexeme} (hl : l.token ∉ [.mark ";", .mark "\x7d"])
      (broken : l.broken = true) (offends : ∀ more, ¬ kind (ls ++ l :: more)) :
    Ends kind ls (l :: rest) (l :: rest)

/-- An expression, or a label. -/
def IsExpression (ls : List Lexeme) : Prop :=
  (∃ e, Expresses ls e) ∨ ∃ x ∉ reserved, tokens ls = [.word x, .mark ":"]

/-- Names that are declared. -/
def IsBindings (ls : List Lexeme) : Prop := ∃ bs, Binds ls bs

/-! ### The beginnings of statements -/

/-- The statements that a token may begin. -/
inductive Form where
  | empty
  | block
  | branch
  | whileLoop
  | doLoop
  | forLoop
  | withObject
  | declaration (kind : String)
  /-- An expression, or a statement with a label. -/
  | plain
  deriving DecidableEq

/-- The statements that begin with a token. -/
def form (t : Token) : Form :=
  if t = .mark ";" then .empty
  else if t = .mark "\x7b" then .block
  else if t = .word "if" then .branch
  else if t = .word "while" then .whileLoop
  else if t = .word "do" then .doLoop
  else if t = .word "for" then .forLoop
  else if t = .word "with" then .withObject
  else if t = .word "var" then .declaration "var"
  else if t = .word "let" then .declaration "let"
  else if t = .word "const" then .declaration "const"
  else .plain

/-- **Whether `in` stands as a bare operator** among tokens: outside of brackets. What stands
between `?` and `:` is bracketed as well. -/
def hasBareIn (ts : List Token) : Bool := inOutside ["(", "[", "?"] [")", "]", ":"] 0 ts

/-- Lexemes are read as what stands before the first semicolon in the head of a loop. -/
inductive Opens : List Lexeme → Option Init → Prop where
  | none : Opens [] none
  | expression {ls : List Lexeme} {e : Expr} (value : Expresses ls e)
      (plain : ∀ l ∈ ls.head?, form l.token = .plain) (hin : hasBareIn (tokens ls) = false) :
    Opens ls (some (.expression e))
  | declaration {l : Lexeme} {ls : List Lexeme} {kind : String} {bs : Bindings}
      (hl : form l.token = .declaration kind) (bindings : Binds ls bs)
      (hin : hasBareIn (tokens ls) = false) : Opens (l :: ls) (some (.declare kind bs))

/-- Lexemes are read as an expression, or there are none. -/
inductive Maybe : List Lexeme → Option Expr → Prop where
  | none : Maybe [] none
  | some {ls : List Lexeme} {e : Expr} (value : Expresses ls e) : Maybe ls (some e)

/-- An expression in parentheses, and what follows it. -/
inductive Grouped : List Lexeme → Expr → List Lexeme → Prop where
  | mk {l r : Lexeme} {ls rest all : List Lexeme} {e : Expr} (hl : l.token = .mark "(")
      (value : Expresses ls e) (hr : r.token = .mark ")") (split : all = l :: (ls ++ r :: rest)) :
    Grouped all e rest

/-- The head of a loop, and what follows it. -/
inductive Heads : List Lexeme → Option Init → Option Expr → Option Expr → List Lexeme → Prop where
  | mk {l a b r : Lexeme} {is ts us rest all : List Lexeme} {init : Option Init}
      {test update : Option Expr} (hl : l.token = .mark "(") (first : Opens is init)
      (ha : a.token = .mark ";") (second : Maybe ts test) (hb : b.token = .mark ";")
      (third : Maybe us update) (hr : r.token = .mark ")")
      (split : all = l :: (is ++ a :: (ts ++ b :: (us ++ r :: rest)))) :
    Heads all init test update rest

/-- Lexemes are read as what a loop over keys or items sets. -/
inductive Aims : List Lexeme → LoopTarget → Prop where
  | expression {ls : List Lexeme} {e : Expr} (derives : Derives .leftHandSide (tokens ls) e)
      (unbroken : Unbroken ls) (plain : ∀ l ∈ ls.head?, form l.token = .plain) :
    Aims ls (.expression e)
  | declaration {l m : Lexeme} {kind x : String} (hl : form l.token = .declaration kind)
      (hm : m.token = .word x) (hx : x ∉ reserved) : Aims [l, m] (.declare kind x)

/-- The head of a loop that goes over something, and what follows it. -/
inductive Traverses (p : Phrase) (word : String) :
    List Lexeme → LoopTarget → Expr → List Lexeme → Prop where
  | mk {l w r : Lexeme} {ts us rest all : List Lexeme} {target : LoopTarget} {e : Expr}
      (hl : l.token = .mark "(") (first : Aims ts target) (hw : w.token = .word word)
      (derives : Derives p (tokens us) e) (unbroken : Unbroken us) (hr : r.token = .mark ")")
      (split : all = l :: (ts ++ w :: (us ++ r :: rest))) :
    Traverses p word all target e rest

/-- The word `await`, or nothing, and what follows it. -/
inductive Awaits : Bool → List Lexeme → List Lexeme → Prop where
  | no {ls : List Lexeme} : Awaits false ls ls
  | yes {l : Lexeme} {ls : List Lexeme} (hl : l.token = .word "await") : Awaits true (l :: ls) ls

/-- What is left to read after the beginning of a statement. -/
inductive Lead where
  /-- Nothing. -/
  | whole (s : Stmt)
  /-- A statement, of which the whole is made. -/
  | before (build : Stmt → Stmt)
  /-- The members of a block. -/
  | block
  /-- One or two branches. -/
  | branch (test : Expr)
  /-- The body of a loop and its test. -/
  | doLoop

/-- **How a statement begins** whose form is known from its first token, and what follows. -/
inductive Begins : Form → List Lexeme → Lead → List Lexeme → Prop where
  | empty {l : Lexeme} {ls : List Lexeme} : Begins .empty (l :: ls) (.whole .empty) ls
  | block {l : Lexeme} {ls : List Lexeme} : Begins .block (l :: ls) .block ls
  | branch {l : Lexeme} {ls rest : List Lexeme} {e : Expr} (test : Grouped ls e rest) :
    Begins .branch (l :: ls) (.branch e) rest
  | whileLoop {l : Lexeme} {ls rest : List Lexeme} {e : Expr} (test : Grouped ls e rest) :
    Begins .whileLoop (l :: ls) (.before (.whileLoop e)) rest
  | doLoop {l : Lexeme} {ls : List Lexeme} : Begins .doLoop (l :: ls) .doLoop ls
  | forLoop {l : Lexeme} {ls rest : List Lexeme} {init : Option Init} {test update : Option Expr}
      (head : Heads ls init test update rest) :
    Begins .forLoop (l :: ls) (.before (.forLoop init test update)) rest
  | forIn {l : Lexeme} {ls rest : List Lexeme} {target : LoopTarget} {e : Expr}
      (head : Traverses .expression "in" ls target e rest) :
    Begins .forLoop (l :: ls) (.before (.forIn target e)) rest
  | forOf {l : Lexeme} {ls ms rest : List Lexeme} {isAwait : Bool} {target : LoopTarget} {e : Expr}
      (wait : Awaits isAwait ls ms) (head : Traverses .assignment "of" ms target e rest)
      (lookahead : isAwait = false → ¬ [.mark "(", .word "async", .word "of"] <+: tokens ms) :
    Begins .forLoop (l :: ls) (.before (.forOf isAwait target e)) rest
  | withObject {l : Lexeme} {ls rest : List Lexeme} {e : Expr} (object : Grouped ls e rest) :
    Begins .withObject (l :: ls) (.before (.withObject e)) rest
  | declaration {l : Lexeme} {ls bound more rest : List Lexeme} {kind : String} {bs : Bindings}
      (split : ls = bound ++ more) (bindings : Binds bound bs)
      (ends : Ends IsBindings bound more rest) :
    Begins (.declaration kind) (l :: ls) (.whole (.declare kind bs)) rest
  | label {l c : Lexeme} {ls : List Lexeme} {x : String} (hl : l.token = .word x)
    (hx : x ∉ reserved)
      (hc : c.token = .mark ":") : Begins .plain (l :: c :: ls) (.before (.labeled x)) ls
  | expression {ls value more rest : List Lexeme} {e : Expr} (split : ls = value ++ more)
      (expresses : Expresses value e) (ends : Ends IsExpression value more rest) :
    Begins .plain ls (.whole (.expression e)) rest

/-- How lexemes begin that are read as a statement. -/
def Leads (ls : List Lexeme) (lead : Lead) (rest : List Lexeme) : Prop :=
  ∃ l ∈ ls.head?, Begins (form l.token) ls lead rest

/-! ### The grammar -/

/-- What is read: one statement, or all that there are. -/
inductive Size where
  | one
  | many

/-- Lexemes after a semicolon, if they begin with one. -/
def skipSemicolon : List Lexeme → List Lexeme
  | [] => []
  | l :: ls => if l.token = .mark ";" then ls else l :: ls

/-- **The grammar**: lexemes, the statements that are read from them, and the lexemes that are left.
Statements are read as long as there are any before a closing brace. -/
inductive Reads : Size → List Lexeme → List Stmt → List Lexeme → Prop where
  | whole {ls rest : List Lexeme} {s : Stmt} (lead : Leads ls (.whole s) rest) :
    Reads .one ls [s] rest
  | before {ls mid rest : List Lexeme} {build : Stmt → Stmt} {s : Stmt}
      (lead : Leads ls (.before build) mid) (body : Reads .one mid [s] rest) :
    Reads .one ls [build s] rest
  | block {ls mid rest : List Lexeme} {r : Lexeme} {ss : List Stmt} (lead : Leads ls .block mid)
      (members : Reads .many mid ss (r :: rest)) (hr : r.token = .mark "\x7d") :
    Reads .one ls [.block ss] rest
  | ifThen {ls mid rest : List Lexeme} {test : Expr} {s : Stmt} (lead : Leads ls (.branch test) mid)
      (consequent : Reads .one mid [s] rest) (hnext : ∀ l ∈ rest.head?, l.token ≠ .word "else") :
    Reads .one ls [.ifThen test s] rest
  | ifElse {ls mid mid' rest : List Lexeme} {r : Lexeme} {test : Expr} {s s' : Stmt}
      (lead : Leads ls (.branch test) mid) (consequent : Reads .one mid [s] (r :: mid'))
      (hr : r.token = .word "else") (alternate : Reads .one mid' [s'] rest) :
    Reads .one ls [.ifElse test s s'] rest
  | doLoop {ls mid mid' rest : List Lexeme} {r : Lexeme} {test : Expr} {s : Stmt}
      (lead : Leads ls .doLoop mid) (body : Reads .one mid [s] (r :: mid'))
      (hr : r.token = .word "while") (head : Grouped mid' test rest) :
    Reads .one ls [.doLoop s test] (skipSemicolon rest)
  | none {ls : List Lexeme} (hend : ∀ l ∈ ls.head?, l.token = .mark "\x7d") : Reads .many ls [] ls
  | some {ls mid rest : List Lexeme} {s : Stmt} {ss : List Stmt} (first : Reads .one ls [s] mid)
      (others : Reads .many mid ss rest) : Reads .many ls (s :: ss) rest

/-- **A text is read as statements.** -/
def ReadsAs (A : Alphabet) (text : String) (ss : List Stmt) : Prop :=
  ∃ ls, lexemes A text = some ls ∧ Reads .many ls ss []

end Typeshift.Statement
