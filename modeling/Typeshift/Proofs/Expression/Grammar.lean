/-! # A grammar of expressions

The part of the grammar of expressions whose terminals are names, numerals, operators, brackets,
commas and points. A phrase of one kind may be made of a single phrase of a narrower kind, so the
kinds say how tightly an expression binds: `??` may not be mixed with `||` and `&&`, the left side
of `**` is no unary expression, and a call has no place in what `new` makes.

* `Expr`: an expression without its parentheses.
* `Derives`: the grammar, with the expression that a list of tokens stands for. -/

namespace Typeshift.Expression

/-- A token: a word, a numeral or a mark such as `+` or `(`. -/
inductive Token where
  | word (s : String)
  | numeral (s : String)
  | mark (s : String)
  deriving DecidableEq, Repr

/-- An expression without its parentheses. -/
inductive Expr where
  | name (x : String)
  | numeral (digits : String)
  | member (object : Expr) (property : String)
  | index (object property : Expr)
  | call (callee : Expr) (arguments : List Expr)
  | new (callee : Expr) (arguments : List Expr)
  | unary (operator : String) (argument : Expr)
  /-- `++x` if the operator comes first, `x++` if not. -/
  | update (operator : String) (isFirst : Bool) (argument : Expr)
  | binary (operator : String) (left right : Expr)
  | conditional (test consequent alternate : Expr)
  | assign (operator : String) (target value : Expr)
  | sequence (items : List Expr)

/-- The words that are not names. -/
def reserved : List String :=
  ["await", "break", "case", "catch", "class", "const", "continue", "debugger", "default",
    "delete", "do", "else", "enum", "export", "extends", "false", "finally", "for", "function",
    "if", "import", "in", "instanceof", "new", "null", "return", "super", "switch", "this",
    "throw", "true", "try", "typeof", "var", "void", "while", "with", "yield"]

/-- The operators that are words. -/
def wordOperators : List String := ["delete", "void", "typeof", "in", "instanceof"]

/-- The operators that stand before an operand. -/
def unaryOperators : List String := ["delete", "void", "typeof", "+", "-", "~", "!"]

/-- The operators that change a variable by one. -/
def updateOperators : List String := ["++", "--"]

/-- The operators of assignments. -/
def assignmentOperators : List String :=
  ["=", "*=", "/=", "%=", "+=", "-=", "<<=", ">>=", ">>>=", "&=", "^=", "|=", "**=", "&&=", "||=",
    "??="]

/-- The token of an operator. -/
def operatorToken (operator : String) : Token :=
  if operator ∈ wordOperators then .word operator else .mark operator

/-- The kinds of phrases, the narrowest first. -/
inductive Phrase where
  | primary | member | newExpression | call | leftHandSide | update | unary | exponent
  | multiplicative | additive | shift | relational | equality | bitwiseAnd | bitwiseXor | bitwiseOr
  | logicalAnd | logicalOr | coalesce | shortCircuit | conditional | assignment | expression
  deriving DecidableEq, Repr

namespace Phrase

/-- The kind of phrase that may be made of a single phrase of the given kind. -/
def wider : Phrase → Option Phrase
  | .primary => some .member
  | .member => some .newExpression
  | .newExpression | .call => some .leftHandSide
  | .leftHandSide => some .update
  | .update => some .unary
  | .unary => some .exponent
  | .exponent => some .multiplicative
  | .multiplicative => some .additive
  | .additive => some .shift
  | .shift => some .relational
  | .relational => some .equality
  | .equality => some .bitwiseAnd
  | .bitwiseAnd => some .bitwiseXor
  | .bitwiseXor => some .bitwiseOr
  | .bitwiseOr => some .logicalAnd
  | .logicalAnd => some .logicalOr
  | .logicalOr | .coalesce => some .shortCircuit
  | .shortCircuit => some .conditional
  | .conditional => some .assignment
  | .assignment => some .expression
  | .expression => none

/-- The operators between a phrase and one of the next narrower kind. -/
def operators : Phrase → List String
  | .multiplicative => ["*", "/", "%"]
  | .additive => ["+", "-"]
  | .shift => ["<<", ">>", ">>>"]
  | .relational => ["<", ">", "<=", ">=", "in", "instanceof"]
  | .equality => ["==", "!=", "===", "!=="]
  | .bitwiseAnd => ["&"]
  | .bitwiseXor => ["^"]
  | .bitwiseOr => ["|"]
  | .logicalAnd => ["&&"]
  | .logicalOr => ["||"]
  | _ => []

end Phrase

/-- Lists of tokens with commas between them. -/
def separated (parts : List (List Token)) : List Token := List.intercalate [.mark ","] parts

/-- Arguments in parentheses. There may be a comma after the last one. -/
def bracketed (parts : List (List Token)) (comma : Bool) : List Token :=
  .mark "(" :: separated parts ++ if comma then [.mark ",", .mark ")"] else [.mark ")"]

/-- **The grammar**: a phrase of a kind, its tokens and the expression they stand for. -/
inductive Derives : Phrase → List Token → Expr → Prop where
  | wider {p q : Phrase} {ts : List Token} {e : Expr} (narrow : Derives q ts e)
      (hq : q.wider = some p) : Derives p ts e
  | name {x : String} (hx : x ∉ reserved) : Derives .primary [.word x] (.name x)
  | numeral (digits : String) : Derives .primary [.numeral digits] (.numeral digits)
  | paren {ts : List Token} {e : Expr} (inner : Derives .expression ts e) :
    Derives .primary (.mark "(" :: ts ++ [.mark ")"]) e
  | member {p : Phrase} {ts : List Token} {o : Expr} (hp : p ∈ [Phrase.member, .call])
      (object : Derives p ts o) (x : String) :
    Derives p (ts ++ [.mark ".", .word x]) (.member o x)
  | index {p : Phrase} {ts us : List Token} {o k : Expr} (hp : p ∈ [Phrase.member, .call])
      (object : Derives p ts o) (property : Derives .expression us k) :
    Derives p (ts ++ (.mark "[" :: us ++ [.mark "]"])) (.index o k)
  | new {ts : List Token} {c : Expr} {parts : List (List Token × Expr)} {comma : Bool}
      (callee : Derives .member ts c)
      (arguments : ∀ part ∈ parts, Derives .assignment part.1 part.2)
      (hcomma : comma = true → parts ≠ []) :
    Derives .member (.word "new" :: (ts ++ bracketed (parts.map Prod.fst) comma))
      (.new c (parts.map Prod.snd))
  | newBare {ts : List Token} {c : Expr} (callee : Derives .newExpression ts c) :
    Derives .newExpression (.word "new" :: ts) (.new c [])
  | call {p : Phrase} {ts : List Token} {c : Expr} {parts : List (List Token × Expr)}
      {comma : Bool} (hp : p ∈ [Phrase.member, .call]) (callee : Derives p ts c)
      (arguments : ∀ part ∈ parts, Derives .assignment part.1 part.2)
      (hcomma : comma = true → parts ≠ []) :
    Derives .call (ts ++ bracketed (parts.map Prod.fst) comma) (.call c (parts.map Prod.snd))
  | updateLast {operator : String} {ts : List Token} {e : Expr}
      (ho : operator ∈ updateOperators) (argument : Derives .leftHandSide ts e) :
    Derives .update (ts ++ [.mark operator]) (.update operator false e)
  | updateFirst {operator : String} {ts : List Token} {e : Expr}
      (ho : operator ∈ updateOperators) (argument : Derives .unary ts e) :
    Derives .update (.mark operator :: ts) (.update operator true e)
  | unary {operator : String} {ts : List Token} {e : Expr} (ho : operator ∈ unaryOperators)
      (argument : Derives .unary ts e) :
    Derives .unary (operatorToken operator :: ts) (.unary operator e)
  | exponent {ts us : List Token} {l r : Expr} (left : Derives .update ts l)
      (right : Derives .exponent us r) :
    Derives .exponent (ts ++ .mark "**" :: us) (.binary "**" l r)
  | binary {p q : Phrase} {operator : String} {ts us : List Token} {l r : Expr}
      (ho : operator ∈ p.operators) (hq : q.wider = some p) (left : Derives p ts l)
      (right : Derives q us r) :
    Derives p (ts ++ operatorToken operator :: us) (.binary operator l r)
  | coalesce {p : Phrase} {ts us : List Token} {l r : Expr}
      (hp : p ∈ [Phrase.coalesce, .bitwiseOr]) (left : Derives p ts l)
      (right : Derives .bitwiseOr us r) :
    Derives .coalesce (ts ++ .mark "??" :: us) (.binary "??" l r)
  | conditional {ts us vs : List Token} {c a b : Expr} (test : Derives .shortCircuit ts c)
      (consequent : Derives .assignment us a) (alternate : Derives .assignment vs b) :
    Derives .conditional (ts ++ .mark "?" :: us ++ .mark ":" :: vs) (.conditional c a b)
  | assign {operator : String} {ts us : List Token} {l r : Expr}
      (ho : operator ∈ assignmentOperators) (target : Derives .leftHandSide ts l)
      (value : Derives .assignment us r) :
    Derives .assignment (ts ++ .mark operator :: us) (.assign operator l r)
  | sequence {parts : List (List Token × Expr)} (hparts : 2 ≤ parts.length)
      (items : ∀ part ∈ parts, Derives .assignment part.1 part.2) :
    Derives .expression (separated (parts.map Prod.fst)) (.sequence (parts.map Prod.snd))

end Typeshift.Expression
