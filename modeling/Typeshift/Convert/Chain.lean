import Typeshift.Convert.Part

/-! # Optional chains

A chain of `?.` links becomes a conjunction: each optional link adds the value before it as a guard,
and the other links extend the value.

    a?.b?.c?.d        becomes   a && a.b && a.b.c && a.b.c.d
    a?.b[0].location  becomes   a && a.b[0].location
    f?.()             becomes   f && f()

A guarded value occurs again in what follows. If evaluating it twice could make a difference it is
bound to a temporary in its guard, and the temporary occurs again instead. The value of a callee
keeps the form of a member access, so that the call still has its receiver.

    f()?.b?.c         becomes   (_a = f()) && _a.b && _a.b.c
    g(x).m?.()        becomes   (_a = g(x)).m && _a.m()

Temporaries are declared at the top of the function or program around the chain.

* `chainStep`: one link of a chain.
* `functionBody`, `declareInProgram`: where temporaries are declared. -/

namespace Typeshift.Convert

/-! ### Effects -/

/-- Whether evaluating an expression twice could make a difference, given the answer for its parts.
Making a function has no effect, whatever its body does. -/
def effectRule (h : Head) (s : Slots Bool) : Bool :=
  match h.tag? with
  | some .callExpression | some .newExpression | some .assignmentExpression
  | some .updateExpression | some .awaitExpression | some .yieldExpression
  | some .taggedTemplateExpression | some .jsxElement | some .jsxFragment => true
  | some .functionExpression | some .arrowFunctionExpression => false
  | some .unaryExpression => h.text .operator == "delete" || s.toList.any Tree.note
  | _ => s.toList.any Tree.note

/-- Whether evaluating an expression twice could make a difference. -/
def hasEffects (t : Node) : Bool := t.synthesize effectRule

/-! ### Links -/

/-- Bind a value to a temporary: the assignment, and the temporary. -/
def bind (value : Node) : Pass (Node × Node) := do
  let name ← freshTemporary
  return (Target.assign (Target.ident name) value, Target.ident name)

/-- Split a guarded value into the guard and the expression from which the chain goes on. -/
def bindGuarded (value : Node) (isCallee : Bool) : Pass (Node × Node) := do
  if !hasEffects value then return (value, value)
  if isCallee && value.head.is .memberExpression then
    let object := value.slots.child .object
    let property := value.slots.child .property
    let isComputed := value.head.flag .isComputed
    let (bound, object) ← bind object
    let (boundKey, key) ← if isComputed && hasEffects property then bind property
      else pure (property, property)
    return ((Target.member bound boundKey isComputed).withSpan value.head.span,
      Target.member object key isComputed)
  bind value

/-- The value of a chain with one more link, as a plain access or call. -/
def applyLink (h : Head) (s : Slots Outcome) (value : Node) : Pass Node := do
  if h.is .optionalCallExpression then
    let arguments ← children s .arguments
    let typeArguments ← child? s .typeArguments
    return (Target.call value arguments typeArguments).withSpan h.span
  else
    let property ← child s .property
    return (Target.member value property (h.flag .isComputed)).withSpan h.span

/-- A guard with one more operand. -/
def extendGuard (guard : Option Node) (operand : Node) : Node :=
  match guard with
  | some g => Target.both g operand
  | none => operand

/-- **One link of a chain**, after those before it. -/
def chainStep (h : Head) (s : Slots Outcome) : Pass (Node × Option Node) := do
  let isCall := h.is .optionalCallExpression
  let (value, guard) ← (s.child (if isCall then .callee else .object)).note.chain
  if h.flag .isOptional then
    let (operand, reused) ← bindGuarded value isCall
    return (← applyLink h s reused, some (extendGuard guard operand))
  else return (← applyLink h s value, guard)

/-- The value of a whole chain: its guard, if it has one, and its value. -/
def closeChain (value : Node) (guard : Option Node) : Node :=
  match guard with
  | some g => Target.both g value
  | none => value

/-! ### Declaring temporaries -/

/-- `let a: any, b: any;`. -/
def temporaryDeclaration (names : List String) : Node :=
  let declared (name : String) :=
    Target.declarator (Target.param name (some (Target.ascribe Target.any)) false) none
  Target.variableDeclaration .letWord (names.map declared) false

/-- A function body with a declaration first. An expression becomes a block that returns it. -/
def declareInBody (names : List String) (body : Node) : Node :=
  if names.isEmpty then body
  else if body.head.is .blockStatement then
    .mk () body.head <| body.slots.map fun
      | (.body, .many statements) => (.body, .many (temporaryDeclaration names :: statements))
      | entry => entry
  else Target.block [temporaryDeclaration names, Target.returnStatement (some body)]

/-- Convert a function body, in which temporaries have a scope of their own. -/
def functionBody (body : Part) : Pass Node := do
  let (node, names) ← inScope (convertPart body)
  return declareInBody names node

/-- The node without the comments before it. -/
def dropLeading (t : Node) : Node := t.withComments { t.head.comments with leading := [] }

/-- The statements of a program with a declaration after its first imports. A declaration that
comes first takes the comments before the statement it displaces, so that the head of a file stays
on top. -/
def declareInProgram (names : List String) (body : List Node) : List Node :=
  if names.isEmpty then body else
    let declaration := temporaryDeclaration names
    match body.span (·.head.is .importDeclaration) with
    | ([], first :: rest) =>
      declaration.withComments (.ofLeading first.head.comments.leading)
        :: dropLeading first :: rest
    | (imports, rest) => imports ++ declaration :: rest

end Typeshift.Convert
