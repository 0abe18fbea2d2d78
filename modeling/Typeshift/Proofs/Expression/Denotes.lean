import Typeshift.Print.Printer
import Typeshift.Proofs.Expression.Lexer
import Typeshift.Proofs.Tree.Induction

/-! # The expression that a tree stands for

A tree stands for an expression of the grammar if it is built of the constructs that the grammar
has, without comments, types and other parts. Parentheses in the tree are no part of the
expression.

* `Denotes`: a tree stands for an expression.
* `Denotes.of_built`: what goes from the parts of every construct to the construct.
* `Denotes.printError?_eq_none`: such a tree can be printed. -/

namespace Typeshift.Expression

open Print

/-- The operators of binary expressions. -/
def binaryOperators : List String :=
  ["==", "!=", "===", "!==", "<", ">", "<=", ">=", "in", "instanceof", "<<", ">>", ">>>", "+", "-",
    "*", "/", "%", "**", "&", "|", "^"]

/-- The operators of logical expressions. -/
def logicalOperators : List String := ["&&", "||", "??"]

/-- An expression that may be assigned to. -/
inductive Expr.IsTarget : Expr → Prop where
  | name (x : String) : IsTarget (.name x)
  | member (object : Expr) (property : String) : IsTarget (.member object property)
  | index (object property : Expr) : IsTarget (.index object property)

/-- A construct without comments that has no parts but the given ones. -/
structure Built (t : Node) (tag : Tag) (parts : List Node) : Prop where
  tag : t.head.tag? = some tag
  comments : t.head.comments = .none
  parts : t.slots.toList ⊆ parts

/-- A name without a type. -/
structure IsName (A : Alphabet) (t : Node) (x : String) : Prop where
  built : Built t .identifier []
  name : t.head.text .name = x
  spelled : A.isName x = true
  required : t.head.flag .isOptional = false

/-- **A tree stands for an expression.** -/
inductive Denotes (A : Alphabet) : Node → Expr → Prop where
  | name {t : Node} {x : String} (name : IsName A t x) (hx : x ∉ reserved) : Denotes A t (.name x)
  | numeral {t : Node} (built : Built t .numericLiteral [])
      (digits : isDigits (numeralText t.head) = true) : Denotes A t (.numeral (numeralText t.head))
  | paren {t u : Node} {e : Expr} (built : Built t .parenthesizedExpression [u])
      (hu : t.slots.child? .expression = some u) (inner : Denotes A u e) : Denotes A t e
  | member {t u v : Node} {e : Expr} {x : String} (built : Built t .memberExpression [u, v])
      (plain : t.head.flag .isComputed = false) (hu : t.slots.child? .object = some u)
      (hv : t.slots.child? .property = some v) (object : Denotes A u e) (property : IsName A v x) :
    Denotes A t (.member e x)
  | index {t u v : Node} {e k : Expr} (built : Built t .memberExpression [u, v])
      (computed : t.head.flag .isComputed = true) (hu : t.slots.child? .object = some u)
      (hv : t.slots.child? .property = some v) (object : Denotes A u e)
      (property : Denotes A v k) : Denotes A t (.index e k)
  | call {t u : Node} {e : Expr} {parts : List (Node × Expr)}
      (built : Built t .callExpression (u :: parts.map Prod.fst))
      (untyped : t.slots.child? .typeParameters = none) (hu : t.slots.child? .callee = some u)
      (hparts : t.slots.children .arguments = parts.map Prod.fst) (callee : Denotes A u e)
      (arguments : ∀ part ∈ parts, Denotes A part.1 part.2) :
    Denotes A t (.call e (parts.map Prod.snd))
  | new {t u : Node} {e : Expr} {parts : List (Node × Expr)}
      (built : Built t .newExpression (u :: parts.map Prod.fst))
      (untyped : t.slots.child? .typeParameters = none) (hu : t.slots.child? .callee = some u)
      (hparts : t.slots.children .arguments = parts.map Prod.fst) (callee : Denotes A u e)
      (arguments : ∀ part ∈ parts, Denotes A part.1 part.2) :
    Denotes A t (.new e (parts.map Prod.snd))
  | unary {t u : Node} {e : Expr} {operator : String} (built : Built t .unaryExpression [u])
      (ho : t.head.text .operator = operator) (known : operator ∈ unaryOperators)
      (hu : t.slots.child? .argument = some u) (argument : Denotes A u e) :
    Denotes A t (.unary operator e)
  | update {t u : Node} {e : Expr} {operator : String} (built : Built t .updateExpression [u])
      (ho : t.head.text .operator = operator) (known : operator ∈ updateOperators)
      (hu : t.slots.child? .argument = some u) (argument : Denotes A u e) :
    Denotes A t (.update operator (t.head.flag .operatorFirst) e)
  | binary {t u v : Node} {l r : Expr} {operator : String}
      (built : Built t .binaryExpression [u, v]) (ho : t.head.text .operator = operator)
      (known : operator ∈ binaryOperators) (hu : t.slots.child? .left = some u)
      (hv : t.slots.child? .right = some v) (left : Denotes A u l) (right : Denotes A v r) :
    Denotes A t (.binary operator l r)
  | logical {t u v : Node} {l r : Expr} {operator : String}
      (built : Built t .logicalExpression [u, v]) (ho : t.head.text .operator = operator)
      (known : operator ∈ logicalOperators) (hu : t.slots.child? .left = some u)
      (hv : t.slots.child? .right = some v) (left : Denotes A u l) (right : Denotes A v r) :
    Denotes A t (.binary operator l r)
  | conditional {t u v w : Node} {c a b : Expr} (built : Built t .conditionalExpression [u, v, w])
      (hu : t.slots.child? .test = some u) (hv : t.slots.child? .consequent = some v)
      (hw : t.slots.child? .alternate = some w) (test : Denotes A u c) (consequent : Denotes A v a)
      (alternate : Denotes A w b) : Denotes A t (.conditional c a b)
  | assign {t u v : Node} {l r : Expr} {operator : String}
      (built : Built t .assignmentExpression [u, v]) (ho : t.head.text .operator = operator)
      (known : operator ∈ assignmentOperators) (hu : t.slots.child? .left = some u)
      (hv : t.slots.child? .right = some v) (target : Denotes A u l) (htarget : l.IsTarget)
      (value : Denotes A v r) : Denotes A t (.assign operator l r)
  | sequence {t : Node} {parts : List (Node × Expr)}
      (built : Built t .sequenceExpression (parts.map Prod.fst)) (hlength : 2 ≤ parts.length)
      (hparts : t.slots.children .expressions = parts.map Prod.fst)
      (items : ∀ part ∈ parts, Denotes A part.1 part.2) :
    Denotes A t (.sequence (parts.map Prod.snd))

/-! ### Properties of trees that stand for expressions -/

/-- What holds of every construct if it holds of its parts, holds of trees that stand for
expressions. -/
theorem Denotes.of_built {A : Alphabet} {P : Node → Prop}
    (hbuilt : ∀ {t : Node} {tag : Tag} {parts : List Node}, Built t tag parts →
      (∀ u ∈ parts, P u) → P t)
    {t : Node} {e : Expr} (h : Denotes A t e) : P t := by
  induction h with
  | name name _ => exact hbuilt name.built (by simp)
  | numeral built _ => exact hbuilt built (by simp)
  | paren built _ _ ih => exact hbuilt built (by simpa using ih)
  | member built _ _ _ _ property ih =>
    exact hbuilt built (by simpa using ⟨ih, hbuilt property.built (by simp)⟩)
  | index built _ _ _ _ _ ih₁ ih₂ => exact hbuilt built (by simpa using ⟨ih₁, ih₂⟩)
  | call built _ _ _ _ _ ih ihs =>
    exact hbuilt built (List.forall_mem_cons.mpr ⟨ih, List.forall_mem_map.mpr ihs⟩)
  | new built _ _ _ _ _ ih ihs =>
    exact hbuilt built (List.forall_mem_cons.mpr ⟨ih, List.forall_mem_map.mpr ihs⟩)
  | unary built _ _ _ _ ih => exact hbuilt built (by simpa using ih)
  | update built _ _ _ _ ih => exact hbuilt built (by simpa using ih)
  | binary built _ _ _ _ _ _ ih₁ ih₂ => exact hbuilt built (by simpa using ⟨ih₁, ih₂⟩)
  | logical built _ _ _ _ _ _ ih₁ ih₂ => exact hbuilt built (by simpa using ⟨ih₁, ih₂⟩)
  | conditional built _ _ _ _ _ _ ih₁ ih₂ ih₃ => exact hbuilt built (by simpa using ⟨ih₁, ih₂, ih₃⟩)
  | assign built _ _ _ _ _ _ _ ih₁ ih₂ => exact hbuilt built (by simpa using ⟨ih₁, ih₂⟩)
  | sequence built _ _ _ ihs => exact hbuilt built (List.forall_mem_map.mpr ihs)

theorem Built.printError?_eq_none {t : Node} {tag : Tag} {parts : List Node} (h : Built t tag parts)
    (hparts : ∀ u ∈ parts, Node.printError? u = none) : t.printError? = none := by
  obtain ⟨n, head, s⟩ := t
  have hhead : head.printError? = none := by
    have htag : head.tag? = some tag := h.tag
    unfold Head.tag? at htag
    unfold Head.printError?
    cases hkind : head.kind with
    | known tag => rfl
    | foreign name raw => rw [hkind] at htag; cases htag
  have hpreorder : Node.preorder (.mk n head s) =
      head :: (Slots.toList s).flatMap Node.preorder := by
    unfold Node.preorder
    rw [Tree.synthesize_mk, Tree.toList_annotateSlots, List.flatMap_map]
    rfl
  unfold Node.printError? at hparts ⊢
  rw [hpreorder, List.findSome?_cons, hhead]
  simp only [List.findSome?_eq_none_iff, List.mem_flatMap] at hparts ⊢
  rintro g ⟨u, hu, hg⟩
  exact hparts u (h.parts hu) g hg

theorem IsName.printError?_eq_none {A : Alphabet} {t : Node} {x : String} (h : IsName A t x) :
    t.printError? = none := h.built.printError?_eq_none (by simp)

theorem Denotes.printError?_eq_none {A : Alphabet} {t : Node} {e : Expr} (h : Denotes A t e) :
    t.printError? = none := h.of_built Built.printError?_eq_none

end Typeshift.Expression
