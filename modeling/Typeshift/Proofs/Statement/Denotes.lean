import Typeshift.Proofs.Print.ForHead
import Typeshift.Proofs.Statement.LoopHead

/-! # The statement that a tree stands for

A tree stands for a statement of the grammar if it is built of branches, loops, labels, blocks and
expressions, without comments, types and other parts. Where a declaration may stand, no expression
may begin with the name `let`.

* `Denotes`: a tree stands for a statement.
* `Denotes.printError?_eq_none`: such a tree can be printed.
* `Denotes.endsOpen_eq`: it ends with an open `if` exactly if the statement does. -/

namespace Typeshift.Statement

open Expression Print

/-- A tree declares a name, with a value or without one. -/
inductive Declares (A : Alphabet) : Node → String × Option Expr → Prop where
  | bare {d u : Node} {x : String} (built : Built d .variableDeclarator [u])
      (hu : d.slots.child? .id = some u) (unset : d.slots.child? .init = none) (name : IsName A u x)
      (hx : x ∉ reserved) : Declares A d (x, none)
  | set {d u v : Node} {x : String} {e : Expr} (built : Built d .variableDeclarator [u, v])
      (hu : d.slots.child? .id = some u) (hv : d.slots.child? .init = some v) (name : IsName A u x)
      (hx : x ∉ reserved) (value : Expression.Denotes A v e) : Declares A d (x, some e)

/-- A declaration of variables in the head of a loop. -/
structure IsVariables (t : Node) (word : Word) (ds : List Node) : Prop where
  built : Built t .variableDeclaration ds
  kind : t.head.word? .kind = some word
  known : word ∈ [Word.var, .letWord, .const]
  plain : t.head.flag .isDeclare = false
  declarations : t.slots.children .declarations = ds
  nonempty : ds ≠ []

/-- A tree stands for what is before the first semicolon in the head of a loop. -/
inductive Initializes (A : Alphabet) : Node → Init → Prop where
  | expression {t : Node} {e : Expr} (value : Expression.Denotes A t e)
      (hlet : e.leadingName ≠ some "let") : Initializes A t (.expression e)
  | declare {t : Node} {word : Word} {parts : List (Node × (String × Option Expr))}
      (declaration : IsVariables t word (parts.map Prod.fst))
      (bindings : ∀ part ∈ parts, Declares A part.1 part.2) :
    Initializes A t (.declare word.text (parts.map Prod.snd))

/-- A tree stands for what a loop over keys or items sets. -/
inductive Targets (A : Alphabet) : Node → LoopTarget → Prop where
  | expression {t : Node} {e : Expr} (value : Expression.Denotes A t e) (htarget : e.IsTarget)
      (hlet : e.leadingName ≠ some "let") : Targets A t (.expression e)
  | declare {t d : Node} {word : Word} {x : String} (declaration : IsVariables t word [d])
      (binding : Declares A d (x, none)) : Targets A t (.declare word.text x)

/-- **A tree stands for a statement.** What its loops have before the first semicolon in their heads
is as asked for. -/
inductive Denotes (A : Alphabet) (Q : Node → Prop) : Node → Stmt → Prop where
  | expression {t u : Node} {e : Expr} (built : Built t .expressionStatement [u])
      (hu : t.slots.child? .expression = some u) (value : Expression.Denotes A u e)
      (hlet : e.leadingName ≠ some "let") : Denotes A Q t (.expression e)
  | block {t : Node} {parts : List (Node × Stmt)}
      (built : Built t .blockStatement (parts.map Prod.fst))
      (plain : t.slots.children .directives = [])
      (hparts : t.slots.children .body = parts.map Prod.fst)
      (members : ∀ part ∈ parts, Denotes A Q part.1 part.2) :
    Denotes A Q t (.block (parts.map Prod.snd))
  | ifThen {t u v : Node} {e : Expr} {s : Stmt} (built : Built t .ifStatement [u, v])
      (hu : t.slots.child? .test = some u) (hv : t.slots.child? .consequent = some v)
      (single : t.slots.child? .alternate = none) (test : Expression.Denotes A u e)
      (consequent : Denotes A Q v s) : Denotes A Q t (.ifThen e s)
  | ifElse {t u v w : Node} {e : Expr} {s s' : Stmt} (built : Built t .ifStatement [u, v, w])
      (hu : t.slots.child? .test = some u) (hv : t.slots.child? .consequent = some v)
      (hw : t.slots.child? .alternate = some w) (test : Expression.Denotes A u e)
      (consequent : Denotes A Q v s) (alternate : Denotes A Q w s') : Denotes A Q t (.ifElse e s s')
  | whileLoop {t u v : Node} {e : Expr} {s : Stmt} (built : Built t .whileStatement [u, v])
      (hu : t.slots.child? .test = some u) (hv : t.slots.child? .body = some v)
      (test : Expression.Denotes A u e) (body : Denotes A Q v s) : Denotes A Q t (.whileLoop e s)
  | doLoop {t u v : Node} {e : Expr} {s : Stmt} (built : Built t .doWhileStatement [u, v])
      (hu : t.slots.child? .test = some u) (hv : t.slots.child? .body = some v)
      (test : Expression.Denotes A u e) (body : Denotes A Q v s) : Denotes A Q t (.doLoop s e)
  | forLoop {t v : Node} {i c u : Option Node} {init : Option Init} {test update : Option Expr}
      {s : Stmt} (built : Built t .forStatement (v :: (i.toList ++ (c.toList ++ u.toList))))
      (hi : t.slots.child? .init = i) (hc : t.slots.child? .test = c)
      (hu : t.slots.child? .update = u) (hv : t.slots.child? .body = some v)
      (first : Option.Rel (Initializes A) i init) (asked : ∀ n ∈ i, Q n)
      (second : Option.Rel (Expression.Denotes A) c test)
      (third : Option.Rel (Expression.Denotes A) u update) (body : Denotes A Q v s) :
    Denotes A Q t (.forLoop init test update s)
  | forIn {t u v w : Node} {target : LoopTarget} {e : Expr} {s : Stmt}
      (built : Built t .forInStatement [u, v, w]) (hu : t.slots.child? .left = some u)
      (hv : t.slots.child? .right = some v) (hw : t.slots.child? .body = some w)
      (left : Targets A u target) (object : Expression.Denotes A v e) (body : Denotes A Q w s) :
    Denotes A Q t (.forIn target e s)
  | forOf {t u v w : Node} {target : LoopTarget} {e : Expr} {s : Stmt}
      (built : Built t .forOfStatement [u, v, w]) (hu : t.slots.child? .left = some u)
      (hv : t.slots.child? .right = some v) (hw : t.slots.child? .body = some w)
      (left : Targets A u target) (items : Expression.Denotes A v e) (body : Denotes A Q w s)
      (hasync : t.head.flag .isAwait = false → target ≠ .expression (.name "async")) :
    Denotes A Q t (.forOf (t.head.flag .isAwait) target e s)
  | withObject {t u v : Node} {e : Expr} {s : Stmt} (built : Built t .withStatement [u, v])
      (hu : t.slots.child? .object = some u) (hv : t.slots.child? .body = some v)
      (object : Expression.Denotes A u e) (body : Denotes A Q v s) : Denotes A Q t (.withObject e s)
  | labeled {t u v : Node} {x : String} {s : Stmt} (built : Built t .labeledStatement [u, v])
      (hu : t.slots.child? .label = some u) (hv : t.slots.child? .body = some v)
      (label : IsName A u x) (hx : x ∉ "let" :: reserved) (body : Denotes A Q v s) :
    Denotes A Q t (.labeled x s)

section

variable {A : Alphabet} {Q : Node → Prop} {t d : Node} {s : Stmt}

/-! ### Trees that stand for statements can be printed -/

theorem Declares.printError?_eq_none {b : String × Option Expr} (h : Declares A d b) :
    d.printError? = none := by
  cases h with
  | bare built _ _ name =>
    exact built.printError?_eq_none (List.forall_mem_singleton.mpr name.printError?_eq_none)
  | set built _ _ name _ value =>
    exact built.printError?_eq_none (List.forall_mem_cons.mpr ⟨name.printError?_eq_none,
      List.forall_mem_singleton.mpr value.printError?_eq_none⟩)

theorem Initializes.printError?_eq_none {init : Init} (h : Initializes A t init) :
    t.printError? = none := by
  cases h with
  | expression value => exact value.printError?_eq_none
  | declare declaration bindings =>
    exact declaration.built.printError?_eq_none (List.forall_mem_map.mpr fun part hpart =>
      (bindings part hpart).printError?_eq_none)

theorem Targets.printError?_eq_none {target : LoopTarget} (h : Targets A t target) :
    t.printError? = none := by
  cases h with
  | expression value => exact value.printError?_eq_none
  | declare declaration binding =>
    exact declaration.built.printError?_eq_none
      (List.forall_mem_singleton.mpr binding.printError?_eq_none)

theorem printError?_of_rel {α : Type} {R : Node → α → Prop} {n : Option Node} {a : Option α}
    (h : Option.Rel R n a) (hR : ∀ {u b}, R u b → Node.printError? u = none) :
    ∀ u ∈ n.toList, Node.printError? u = none := by
  cases h with
  | none => simp
  | some h => exact List.forall_mem_singleton.mpr (hR h)

theorem Denotes.printError?_eq_none (h : Denotes A Q t s) : t.printError? = none := by
  induction h with
  | expression built _ value =>
    exact built.printError?_eq_none (by simpa using value.printError?_eq_none)
  | block built _ _ _ ihs => exact built.printError?_eq_none (List.forall_mem_map.mpr ihs)
  | ifThen built _ _ _ test _ ih =>
    exact built.printError?_eq_none (by simpa using ⟨test.printError?_eq_none, ih⟩)
  | ifElse built _ _ _ test _ _ ih ih' =>
    exact built.printError?_eq_none (by simpa using ⟨test.printError?_eq_none, ih, ih'⟩)
  | whileLoop built _ _ test _ ih | doLoop built _ _ test _ ih =>
    exact built.printError?_eq_none (by simpa using ⟨test.printError?_eq_none, ih⟩)
  | forLoop built _ _ _ _ first _ second third _ ih =>
    refine built.printError?_eq_none (List.forall_mem_cons.mpr ⟨ih, List.forall_mem_append.mpr
      ⟨?_, List.forall_mem_append.mpr ⟨?_, ?_⟩⟩⟩)
    · exact printError?_of_rel first Initializes.printError?_eq_none
    · exact printError?_of_rel second Expression.Denotes.printError?_eq_none
    · exact printError?_of_rel third Expression.Denotes.printError?_eq_none
  | forIn built _ _ _ left right _ ih | forOf built _ _ _ left right _ _ ih =>
    exact built.printError?_eq_none
      (by simpa using ⟨left.printError?_eq_none, right.printError?_eq_none, ih⟩)
  | withObject built _ _ object _ ih =>
    exact built.printError?_eq_none (by simpa using ⟨object.printError?_eq_none, ih⟩)
  | labeled built _ _ label _ _ ih =>
    exact built.printError?_eq_none (by simpa using ⟨label.printError?_eq_none, ih⟩)

/-! ### How they end -/

theorem endsOpen_eq (t : Node) :
    endsOpen t = endsOpenRule t.head (Tree.annotateSlots endsOpenRule t.slots) := by
  obtain ⟨n, h, s⟩ := t
  rfl

/-- A statement that ends with its body ends as the body does. -/
theorem endsOpen_body {tag : Tag} {v : Node} (htag : t.head.tag? = some tag)
    (hmem : tag ∈ [Tag.labeledStatement, .whileStatement, .withStatement, .forStatement,
      .forInStatement, .forOfStatement]) (hv : t.slots.child? .body = some v) :
    endsOpen t = endsOpen v := by
  rw [endsOpen_eq, endsOpenRule, htag]
  simp only [List.mem_cons, List.not_mem_nil, or_false] at hmem
  rcases hmem with rfl | rfl | rfl | rfl | rfl | rfl <;> dsimp only <;>
    rw [Slots.child?_annotateSlots, hv] <;> rfl

/-- **A tree ends with an open `if`** exactly if its statement does. -/
theorem Denotes.endsOpen_eq (h : Denotes A Q t s) : endsOpen t = s.endsOpen := by
  induction h with
  | expression built | block built | doLoop built =>
    rw [Statement.endsOpen_eq, endsOpenRule, built.tag]
    rfl
  | ifThen built _ _ single =>
    rw [Statement.endsOpen_eq, endsOpenRule, built.tag]
    dsimp only
    rw [Slots.child?_annotateSlots, single]
    rfl
  | ifElse built _ _ hw _ _ _ _ ih =>
    rw [Statement.endsOpen_eq, endsOpenRule, built.tag]
    dsimp only
    rw [Slots.child?_annotateSlots, hw]
    exact ih
  | whileLoop built _ hv _ _ ih | withObject built _ hv _ _ ih | labeled built _ hv _ _ _ ih
  | forLoop built _ _ _ hv _ _ _ _ _ ih | forIn built _ _ hv _ _ _ ih
  | forOf built _ _ hv _ _ _ _ ih =>
    rw [endsOpen_body built.tag (by decide) hv]
    exact ih

end

end Typeshift.Statement
