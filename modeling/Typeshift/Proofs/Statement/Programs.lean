import Typeshift.Proofs.Print.StatementStart
import Typeshift.Proofs.Statement.Denotes

/-! # Programs

A program is a list of statements. Among them may be declarations of variables, which stand on their
own there, and not only in the head of a loop. Where no statement ends with a semicolon, a statement
made of an expression begins with one if it could continue the line before it.

* `Conveys`: a tree stands for a statement of a program. `Comprises`: a tree stands for a program.
* `isGuarded`: a statement begins with a semicolon if no statement ends with one.
  `guardsBody`: such a statement is the body of another. -/

namespace Typeshift.Statement

open Expression Print

/-! ### Trees that stand for programs -/

/-- **A tree stands for a statement of a program.** The heads of its loops show no `in`. -/
inductive Conveys (A : Alphabet) : Node → Stmt → Prop where
  | expression {t u : Node} {e : Expr} (built : Built t .expressionStatement [u])
      (hu : t.slots.child? .expression = some u) (value : Expression.Denotes A u e)
      (hlet : e.leadingName ≠ some "let") : Conveys A t (.expression e)
  | declare {t : Node} {word : Word} {parts : List (Node × (String × Option Expr))}
      (declaration : IsVariables t word (parts.map Prod.fst))
      (bindings : ∀ part ∈ parts, Declares A part.1 part.2) :
    Conveys A t (.declare word.text (parts.map Prod.snd))
  | block {t : Node} {parts : List (Node × Stmt)}
      (built : Built t .blockStatement (parts.map Prod.fst))
      (plain : t.slots.children .directives = [])
      (hparts : t.slots.children .body = parts.map Prod.fst)
      (members : ∀ part ∈ parts, Conveys A part.1 part.2) :
      Conveys A t (.block (parts.map Prod.snd))
  | ifThen {t u v : Node} {e : Expr} {s : Stmt} (built : Built t .ifStatement [u, v])
      (hu : t.slots.child? .test = some u) (hv : t.slots.child? .consequent = some v)
      (single : t.slots.child? .alternate = none) (test : Expression.Denotes A u e)
      (consequent : Conveys A v s) : Conveys A t (.ifThen e s)
  | ifElse {t u v w : Node} {e : Expr} {s s' : Stmt} (built : Built t .ifStatement [u, v, w])
      (hu : t.slots.child? .test = some u) (hv : t.slots.child? .consequent = some v)
      (hw : t.slots.child? .alternate = some w) (test : Expression.Denotes A u e)
      (consequent : Conveys A v s) (alternate : Conveys A w s') : Conveys A t (.ifElse e s s')
  | whileLoop {t u v : Node} {e : Expr} {s : Stmt} (built : Built t .whileStatement [u, v])
      (hu : t.slots.child? .test = some u) (hv : t.slots.child? .body = some v)
      (test : Expression.Denotes A u e) (body : Conveys A v s) : Conveys A t (.whileLoop e s)
  | doLoop {t u v : Node} {e : Expr} {s : Stmt} (built : Built t .doWhileStatement [u, v])
      (hu : t.slots.child? .test = some u) (hv : t.slots.child? .body = some v)
      (test : Expression.Denotes A u e) (body : Conveys A v s) : Conveys A t (.doLoop s e)
  | forLoop {t v : Node} {i c u : Option Node} {init : Option Init} {test update : Option Expr}
      {s : Stmt} (built : Built t .forStatement (v :: (i.toList ++ (c.toList ++ u.toList))))
      (hi : t.slots.child? .init = i) (hc : t.slots.child? .test = c)
      (hu : t.slots.child? .update = u) (hv : t.slots.child? .body = some v)
      (first : Option.Rel (Initializes A) i init) (hidden : ∀ n ∈ i, exposesIn n = false)
      (second : Option.Rel (Expression.Denotes A) c test)
      (third : Option.Rel (Expression.Denotes A) u update) (body : Conveys A v s) :
    Conveys A t (.forLoop init test update s)
  | labeled {t u v : Node} {x : String} {s : Stmt} (built : Built t .labeledStatement [u, v])
      (hu : t.slots.child? .label = some u) (hv : t.slots.child? .body = some v)
      (label : IsName A u x) (hx : x ∉ "let" :: reserved) (body : Conveys A v s) :
    Conveys A t (.labeled x s)

/-- **A tree stands for a program**, a list of statements. -/
inductive Comprises (A : Alphabet) : Node → List Stmt → Prop where
  | mk {t : Node} {parts : List (Node × Stmt)} (built : Built t .program (parts.map Prod.fst))
      (bare : t.slots.child? .interpreter = none) (plain : t.slots.children .directives = [])
      (hparts : t.slots.children .body = parts.map Prod.fst)
      (members : ∀ part ∈ parts, Conveys A part.1 part.2) : Comprises A t (parts.map Prod.snd)

section Conveys

variable {A : Alphabet} {t : Node} {s : Stmt} {ss : List Stmt}

theorem IsVariables.printError?_eq_none {word : Word}
    {parts : List (Node × (String × Option Expr))} (h : IsVariables t word (parts.map Prod.fst))
    (bindings : ∀ part ∈ parts, Declares A part.1 part.2) : t.printError? = none :=
  h.built.printError?_eq_none (List.forall_mem_map.mpr fun part hpart =>
    (bindings part hpart).printError?_eq_none)

theorem Conveys.printError?_eq_none (h : Conveys A t s) : t.printError? = none := by
  induction h with
  | expression built _ value =>
    exact built.printError?_eq_none (by simpa using value.printError?_eq_none)
  | declare declaration bindings => exact declaration.printError?_eq_none bindings
  | block built _ _ _ ihs => exact built.printError?_eq_none (List.forall_mem_map.mpr ihs)
  | ifThen built _ _ _ test _ ih =>
    exact built.printError?_eq_none (by simpa using ⟨test.printError?_eq_none, ih⟩)
  | ifElse built _ _ _ test _ _ ih ih' =>
    exact built.printError?_eq_none (by simpa using ⟨test.printError?_eq_none, ih, ih'⟩)
  | whileLoop built _ _ test _ ih | doLoop built _ _ test _ ih =>
    exact built.printError?_eq_none (by simpa using ⟨test.printError?_eq_none, ih⟩)
  | forLoop built _ _ _ _ first _ second third _ ih =>
    refine built.printError?_eq_none (List.forall_mem_cons.mpr ⟨ih, List.forall_mem_append.mpr
      ⟨?_, List.forall_mem_append.mpr ⟨?_, ?_⟩⟩⟩)
    · exact printError?_of_rel first Initializes.printError?_eq_none
    · exact printError?_of_rel second Expression.Denotes.printError?_eq_none
    · exact printError?_of_rel third Expression.Denotes.printError?_eq_none
  | labeled built _ _ label _ _ ih =>
    exact built.printError?_eq_none (by simpa using ⟨label.printError?_eq_none, ih⟩)

theorem Comprises.printError?_eq_none (h : Comprises A t ss) : t.printError? = none := by
  obtain ⟨built, -, -, -, members⟩ := h
  exact built.printError?_eq_none
    (List.forall_mem_map.mpr fun part hpart => (members part hpart).printError?_eq_none)

/-- A tree ends with an open `if` exactly if its statement does. -/
theorem Conveys.endsOpen_eq (h : Conveys A t s) : endsOpen t = s.endsOpen := by
  induction h with
  | expression built | block built | doLoop built =>
    rw [Statement.endsOpen_eq, endsOpenRule, built.tag]
    rfl
  | declare declaration =>
    rw [Statement.endsOpen_eq, endsOpenRule, declaration.built.tag]
    rfl
  | ifThen built _ _ single =>
    rw [Statement.endsOpen_eq, endsOpenRule, built.tag]
    dsimp only
    rw [Slots.child?_annotateSlots, single]
    rfl
  | ifElse built _ _ hw _ _ _ _ ih =>
    rw [Statement.endsOpen_eq, endsOpenRule, built.tag]
    dsimp only
    rw [Slots.child?_annotateSlots, hw]
    exact ih
  | whileLoop built _ hv _ _ ih | labeled built _ hv _ _ _ ih
  | forLoop built _ _ _ hv _ _ _ _ _ ih =>
    rw [endsOpen_body built.tag (by decide) hv]
    exact ih

end Conveys

/-! ### Statements that begin with a semicolon -/

/-- Whether a statement begins with a semicolon if no statement ends with one. -/
def isGuarded {ρ : Type} (t : Tree ρ) : Bool :=
  t.head.is .expressionStatement && (t.slots.child? .expression).any continuesLine

/-- Whether the body of a statement begins with a semicolon, given the answer for the parts. -/
def guardsBodyRule (h : Head) (s : Slots Bool) : Bool :=
  let bodyAt (f : Field) := (s.child? f).any fun t => isGuarded t || t.note
  match h.tag? with
  | some .program | some .blockStatement => (s.children .body).any Tree.note
  | some .ifStatement => bodyAt .consequent || bodyAt .alternate
  | some .whileStatement | some .doWhileStatement | some .forStatement | some .labeledStatement =>
    bodyAt .body
  | _ => false

/-- **Whether a statement that begins with a semicolon is the body of another**: of a loop, of a
branch or after a label. -/
def guardsBody (t : Node) : Bool := t.synthesize guardsBodyRule

theorem continuesLine_annotate {ρ σ : Type} (rule : Head → Slots σ → σ) (t : Tree ρ) :
    continuesLine (t.annotate rule) = continuesLine t := by
  unfold continuesLine
  rw [needsStatementParens_annotate, Start.ofTree, Tree.synthesize_annotate]
  rfl

theorem isGuarded_annotate {ρ σ : Type} (rule : Head → Slots σ → σ) (t : Tree ρ) :
    isGuarded (t.annotate rule) = isGuarded t := by
  obtain ⟨n, h, s⟩ := t
  show (h.is _ && (Slots.child? (Tree.annotateSlots rule s) _).any _) = (h.is _ && _)
  rw [Slots.child?_annotateSlots, Option.any_map]
  congr 2
  exact funext (continuesLine_annotate rule)

theorem guardsBody_eq (t : Node) :
    guardsBody t = guardsBodyRule t.head (Tree.annotateSlots guardsBodyRule t.slots) := by
  obtain ⟨n, h, s⟩ := t
  rfl

/-- What is asked of the body of a statement. -/
theorem bodyAt_annotateSlots {s : Slots Unit} {f : Field} {v : Node} (hv : s.child? f = some v) :
    (Slots.child? (Tree.annotateSlots guardsBodyRule s) f).any (fun t => isGuarded t || t.note) =
      (isGuarded v || guardsBody v) := by
  rw [Slots.child?_annotateSlots, hv, Option.map_some, Option.any_some, isGuarded_annotate]
  rfl

theorem guardsBody_body {tag : Tag} {t v : Node} (htag : t.head.tag? = some tag)
    (hmem : tag ∈ [Tag.whileStatement, .doWhileStatement, .forStatement, .labeledStatement])
    (hv : t.slots.child? .body = some v) : guardsBody t = (isGuarded v || guardsBody v) := by
  rw [guardsBody_eq, guardsBodyRule, htag]
  simp only [List.mem_cons, List.not_mem_nil, or_false] at hmem
  rcases hmem with rfl | rfl | rfl | rfl <;> exact bodyAt_annotateSlots hv

theorem guardsBody_list {tag : Tag} {t : Node} {ts : List Node} (htag : t.head.tag? = some tag)
    (hmem : tag ∈ [Tag.program, .blockStatement]) (hts : t.slots.children .body = ts) :
    guardsBody t = ts.any guardsBody := by
  rw [guardsBody_eq, guardsBodyRule, htag]
  simp only [List.mem_cons, List.not_mem_nil, or_false] at hmem
  rcases hmem with rfl | rfl <;> dsimp only <;>
    rw [Slots.children_annotateSlots, hts, List.any_map] <;> rfl

/-- Only a statement made of an expression begins with a semicolon. -/
theorem isGuarded_eq_false {tag : Tag} {t : Node} (htag : t.head.tag? = some tag)
    (hne : tag ≠ .expressionStatement) : isGuarded t = false := by
  rw [isGuarded, Head.is, htag, beq_eq_false_iff_ne.mpr fun h => hne (Option.some.inj h)]
  rfl

end Typeshift.Statement
