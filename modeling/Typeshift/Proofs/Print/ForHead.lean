import Typeshift.Proofs.Expression.OpenIn
import Typeshift.Proofs.Print.StatementStart

/-! # The first part of the head of a `for`

Up to its first semicolon the head of `for (i; c; u)` looks like that of `for (x in y)`: an `in`
outside brackets there is taken for the one of a `for` over keys. The printer writes the first part
as it writes it elsewhere, with no more parentheses.

* `IsInit`: an expression, or variables with the values that they are set to.
* `openIn_forInit`: when the first part shows an `in`. -/

namespace Typeshift.Print

open Script Expression

/-- A variable without a type, with or without a value that it is set to. -/
inductive IsDeclarator (A : Alphabet) : Node → Prop where
  | bare {d u : Node} {x : String} (built : Built d .variableDeclarator [u])
      (hu : d.slots.child? .id = some u) (unset : d.slots.child? .init = none) (name : IsName A u x)
      (hx : x ∉ reserved) : IsDeclarator A d
  | set {d u v : Node} {x : String} {e : Expr} (built : Built d .variableDeclarator [u, v])
      (hu : d.slots.child? .id = some u) (hv : d.slots.child? .init = some v) (name : IsName A u x)
      (hx : x ∉ reserved) (value : Denotes A v e) : IsDeclarator A d

/-- **The first part of the head of a `for`**: an expression, or a declaration of variables. -/
inductive IsInit (A : Alphabet) : Node → Prop where
  | expression {t : Node} {e : Expr} (h : Denotes A t e) : IsInit A t
  | declaration {t : Node} {ds : List Node} {word : Word} (built : Built t .variableDeclaration ds)
      (hword : t.head.word? .kind = some word) (known : word ∈ [Word.var, .letWord, .const])
      (hds : t.slots.children .declarations = ds) (hne : ds ≠ [])
      (declarators : ∀ d ∈ ds, IsDeclarator A d) : IsInit A t

section Shown

variable {A : Alphabet} {o : Options} {t d u v : Node} {x : String} {b : Bool}

/-- A word in front of an expression. -/
theorem shown_word {s before : Script} (hx : A.isName x = true) (hne : (x == "in") = false)
    (hbefore : Writes before (x.toList ++ [' '])) (h : Shown A s b) : Shown A (before ++ s) b := by
  obtain ⟨l, hs, hback, hb⟩ := h
  have hword : Strip A before ([Item.token (.word x)] ++ [Item.gap ' ']) :=
    Strip.tokenSpace (t := .word x) hx hbefore
  refine ⟨_, hword.append hs (meet_gap _ _ _), hback.append _, ?_⟩
  have hall := (hne ▸ finds_shows.word x : Shows [.word x] false).append hb
  simpa using hall

theorem shown_name (hname : IsName A u x) (hx : x ∉ reserved) :
    Shown A (printed o u (.expression .leftHandSide false)) false :=
  ((hname.sound hx).object fun h : false = true => nomatch h).shown
    (tight_of_chain _ (chainOf_mem u))

theorem IsDeclarator.shown (h : IsDeclarator A d) (o : Options) :
    Shown A (printed o d (.expression .assignment false)) (exposesAt d .assignment false) := by
  cases h with
  | bare built hu unset name hx =>
    refine Shown.place ?_ (built.family.trans rfl) built.comments _ _
    rw [body, expressionText, exposesIn_eq, exposesInRule, built.tag]
    dsimp only
    rw [Slots.child_annotateSlots _ hu, partShows, Slots.child?_annotateSlots,
      Slots.child?_annotateSlots, unset]
    rw [Option.map_none, Option.map_none, after, List.append_nil, expression, Tree.note_annotate_eq]
    exact shown_name name hx
  | set built hu hv name hx value =>
    refine Shown.place ?_ (built.family.trans rfl) built.comments _ _
    rw [body, expressionText, exposesIn_eq, exposesInRule, built.tag]
    dsimp only
    rw [Slots.child_annotateSlots _ hu, partShows_annotateSlots hv, Slots.child?_annotateSlots, hv]
    have hvalue := (value.shown o).place (value.sound o).family (value.sound o).comments .assignment
      false
    have hset := (shown_name (o := o) name hx).spaced hvalue (t := .mark "=") rfl rfl
      (writes_text " = ") (.mark (by decide))
    rw [List.append_assoc] at hset
    exact hset

theorem shown_variablesText {ds : List Node} {word : Word} (hword : t.head.word? .kind = some word)
    (known : word ∈ [Word.var, .letWord, .const]) (hds : t.slots.children .declarations = ds)
    (hne : ds ≠ []) (declarators : ∀ d ∈ ds, IsDeclarator A d) (o : Options) :
    Shown A (variablesText t.head (Tree.annotateSlots (printedRule o) t.slots))
      (ds.any (exposesAt · .assignment false)) := by
  have hspelled : A.isName word.text = true ∧ (word.text == "in") = false := by
    simp only [List.mem_cons, List.not_mem_nil, or_false] at known
    rcases known with rfl | rfl | rfl <;> exact ⟨rfl, rfl⟩
  have hlist := shown_expressions hne fun d hd => (declarators d hd).shown o
  have hkind := shown_word hspelled.1 hspelled.2 ((writes_text word.text).append writes_space) hlist
  unfold variablesText flagged
  rw [hword, Slots.children_annotateSlots, hds, List.append_assoc, List.append_assoc,
    ← List.append_assoc (text _) space]
  cases t.head.flag .isDeclare with
  | true => exact shown_word (x := "declare") rfl rfl (writes_text "declare ") hkind
  | false => exact hkind

theorem printed_loopHead_expression (hf : t.head.family = .expression) (o : Options) :
    printed o t .loopHead = printed o t (.expression .comma false) := by
  have hvariables : t.head.is .variableDeclaration = false := by
    rw [Bool.eq_false_iff]
    intro his
    rw [Head.family, eq_of_beq his] at hf
    cases hf
  obtain ⟨n, head, s⟩ := t
  exact if_neg (Bool.eq_false_iff.mp hvariables)

theorem printed_loopHead_variables (htag : t.head.tag? = some .variableDeclaration)
    (hc : t.head.comments = .none) (o : Options) :
    printed o t .loopHead = comments .before []
      ++ variablesText t.head (Tree.annotateSlots (printedRule o) t.slots) ++ [] := by
  have his : t.head.is .variableDeclaration = true := by simp [Head.is, htag]
  obtain ⟨n, head, s⟩ := t
  have hc : head.comments = .none := hc
  refine (if_pos his).trans ?_
  rw [List.append_nil]
  show comments .before head.comments.leading ++ _ = _
  rw [hc]
  rfl

/-- **The first part of the head of a `for` shows an `in`** exactly if the tree does. -/
theorem IsInit.shown (h : IsInit A t) (o : Options) :
    Shown A (printed o t .loopHead) (exposesIn t) := by
  cases h with
  | expression h =>
    have hplace := (h.shown o).place (h.sound o).family (h.sound o).comments .comma false
    have hbare : exposesAt t .comma false = exposesIn t := by
      unfold exposesAt inParens
      generalize Precedence.ofHead t.head = p
      cases p <;> rfl
    rw [printed_loopHead_expression (h.sound o).family, ← hbare]
    exact hplace
  | declaration built hword known hds hne declarators =>
    have hexposes : exposesIn t =
        (t.slots.children .declarations).any (exposesAt · .assignment false) := by
      rw [exposesIn_eq, exposesInRule, built.tag]
      exact children_annotateSlots_any rfl
    rw [printed_loopHead_variables built.tag built.comments, hexposes, hds]
    exact (shown_variablesText hword known hds hne declarators o).silent (writes_comments_nil _)
      writes_nil

end Shown

/-! ### The head of the statement -/

section Head

variable {A : Alphabet} {s t : Node}

theorem exists_statementText_for (hs : s.head.tag? = some .forStatement)
    (hinit : s.slots.child? .init = some t) (o : Options) (pending : Comments) : ∃ front more,
      statementText o s.head (Tree.annotateSlots (printedRule o) s.slots) pending =
        front ++ (printed o t .loopHead ++ (text ";" ++ more)) ∧
      Writes front "for (".toList := by
  have hfront := (writes_text "for (").append (writes_text "")
  rw [statementText, hs]
  dsimp only
  rw [Slots.child?_annotateSlots, hinit, Option.map_some, after, Tree.note_annotate_eq, headed,
    between]
  simp only [List.append_assoc]
  refine ⟨text "for (" ++ text "", _, (List.append_assoc ..).symm, hfront⟩

/-- **When the first part of a `for` shows an `in`**: if it has one that is reached through operands
and initial values that need no parentheses where they stand, and not otherwise. -/
theorem openIn_forInit (hs : s.head.tag? = some .forStatement)
    (hinit : s.slots.child? .init = some t) (ht : IsInit A t) (o : Options) (sheet : Sheet) :
    ∃ cs rest tokens, (Script.run sheet (printed o s .statement)).page.output.toList =
        (Script.run sheet (statementLead s.head)).page.beginLine.output.toList ++
          ("for (".toList ++ (cs ++ ';' :: rest)) ∧
      Writes (printed o t .loopHead) cs ∧
      A.lex (String.ofList (cs ++ ['\n'])) = some tokens ∧ openIn 0 tokens = exposesIn t := by
  have hf : s.head.family = .statement := family_of_tag hs
  obtain ⟨pending, trailing, hprinted, -⟩ := exists_printed_statement hf o
  obtain ⟨front, more, htext, hfront⟩ := exists_statementText_for hs hinit o pending
  obtain ⟨l, hstrip, hback, hshows⟩ := ht.shown o
  have hhead : Writes (front ++ printed o t .loopHead ++ text ";")
      ("for (".toList ++ spell l ++ ";".toList) :=
    (hfront.append hstrip.writes).append (writes_text ";")
  obtain ⟨rest, hrest, -⟩ := exists_output (A := A) hhead (by simp) (more ++ (trailing ++ line))
    (Script.run sheet (statementLead s.head))
  refine ⟨spell l, rest, tokensOf l, ?_, hstrip.writes, hstrip.lex hback, hshows.openIn_eq⟩
  rw [hprinted, htext, run_append]
  simp only [List.append_assoc] at hrest ⊢
  exact hrest

end Head

/-- `a in b`. -/
def membership : Node := infixNode .binaryExpression "in" (Target.ident "a") (Target.ident "b")

/-- `var i = a in b`. -/
def membershipInit : Node :=
  Target.variableDeclaration .var [Target.declarator (Target.ident "i") (some membership)] false

/-- `for (var i = a in b;;) ;`, which is no statement. -/
def forMembership : Node :=
  .of .forStatement []
    [(.init, .maybe (some membershipInit)), (.test, .maybe none), (.update, .maybe none),
      (.body, .one (Node.leaf .emptyStatement))]

theorem isInit_membershipInit (A : Alphabet) : IsInit A membershipInit := by
  have hname (x : String) (hx : A.isName x = true) : IsName A (Target.ident x) x :=
    ⟨⟨rfl, rfl, List.Subset.refl _⟩, rfl, hx, rfl⟩
  have hmembership : Denotes A membership (.binary "in" (.name "a") (.name "b")) :=
    .binary ⟨rfl, rfl, List.Subset.refl _⟩ rfl (by decide) rfl rfl
      (.name (hname "a" rfl) (by decide)) (.name (hname "b" rfl) (by decide))
  refine .declaration ⟨rfl, rfl, List.Subset.refl _⟩ rfl (by decide) rfl (List.cons_ne_nil _ _) ?_
  refine List.forall_mem_singleton.mpr ?_
  exact .set ⟨rfl, rfl, List.Subset.refl _⟩ rfl rfl (hname "i" rfl) (by decide) hmembership

theorem openIn_forInit_forMembership :
    forMembership.head.tag? = some .forStatement ∧
      forMembership.slots.child? .init = some membershipInit ∧
      IsInit asciiNames membershipInit ∧ exposesIn membershipInit = true ∧
      let sheet := (Printer.new .standard).sheet
      ∃ cs rest tokens,
        (Script.run sheet (printed .standard forMembership .statement)).page.output.toList =
          (Script.run sheet (statementLead forMembership.head)).page.beginLine.output.toList ++
            ("for (".toList ++ (cs ++ ';' :: rest)) ∧
        Writes (printed .standard membershipInit .loopHead) cs ∧
        asciiNames.lex (String.ofList (cs ++ ['\n'])) = some tokens ∧
        openIn 0 tokens = exposesIn membershipInit :=
  ⟨rfl, rfl, isInit_membershipInit asciiNames, by decide,
    openIn_forInit rfl rfl (isInit_membershipInit asciiNames) .standard
      (Printer.new .standard).sheet⟩

/-- The value of a variable shows its `in`. -/
theorem not_forInit_hidesIn :
    ¬ ∀ (A : Alphabet) (o : Options) (s t : Node), s.head.tag? = some .forStatement →
      s.slots.child? .init = some t → IsInit A t → ∀ code cs rest tokens,
      printText o (Target.program [s]) = .ok code →
      code.toList = "for (".toList ++ (cs ++ ';' :: rest) → ';' ∉ cs →
      A.lex (String.ofList (cs ++ ['\n'])) = some tokens → openIn 0 tokens = false := by
  intro h
  have hhidden := h asciiNames .standard forMembership membershipInit rfl rfl
    (isInit_membershipInit asciiNames) "for (var i = a in b;;)\n  ;\n" "var i = a in b".toList
    ";)\n  ;\n".toList [.word "var", .word "i", .mark "=", .word "a", .word "in", .word "b"]
    (by rfl) (by rfl) (by decide) (by rfl)
  exact absurd hhidden (by decide)

end Typeshift.Print
