import Mathlib.Data.List.Chain
import Mathlib.Logic.Relation
import Mathlib.Tactic.SplitIfs
import Typeshift.Print.Printer
import Typeshift.Proofs.Tree.Induction
import Typeshift.Tree.Target

/-! # From emitter to emitter

A node of any family may stand at any place. The printer writes it with *emitters* that know some
constructs each and hand every other node over to another emitter, in the end to the one of its
family. No node goes round in circles: an emitter that knows a node never hands it to one that does
not.

* `Emitter.next?`: whom an emitter hands a node over to.
* `Emitter.rank`: an emitter that knows a node ranks below those that do not; `rank_next?`: handing
  over leads down.
* `Emitter.emit`: what comes of a node that is handed from emitter to emitter; `scriptAt_eq_emit`:
  so it is written at every place.
* `emitters_end`: no emitter gets a node twice, and the whole recursion over a tree ends. -/

namespace Typeshift.Print

open Script

/-! ### Emitters -/

/-- What may be asked to write a node: what stands around it at a place, or one of the parts of the
printer that know some constructs. -/
inductive Emitter where
  /-- For all nodes, by their family. -/
  | node
  | statementKind
  | exportKind
  | declarationKind
  | typeKind
  | expressionKind
  | place (p : Place)
  deriving DecidableEq, Repr

/-- The place that is made for a family. -/
def Family.place : Family → Place
  | .program => .program
  | .statement => .statement
  | .type => .type .function
  | .classMember => .classMember
  | .typeMember => .typeMember
  | .expression => .expression .comma false

namespace Emitter

/-- The constructs that an emitter knows. Those that hand over every node have none. -/
def arms : Emitter → List Tag
  | .statementKind =>
    [.directive, .interpreterDirective, .blockStatement, .tsModuleBlock, .expressionStatement,
      .emptyStatement, .debuggerStatement, .ifStatement, .labeledStatement, .breakStatement,
      .continueStatement, .withStatement, .switchStatement, .switchCase, .returnStatement,
      .throwStatement, .tryStatement, .catchClause, .whileStatement, .doWhileStatement,
      .forStatement, .forInStatement, .forOfStatement, .variableDeclaration, .functionDeclaration,
      .classDeclaration, .importDeclaration, .exportNamedDeclaration, .exportDefaultDeclaration,
      .exportAllDeclaration, .tsExportAssignment, .tsTypeAliasDeclaration, .tsInterfaceDeclaration,
      .tsModuleDeclaration, .tsDeclareFunction]
  | .exportKind =>
    [.exportNamedDeclaration, .exportDefaultDeclaration, .exportAllDeclaration,
      .tsExportAssignment]
  | .declarationKind =>
    [.tsTypeAliasDeclaration, .tsInterfaceDeclaration, .tsModuleDeclaration, .tsDeclareFunction]
  | .typeKind =>
    [.tsAscription, .tsAnyKeyword, .tsUnknownKeyword, .tsNeverKeyword, .tsVoidKeyword,
      .tsNullKeyword, .tsUndefinedKeyword, .tsNumberKeyword, .tsStringKeyword, .tsBooleanKeyword,
      .tsSymbolKeyword, .tsBigIntKeyword, .tsThisType, .tsLiteralType, .tsArrayType, .tsTupleType,
      .tsUnionType, .tsIntersectionType, .tsFunctionType, .tsTypeReference, .tsTypeQuery,
      .tsTypeOperator, .tsIndexedAccessType, .tsTypeLiteral, .tsInterfaceBody,
      .tsTypeParameterDeclaration, .tsTypeParameterInstantiation, .tsTypeParameter]
  | .place .program => [.file, .program]
  | .place .block => [.blockStatement, .tsModuleBlock]
  | .place .otherwise => [.ifStatement]
  | .place .loopHead => [.variableDeclaration]
  | .place .classBody => [.classBody]
  | .place .classMember =>
    [.classMethod, .classPrivateMethod, .tsDeclareMethod, .classProperty, .classPrivateProperty]
  | .place .typeMember =>
    [.tsPropertySignature, .tsMethodSignature, .tsIndexSignature, .tsCallSignatureDeclaration]
  | .place .markup =>
    [.jsxElement, .jsxOpeningElement, .jsxClosingElement, .jsxFragment, .jsxOpeningFragment,
      .jsxClosingFragment, .jsxAttribute, .jsxSpreadAttribute, .jsxExpressionContainer,
      .jsxEmptyExpression, .jsxSpreadChild, .jsxText, .jsxIdentifier, .jsxMemberExpression,
      .jsxNamespacedName]
  | .place .markupValue => [.stringLiteral]
  | _ => []

/-- Whether an emitter knows a node. -/
def Knows (e : Emitter) (h : Head) : Prop := h.isAny e.arms = true

instance (e : Emitter) (h : Head) : Decidable (e.Knows h) := by unfold Knows; infer_instance

/-- **Whom an emitter hands a node over to**, if it does not write the node itself. Where an
expression is asked for, a whole program is not handed over but left out. -/
def next? (h : Head) : Emitter → Option Emitter
  | .node => some (.place h.family.place)
  | .statementKind =>
    if (Emitter.place .block).Knows h then some (.place .block)
    else if Emitter.exportKind.Knows h then some .exportKind
    else if Emitter.declarationKind.Knows h then some .declarationKind
    else if Emitter.statementKind.Knows h then none
    else some .node
  | .exportKind => if Emitter.exportKind.Knows h then none else some .node
  | .declarationKind => if Emitter.declarationKind.Knows h then none else some .node
  | .typeKind => if Emitter.typeKind.Knows h then none else some .node
  | .expressionKind =>
    if (Emitter.place .classBody).Knows h then some (.place .classBody)
    else if (Emitter.place .markup).Knows h then some (.place .markup)
    else if h.family ∈ [.statement, .type, .classMember, .typeMember] then some .node
    else none
  | .place p =>
    match p with
    | .program => if (Emitter.place .program).Knows h then none else some .node
    | .statement | .inline | .exported => some .statementKind
    | .block => if (Emitter.place .block).Knows h then none else some .node
    | .body => some (.place (if h.is .blockStatement then .block else .statement))
    | .otherwise => if (Emitter.place .otherwise).Knows h then none else some (.place .body)
    | .loopHead =>
      if (Emitter.place .loopHead).Knows h then none else some (.place (.expression .comma false))
    | .expression _ _ => some .expressionKind
    | .property => some (.place (.expression .assignment false))
    | .type _ => some .typeKind
    | .classBody => if (Emitter.place .classBody).Knows h then none else some .node
    | .classMember => if (Emitter.place .classMember).Knows h then none else some .statementKind
    | .typeMember => if (Emitter.place .typeMember).Knows h then none else some .node
    | .markup =>
      if (Emitter.place .markup).Knows h then none
      else some (.place (.expression .assignment false))
    | .markupChild =>
      some (.place (if h.isAny [.jsxElement, .jsxFragment] then .expression .primary false
        else .markup))
    | .markupValue => if (Emitter.place .markupValue).Knows h then none else some (.place .markup)

/-! ### What an emitter knows -/

theorem knows_iff {e : Emitter} {p : Tag → Bool} (harms : ∀ tag, e.arms.contains tag = p tag)
    (h : Head) : e.Knows h ↔ (h.tag?.map p).getD false = true := by
  unfold Knows Head.isAny Head.is
  cases h.tag? with
  | none =>
    have hnone : e.arms.any (fun t => (none : Option Tag) == some t) = false :=
      List.any_eq_false.mpr fun _ _ => by simp
    rw [hnone]
    rfl
  | some tag =>
    have hsome : e.arms.any (fun t => some tag == some t) = e.arms.contains tag :=
      List.contains_eq_any_beq.symm
    rw [hsome, harms]
    rfl

/-- An emitter that has the constructs of a family knows the nodes of the family. -/
theorem knows_iff_family {e : Emitter} {f : Family} (hf : f ≠ .expression)
    (harms : ∀ tag, e.arms.contains tag = decide (tag.family = f)) (h : Head) :
    e.Knows h ↔ h.family = f := by
  rw [knows_iff harms, Head.family]
  cases h.tag? with
  | none => exact ⟨nofun, fun heq => absurd heq.symm hf⟩
  | some tag => exact decide_eq_true_iff

theorem exists_tag {e : Emitter} {h : Head} (hknows : e.Knows h) :
    ∃ tag ∈ e.arms, h.tag? = some tag := by
  obtain ⟨tag, htag, his⟩ := List.any_eq_true.mp hknows
  exact ⟨tag, htag, eq_of_beq his⟩

theorem family_of_knows {e : Emitter} {f : Family} (harms : ∀ tag ∈ e.arms, tag.family = f)
    {h : Head} (hknows : e.Knows h) : h.family = f := by
  obtain ⟨tag, hmem, htag⟩ := exists_tag hknows
  rw [Head.family, htag]
  exact harms tag hmem

section Knows

variable (h : Head)

theorem knows_statementKind : Emitter.statementKind.Knows h ↔ h.family = .statement :=
  knows_iff_family (by decide) (fun tag => by cases tag <;> rfl) h

theorem knows_typeKind : Emitter.typeKind.Knows h ↔ h.family = .type :=
  knows_iff_family (by decide) (fun tag => by cases tag <;> rfl) h

theorem knows_program : (Emitter.place .program).Knows h ↔ h.family = .program :=
  knows_iff_family (by decide) (fun tag => by cases tag <;> rfl) h

theorem knows_classMember : (Emitter.place .classMember).Knows h ↔ h.family = .classMember :=
  knows_iff_family (by decide) (fun tag => by cases tag <;> rfl) h

theorem knows_typeMember : (Emitter.place .typeMember).Knows h ↔ h.family = .typeMember :=
  knows_iff_family (by decide) (fun tag => by cases tag <;> rfl) h

theorem knows_markup :
    (Emitter.place .markup).Knows h ↔ (h.tag?.map Tag.isMarkup).getD false = true :=
  knows_iff (fun tag => by cases tag <;> rfl) h

variable {h}

/-- An emitter that knows one construct. -/
theorem if_knows {e : Emitter} {tag : Tag} (harms : e.arms = [tag]) {α : Type} (a b : α) :
    (if e.Knows h then a else b) = if h.is tag then a else b := by
  simp [Knows, harms, Head.isAny]

theorem family_of_knows_block (hk : (Emitter.place .block).Knows h) : h.family = .statement :=
  family_of_knows (by decide) hk

theorem family_of_knows_exportKind (hk : Emitter.exportKind.Knows h) : h.family = .statement :=
  family_of_knows (by decide) hk

theorem family_of_knows_declarationKind (hk : Emitter.declarationKind.Knows h) :
    h.family = .statement := family_of_knows (by decide) hk

theorem family_of_knows_classBody (hk : (Emitter.place .classBody).Knows h) :
    h.family = .expression := family_of_knows (by decide) hk

theorem family_of_knows_markup (hk : (Emitter.place .markup).Knows h) : h.family = .expression :=
  family_of_knows (by decide) hk

end Knows

/-! ### Handing over leads down -/

/-- How far an emitter is from what it hands a node over to in the end. Emitters that do not know
the node are above `node`, those of the family of the node below. -/
def rank (h : Head) : Emitter → Nat
  | .node => 3
  | .statementKind => if Emitter.statementKind.Knows h then 1 else 4
  | .exportKind => if Emitter.exportKind.Knows h then 0 else 4
  | .declarationKind => if Emitter.declarationKind.Knows h then 0 else 4
  | .typeKind => if Emitter.typeKind.Knows h then 0 else 4
  | .expressionKind => if h.family = .expression ∨ h.family = .program then 1 else 4
  | .place p =>
    match p with
    | .program => if (Emitter.place .program).Knows h then 0 else 4
    | .statement | .inline | .exported => if Emitter.statementKind.Knows h then 2 else 5
    | .block => if (Emitter.place .block).Knows h then 0 else 4
    | .body => 6
    | .otherwise => 7
    | .loopHead => 6
    | .expression _ _ => if h.family = .expression ∨ h.family = .program then 2 else 5
    | .property => 6
    | .type _ => if Emitter.typeKind.Knows h then 1 else 5
    | .classBody => if (Emitter.place .classBody).Knows h then 0 else 4
    | .classMember => if (Emitter.place .classMember).Knows h then 0 else 5
    | .typeMember => if (Emitter.place .typeMember).Knows h then 0 else 4
    | .markup => if (Emitter.place .markup).Knows h then 0 else 6
    | .markupChild => 7
    | .markupValue => 7

/-- From a place, handing over leads down. -/
theorem rank_next?_place {h : Head} {p : Place} {e' : Emitter}
    (hnext : (Emitter.place p).next? h = some e') : e'.rank h < (Emitter.place p).rank h := by
  cases p with
  | statement | inline | exported | expression | property | type =>
    cases hnext
    simp only [rank]
    split <;> decide
  | body =>
    cases hnext
    cases h.is .blockStatement <;> simp only [rank, Bool.false_eq_true, if_true, if_false] <;>
      split <;> decide
  | markupChild =>
    cases hnext
    cases h.isAny [.jsxElement, .jsxFragment] <;>
      simp only [rank, Bool.false_eq_true, if_true, if_false] <;> split <;> decide
  | program | block | otherwise | classBody | typeMember =>
    simp only [next?, Option.ite_none_left_eq_some, Option.some.injEq] at hnext
    obtain ⟨hknows, rfl⟩ := hnext
    simp [rank, hknows]
  | loopHead | classMember | markup | markupValue =>
    simp only [next?, Option.ite_none_left_eq_some, Option.some.injEq] at hnext
    obtain ⟨hknows, rfl⟩ := hnext
    simp only [rank, hknows, if_false]
    split <;> decide

/-- **Handing over leads down.** -/
theorem rank_next? {h : Head} {e e' : Emitter} (hnext : e.next? h = some e') :
    e'.rank h < e.rank h := by
  cases e with
  | node =>
    cases hnext
    cases hf : h.family <;>
      simp [rank, Family.place, hf, knows_program, knows_statementKind, knows_typeKind,
        knows_classMember, knows_typeMember]
  | statementKind =>
    simp only [next?] at hnext
    split_ifs at hnext with hblock hexport hdeclaration hknows <;> cases hnext
    · simp only [rank, hblock, if_true]
      split <;> decide
    · simp only [rank, hexport, if_true]
      split <;> decide
    · simp only [rank, hdeclaration, if_true]
      split <;> decide
    · simp [rank, hknows]
  | exportKind | declarationKind | typeKind =>
    simp only [next?, Option.ite_none_left_eq_some, Option.some.injEq] at hnext
    obtain ⟨hknows, rfl⟩ := hnext
    simp [rank, hknows]
  | expressionKind =>
    simp only [next?] at hnext
    split_ifs at hnext with hclass hmarkup hf <;> cases hnext
    · simp only [rank, hclass, if_true]
      split <;> decide
    · simp only [rank, hmarkup, if_true]
      split <;> decide
    · simp only [List.mem_cons, List.not_mem_nil, or_false] at hf
      rcases hf with hf | hf | hf | hf <;> simp [rank, hf]
  | place p => exact rank_next?_place hnext

/-! ### What emitters write -/

section Emit

variable (o : Options) (t : Tree Printed)

/-- What an emitter writes by itself, for a node that it knows. -/
def own : Emitter → Content
  | .statementKind => ⟨true, statementText o t.head t.slots⟩
  | .exportKind => ⟨true, fun _ => exportText o t.head t.slots⟩
  | .declarationKind => ⟨true, fun _ => declarationText o t.head t.slots⟩
  | .typeKind => ⟨true, Print.typeKind t.head t.slots⟩
  | .expressionKind =>
    ⟨true, if t.head.family = .program then fun _ => [] else expressionText o t.head t.slots⟩
  | .place .program => ⟨false, programText t.head t.slots⟩
  | .place .block => ⟨true, blockText t.head t.slots⟩
  | .place .otherwise =>
    ⟨false, fun pending => space ++ comments .before pending.leading ++ ifText t.slots⟩
  | .place .loopHead =>
    ⟨false, fun pending => comments .before pending.leading ++ variablesText t.head t.slots⟩
  | .place .classBody => ⟨true, membersBlock t.head (t.slots.children .body) .classMember⟩
  | .place .classMember => ⟨true, fun _ => classMemberText t.head t.slots⟩
  | .place .typeMember => ⟨true, fun _ => typeMemberText t.head t.slots⟩
  | .place .markup => ⟨true, markupText t.head t.slots⟩
  | .place .markupValue =>
    ⟨false, fun _ => text (t.head.raw?.getD (attributeText (t.head.text .value)))⟩
  | _ => ⟨true, fun _ => []⟩

/-- What an emitter writes around what it holds: its own text, or that of the emitter it has handed
the node over to. -/
def around (c : Content) : Emitter → Content
  | .node => ⟨false, c.script⟩
  | .place p =>
    match p with
    | .statement => ⟨false, fun pending => statementFrame t.head pending c⟩
    | .inline =>
      ⟨false, fun pending => comments .before pending.leading
        ++ c.script { pending with leading := [] } ++ c.trailing .afterLine pending⟩
    | .exported =>
      ⟨false, fun pending => comments .before pending.leading
        ++ c.script { pending with leading := [] }⟩
    | .body =>
      if t.head.is .blockStatement then
        ⟨false, fun pending => space ++ comments .before pending.leading ++ c.script pending
          ++ comments .after pending.trailing⟩
      else ⟨false, fun pending => indented (c.script pending)⟩
    | .expression least forced =>
      ⟨false, fun pending => expressionFrame t.head least forced pending c⟩
    | .property =>
      ⟨false, fun pending => comments .lines pending.leading
        ++ c.script { pending with leading := [] }⟩
    | .type least => ⟨false, fun pending => typeFrame t least pending c⟩
    | .classMember => ⟨false, fun pending => classMemberFrame pending c⟩
    | .typeMember => ⟨false, fun pending => typeMemberFrame pending c⟩
    | _ => c
  | _ => c

/-- **What comes of a node** that is handed from emitter to emitter until one writes it. -/
def emit (e : Emitter) : Content :=
  e.around t (match _hnext : e.next? t.head with
    | some e' => e'.emit
    | none => e.own o t)
termination_by e.rank t.head
decreasing_by exact rank_next? ‹_›

variable {o t}

theorem emit_eq (e : Emitter) :
    e.emit o t = e.around t (((e.next? t.head).map fun e' => e'.emit o t).getD (e.own o t)) := by
  rw [emit]
  split <;> next hnext => rw [hnext]; rfl

/-- What comes of a node that an emitter hands over unless it knows it. -/
theorem emit_unless {e d : Emitter}
    (h : e.next? t.head = if e.Knows t.head then none else some d) :
    e.emit o t = e.around t (if e.Knows t.head then e.own o t else d.emit o t) := by
  rw [emit_eq, h]
  split <;> rfl

/-! ### What comes of a node -/

theorem ownText_eq : ownText o t =
    match t.head.family with
    | .program => programText t.head t.slots
    | .statement => statementText o t.head t.slots
    | .type => Print.typeKind t.head t.slots
    | .classMember => fun _ => classMemberText t.head t.slots
    | .typeMember => fun _ => typeMemberText t.head t.slots
    | .expression => expressionText o t.head t.slots := by
  funext pending
  unfold ownText
  cases t.head.family <;> rfl

/-- A part of the printer that knows a construct writes it as statements are written. -/
theorem own_of_knows_statement {e : Emitter}
    (he : e ∈ [.place .block, .exportKind, .declarationKind]) (hk : e.Knows t.head) :
    e.own o t = ⟨true, statementText o t.head t.slots⟩ := by
  obtain ⟨tag, hmem, htag⟩ := exists_tag hk
  simp only [List.mem_cons, List.not_mem_nil, or_false] at he
  rcases he with rfl | rfl | rfl <;>
    simp only [arms, List.mem_cons, List.not_mem_nil, or_false] at hmem <;>
    refine congrArg (Content.mk true) (funext fun pending => ?_) <;>
    unfold statementText
  · rcases hmem with rfl | rfl <;> rw [htag]
  · rcases hmem with rfl | rfl | rfl | rfl <;> rw [htag]
  · rcases hmem with rfl | rfl | rfl | rfl <;> rw [htag]

/-- A part of the printer that knows a construct writes it as expressions are written. -/
theorem own_of_knows_expression {e : Emitter} (he : e ∈ [.place .classBody, .place .markup])
    (hk : e.Knows t.head) : e.own o t = ⟨true, expressionText o t.head t.slots⟩ := by
  obtain ⟨tag, hmem, htag⟩ := exists_tag hk
  simp only [List.mem_cons, List.not_mem_nil, or_false] at he
  rcases he with rfl | rfl <;>
    simp only [arms, List.mem_cons, List.not_mem_nil, or_false] at hmem <;>
    refine congrArg (Content.mk true) (funext fun pending => ?_) <;>
    unfold expressionText
  · rw [htag, hmem]
  · rcases hmem with rfl | rfl | rfl | rfl | rfl | rfl | rfl | rfl | rfl | rfl | rfl | rfl | rfl |
      rfl | rfl <;> rw [htag]

theorem emit_statementKind_of_family (hf : t.head.family = .statement) :
    Emitter.statementKind.emit o t = ⟨true, ownText o t⟩ := by
  rw [ownText_eq, hf, emit_eq, next?]
  split_ifs with hblock hexport hdeclaration hknows
  · show (Emitter.place .block).emit o t = _
    rw [emit_unless (d := .node) rfl, if_pos hblock, own_of_knows_statement (by decide) hblock]
    rfl
  · show Emitter.exportKind.emit o t = _
    rw [emit_unless (d := .node) rfl, if_pos hexport, own_of_knows_statement (by decide) hexport]
    rfl
  · show Emitter.declarationKind.emit o t = _
    rw [emit_unless (d := .node) rfl, if_pos hdeclaration,
      own_of_knows_statement (by decide) hdeclaration]
    rfl
  · rfl
  · exact absurd ((knows_statementKind t.head).mpr hf) hknows

theorem emit_typeKind_of_family (hf : t.head.family = .type) :
    Emitter.typeKind.emit o t = ⟨true, ownText o t⟩ := by
  rw [ownText_eq, hf, emit_unless (d := .node) rfl, if_pos ((knows_typeKind t.head).mpr hf)]
  rfl

theorem emit_expressionKind_of_family (hf : t.head.family = .expression) :
    Emitter.expressionKind.emit o t = ⟨true, ownText o t⟩ := by
  rw [ownText_eq, hf, emit_eq, next?]
  split_ifs with hclass hmarkup hother
  · show (Emitter.place .classBody).emit o t = _
    rw [emit_unless (d := .node) rfl, if_pos hclass, own_of_knows_expression (by decide) hclass]
    rfl
  · show (Emitter.place .markup).emit o t = _
    rw [emit_unless (d := .place (.expression .assignment false)) rfl, if_pos hmarkup,
      own_of_knows_expression (by decide) hmarkup]
    rfl
  · rw [hf] at hother
    exact absurd hother (by decide)
  · show own o t .expressionKind = _
    rw [own, hf]
    rfl

/-- **Handed to the emitter of its family**, a node is written as its family writes it. -/
theorem emit_node : Emitter.node.emit o t = ⟨false, familyText o t⟩ := by
  rw [emit_eq]
  show Content.mk false ((Emitter.place t.head.family.place).emit o t).script = _
  congr 1
  funext pending
  rw [familyText]
  cases hf : t.head.family with
  | program =>
    rw [Family.place, emit_unless (d := .node) rfl, if_pos ((knows_program t.head).mpr hf)]
    show programText t.head t.slots pending = ownText o t pending
    rw [ownText_eq, hf]
  | statement =>
    rw [Family.place, emit_eq]
    show statementFrame t.head pending (Emitter.statementKind.emit o t) = _
    rw [emit_statementKind_of_family hf]
  | type =>
    rw [Family.place, emit_eq]
    show typeFrame t .function pending (Emitter.typeKind.emit o t) = _
    rw [emit_typeKind_of_family hf]
  | classMember =>
    rw [Family.place, emit_unless (d := .statementKind) rfl,
      if_pos ((knows_classMember t.head).mpr hf)]
    rw [ownText_eq, hf]
    rfl
  | typeMember =>
    rw [Family.place, emit_unless (d := .node) rfl, if_pos ((knows_typeMember t.head).mpr hf)]
    rw [ownText_eq, hf]
    rfl
  | expression =>
    rw [Family.place, emit_eq]
    show expressionFrame t.head .comma false pending (Emitter.expressionKind.emit o t) = _
    rw [emit_expressionKind_of_family hf]

theorem content_of_mem {families : List Family} (hf : t.head.family ∈ families) :
    content o t families = ⟨true, ownText o t⟩ := if_pos (List.elem_eq_true_of_mem hf)

theorem content_of_not_mem {families : List Family} (hf : t.head.family ∉ families) :
    content o t families = ⟨false, familyText o t⟩ :=
  if_neg fun h => hf (List.contains_iff_mem.mp h)

/-- Where a statement is asked for. -/
theorem emit_statementKind : Emitter.statementKind.emit o t = content o t [.statement] := by
  by_cases hf : t.head.family = .statement
  · rw [emit_statementKind_of_family hf, content_of_mem (List.mem_singleton.mpr hf)]
  · rw [content_of_not_mem (mt List.mem_singleton.mp hf), ← emit_node, emit_eq, next?,
      if_neg (mt family_of_knows_block hf), if_neg (mt family_of_knows_exportKind hf),
      if_neg (mt family_of_knows_declarationKind hf),
      if_neg (mt (knows_statementKind t.head).mp hf)]
    rfl

/-- Where a type is asked for. -/
theorem emit_typeKind : Emitter.typeKind.emit o t = content o t [.type] := by
  by_cases hf : t.head.family = .type
  · rw [emit_typeKind_of_family hf, content_of_mem (List.mem_singleton.mpr hf)]
  · rw [content_of_not_mem (mt List.mem_singleton.mp hf), ← emit_node, emit_unless (d := .node) rfl,
      if_neg (mt (knows_typeKind t.head).mp hf)]
    rfl

/-- Where an expression is asked for. -/
theorem emit_expressionKind : Emitter.expressionKind.emit o t = expressionContent o t := by
  by_cases hf : t.head.family = .expression
  · rw [emit_expressionKind_of_family hf, expressionContent, if_neg (by rw [hf]; decide),
      content_of_mem (List.mem_singleton.mpr hf)]
  rw [emit_eq, next?, if_neg (mt family_of_knows_classBody hf),
    if_neg (mt family_of_knows_markup hf), expressionContent]
  by_cases hprogram : t.head.family = .program
  · rw [if_neg (by rw [hprogram]; decide), if_pos hprogram]
    show own o t .expressionKind = _
    rw [own, if_pos hprogram]
  · have hother : t.head.family ∈ [.statement, .type, .classMember, .typeMember] := by
      revert hf hprogram
      cases t.head.family <;> decide
    rw [if_pos hother, if_neg hprogram, content_of_not_mem (mt List.mem_singleton.mp hf),
      ← emit_node]
    rfl

/-- Where a member of a class is asked for, statements are written bare. -/
theorem emit_classMember : (Emitter.place .classMember).emit o t =
    ⟨false, fun pending => classMemberFrame pending (content o t [.classMember, .statement])⟩ := by
  rw [emit_unless (d := .statementKind) rfl]
  by_cases hf : t.head.family = .classMember
  · rw [if_pos ((knows_classMember t.head).mpr hf), content_of_mem (by rw [hf]; decide),
      ownText_eq, hf]
    rfl
  · have hsame : [.classMember, .statement].contains t.head.family =
        [Family.statement].contains t.head.family := by
      revert hf
      cases t.head.family <;> decide
    rw [if_neg (mt (knows_classMember t.head).mp hf), emit_statementKind, content, ← hsame]
    rfl

/-- Where a member of an object type is asked for. -/
theorem emit_typeMember : (Emitter.place .typeMember).emit o t =
    ⟨false, fun pending => typeMemberFrame pending (content o t [.typeMember])⟩ := by
  rw [emit_unless (d := .node) rfl]
  by_cases hf : t.head.family = .typeMember
  · rw [if_pos ((knows_typeMember t.head).mpr hf), content_of_mem (List.mem_singleton.mpr hf),
      ownText_eq, hf]
    rfl
  · rw [if_neg (mt (knows_typeMember t.head).mp hf), emit_node,
      content_of_not_mem (mt List.mem_singleton.mp hf)]
    rfl

/-- Where a statement is asked for, on lines of its own. -/
theorem emit_statement : (Emitter.place .statement).emit o t =
    ⟨false, fun pending => statementFrame t.head pending (content o t [.statement])⟩ := by
  rw [← emit_statementKind, emit_eq]
  rfl

theorem emit_expression (least : Precedence) (forced : Bool) :
    (Emitter.place (.expression least forced)).emit o t =
      ⟨false, expressionAt o t least forced⟩ := by
  unfold expressionAt
  rw [← emit_expressionKind, emit_eq]
  rfl

theorem emit_block : (Emitter.place .block).emit o t =
    if (Emitter.place .block).Knows t.head then ⟨true, blockText t.head t.slots⟩
    else ⟨false, familyText o t⟩ := by
  rw [← emit_node, emit_unless (d := .node) rfl]
  rfl

theorem emit_body : (Emitter.place .body).emit o t = ⟨false, bodyText o t⟩ := by
  rw [emit_eq, next?, Option.map_some, Option.getD_some]
  unfold bodyText
  cases hblock : t.head.is .blockStatement with
  | true =>
    have hknows : (Emitter.place .block).Knows t.head := by simp [Knows, arms, Head.isAny, hblock]
    rw [if_pos rfl, emit_block, if_pos hknows, around, hblock]
    rfl
  | false =>
    rw [if_neg Bool.false_ne_true, emit_statement, around, hblock]
    rfl

theorem emit_markup : (Emitter.place .markup).emit o t =
    if (Emitter.place .markup).Knows t.head then ⟨true, markupText t.head t.slots⟩
    else ⟨false, expressionAt o t .assignment false⟩ := by
  rw [← emit_expression, emit_unless (d := .place (.expression .assignment false)) rfl]
  rfl

theorem markupAt_eq :
    markupAt o t = ((Emitter.place .markup).emit o t).script t.head.comments := by
  rw [emit_markup, markupAt]
  by_cases hk : (Emitter.place .markup).Knows t.head
  · rw [if_pos hk, if_pos ((knows_markup t.head).mp hk)]
  · rw [if_neg hk, if_neg (mt (knows_markup t.head).mpr hk)]

/-- **At every place a node is written** as it comes out of the emitters it is handed to. -/
theorem scriptAt_eq_emit (p : Place) :
    scriptAt o t p = ((Emitter.place p).emit o t).script t.head.comments := by
  cases p with
  | program =>
    rw [emit_unless (d := .node) rfl]
    by_cases hf : t.head.family = .program
    · rw [if_pos ((knows_program t.head).mpr hf)]
      show familyText o t t.head.comments = programText t.head t.slots t.head.comments
      rw [familyText, hf]
      show ownText o t t.head.comments = _
      rw [ownText_eq, hf]
    · rw [if_neg (mt (knows_program t.head).mp hf), emit_node]
      rfl
  | statement =>
    rw [emit_statement]
    rfl
  | inline =>
    rw [scriptAt, ← emit_statementKind, emit_eq (.place .inline)]
    rfl
  | exported =>
    rw [scriptAt, ← emit_statementKind, emit_eq (.place .exported)]
    rfl
  | block =>
    rw [emit_block]
    show (if (Emitter.place .block).Knows t.head then _ else _) = _
    split <;> rfl
  | body =>
    rw [emit_body]
    rfl
  | otherwise =>
    rw [scriptAt, emit_unless (d := .place .body) rfl, emit_body,
      if_knows (e := .place .otherwise) rfl]
    split <;> rfl
  | loopHead =>
    rw [scriptAt, emit_unless (d := .place (.expression .comma false)) rfl, emit_expression,
      if_knows (e := .place .loopHead) rfl]
    split <;> rfl
  | expression least forced =>
    rw [emit_expression]
    rfl
  | property =>
    rw [emit_eq]
    show _ = comments .lines t.head.comments.leading
      ++ ((Emitter.place (.expression .assignment false)).emit o t).script _
    rw [emit_expression]
    rfl
  | type least =>
    rw [scriptAt, ← emit_typeKind, emit_eq (.place (.type least))]
    rfl
  | classBody =>
    rw [scriptAt, emit_unless (d := .node) rfl, emit_node, ← if_knows (e := .place .classBody) rfl]
    by_cases hk : (Emitter.place .classBody).Knows t.head
    · rw [if_pos hk, if_pos hk, own_of_knows_expression (by decide) hk, ownText_eq,
        family_of_knows_classBody hk]
      rfl
    · rw [if_neg hk, if_neg hk]
      rfl
  | classMember =>
    rw [emit_classMember]
    rfl
  | typeMember =>
    rw [emit_typeMember]
    rfl
  | markup => exact markupAt_eq
  | markupChild =>
    rw [scriptAt, markupAt_eq, emit_eq (.place .markupChild), next?]
    cases t.head.isAny [.jsxElement, .jsxFragment] with
    | true =>
      show expressionAt o t .primary false t.head.comments =
        ((Emitter.place (.expression .primary false)).emit o t).script t.head.comments
      rw [emit_expression]
    | false => rfl
  | markupValue =>
    rw [scriptAt, markupAt_eq, emit_unless (e := .place .markupValue) (d := .place .markup) rfl,
      if_knows (e := .place .markupValue) rfl]
    split <;> rfl

end Emit

/-! ### The recursion ends -/

/-- An emitter, however tight the place asks a node to bind. -/
def name : Emitter → Emitter
  | .place (.expression _ _) => .place (.expression .comma false)
  | .place (.type _) => .place (.type .function)
  | e => e

theorem rank_name (h : Head) (e : Emitter) : e.name.rank h = e.rank h := by
  cases e with
  | place p => cases p <;> rfl
  | _ => rfl

theorem rank_le (h : Head) (e : Emitter) : e.rank h ≤ 7 := by
  cases e with
  | place p => cases p <;> simp only [rank] <;> (try split) <;> decide
  | node => exact (by decide : 3 ≤ 7)
  | _ =>
    simp only [rank]
    split <;> decide

/-- Emitters that hand a node over, each to the next. -/
def Trail (h : Head) (es : List Emitter) : Prop := es.IsChain fun e e' => e.next? h = some e'

instance (h : Head) (es : List Emitter) : Decidable (Trail h es) := by
  unfold Trail
  infer_instance

theorem Trail.pairwise {h : Head} {es : List Emitter} (hes : Trail h es) :
    es.Pairwise fun e e' => e'.rank h < e.rank h := by
  have hchain : es.IsChain fun e e' => e'.rank h < e.rank h := hes.imp fun _ _ => rank_next?
  rw [← List.pairwise_map (f := rank h) (R := (· > ·)), ← List.isChain_iff_pairwise]
  exact (List.isChain_map _).mpr hchain

/-- No emitter gets a node twice, however tight it is to bind. -/
theorem Trail.nodup {h : Head} {es : List Emitter} (hes : Trail h es) : (es.map name).Nodup := by
  refine List.pairwise_map.mpr (hes.pairwise.imp fun {e e'} hlt heq => ?_)
  rw [← rank_name h e, ← rank_name h e', heq] at hlt
  exact Nat.lt_irrefl _ hlt

/-- A node goes through at most eight emitters. -/
theorem Trail.length_le {h : Head} {es : List Emitter} (hes : Trail h es) : es.length ≤ 8 := by
  have hranks : (es.map (rank h)).Nodup :=
    List.pairwise_map.mpr (hes.pairwise.imp fun hlt => (Nat.ne_of_lt hlt).symm)
  have hbound : es.map (rank h) ⊆ List.range 8 := by
    intro n hn
    obtain ⟨e, -, rfl⟩ := List.mem_map.mp hn
    exact List.mem_range.mpr (Nat.lt_succ_of_le (rank_le h e))
  simpa using hranks.length_le_of_subset hbound

/-- A node below another one. -/
def Below : Node → Node → Prop := Relation.TransGen fun u t => u ∈ t.slots.toList

theorem wellFounded_below : WellFounded Below := by
  refine WellFounded.transGen ⟨fun t => ?_⟩
  induction t using Tree.induct with
  | step n h s ih => exact ⟨_, fun u hu => ih u hu⟩

/-- **What an emitter calls**, in the course of writing a node: the emitter that it hands the node
over to, or any emitter for a node below. -/
inductive CalledBy : Emitter × Node → Emitter × Node → Prop where
  | handedOver {e e' : Emitter} {t : Node} (hnext : e.next? t.head = some e') :
    CalledBy (e', t) (e, t)
  | below (e e' : Emitter) {t u : Node} (hu : Below u t) : CalledBy (e', u) (e, t)

/-- Calls lead to nodes below, or down at the same node. -/
theorem wellFounded_calledBy : WellFounded CalledBy := by
  have hlex : WellFounded (Prod.Lex Below (· < ·)) :=
    wellFounded_below.prod_lex Nat.lt_wfRel.wf
  refine Subrelation.wf ?_ (InvImage.wf (fun c => (c.2, c.1.rank c.2.head)) hlex)
  rintro _ _ (hnext | ⟨_, _, hu⟩)
  · exact Prod.Lex.right _ (rank_next? hnext)
  · exact Prod.Lex.left _ _ hu

/-- A node with the scripts of its parts. -/
def withParts (o : Options) (t : Node) : Tree Printed :=
  .mk (fun _ => []) t.head (Tree.annotateSlots (printedRule o) t.slots)

/-- **The printer ends on every tree**, whatever stands where. At each node, the emitters that hand
it over to each other are all different, and eight at most. So no call of an emitter leads to calls
without end. What is written for a node at a place is what comes out of these emitters, given the
scripts of its parts. -/
theorem emitters_end (o : Options) :
    (∀ (h : Head) (es : List Emitter), Trail h es → (es.map name).Nodup ∧ es.length ≤ 8) ∧
      WellFounded CalledBy ∧
      ∀ (t : Node) (p : Place), t.synthesize (printedRule o) p =
        ((Emitter.place p).emit o (withParts o t)).script t.head.comments := by
  refine ⟨fun h es hes => ⟨hes.nodup, hes.length_le⟩, wellFounded_calledBy, fun t p => ?_⟩
  obtain ⟨n, h, s⟩ := t
  exact scriptAt_eq_emit p

/-- The longest way: a block as the value of a markup attribute. -/
example : Trail (Target.block []).head
    [.place .markupValue, .place .markup, .place (.expression .assignment false), .expressionKind,
      .node, .place .statement, .statementKind, .place .block] := by decide

end Emitter

end Typeshift.Print
