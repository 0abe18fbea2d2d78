import Typeshift.Print.Printer
import Typeshift.Proofs.Tree.Slots

/-! # Scripts that keep the margin

What a script writes may span lines and be indented in itself. When it is done the margin is what it
was, so what stands around a node does not see how the node is laid out.

* `Script.levelAfter`: the level of the lines after a script whose comments pass a test.
* `levelAfter_expressionText` and its kind: every construct keeps the level if its parts do.
* `Printed.Steady`: a node that keeps the level at every place. `steady_printed`: every tree whose
  comments pass the test is made of such nodes. -/

namespace Typeshift.Print

/-! ### The level after a script -/

/-- The level of the lines after a piece, none if it holds a comment that does not pass a test. -/
def Piece.levelAfter (ok : Comment → Bool) (level : Nat) : Piece → Option Nat
  | .indent => some (level + 1)
  | .dedent => some (level - 1)
  | .comments _ cs => if cs.all ok then some level else none
  | _ => some level

/-- All comments of a node pass a test. -/
structure Each (ok : Comment → Bool) (cs : Comments) : Prop where
  leading : cs.leading.all ok = true
  inner : cs.inner.all ok = true
  trailing : cs.trailing.all ok = true

instance (ok : Comment → Bool) (cs : Comments) : Decidable (Each ok cs) :=
  decidable_of_iff (cs.leading.all ok = true ∧ cs.inner.all ok = true ∧ cs.trailing.all ok = true)
    ⟨fun ⟨hleading, hinner, htrailing⟩ => ⟨hleading, hinner, htrailing⟩,
      fun ⟨hleading, hinner, htrailing⟩ => ⟨hleading, hinner, htrailing⟩⟩

namespace Script

/-- **The level of the lines after a script**, none if it holds a comment that does not pass a
test. -/
def levelAfter (ok : Comment → Bool) (s : Script) (level : Nat) : Option Nat :=
  s.foldlM (Piece.levelAfter ok) level

variable {ok : Comment → Bool} {s a b : Script} {level : Nat}

@[simp] theorem levelAfter_nil : levelAfter ok [] level = some level := rfl

theorem levelAfter_cons (p : Piece) :
    levelAfter ok (p :: s) level = (p.levelAfter ok level).bind (levelAfter ok s) := rfl

@[simp] theorem levelAfter_append :
    levelAfter ok (a ++ b) level = (levelAfter ok a level).bind (levelAfter ok b) :=
  List.foldlM_append

@[simp] theorem levelAfter_text (t : String) : levelAfter ok (text t) level = some level := rfl

@[simp] theorem levelAfter_raw (t : String) :
    levelAfter ok (.raw t :: s) level = levelAfter ok s level := rfl

@[simp] theorem levelAfter_apart (t : String) :
    levelAfter ok (.apart t :: s) level = levelAfter ok s level := rfl

@[simp] theorem levelAfter_space : levelAfter ok space level = some level := rfl

@[simp] theorem levelAfter_line : levelAfter ok line level = some level := rfl

theorem levelAfter_comments {cs : List Comment} (hcs : cs.all ok = true) (style : CommentStyle) :
    levelAfter ok (comments style cs) level = some level := by
  simp [comments, levelAfter, Piece.levelAfter, hcs]

@[simp] theorem levelAfter_ite (c : Prop) [Decidable c] :
    levelAfter ok (if c then a else b) level =
      if c then levelAfter ok a level else levelAfter ok b level :=
  apply_ite (levelAfter ok · level) c a b

@[simp] theorem levelAfter_when (c : Bool) :
    levelAfter ok (when c s) level = if c then levelAfter ok s level else some level := by
  cases c <;> rfl

@[simp] theorem levelAfter_between (l r : String) :
    levelAfter ok (between l r s) level = levelAfter ok s level := by
  simp only [between, levelAfter_append, levelAfter_text, Option.bind_some]
  cases levelAfter ok s level <;> rfl

@[simp] theorem levelAfter_parenIf (c : Bool) :
    levelAfter ok (parenIf c s) level = levelAfter ok s level := by
  cases c <;> simp [parenIf]

@[simp] theorem levelAfter_indented :
    levelAfter ok (indented s) level = (levelAfter ok s (level + 1)).map (· - 1) := by
  simp only [indented, levelAfter_append, levelAfter_cons, Piece.levelAfter, Option.bind_some,
    List.cons_append]
  cases levelAfter ok s (level + 1) <;> rfl

@[simp] theorem levelAfter_braces :
    levelAfter ok (braces s) level = (levelAfter ok s (level + 1)).map (· - 1) := by
  simp only [braces, levelAfter_append, levelAfter_text, levelAfter_indented, Option.bind_some]
  cases levelAfter ok s (level + 1) <;> simp

/-- **A script that keeps the level**, and whose comments pass a test. -/
def Steady (ok : Comment → Bool) (s : Script) : Prop := ∀ level, s.levelAfter ok level = some level

theorem steady_flatMap {α : Type} {f : α → Script} {as : List α} (h : ∀ a ∈ as, (f a).Steady ok) :
    Steady ok (as.flatMap f) := by
  intro level
  induction as with
  | nil => rfl
  | cons a as ih =>
    rw [List.flatMap_cons, levelAfter_append, h a List.mem_cons_self]
    exact ih fun b hb => h b (List.mem_cons_of_mem _ hb)

theorem steady_separated {α : Type} {sep : String} {f : α → Script} {as : List α}
    (h : ∀ a ∈ as, (f a).Steady ok) : Steady ok (separated sep (as.map f)) := by
  intro level
  induction as with
  | nil => rfl
  | cons a as ih =>
    have ih := ih fun b hb => h b (List.mem_cons_of_mem _ hb)
    cases as with
    | nil =>
      rw [List.map_singleton, separated, List.intercalate_singleton]
      exact h a List.mem_cons_self level
    | cons b as =>
      rw [List.map_cons, List.map_cons, separated, List.intercalate_cons_cons, levelAfter_append,
        levelAfter_append, h a List.mem_cons_self]
      exact ih

end Script

/-! ### The parts of a construct -/

open Script

/-- **A node that keeps the level** at every place. -/
def Printed.Steady (ok : Comment → Bool) (n : Printed) : Prop := ∀ place, (n place).Steady ok

section Parts

variable {ok : Comment → Bool} {pending : Comments} (hpending : Each ok pending)
  {t : Tree Printed} (ht : t.All (Printed.Steady ok)) {level : Nat}

include ht in
theorem levelAfter_note (place : Place) : (t.note place).levelAfter ok level = some level :=
  ht.note place level

include ht in
theorem levelAfter_expression (least : Precedence) :
    (expression t least).levelAfter ok level = some level := ht.note _ level

include ht in
theorem levelAfter_operand (operator : String) (least : Precedence) :
    (operand operator least t).levelAfter ok level = some level := ht.note _ level

include ht in
theorem levelAfter_typeText : (typeText t).levelAfter ok level = some level := ht.note _ level

include ht in
theorem levelAfter_memberName (isComputed : Bool) :
    (memberName t isComputed).levelAfter ok level = some level := by
  unfold memberName
  split <;> simp only [levelAfter_between, levelAfter_expression ht]

include ht in
theorem levelAfter_arrowBody : (arrowBody t).levelAfter ok level = some level := by
  unfold arrowBody
  split <;> exact ht.note _ level

variable {list : Option (Tree Printed)} (hlist : ∀ t ∈ list, t.All (Printed.Steady ok))

include hlist in
theorem levelAfter_after (before : String) (place : Place) :
    (after before list place).levelAfter ok level = some level := by
  cases list with
  | none => rfl
  | some t =>
    simp only [after, levelAfter_append, levelAfter_text, Option.bind_some,
      levelAfter_note (hlist t rfl)]

include hlist in
theorem levelAfter_ascription : (ascription list).levelAfter ok level = some level :=
  levelAfter_after hlist ": " (.type .function)

include hlist in
theorem levelAfter_angledOf (tag : Tag) : (angledOf tag list).levelAfter ok level = some level := by
  cases list with
  | none => rfl
  | some t =>
    have hparams : (commas ((t.slots.children .params).map typeText)).Steady ok :=
      steady_separated fun c hc => ((hlist t rfl).parts c (Slots.children_mem hc)).note _
    simp only [angledOf, angled, levelAfter_when, levelAfter_between, hparams level, ite_self]

include hlist in
theorem levelAfter_typeArguments : (typeArguments list).levelAfter ok level = some level :=
  levelAfter_angledOf hlist _

variable {ts : List (Tree Printed)} (hts : ∀ t ∈ ts, t.All (Printed.Steady ok))

include hts in
theorem levelAfter_parts (place : Place) :
    Script.levelAfter ok (ts.flatMap (·.note place)) level = some level :=
  steady_flatMap (fun t ht => (hts t ht).note place) level

include hts in
theorem levelAfter_expressions (least : Precedence) :
    (expressions ts least).levelAfter ok level = some level :=
  steady_separated (fun t ht => (hts t ht).note _) level

include hts in
theorem levelAfter_types : (commas (ts.map typeText)).levelAfter ok level = some level :=
  steady_separated (fun t ht => (hts t ht).note _) level

include hts in
theorem levelAfter_parameters : (parameters ts).levelAfter ok level = some level := by
  rw [parameters, levelAfter_between, levelAfter_expressions hts]

include hpending hts in
theorem levelAfter_membersBlock (h : Head) (place : Place) :
    (membersBlock h ts place pending).levelAfter ok level = some level := by
  unfold membersBlock
  split
  · rfl
  · simp [levelAfter_parts hts, levelAfter_comments hpending.inner]

include hts in
theorem levelAfter_templatePieces {es : List (Tree Printed)}
    (hes : ∀ t ∈ es, t.All (Printed.Steady ok)) :
    (templatePieces ts es).levelAfter ok level = some level := by
  induction ts generalizing es with
  | nil => cases es <;> rfl
  | cons q qs ih =>
    have hq := hts q List.mem_cons_self
    have hqs : ∀ t ∈ qs, t.All (Printed.Steady ok) := fun t ht => hts t (List.mem_cons_of_mem _ ht)
    cases es with
    | nil =>
      simp only [templatePieces, levelAfter_append, levelAfter_expression hq, Option.bind_some,
        ih hqs hes]
    | cons e es =>
      simp only [templatePieces, levelAfter_append, levelAfter_expression hq, Option.bind_some,
        levelAfter_between, levelAfter_expression (hes e List.mem_cons_self),
        ih hqs fun t ht => hes t (List.mem_cons_of_mem _ ht)]

include hts in
theorem levelAfter_propertyLines : (propertyLines ts).levelAfter ok level = some level := by
  induction ts with
  | nil => rfl
  | cons t ts ih =>
    have ht := hts t List.mem_cons_self
    have ih := ih fun t ht => hts t (List.mem_cons_of_mem _ ht)
    cases ts <;> simp only [propertyLines, levelAfter_append, levelAfter_line, levelAfter_text,
      levelAfter_note ht, Option.bind_some, ih]

include hts in
theorem levelAfter_specifiers : (specifiers ts).levelAfter ok level = some level := by
  have hpart (p : Tree Printed → Bool) : ∀ t ∈ ts.filter p, t.All (Printed.Steady ok) := fun t ht =>
    hts t (List.mem_of_mem_filter ht)
  unfold specifiers
  rw [List.partition_eq_filter_filter]
  dsimp only
  split_ifs <;> simp [levelAfter_expressions (hpart _)]

include hpending hts in
theorem levelAfter_objectText : (objectText ts pending).levelAfter ok level = some level := by
  unfold objectText
  split <;> simp [levelAfter_propertyLines hts, levelAfter_comments hpending.inner]

include hpending hts in
theorem levelAfter_argumentsText : (argumentsText ts pending).levelAfter ok level = some level := by
  unfold argumentsText
  split <;> simp [levelAfter_parameters hts, levelAfter_comments hpending.inner]

theorem levelAfter_laterElements {ts : List (Option (Tree Printed))}
    (hts : ∀ t, some t ∈ ts → t.All (Printed.Steady ok)) :
    (laterElements ts).levelAfter ok level = some level := by
  induction ts with
  | nil => rfl
  | cons t ts ih =>
    have ih := ih fun t ht => hts t (List.mem_cons_of_mem _ ht)
    cases t with
    | none => simp only [laterElements, levelAfter_append, levelAfter_text, Option.bind_some, ih]
    | some t =>
      simp only [laterElements, levelAfter_append, levelAfter_text, levelAfter_space,
        levelAfter_expression (hts t List.mem_cons_self), Option.bind_some, ih]

include hpending in
theorem levelAfter_elementsText {ts : List (Option (Tree Printed))}
    (hts : ∀ t, some t ∈ ts → t.All (Printed.Steady ok)) :
    (elementsText pending ts).levelAfter ok level = some level := by
  have hlater : ∀ t rest, ts = t :: rest → (laterElements rest).levelAfter ok level = some level :=
    fun t rest heq => levelAfter_laterElements fun t ht =>
      hts t (heq ▸ List.mem_cons_of_mem _ ht)
  rcases ts with _ | ⟨_ | t, rest⟩
  · simp [elementsText, levelAfter_comments hpending.inner]
  · simp only [elementsText, levelAfter_between, levelAfter_append, levelAfter_when,
      levelAfter_text, hlater _ _ rfl, Option.bind_some, ite_self]
  · simp only [elementsText, levelAfter_between, levelAfter_append, levelAfter_when,
      levelAfter_expression (hts t List.mem_cons_self), levelAfter_text, hlater _ _ rfl,
      Option.bind_some, ite_self]

end Parts

/-! ### The constructs -/

section Constructs

variable {ok : Comment → Bool} {pending : Comments} (hpending : Each ok pending)
  {o : Options} {h : Head} {s : Slots Printed} (hs : ∀ c ∈ s.toList, c.All (Printed.Steady ok))
  {level : Nat}

theorem steady_default : Printed.Steady ok default := fun _ _ => rfl

theorem levelAfter_accessor : (accessor h).levelAfter ok level = some level := by
  unfold accessor
  split <;> rfl

theorem levelAfter_semicolon : (semicolon o).levelAfter ok level = some level := by
  rw [semicolon, levelAfter_when, levelAfter_text, ite_self]

include hs

theorem all_child_steady {f : Field} : (s.child f).All (Printed.Steady ok) :=
  Slots.all_child hs steady_default

theorem all_gaps_steady {f : Field} : ∀ t, some t ∈ s.gaps f → t.All (Printed.Steady ok) := by
  intro t ht
  unfold Slots.gaps at ht
  split at ht
  · next as has =>
    exact hs t (Slots.mem_toList.mpr ⟨_, Slots.get?_mem has, by simpa [Slot.toList] using ht⟩)
  · cases ht

theorem levelAfter_operatorList {f : Field} (sep empty : String) (least : TypePrecedence) :
    (operatorList (s.children f) sep empty least).levelAfter ok level = some level := by
  unfold operatorList
  split
  · rfl
  · exact steady_separated (fun c hc => (Slots.all_children hs c hc).note _) level

theorem levelAfter_typeParameters : (typeParameters s).levelAfter ok level = some level :=
  levelAfter_angledOf (Slots.all_child? hs) _

include hpending in
theorem levelAfter_typeKind : (typeKind h s pending).levelAfter ok level = some level := by
  unfold typeKind
  split <;> simp only [levelAfter_append, levelAfter_nil, levelAfter_text, levelAfter_space,
    levelAfter_between, angled, levelAfter_types (Slots.all_children hs), Option.bind_some,
    levelAfter_typeText (all_child_steady hs), levelAfter_expression (all_child_steady hs),
    levelAfter_note (all_child_steady hs), levelAfter_operatorList hs,
    levelAfter_typeParameters hs, levelAfter_parameters (Slots.all_children hs),
    levelAfter_typeArguments (Slots.all_child? hs), levelAfter_after (Slots.all_child? hs),
    levelAfter_membersBlock hpending (Slots.all_children hs)]

theorem levelAfter_signature : (signature s).levelAfter ok level = some level := by
  simp only [signature, levelAfter_append, levelAfter_typeParameters hs, Option.bind_some,
    levelAfter_parameters (Slots.all_children hs), levelAfter_ascription (Slots.all_child? hs)]

theorem levelAfter_decoratorLines : (decoratorLines s).levelAfter ok level = some level := by
  refine steady_flatMap (fun t ht level => ?_) level
  simp only [levelAfter_append, levelAfter_expression (Slots.all_children hs t ht),
    levelAfter_line, Option.bind_some]

theorem levelAfter_spacedId : (spacedId s).levelAfter ok level = some level := by
  unfold spacedId
  split
  · rfl
  · next id hid =>
    simp only [levelAfter_append, levelAfter_space, Option.bind_some,
      levelAfter_expression (Slots.all_child? hs id hid)]

theorem levelAfter_functionText : (functionText h s).levelAfter ok level = some level := by
  simp only [functionText, flagged, levelAfter_append, levelAfter_when, levelAfter_text, ite_self,
    levelAfter_spacedId hs, levelAfter_signature hs, levelAfter_space, Option.bind_some,
    levelAfter_note (all_child_steady hs)]

theorem levelAfter_methodText : (methodText h s).levelAfter ok level = some level := by
  simp only [methodText, flagged, levelAfter_append, levelAfter_when, levelAfter_text, ite_self,
    levelAfter_accessor, levelAfter_memberName (all_child_steady hs), levelAfter_signature hs,
    Option.bind_some, levelAfter_after (Slots.all_child? hs)]

theorem levelAfter_typeMemberText : (typeMemberText h s).levelAfter ok level = some level := by
  unfold typeMemberText
  split <;> simp [flagged, levelAfter_memberName (all_child_steady hs), levelAfter_accessor,
    levelAfter_ascription (Slots.all_child? hs), levelAfter_typeParameters hs,
    levelAfter_parameters (Slots.all_children hs), levelAfter_expressions (Slots.all_children hs)]

theorem levelAfter_classText : (classText h s).levelAfter ok level = some level := by
  rcases hsuper : s.child? .superClass with _ | t
  · simp [classText, hsuper, flagged, levelAfter_decoratorLines hs, levelAfter_spacedId hs,
      levelAfter_typeParameters hs, levelAfter_expressions (Slots.all_children hs),
      levelAfter_note (all_child_steady hs)]
  · simp [classText, hsuper, flagged, levelAfter_decoratorLines hs, levelAfter_spacedId hs,
      levelAfter_typeParameters hs, levelAfter_expressions (Slots.all_children hs),
      levelAfter_note (all_child_steady hs), levelAfter_expression (Slots.all_child? hs t hsuper),
      levelAfter_typeArguments (Slots.all_child? hs)]

theorem levelAfter_classMemberText : (classMemberText h s).levelAfter ok level = some level := by
  unfold classMemberText
  split <;> simp [classPropertyText, flagged, levelAfter_decoratorLines hs,
    levelAfter_methodText hs, levelAfter_memberName (all_child_steady hs),
    levelAfter_ascription (Slots.all_child? hs), levelAfter_after (Slots.all_child? hs)]

include hpending in
theorem levelAfter_markupText : (markupText h s pending).levelAfter ok level = some level := by
  have hattributes :
    Steady ok ((s.children .attributes).flatMap fun t => space ++ t.note .markup) :=
    steady_flatMap fun t ht level => by simp [levelAfter_note (Slots.all_children hs t ht)]
  unfold markupText
  split <;> simp [part, parts, hattributes level, levelAfter_comments hpending.inner,
    levelAfter_note (all_child_steady hs), levelAfter_parts (Slots.all_children hs),
    levelAfter_after (Slots.all_child? hs), levelAfter_expression (all_child_steady hs)]

theorem levelAfter_variablesText : (variablesText h s).levelAfter ok level = some level := by
  simp [variablesText, flagged, levelAfter_expressions (Slots.all_children hs)]

theorem levelAfter_importText : (importText o h s).levelAfter ok level = some level := by
  simp [importText, levelAfter_specifiers (Slots.all_children hs), levelAfter_semicolon,
    levelAfter_expression (all_child_steady hs)]

theorem levelAfter_exportText : (exportText o h s).levelAfter ok level = some level := by
  unfold exportText
  dsimp only
  split
  · split
    · next t ht => simp [levelAfter_note (Slots.all_child? hs t ht)]
    · simp [levelAfter_specifiers (Slots.all_children hs), levelAfter_semicolon,
        levelAfter_after (Slots.all_child? hs)]
  · split_ifs <;> simp [levelAfter_note (all_child_steady hs), levelAfter_semicolon,
      levelAfter_expression (all_child_steady hs)]
  all_goals simp [levelAfter_semicolon, levelAfter_expression (all_child_steady hs)]

theorem levelAfter_declarationText : (declarationText o h s).levelAfter ok level = some level := by
  unfold declarationText
  split <;> simp [flagged, levelAfter_semicolon, levelAfter_expression (all_child_steady hs),
    levelAfter_typeParameters hs, levelAfter_typeText (all_child_steady hs),
    levelAfter_signature hs, levelAfter_expressions (Slots.all_children hs),
    levelAfter_note (all_child_steady hs)]

include hpending in
theorem levelAfter_expressionText :
    (expressionText o h s pending).levelAfter ok level = some level := by
  have hchild (f : Field) : (s.child f).All (Printed.Steady ok) := all_child_steady hs
  have hdecorators : Steady ok ((s.children .decorators).flatMap fun t =>
      expression t .primary ++ space) := steady_flatMap fun t ht level => by
    simp [levelAfter_expression (Slots.all_children hs t ht)]
  unfold expressionText
  split
  case h_11 => split <;> rfl
  all_goals simp [flagged, levelAfter_expression (hchild _), levelAfter_note (hchild _),
    levelAfter_ascription (Slots.all_child? hs), levelAfter_typeText (hchild _),
    levelAfter_typeArguments (Slots.all_child? hs), levelAfter_expressions (Slots.all_children hs),
    levelAfter_after (Slots.all_child? hs), infixed, levelAfter_operand (hchild _), renamed,
    levelAfter_elementsText hpending (all_gaps_steady hs), levelAfter_markupText hpending hs,
    hdecorators level, levelAfter_objectText hpending (Slots.all_children hs),
    levelAfter_functionText hs,
    levelAfter_methodText hs, levelAfter_classText hs, levelAfter_signature hs,
    levelAfter_arrowBody (hchild _), levelAfter_argumentsText hpending (Slots.all_children hs),
    levelAfter_templatePieces (Slots.all_children hs) (Slots.all_children hs),
    levelAfter_membersBlock hpending (Slots.all_children hs), levelAfter_memberName (hchild _)]

include hpending in
theorem levelAfter_blockText : (blockText h s pending).levelAfter ok level = some level := by
  refine levelAfter_membersBlock hpending (fun t ht => ?_) h _
  rcases List.mem_append.mp ht with ht | ht
  all_goals exact Slots.all_children hs t ht

theorem levelAfter_ifText : (ifText s).levelAfter ok level = some level := by
  have hchild (f : Field) : (s.child f).All (Printed.Steady ok) := all_child_steady hs
  rcases halternate : s.child? .alternate with _ | t
  · simp [ifText, halternate, levelAfter_expression (hchild _), levelAfter_note (hchild _)]
  · simp [ifText, halternate, levelAfter_expression (hchild _), levelAfter_note (hchild _),
      levelAfter_note (Slots.all_child? hs t halternate)]

include hpending in
theorem levelAfter_statementText :
    (statementText o h s pending).levelAfter ok level = some level := by
  have hchild (f : Field) : (s.child f).All (Printed.Steady ok) := all_child_steady hs
  unfold statementText
  split
  case h_14 =>
    rcases htest : s.child? .test with _ | t
    · simp [statements, levelAfter_parts (Slots.all_children hs)]
    · simp [statements, levelAfter_parts (Slots.all_children hs),
        levelAfter_expression (Slots.all_child? hs t htest)]
  case h_18 =>
    rcases hparam : s.child? .param with _ | t
    · simp [levelAfter_note (hchild _)]
    · simp [levelAfter_note (hchild _), levelAfter_expression (Slots.all_child? hs t hparam)]
  all_goals simp [levelAfter_expression (hchild _), levelAfter_note (hchild _),
    levelAfter_semicolon, levelAfter_blockText hpending hs, levelAfter_comments hpending.inner,
    expressionStatementText, levelAfter_ifText hs,
    levelAfter_after (Slots.all_child? hs), headed, statements,
    levelAfter_parts (Slots.all_children hs), levelAfter_variablesText hs,
    levelAfter_functionText hs, levelAfter_classText hs, levelAfter_importText hs,
    levelAfter_exportText hs, levelAfter_declarationText hs]

include hpending in
theorem levelAfter_programText : (programText h s pending).levelAfter ok level = some level := by
  have hchild (f : Field) : (s.child f).All (Printed.Steady ok) := all_child_steady hs
  unfold programText
  split <;> simp [levelAfter_note (hchild _), levelAfter_after (Slots.all_child? hs), statements,
    levelAfter_parts (Slots.all_children hs), levelAfter_comments hpending.leading,
    levelAfter_comments hpending.inner, levelAfter_comments hpending.trailing]

end Constructs

/-! ### Whole nodes -/

section Frames

/-- What a frame holds keeps the level. -/
def Content.Steady (ok : Comment → Bool) (c : Content) : Prop :=
  ∀ pending, Each ok pending → (c.script pending).Steady ok

variable {ok : Comment → Bool} {pending : Comments} (hpending : Each ok pending) {level : Nat}

include hpending

/-- The comments of a node without those that are written already. -/
theorem Each.rest (keepInner : Bool) :
    Each ok { pending with leading := [], inner := if keepInner then pending.inner else [] } := by
  refine ⟨rfl, ?_, hpending.trailing⟩
  cases keepInner
  · rfl
  · exact hpending.inner

theorem Each.afterLeading : Each ok { pending with leading := [] } :=
  ⟨rfl, hpending.inner, hpending.trailing⟩

variable {c : Content}

theorem levelAfter_trailing (style : CommentStyle) :
    (c.trailing style pending).levelAfter ok level = some level := by
  simp [Content.trailing, levelAfter_comments hpending.trailing]

variable (hc : c.Steady ok)
include hc

theorem levelAfter_inlineFrame (keepInner paren : Bool) :
    (inlineFrame keepInner paren pending c).levelAfter ok level = some level := by
  simp [inlineFrame, hc _ (hpending.rest keepInner) level, levelAfter_trailing hpending,
    levelAfter_comments hpending.leading, levelAfter_comments hpending.inner]

theorem levelAfter_statementFrame (h : Head) :
    (statementFrame h pending c).levelAfter ok level = some level := by
  simp [statementFrame, hc _ (hpending.rest _) level, levelAfter_trailing hpending,
    levelAfter_comments hpending.leading, levelAfter_comments hpending.inner]

theorem levelAfter_classMemberFrame :
    (classMemberFrame pending c).levelAfter ok level = some level := by
  simp [classMemberFrame, hc _ hpending.afterLeading level, levelAfter_trailing hpending,
    levelAfter_comments hpending.leading]

theorem levelAfter_typeMemberFrame :
    (typeMemberFrame pending c).levelAfter ok level = some level := by
  simp [typeMemberFrame, hc _ hpending.afterLeading level, levelAfter_trailing hpending,
    levelAfter_comments hpending.leading]

end Frames

section Nodes

variable {ok : Comment → Bool} {o : Options} {t : Tree Printed} (ht : t.All (Printed.Steady ok))
  {level : Nat}

include ht

section Pending

variable {pending : Comments} (hpending : Each ok pending)

include hpending

theorem levelAfter_ownText : (ownText o t pending).levelAfter ok level = some level := by
  have hs := ht.parts
  unfold ownText
  split <;> simp [levelAfter_programText hpending hs, levelAfter_statementText hpending hs,
    levelAfter_typeKind hpending hs, levelAfter_classMemberText hs, levelAfter_typeMemberText hs,
    levelAfter_expressionText hpending hs]

theorem levelAfter_familyText : (familyText o t pending).levelAfter ok level = some level := by
  have hown : Content.Steady ok ⟨true, ownText o t⟩ := fun _ h _ => levelAfter_ownText ht h
  unfold familyText
  split <;> simp [levelAfter_ownText ht hpending, levelAfter_statementFrame hpending hown,
    typeFrame, expressionFrame, levelAfter_inlineFrame hpending hown,
    levelAfter_classMemberFrame hpending hown, levelAfter_typeMemberFrame hpending hown]

end Pending

theorem steady_content (families : List Family) : (content o t families).Steady ok := by
  intro pending hpending level
  unfold content
  split
  · exact levelAfter_ownText ht hpending
  · exact levelAfter_familyText ht hpending

theorem steady_expressionContent : (expressionContent o t).Steady ok := by
  unfold expressionContent
  split
  · exact fun _ _ _ => rfl
  · exact steady_content ht _

variable {pending : Comments} (hpending : Each ok pending)

include hpending

theorem levelAfter_bodyText : (bodyText o t pending).levelAfter ok level = some level := by
  unfold bodyText
  split <;> simp [levelAfter_blockText hpending ht.parts, levelAfter_comments hpending.leading,
    levelAfter_comments hpending.trailing,
    levelAfter_statementFrame hpending (steady_content ht _)]

theorem levelAfter_expressionAt (least : Precedence) (forced : Bool) :
    (expressionAt o t least forced pending).levelAfter ok level = some level :=
  levelAfter_inlineFrame hpending (steady_expressionContent ht) _ _

omit hpending in
/-- A node whose comments pass the test, as those of its parts do. -/
theorem steady_scriptAt (hown : Each ok t.head.comments) : Printed.Steady ok (scriptAt o t) := by
  intro place level
  have hcontent (families : List Family) : Script.levelAfter ok ((content o t families).script
      { t.head.comments with leading := [] }) level = some level :=
    steady_content ht _ _ hown.afterLeading level
  cases place <;> simp [scriptAt, levelAfter_familyText ht hown, levelAfter_bodyText ht hown,
    levelAfter_statementFrame hown (steady_content ht _), hcontent,
    levelAfter_blockText hown ht.parts, levelAfter_ifText ht.parts,
    levelAfter_variablesText ht.parts, levelAfter_expressionAt ht hown,
    levelAfter_expressionAt ht hown.afterLeading, typeFrame,
    levelAfter_inlineFrame hown (steady_content ht _), levelAfter_ownText ht hown,
    levelAfter_classMemberFrame hown (steady_content ht _), markupAt,
    levelAfter_markupText hown ht.parts, levelAfter_typeMemberFrame hown (steady_content ht _),
    levelAfter_comments hown.leading, levelAfter_trailing hown]

end Nodes

/-- All comments in a tree pass a test. -/
def EachComment (ok : Comment → Bool) (t : Node) : Prop := t.Every fun h _ => Each ok h.comments

/-- **Every node keeps the level** at every place, and writes none but its comments and those of its
parts. -/
theorem steady_printed (o : Options) {ok : Comment → Bool} {t : Node} (ht : EachComment ok t) :
    (t.annotate (printedRule o)).All (Printed.Steady ok) := by
  induction ht with
  | @mk h s here _ ih =>
    have hparts : ∀ c ∈ (Tree.annotateSlots (printedRule o) s).toList,
        c.All (Printed.Steady ok) := by
      intro c hc
      rw [Tree.toList_annotateSlots] at hc
      obtain ⟨a, ha, rfl⟩ := List.mem_map.mp hc
      exact ih a ha
    exact .mk (steady_scriptAt (.mk steady_default hparts) here) hparts

/-- No node of a tree has comments. -/
def Uncommented (t : Node) : Prop := t.Every fun h _ => h.comments = .none

/-- The test that no comment passes. -/
def noComment : Comment → Bool := fun _ => false

theorem Uncommented.eachComment {t : Node} (ht : Uncommented t) : EachComment noComment t :=
  ht.imp₂ ht fun _ _ hnone _ => hnone ▸ ⟨rfl, rfl, rfl⟩

end Typeshift.Print
