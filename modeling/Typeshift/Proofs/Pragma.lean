import Typeshift.Pipeline
import Typeshift.Proofs.Chain.Form
import Typeshift.Proofs.Convert.Rebuilt
import Typeshift.Proofs.Normalize.Idempotent

/-! # The marker comment of a program

The marker is removed from the tree that has been normalized and converted, where other statements
may have come first: definitions are appended, a declaration of temporaries is put in front, the
type of what a module exports becomes two statements. Whatever becomes of a program, the comments
before its first statement are those of the source.

* `isStatement`: statements and declarations, and what is not known.
* `Mirrors`: what the passes before conversion keep of a tree.
* `exists_statements?_transform`: the comments before the first statement are those of the source.
* `transform_pragma`: which marker is removed, and from where. -/

namespace Typeshift

open Normalize (statements? programBody? programBody?_eq_some statements?_eq_some onBody onProgram)

/-! ### Statements -/

/-- Whether a construct is a statement or a declaration. -/
def Tag.isStatement : Tag → Bool
  | .blockStatement | .expressionStatement | .emptyStatement | .debuggerStatement | .ifStatement
  | .labeledStatement | .breakStatement | .continueStatement | .withStatement | .switchStatement
  | .returnStatement | .throwStatement | .tryStatement | .whileStatement | .doWhileStatement
  | .forStatement | .forInStatement | .forOfStatement | .variableDeclaration
  | .functionDeclaration | .classDeclaration | .importDeclaration | .exportNamedDeclaration
  | .exportDefaultDeclaration | .exportAllDeclaration | .typeAlias | .opaqueType
  | .interfaceDeclaration | .declareVariable | .declareFunction | .declareTypeAlias
  | .declareOpaqueType | .declareInterface | .declareClass | .declareModule
  | .declareExportDeclaration | .declareExportAllDeclaration | .declareModuleExports => true
  | _ => false

/-- Whether a node is a statement or a declaration, as far as it is known. -/
def Head.isStatement (h : Head) : Bool := h.tag?.all Tag.isStatement

/-- A change to the statements of a program. -/
def mapProgram (g : List Node → List Node) (t : Node) : Node :=
  .mk () t.head (t.slots.map (onBody g))

/-- A change to the statements of a program, or of the program in a file. -/
def mapStatements (g : List Node → List Node) (t : Node) : Node :=
  if t.head.is .file then .mk () t.head (t.slots.map (onProgram (mapProgram g)))
  else mapProgram g t

/-- A file has one program. -/
def OneProgram (t : Node) : Prop := t.head.is .file = true →
  ∀ q, (Field.program, Slot.one q) ∈ t.slots → t.slots.get? .program = some (.one q)

/-! ### Normalization -/

namespace Normalize

/-- **Down to some depth, a tree has the tags and the comments of another one**, function types
apart. -/
def Mirrors : Nat → Node → Node → Prop
  | 0, _, _ => True
  | k + 1, t, t' => t.head.is .functionType = false →
    t'.head.tag? = t.head.tag? ∧ t'.head.comments = t.head.comments ∧
      t.slots.Rel (Mirrors k) t'.slots

theorem mirrors_markAt (k : Nat) (b : Bool) (t : Node) : Mirrors k t (markAt b t).node := by
  induction k generalizing b t with
  | zero => exact True.intro
  | succ k ih =>
    obtain ⟨_, h, s⟩ := t
    intro _
    rw [markAt_eq]
    refine ⟨tag?_markedHead _, ?_, (rel_markedSlots h s).imp ?_⟩
    · show (markedHead _).comments = h.comments
      unfold markedHead
      split_ifs <;> rfl
    · rintro c _ ⟨-, b, rfl⟩
      exact ih b c

theorem ensures_mirrors (k : Nat) (p : Position) (t : Node) :
    Ensures (fun _ => True) (t.synthesize hoistRule p) (Mirrors k t) := by
  induction k generalizing p t with
  | zero => exact fun _ _ => ⟨True.intro, True.intro⟩
  | succ k ih =>
    obtain ⟨_, h, s⟩ := t
    intro st _
    obtain ⟨-, hrel⟩ := ensures_hoistSlots (I := fun _ => True) (R := fun _ => Mirrors k)
      (fun e _ c _ => ih (p.child h e.1) c) st True.intro
    refine ⟨True.intro, fun hf => ?_⟩
    rw [Tree.synthesize_mk, hoistRule_eq,
      if_neg (by rw [show h.is .functionType = false from hf]; simp)]
    exact ⟨rfl, rfl, hrel⟩

section Mirrors

variable {k : Nat} {t t' : Node}

theorem Mirrors.programBody? (h : Mirrors (k + 1) t t') {body : List Node}
    (hbody : Normalize.programBody? t = some body) :
    ∃ body', Normalize.programBody? t' = some body' ∧ List.Forall₂ (Mirrors k) body body' := by
  obtain ⟨hp, hget⟩ := programBody?_eq_some.mp hbody
  have htag : t.head.tag? = some .program := by simpa [Head.is] using hp
  obtain ⟨htag', -, hrel⟩ := h (by simp [Head.is, htag])
  rcases hrel.get? .body with ⟨hnone, -⟩ | ⟨a, b, ha, hb, hab⟩
  · rw [hget] at hnone
    cases hnone
  · rw [hget] at ha
    cases ha
    cases hab with
    | many hbodies =>
      exact ⟨_, programBody?_eq_some.mpr ⟨by simp [Head.is, htag', htag], hb⟩, hbodies⟩

/-- The first statement keeps its tag and its comments. -/
theorem Mirrors.statements? (h : Mirrors 3 t t') {first : Node} {rest : List Node}
    (hbody : Normalize.statements? t = some (first :: rest))
    (hfirst : first.head.is .functionType = false) :
    ∃ first' rest', Normalize.statements? t' = some (first' :: rest') ∧
      first'.head.tag? = first.head.tag? ∧ first'.head.comments = first.head.comments := by
  -- one level below the program, which is the tree itself or stands in it
  have hdown : ∀ {k : Nat} {p p' : Node}, Mirrors (k + 2) p p' →
      Normalize.programBody? p = some (first :: rest) →
      ∃ first' rest', Normalize.programBody? p' = some (first' :: rest') ∧
        first'.head.tag? = first.head.tag? ∧ first'.head.comments = first.head.comments := by
    intro k p p' hp hbody
    obtain ⟨body', hbody', hrel⟩ := hp.programBody? hbody
    cases hrel with
    | cons hmirrors _ =>
      obtain ⟨htag, hcomments, -⟩ := hmirrors hfirst
      exact ⟨_, _, hbody', htag, hcomments⟩
  rcases statements?_eq_some.mp hbody with ⟨hfile, hb⟩ | ⟨hfile, p, hp, hb⟩
  · obtain ⟨first', rest', hbody', hsame⟩ := hdown h hb
    refine ⟨first', rest', statements?_eq_some.mpr (.inl ⟨?_, hbody'⟩), hsame⟩
    have htag : t'.head.tag? = some .program := by
      simpa [Head.is] using (programBody?_eq_some.mp hbody').1
    simp [Head.is, htag]
  · have htag : t.head.tag? = some .file := by simpa [Head.is] using hfile
    obtain ⟨htag', -, hrel⟩ := h (by simp [Head.is, htag])
    rcases hrel.get? .program with ⟨hnone, -⟩ | ⟨a, b, ha, hb', hab⟩
    · rw [hp] at hnone
      cases hnone
    · rw [hp] at ha
      cases ha
      cases hab with
      | one hmirrors =>
        obtain ⟨first', rest', hbody', hsame⟩ := hdown hmirrors hb
        exact ⟨first', rest', statements?_eq_some.mpr
          (.inr ⟨by simp [Head.is, htag', htag], _, hb', hbody'⟩), hsame⟩

end Mirrors

theorem hasBody_of_statements? {t : Node} {body : List Node} (h : statements? t = some body) :
    hasBody t = true := by
  unfold hasBody
  rcases statements?_eq_some.mp h with ⟨-, hb⟩ | ⟨hfile, p, hp, hb⟩
  · rw [(programBody?_eq_some.mp hb).1, Bool.true_or]
  · have hchild : t.slots.child? .program = some p := by
      unfold Slots.child?
      rw [hp]
    rw [hfile, hchild, Option.map_some, (programBody?_eq_some.mp hb).1]
    simp

/-- **The first statement of a normalized program is that of the program**, with its comments. -/
theorem statements?_normalize {t first : Node} {rest : List Node}
    (hbody : statements? t = some (first :: rest))
    (hfirst : first.head.is .functionType = false) :
    ∃ first' rest', statements? t.normalize.1 = some (first' :: rest') ∧
      first'.head.tag? = first.head.tag? ∧ first'.head.comments = first.head.comments := by
  obtain ⟨marked, rest₁, hmarked, htag₁, hcomments₁⟩ :=
    (mirrors_markAt 3 false t).statements? hbody hfirst
  have hfirst₁ : marked.head.is .functionType = false := by
    unfold Head.is at hfirst ⊢
    rwa [htag₁]
  obtain ⟨-, hmirrors⟩ :=
    ensures_mirrors 3 .other (markOptional t).node ⟨(markOptional t).node.names, []⟩ True.intro
  obtain ⟨core, rest₂, hcore, htag₂, hcomments₂⟩ := hmirrors.statements? hmarked hfirst₁
  refine ⟨core, rest₂ ++ (hoist (markOptional t).node).2.map Hoisted.definition, ?_,
    htag₂.trans htag₁, hcomments₂.trans hcomments₁⟩
  unfold Node.normalize
  rw [if_pos (hasBody_of_statements? hbody)]
  exact statements?_append _ hcore

end Normalize

/-! ### Conversion -/

namespace Convert

open Chain (Gives gives_true gives_pure)

/-- A node without comments. -/
def IsBare (t : Node) : Prop := t.head.comments = .none

section Made

variable {h : Head} {s : Slots Outcome}

theorem bare_orUnsupported {p : Pass (Option Node)}
    (hp : Gives p fun x => ∀ t ∈ x, IsBare t) : Gives (orUnsupported h p) IsBare := by
  refine hp.bind fun x hx => ?_
  cases x with
  | none => exact fun st => rfl
  | some t => exact fun st => hx t rfl

theorem bare_convertOpaque : Gives (convertOpaque s) IsBare := by
  unfold convertOpaque
  dsimp only
  split <;> exact fun _ => rfl

theorem bare_convertClass : Gives (convertClass s) IsBare := by
  unfold convertClass
  refine (gives_true _).bind fun _ _ => ?_
  dsimp only
  split
  · split_ifs <;> exact fun _ => rfl
  · exact fun _ => rfl

theorem bare_convertDeclaredFunction :
    Gives (convertDeclaredFunction? s) fun x => ∀ t ∈ x, IsBare t := by
  unfold convertDeclaredFunction?
  dsimp only
  split
  · refine (gives_true _).bind fun sig _ => ?_
    cases sig with
    | none => exact gives_pure nofun
    | some sig =>
      refine (gives_true _).bind fun isDeclare _ => gives_pure ?_
      rintro _ ⟨⟩
      rfl
  · exact gives_pure nofun

theorem bare_convertExport :
    Gives (convertExport? h s) fun x => ∀ t ∈ x, IsBare t := by
  unfold convertExport?
  split_ifs
  · split
    · split_ifs
      · refine (gives_true _).bind fun t _ => gives_pure ?_
        rintro _ ⟨⟩
        rfl
      · exact gives_pure nofun
    · exact gives_pure nofun
  · refine (gives_true _).bind fun _ _ => (gives_true _).bind fun _ _ =>
      (gives_true _).bind fun _ _ => gives_pure ?_
    rintro _ ⟨⟩
    rfl

/-- The statements of the source alone are declarations. -/
theorem mem_of_isStatement {t : Tag} (h : t.isStatement = true) (hside : t.isIn .target = false) :
    t ∈ [Tag.typeAlias, .opaqueType, .interfaceDeclaration, .declareVariable, .declareTypeAlias,
      .declareInterface, .declareModule, .declareExportAllDeclaration, .declareOpaqueType,
      .declareClass, .declareFunction, .declareExportDeclaration, .declareModuleExports] := by
  revert h hside
  cases t <;> decide

/-- **What is made of a statement has no comments of its own.** -/
theorem bare_convertNode (hh : h.isStatement = true)
    (hne : h.is .declareModuleExports = false) : Gives (convertNode h s) IsBare := by
  unfold convertNode
  split
  · exact fun _ => rfl
  next tag htag =>
    unfold Head.isStatement at hh
    unfold Head.is at hne
    rw [htag] at hh hne
    split_ifs with htarget
    · exact fun _ => rfl
    · have hmem := mem_of_isStatement hh (Bool.eq_false_iff.mpr htarget)
      simp only [List.mem_cons, List.not_mem_nil, or_false] at hmem
      rcases hmem with rfl | rfl | rfl | rfl | rfl | rfl | rfl | rfl | rfl | rfl | rfl | rfl | rfl
      iterate 8 · exact fun _ => rfl
      · exact bare_convertOpaque
      · exact bare_convertClass
      · exact bare_orUnsupported bare_convertDeclaredFunction
      · exact bare_orUnsupported bare_convertExport
      · cases hne

end Made

theorem comments_attach (h : Head) (t : Node) :
    (attach h t).head.comments = t.head.comments.wrap h.comments := by
  cases t; rfl

section Statements

variable {first : Node} {rest : List Node}

/-- The first statement that is made has the comments of the first statement. -/
theorem leading_convertStatements (hfirst : first.head.isStatement = true) (rest : List Node)
    (st : State) :
    ∃ x xs, (convertStatements ((first :: rest).map (Tree.annotate outcome)) st).1 = x :: xs ∧
      x.head.comments.leading = first.head.comments.leading := by
  obtain ⟨_, h, s⟩ := first
  rw [List.map_cons]
  unfold convertStatements
  rw [Tree.head_annotate, Tree.head_mk]
  split_ifs with hexports
  · exact ⟨_, _, rfl, rfl⟩
  · refine ⟨attach h (convertNode h (Tree.annotateSlots outcome s) st).1, _, rfl, ?_⟩
    have hbare : (convertNode h (Tree.annotateSlots outcome s) st).1.head.comments = .none :=
      bare_convertNode hfirst (Bool.eq_false_iff.mpr hexports) st
    rw [comments_attach, hbare, Comments.none_wrap]

/-- A declaration that is put first takes over the comments before the first statement. -/
theorem leading_declareInProgram (names : List String) (x : Node) (xs : List Node) :
    ∃ y ys, declareInProgram names (x :: xs) = y :: ys ∧
      y.head.comments.leading = x.head.comments.leading := by
  unfold declareInProgram
  split_ifs
  · exact ⟨x, xs, rfl, rfl⟩
  · dsimp only
    rw [List.span_eq_takeWhile_dropWhile, List.takeWhile_cons, List.dropWhile_cons]
    split_ifs
    · exact ⟨x, _, rfl, rfl⟩
    · exact ⟨_, _, rfl, rfl⟩

/-- What is made of a construct of both vocabularies, but for its comments and its span. -/
theorem bare_convertTree {tag : Tag} {h : Head} {s : Slots Unit} (ht : h.tag? = some tag)
    (htarget : tag.isIn .target = true) (st : State) :
    (convertShared tag h (Tree.annotateSlots outcome s) st).1.bare =
      (convertTree (.mk () h s) st).1.bare := by
  show _ = (attach h (convertNode h (Tree.annotateSlots outcome s) st).1).bare
  rw [Chain.convertNode_shared ht htarget]
  simp [attach]

theorem programBody?_convertTree {p : Node} (hbody : programBody? p = some (first :: rest))
    (hfirst : first.head.isStatement = true) (st : State) :
    ∃ y ys, programBody? (convertTree p st).1 = some (y :: ys) ∧
      y.head.comments.leading = first.head.comments.leading := by
  obtain ⟨⟨⟩, h, s⟩ := p
  obtain ⟨hp, hget⟩ := programBody?_eq_some.mp hbody
  have htag : h.tag? = some .program := by simpa [Head.is] using hp
  have hparts : (Tree.annotateSlots outcome s).get? .body =
      some (.many ((first :: rest).map (Tree.annotate outcome))) := by
    rw [Slots.annotateSlots_eq_mapTrees, Slots.get?_mapTrees, show Slots.get? s .body = _ from hget]
    rfl
  have hbare := bare_convertTree (s := s) htag rfl st
  obtain ⟨slot, hslot⟩ : ∃ slot, (convertShared .program h (Tree.annotateSlots outcome s)
      st).1.slots.get? .body = some slot := ⟨_, rfl⟩
  obtain ⟨st', rfl⟩ := mem_slots_convertShared (Slots.get?_mem hslot)
  obtain ⟨x, xs, hx, hleading⟩ := leading_convertStatements hfirst rest
    { st' with scopes := [] :: st'.scopes }
  obtain ⟨y, ys, hy, hleading'⟩ := leading_declareInProgram
    (inScope (convertStatements ((first :: rest).map (Tree.annotate outcome))) st').1.2 x xs
  refine ⟨y, ys, programBody?_eq_some.mpr ⟨?_, ?_⟩, hleading'.trans hleading⟩
  · rw [Node.is_eq_of_bare hbare]
    rfl
  · rw [Node.slots_eq_of_bare hbare, hslot, ← hy, ← hx]
    unfold convertSlot
    rw [show sourceField .program .body = .body from rfl, hparts]
    rfl

/-- **The comments before the first statement** of a converted tree are those of the tree. A file
has one program. -/
theorem statements?_convertTree {t : Node} (hbody : statements? t = some (first :: rest))
    (hfirst : first.head.isStatement = true) (st : State) :
    OneProgram (convertTree t st).1 ∧ ∃ y ys, statements? (convertTree t st).1 = some (y :: ys) ∧
      y.head.comments.leading = first.head.comments.leading := by
  rcases statements?_eq_some.mp hbody with ⟨hfile, hb⟩ | ⟨hfile, p, hget, hb⟩
  · obtain ⟨y, ys, hy, hleading⟩ := programBody?_convertTree hb hfirst st
    have htag : (convertTree t st).1.head.tag? = some .program := by
      simpa [Head.is] using (programBody?_eq_some.mp hy).1
    have hfile' : (convertTree t st).1.head.is .file = false := by simp [Head.is, htag]
    refine ⟨fun h => ?_, y, ys, statements?_eq_some.mpr (.inl ⟨hfile', hy⟩), hleading⟩
    rw [hfile'] at h
    cases h
  · obtain ⟨⟨⟩, h, s⟩ := t
    have htag : h.tag? = some .file := by simpa [Head.is] using hfile
    have hparts : (Tree.annotateSlots outcome s).get? .program =
        some (.one (p.annotate outcome)) := by
      rw [Slots.annotateSlots_eq_mapTrees, Slots.get?_mapTrees,
        show Slots.get? s .program = _ from hget]
      rfl
    have hbare := bare_convertTree (s := s) htag rfl st
    have hslots : (convertTree (.mk () h s) st).1.slots =
        [(.program, .one (convertTree p st).1)] := by
      rw [Node.slots_eq_of_bare hbare]
      have hslot : convertSlot .file (Tree.annotateSlots outcome s) .program =
          Slot.mapM convertPart (.one (p.annotate outcome)) :=
        convertSlot_eq (t := .file) hparts rfl rfl
      exact congrArg (fun step : Pass (Slot Node) => [(Field.program, (step st).1)]) hslot
    obtain ⟨y, ys, hy, hleading⟩ := programBody?_convertTree hb hfirst st
    refine ⟨fun _ q hq => ?_, y, ys, statements?_eq_some.mpr
      (.inr ⟨?_, (convertTree p st).1, ?_, hy⟩), hleading⟩
    · rw [hslots] at hq ⊢
      cases List.mem_singleton.mp hq
      rfl
    · rw [Node.is_eq_of_bare hbare]
      rfl
    · rw [hslots]
      rfl

end Statements

end Convert

/-! ### Removing a marker -/

section Strip

variable {markers : List String} {t y : Node} {ys : List Node}

theorem Comment.isMarker_iff {c : Comment} : c.isMarker markers = true ↔ c.text ∈ markers :=
  List.contains_iff_mem

/-- The first marker among some comments. -/
theorem exists_first_marker {cs : List Comment} (h : ∃ c ∈ cs, c.text ∈ markers) :
    ∃ c before after, cs = before ++ c :: after ∧ c.text ∈ markers ∧
      ∀ d ∈ before, d.text ∉ markers := by
  obtain ⟨c, hc, hin⟩ := h
  have hsome : (cs.find? (Comment.isMarker markers)).isSome = true :=
    List.find?_isSome.mpr ⟨c, hc, Comment.isMarker_iff.mpr hin⟩
  obtain ⟨c, hfind⟩ := Option.isSome_iff_exists.mp hsome
  obtain ⟨hc, before, after, hsplit, hbefore⟩ := List.find?_eq_some_iff_append.mp hfind
  refine ⟨c, before, after, hsplit, Comment.isMarker_iff.mp hc, fun d hd => ?_⟩
  exact Comment.isMarker_iff.not.mp (by simpa using hbefore d hd)

/-- A node before which no comment is a marker stays. -/
theorem Node.stripLeading?_eq_none (h : ∀ c ∈ y.head.comments.leading, c.text ∉ markers) :
    y.stripLeading? markers = none := by
  have hfind : y.head.comments.leading.find? (Comment.isMarker markers) = none :=
    List.find?_eq_none.mpr fun c hc => Comment.isMarker_iff.not.mpr (h c hc)
  unfold Node.stripLeading? Comments.removeLeading?
  rw [hfind]
  rfl

/-- The first marker before a node is removed. -/
theorem Node.stripLeading?_eq_some {before after : List Comment} {c : Comment}
    (hleading : y.head.comments.leading = before ++ c :: after) (hc : c.text ∈ markers)
    (hbefore : ∀ d ∈ before, d.text ∉ markers) :
    y.stripLeading? markers =
      some (y.withComments { y.head.comments with leading := before ++ after }) := by
  have hc : c.isMarker markers = true := Comment.isMarker_iff.mpr hc
  have hbefore : ∀ d ∈ before, ¬ d.isMarker markers = true :=
    fun d hd => Comment.isMarker_iff.not.mpr (hbefore d hd)
  unfold Node.stripLeading? Comments.removeLeading?
  rw [hleading, List.find?_append, List.find?_eq_none.mpr hbefore, Option.none_or,
    List.find?_cons_of_pos hc, List.eraseP_append_right _ hbefore, List.eraseP_cons_of_pos hc]
  rfl

theorem Node.stripProgram?_eq (hbody : programBody? t = some (y :: ys)) :
    t.stripProgram? markers =
      (y.stripLeading? markers).map fun y' => mapProgram (fun _ => y' :: ys) t := by
  obtain ⟨hp, hget⟩ := programBody?_eq_some.mp hbody
  have hchildren : t.slots.children .body = y :: ys := by
    unfold Slots.children
    rw [hget]
  unfold Node.stripProgram? Node.stripFirst?
  rw [if_pos hp, hchildren]
  dsimp only
  rw [Option.map_map]
  rfl

/-- **The marker of a tree** is looked for before its first statement. -/
theorem Node.strip?_eq (hone : OneProgram t) (hbody : statements? t = some (y :: ys)) :
    t.strip? markers =
      (y.stripLeading? markers).map fun y' => mapStatements (fun _ => y' :: ys) t := by
  unfold Node.strip? mapStatements
  rcases statements?_eq_some.mp hbody with ⟨hfile, hb⟩ | ⟨hfile, p, hget, hb⟩
  · simp only [hfile, Bool.false_eq_true, if_false]
    exact Node.stripProgram?_eq hb
  · have hchild : t.slots.child? .program = some p := by
      unfold Slots.child?
      rw [hget]
    rw [if_pos hfile, hchild, Option.bind_some, Node.stripProgram?_eq hb, Option.map_map]
    refine congrArg (Option.map · _) (funext fun y' => ?_)
    simp only [Function.comp_apply, hfile, if_true]
    refine congrArg (Tree.mk () t.head) (List.map_congr_left fun e he => ?_)
    rcases Normalize.onProgram_cases e with ⟨q, rfl⟩ | hid
    · cases (hone hfile q he).symm.trans hget
      rfl
    · rw [hid]
      exact hid fun _ => mapProgram (fun _ => y' :: ys) p

end Strip

/-! ### The whole pipeline -/

/-- The tree before its marker is looked for. -/
theorem Node.transform_eq (markers : List String) (rules : Registry) (t : Node) :
    ((t.transform markers rules).tree, (t.transform markers rules).pragmaRemoved) =
      t.normalize.1.convert.tree.stripPragma markers := rfl

theorem Node.stripPragma_nil (t : Node) : t.stripPragma [] = (t, false) := by
  have hleading : ∀ y : Node, y.stripLeading? [] = none := fun y =>
    Node.stripLeading?_eq_none fun _ _ => List.not_mem_nil
  have hprogram : ∀ p : Node, p.stripProgram? [] = none := by
    intro p
    unfold Node.stripProgram? Node.stripFirst?
    split_ifs
    · cases p.slots.children .body with
      | nil => rfl
      | cons y ys => simp [hleading]
    · rfl
  have hstrip : t.strip? [] = none := by
    unfold Node.strip?
    simp [hprogram]
  unfold Node.stripPragma
  rw [hstrip]

/-- **The comments before the first statement of the result** are those of the source. -/
theorem exists_statements?_transform {t first : Node} {rest : List Node}
    (hbody : statements? t = some (first :: rest)) (hfirst : first.head.isStatement = true) :
    OneProgram t.normalize.1.convert.tree ∧ ∃ y ys,
      statements? t.normalize.1.convert.tree = some (y :: ys) ∧
        y.head.comments.leading = first.head.comments.leading := by
  have hfunction : first.head.is .functionType = false := by
    unfold Head.isStatement at hfirst
    unfold Head.is
    cases htag : first.head.tag? with
    | none => rfl
    | some tag =>
      rw [htag, Option.all_some] at hfirst
      cases hf : (some tag == some Tag.functionType) with
      | false => rfl
      | true =>
        cases beq_iff_eq.mp hf
        cases hfirst
  obtain ⟨first', rest', hbody', htag, hcomments⟩ :=
    Normalize.statements?_normalize hbody hfunction
  have hfirst' : first'.head.isStatement = true := by
    unfold Head.isStatement at hfirst ⊢
    rwa [htag]
  obtain ⟨hone, y, ys, hy, hleading⟩ :=
    Convert.statements?_convertTree hbody' hfirst' (.start t.normalize.1.names)
  exact ⟨hone, y, ys, hy, by rw [hleading, hcomments]⟩

/-- **The marker that is removed is decided by the source.** A marker is removed if one of the
comments before the first statement of the source is one. The result is then what comes out without
markers, but for the first marker among the comments before its first statement, which are those of
the source; otherwise it is what comes out without markers. -/
theorem transform_pragma {t first : Node} {rest : List Node}
    (hbody : statements? t = some (first :: rest)) (hfirst : first.head.isStatement = true)
    (markers : List String) (rules : Registry) :
    ((t.transform markers rules).pragmaRemoved = true ↔
      ∃ c ∈ first.head.comments.leading, c.text ∈ markers) ∧
    ((t.transform markers rules).pragmaRemoved = true → ∃ y ys before c after,
      statements? (t.transform [] rules).tree = some (y :: ys) ∧
      y.head.comments.leading = first.head.comments.leading ∧
      first.head.comments.leading = before ++ c :: after ∧
      c.text ∈ markers ∧ (∀ d ∈ before, d.text ∉ markers) ∧
      (t.transform markers rules).tree = mapStatements
        (fun _ => y.withComments { y.head.comments with leading := before ++ after } :: ys)
        (t.transform [] rules).tree) ∧
    ((t.transform markers rules).pragmaRemoved = false →
      (t.transform markers rules).tree = (t.transform [] rules).tree) := by
  obtain ⟨hone, y, ys, hy, hleading⟩ := exists_statements?_transform hbody hfirst
  have hplain : (t.transform [] rules).tree = t.normalize.1.convert.tree :=
    congrArg Prod.fst (Node.stripPragma_nil t.normalize.1.convert.tree)
  have hresult := Node.transform_eq markers rules t
  unfold Node.stripPragma at hresult
  rw [Node.strip?_eq hone hy] at hresult
  rw [hplain]
  by_cases hmarker : ∃ c ∈ first.head.comments.leading, c.text ∈ markers
  · obtain ⟨c, before, after, hsplit, hc, hbefore⟩ : ∃ c before after,
        first.head.comments.leading = before ++ c :: after ∧ c.text ∈ markers ∧
          ∀ d ∈ before, d.text ∉ markers := exists_first_marker hmarker
    rw [Node.stripLeading?_eq_some (hleading.trans hsplit) hc hbefore] at hresult
    obtain ⟨htree, hremoved⟩ := Prod.mk.inj hresult
    refine ⟨by simp [hremoved, hmarker], fun _ => ?_, fun h => ?_⟩
    · exact ⟨y, ys, before, c, after, hy, hleading, hsplit, hc, hbefore, htree⟩
    · rw [hremoved] at h
      cases h
  · have hnone : ∀ c ∈ y.head.comments.leading, c.text ∉ markers := by
      rw [hleading]
      exact fun c hc hin => hmarker ⟨c, hc, hin⟩
    rw [Node.stripLeading?_eq_none hnone] at hresult
    obtain ⟨htree, hremoved⟩ := Prod.mk.inj hresult
    refine ⟨by simp [hremoved, hmarker], fun h => ?_, fun _ => htree⟩
    rw [hremoved] at h
    cases h

/-- `declare module.exports: (A) => B` after two comments. -/
def markedExports : Node :=
  let exported := Source.functionType [Source.functionParam none (Source.generic "A" [])]
    (Source.generic "B" [])
  .mk () ⟨.known .declareModuleExports, [], .ofLeading [.line " first", .line " @flow"], none⟩
    [(.ty, .one (Source.ascribe exported))]

/-- A program that starts with that declaration, and has a chain. -/
def markedModule : Node :=
  Source.program [markedExports,
    Source.statement (Source.optionalMember (Source.call (Source.ident "f") []) "b" true)]

/-- The type is hoisted, a declaration of a temporary comes first, and the second comment before it
is removed. -/
theorem transform_pragma_markedModule :
    (markedModule.transform ["@flow"] .empty).hoisted = ["_tmp"] ∧
    (markedModule.transform ["@flow"] .empty).pragmaRemoved = true ∧
    (markedModule.transform ["@flow strict"] .empty).pragmaRemoved = false ∧
    (markedModule.transform ["@flow strict"] .empty).tree =
      (markedModule.transform [] .empty).tree ∧
    ((statements? (markedModule.transform [] .empty).tree).bind List.head?).map
      (fun y => (y.head.word? .kind, y.head.comments.leading)) =
      some (some .letWord, [.line " first", .line " @flow"]) := by
  have hbody : statements? markedModule = some (markedExports :: _) := rfl
  obtain ⟨hremoved, -, -⟩ := transform_pragma hbody rfl ["@flow"] .empty
  obtain ⟨hkept, -, hsame⟩ := transform_pragma hbody rfl ["@flow strict"] .empty
  have hnot : (markedModule.transform ["@flow strict"] .empty).pragmaRemoved = false := by
    rw [← Bool.not_eq_true, hkept]
    decide +kernel
  exact ⟨by decide +kernel, hremoved.mpr (by decide +kernel), hnot, hsame hnot, by decide +kernel⟩

end Typeshift
