import Typeshift.Proofs.Comments.Carried
import Typeshift.Proofs.Convert.Account

/-! # What a construct of both vocabularies hands on

A property of a node that comes from its head and its parts is that of the source construct, if its
parts have it when theirs do. Temporaries that are declared on the way have no part in it. This is
said once of any such property, and used for each comment and for the effects of an expression.

* `Overlooks`: a property that declarations of temporaries do not change.
* `gives_parts`: the parts of a construct that is rebuilt.
* `Renders`, `RendersChain`: what a node becomes has its effects and the comments that it carries.
* `conveys_shared`: the rule of a construct of both vocabularies. -/

namespace Typeshift

namespace Convert

open Chain (Gives isLink)

variable {p : CommentPlace} {c : Comment} {h : Head} {s : Slots Unit} {t : Tag} {a v : Node}

/-! ### Declared temporaries -/

/-- A property of a node that does not depend on whether temporaries are declared in it. -/
structure Overlooks (P : Node → Prop) : Prop where
  body : ∀ names v, P (declareInBody names v) ↔ P v
  program : ∀ names vs, (∃ v ∈ declareInProgram names vs, P v) ↔ ∃ v ∈ vs, P v

/-- The constructs that a declaration of temporaries is made of, and those made around it. -/
def declaring : List Tag :=
  [.variableDeclaration, .variableDeclarator, .identifier, .tsAscription, .tsAnyKeyword,
    .blockStatement, .returnStatement]

/-- A property that nodes have by their heads or by their parts is not one of declarations, if the
leading comments may move from one statement to the other. -/
theorem overlooks_of {P : Node → Prop} (own opens : Head → Prop)
    (hP : ∀ h s, P (.mk () h s) ↔ own h ∨ opens h ∧ ∃ a ∈ Slots.toList s, P a)
    (hplain : ∀ t ∈ declaring, ∀ attrs, ¬ own (.ofTag t attrs) ∧ opens (.ofTag t attrs))
    (hopens : ∀ (h : Head) c, opens { h with comments := c } ↔ opens h)
    (hown : ∀ (h : Head) attrs, own { Head.ofTag .variableDeclaration attrs with
        comments := .ofLeading h.comments.leading } ∨
      own { h with comments := { h.comments with leading := [] } } ↔ own h) : Overlooks P := by
  have hof {t : Tag} (ht : t ∈ declaring) (attrs : List (Field × Attr)) (s : Slots Unit) :
      P (.of t attrs s) ↔ ∃ a ∈ s.toList, P a := by
    obtain ⟨hown, hopens⟩ := hplain t ht attrs
    rw [Node.of, hP, or_iff_right hown, and_iff_right hopens]
  have hany : ¬ P Target.any := by
    unfold Target.any Node.leaf
    rw [hof (by decide)]
    rintro ⟨_, ⟨⟩, _⟩
  have hdeclarator (name : String) : ¬ P (temporaryDeclarator name) := by
    have hascribe : Target.ascribe Target.any = .of .tsAscription [] [(.ty, .one Target.any)] := rfl
    unfold temporaryDeclarator Target.declarator Target.param
    simp [hof (t := .variableDeclarator) (by decide), hof (t := .identifier) (by decide),
      hof (t := .tsAscription) (by decide), hascribe, hany, Slot.toList]
  have hparts (names : List String) :
      ¬ ∃ a ∈ (Slot.many (names.map temporaryDeclarator)).toList, P a := by
    rintro ⟨a, ha, hPa⟩
    obtain ⟨name, -, rfl⟩ := List.mem_map.mp ha
    exact hdeclarator name hPa
  have hnone (names : List String) : ¬ P (temporaryDeclaration names) := by
    refine (hof (t := .variableDeclaration) (by decide) _ _).not.mpr ?_
    rw [Slots.toList_cons, Slots.toList_nil, List.append_nil]
    exact hparts names
  have hdeclaration (names : List String) (cs : Comments) :
      P ((temporaryDeclaration names).withComments cs) ↔
        own { (temporaryDeclaration names).head with comments := cs } := by
    refine (hP _ _).trans (or_iff_left fun hbelow => ?_)
    rw [Slots.toList_cons, Slots.toList_nil, List.append_nil] at hbelow
    exact hparts names hbelow.2
  constructor
  · intro names v
    unfold declareInBody
    split_ifs with hn hb
    · rfl
    · obtain ⟨_, h, s⟩ := v
      rw [hP, hP]
      refine or_congr_right (and_congr_right' ?_)
      clear hb
      show (∃ a ∈ Slots.toList (List.map _ s), P a) ↔ _
      induction s with
      | nil => rfl
      | cons e rest ih =>
        simp only [List.map_cons, Slots.toList_cons, List.mem_append, or_and_right, exists_or]
        refine or_congr ?_ ih
        split
        · simp [Slot.toList, hnone]
        · rfl
    · unfold Target.block Target.returnStatement
      simp [hof (t := .blockStatement) (by decide), hof (t := .returnStatement) (by decide),
        hnone, Slot.toList]
  · intro names vs
    unfold declareInProgram
    split_ifs with hn
    · rfl
    · have hsplit : vs = (vs.span (·.head.is .importDeclaration)).1 ++
          (vs.span (·.head.is .importDeclaration)).2 := by
        rw [List.span_eq_takeWhile_dropWhile, List.takeWhile_append_dropWhile]
      dsimp only
      split <;> rename_i hspan <;> rw [hspan] at hsplit <;> rw [hsplit]
      · next first rest =>
        obtain ⟨_, h, s⟩ := first
        have hfirst :
          P ((temporaryDeclaration names).withComments (.ofLeading h.comments.leading)) ∨
            P (dropLeading (.mk () h s)) ↔ P (.mk () h s) := by
          have hdropped : P (dropLeading (.mk () h s)) ↔
              own { h with comments := { h.comments with leading := [] } } ∨
                opens h ∧ ∃ a ∈ Slots.toList s, P a :=
            (hP _ _).trans (or_congr_right (and_congr_left' (hopens h _)))
          rw [hdeclaration, hdropped, hP, ← or_assoc]
          exact or_congr_left (hown h _)
        simp only [List.nil_append, List.exists_mem_cons_iff, ← or_assoc]
        rw [← hfirst]
        rfl
      · simp only [List.mem_append, List.mem_cons, or_and_right, exists_or, exists_eq_left, hnone,
          false_or]

/-- Comments move to the declaration, but to no other list. -/
theorem overlooks_hasComment (p : CommentPlace) (c : Comment) :
    Overlooks (Node.HasComment p c) := by
  refine overlooks_of (fun h => c ∈ h.comments.list p) (fun _ => True)
    (fun h s => ?_) (fun t _ attrs => ⟨Comments.mem_list_none p c, trivial⟩) (fun _ _ => .rfl) ?_
  · rw [Node.hasComment_mk, true_and]
  · intro h attrs
    cases p <;> simp [Comments.list, Comments.ofLeading]

/-- Declarations have no effects. -/
theorem overlooks_hasEffects : Overlooks fun v => hasEffects v = true := by
  refine overlooks_of (fun h => actsAlone h = true) (fun h => exposes h = true)
    (fun h s => ?_) (fun t ht attrs => ?_) (fun _ _ => .rfl) (fun h attrs => ?_)
  · rw [hasEffects_mk, Bool.or_eq_true, Bool.and_eq_true, List.any_eq_true]
  · have hno : actsAlone (.ofTag t attrs) = false ∧ exposes (.ofTag t attrs) = true := by
      simp only [declaring, List.mem_cons, List.not_mem_nil, or_false] at ht
      rcases ht with rfl | rfl | rfl | rfl | rfl | rfl | rfl <;> exact ⟨rfl, rfl⟩
    exact ⟨Bool.eq_false_iff.mp hno.1, hno.2⟩
  · exact or_iff_right nofun

/-! ### Shared constructs -/

section Parts

variable {α β : Type} {A : α → Prop} {B : β → Prop} {f : α → Pass β}

theorem gives_mapM {as : List α} (h : ∀ a ∈ as, Gives (f a) fun b => B b ↔ A a) :
    Gives (as.mapM f) fun bs => (∃ b ∈ bs, B b) ↔ ∃ a ∈ as, A a := by
  intro st
  have hall : Ensures (fun _ => True) (as.mapM f) (List.Forall₂ (fun a b => B b ↔ A a) as) :=
    .mapM fun a ha st _ => ⟨trivial, h a ha st⟩
  exact (Slot.Rel.many (hall st trivial).2).exists_iff

theorem gives_slotMapM {slot : Slot α} (h : ∀ a ∈ slot.toList, Gives (f a) fun b => B b ↔ A a) :
    Gives (slot.mapM f) fun slot' => (∃ b ∈ slot'.toList, B b) ↔ ∃ a ∈ slot.toList, A a := by
  intro st
  have hall : Ensures (fun _ => True) (slot.mapM f) (slot.Rel fun a b => B b ↔ A a) :=
    .slotMapM fun a ha st _ => ⟨trivial, h a ha st⟩
  exact (hall st trivial).2.exists_iff

end Parts

/-- A field that holds nodes is there in what is made of a construct. -/
theorem exists_slot_convertShared {f : Field} (hf : f ∈ slotFields .target t) (h : Head)
    (S : Slots Outcome) (st : State) :
    ∃ slot, (f, slot) ∈ (convertShared t h S st).1.slots := by
  have hslots : Ensures (fun _ : State => True)
      (((t.fields .target).filter FieldSpec.isSlot).mapM fun spec => do
        return (spec.field, ← convertSlot t S spec.field))
      (List.Forall₂ (fun (spec : FieldSpec) (e : Field × Slot Node) => e.1 = spec.field)
        ((t.fields .target).filter FieldSpec.isSlot)) :=
    .mapM fun spec _ st _ => ⟨trivial, rfl⟩
  obtain ⟨slots, hfields, hmade⟩ : ∃ slots : List (Field × Slot Node),
      List.Forall₂ (fun (spec : FieldSpec) (e : Field × Slot Node) => e.1 = spec.field)
          ((t.fields .target).filter FieldSpec.isSlot) slots ∧
        (convertShared t h S st).1.slots =
          t.slotOrder.filterMap fun f => (slots.lookup f).map (f, ·) :=
    ⟨_, (hslots st trivial).2, rfl⟩
  obtain ⟨spec, hspec, rfl⟩ := List.mem_map.mp hf
  obtain ⟨e, he, hkey⟩ := exists_of_forall₂_left hfields hspec
  cases hlookup : slots.lookup spec.field with
  | none =>
    have hno := List.lookup_eq_none_iff.mp hlookup e he
    rw [hkey, bne_self_eq_false] at hno
    cases hno
  | some slot =>
    refine ⟨slot, ?_⟩
    rw [hmade]
    exact List.mem_filterMap.mpr ⟨_, mem_slotOrder t _ hf, by rw [hlookup]; rfl⟩

section Shared

variable {P R : Node → Prop} (hP : Overlooks P)
  (hparts : ∀ a ∈ s.toList, Gives (a.synthesize outcome).convert fun v => P v ↔ R a)
  (hexports : ∀ a ∈ s.toList, a.head.is .declareModuleExports = false)
include hP hparts hexports

theorem gives_convertSlot (t : Tag) (f : Field) :
    Gives (convertSlot t (Tree.annotateSlots outcome s) f) fun slot =>
      (∃ b ∈ slot.toList, P b) ↔ ∃ slot', s.get? (sourceField t f) = some slot' ∧
        ∃ a ∈ slot'.toList, R a := by
  intro st
  unfold convertSlot
  rw [Slots.annotateSlots_eq_mapTrees, Slots.get?_mapTrees]
  cases hget : s.get? (sourceField t f) with
  | none =>
    refine iff_of_false ?_ nofun
    rintro ⟨b, hb, -⟩
    cases hb
  | some slot =>
    have hpart : ∀ a ∈ slot.toList, Gives (convertPart (a.annotate outcome)) fun v => P v ↔ R a :=
      fun a ha => hparts a (Slots.mem_toList.mpr ⟨_, Slots.get?_mem hget, ha⟩)
    simp only [Option.map_some, Option.some.injEq, exists_eq_left']
    split_ifs with hprogram
    · -- the statements of a program
      have hstatements : convertStatements ((slot.map (Tree.annotate outcome)).toList) =
          slot.toList.mapM fun a => convertPart (a.annotate outcome) := by
        rw [Slot.toList_map, convertStatements_eq, List.mapM_map]
        · rfl
        intro part hpart
        obtain ⟨a, ha, rfl⟩ := List.mem_map.mp hpart
        rw [Tree.head_annotate]
        exact hexports a (Slots.mem_toList.mpr ⟨_, Slots.get?_mem hget, ha⟩)
      rw [hstatements]
      exact (hP.program _ _).trans (gives_mapM hpart { st with scopes := [] :: st.scopes })
    · rw [Slot.mapM_map]
      refine gives_slotMapM (fun a ha st => ?_) st
      show P (declareInBody _ (convertPart _ { st with scopes := [] :: st.scopes }).1) ↔ R a
      rw [hP.body]
      exact hpart a ha _
    · rw [Slot.mapM_map]
      exact gives_slotMapM hpart st

/-- **The parts of a construct of both vocabularies** have a property together if the parts that it
is made of have it. -/
theorem gives_parts (hs : IsJavaScript h s) (ht : h.tag? = some t) :
    Gives (convertShared t h (Tree.annotateSlots outcome s)) fun v =>
      (∃ b ∈ Slots.toList v.slots, P b) ↔ ∃ a ∈ s.toList, R a := by
  intro st
  constructor
  · rintro ⟨b, hb, hPb⟩
    obtain ⟨⟨f, slot⟩, hslot, hb⟩ := Slots.mem_toList.mp hb
    obtain ⟨st', rfl⟩ := mem_slots_convertShared hslot
    obtain ⟨slot', hget, a, ha, hR⟩ :=
      (gives_convertSlot hP hparts hexports t f st').mp ⟨b, hb, hPb⟩
    exact ⟨a, Slots.mem_toList.mpr ⟨_, Slots.get?_mem hget, ha⟩, hR⟩
  · rintro ⟨a, ha, hR⟩
    obtain ⟨⟨f, slot⟩, hslot, ha⟩ := Slots.mem_toList.mp ha
    obtain ⟨hget, hf, hsource⟩ := hs.shared ht hslot ha
    obtain ⟨slot', hslot'⟩ := exists_slot_convertShared hf h (Tree.annotateSlots outcome s) st
    obtain ⟨st', rfl⟩ := mem_slots_convertShared hslot'
    rw [← hsource] at hget
    obtain ⟨b, hb, hPb⟩ := (gives_convertSlot hP hparts hexports t f st').mpr
      ⟨slot, hget, a, ha, hR⟩
    exact ⟨b, Slots.mem_toList.mpr ⟨_, hslot', hb⟩, hPb⟩

end Shared

/-! ### What a node becomes -/

/-- An access has an object and a property, and no other parts. -/
def IsAccess (v : Node) : Prop := v.head.is .memberExpression = true →
  ∃ o k, v.slots = [(.object, .one o), (.property, .one k)]

/-- What a construct becomes has its effects and the comments that it carries. -/
structure Renders (a v : Node) : Prop where
  comments : ∀ p c, v.HasComment p c ↔ Carries p c a
  effects : hasEffects v = mayAct a

/-- The same of the value and the guard of a chain. The last link has no comments of its own yet. -/
structure RendersChain (a : Node) (x : Node × Option Node) : Prop where
  comments : ∀ p c, (x.1.HasComment p c ∨ ∃ g ∈ x.2, g.HasComment p c) ↔
    Carried p c (!isLink a.head) a
  below : ∀ p c,
    ((∃ b ∈ Slots.toList x.1.slots, Node.HasComment p c b) ∨ ∃ g ∈ x.2, g.HasComment p c) ↔
    Carried p c false a
  effects : (hasEffects x.1 || x.2.any hasEffects) = mayAct a
  access : IsAccess x.1
  plain : isLink a.head = false →
    x.2 = none ∧ x.1.head.is .memberExpression = a.head.is .memberExpression

/-- What a node of the source becomes. -/
structure Conveys (a : Node) : Prop where
  convert : Gives (a.synthesize outcome).convert (Renders a)
  chain : Gives (a.synthesize outcome).chain (RendersChain a)

theorem isAccess_convertShared (hs : IsJavaScript h s) (ht : h.tag? = some t) (st : State) :
    IsAccess (convertShared t h (Tree.annotateSlots outcome s) st).1 := by
  intro hmember
  cases of_decide_eq_true hmember
  obtain ⟨o, k, rfl⟩ := hs.slots_access (.inl ht)
  rw [← Chain.convertNode_shared ht rfl]
  obtain ⟨_, -, -, hconvert⟩ := Chain.convertNode_member ht (o.annotate outcome)
    (k.annotate outcome)
  show ∃ o' k', (convertNode h [(.object, .one (o.annotate outcome)),
    (.property, .one (k.annotate outcome))] st).1.slots = _
  rw [hconvert]
  exact ⟨_, _, rfl⟩

/-- The effects of a construct of both vocabularies come from the same places. -/
theorem actsAlone_convertShared (ht : h.tag? = some t) (S : Slots Outcome) (st : State) :
    actsAlone (convertShared t h S st).1.head = actsAlone h ∧
      exposes (convertShared t h S st).1.head = exposes h := by
  rw [head_convertShared]
  have his (tag : Tag) : (Head.ofTag t (sharedAttrs t h S)).is tag = h.is tag := by
    unfold Head.is
    rw [ht]
    rfl
  have htext : t = .unaryExpression →
      (Head.ofTag t (sharedAttrs t h S)).text .operator = h.text .operator := by
    rintro rfl
    exact Chain.text_of_convertAttr rfl (by decide) (by decide)
  have hdelete : ((Head.ofTag t (sharedAttrs t h S)).is .unaryExpression &&
      (Head.ofTag t (sharedAttrs t h S)).text .operator == "delete") =
        (h.is .unaryExpression && h.text .operator == "delete") := by
    rw [his]
    cases hunary : h.is .unaryExpression with
    | false => rfl
    | true => rw [htext (Option.some.inj (ht.symm.trans (beq_iff_eq.mp hunary)))]
  have hany (tags : List Tag) : (Head.ofTag t (sharedAttrs t h S)).isAny tags = h.isAny tags :=
    congrArg tags.any (funext his)
  unfold actsAlone exposes
  rw [hdelete, hany, hany]
  exact ⟨rfl, rfl⟩

/-- What a construct that is no link becomes, given what its parts become. -/
theorem renders_attach (hlink : isLink h = false) (hbare : v.head.comments = .none)
    (hacts : actsAlone v.head = actsAlone h) (hexposes : exposes v.head = exposes h)
    (hcomments : ∀ p c, (∃ b ∈ Slots.toList v.slots, Node.HasComment p c b) ↔
      ∃ a ∈ s.toList, Carries p c a)
    (heffects : (∃ b ∈ Slots.toList v.slots, hasEffects b = true) ↔
      ∃ a ∈ s.toList, mayAct a = true) : Renders (.mk () h s) (attach h v) := by
  constructor
  · intro p c
    rw [Node.hasComment_attach, Node.hasComment_bare hbare, hcomments, Carries,
      carried_plain hlink, and_iff_right rfl]
  · have hcall : h.is .optionalCallExpression = false := by
      simp only [isLink, Head.isAny, List.any_cons, List.any_nil, Bool.or_false,
        Bool.or_eq_false_iff] at hlink
      exact hlink.2
    have hany : (Slots.toList v.slots).any hasEffects = s.toList.any mayAct := by
      rw [Bool.eq_iff_iff, List.any_eq_true, List.any_eq_true]
      exact heffects
    obtain ⟨_, k, ks⟩ := v
    rw [Chain.hasEffects_attach, hasEffects_mk, mayAct_mk, hcall, Bool.false_or,
      show actsAlone k = actsAlone h from hacts, show exposes k = exposes h from hexposes,
      show (Slots.toList ks).any hasEffects = s.toList.any mayAct from hany]

/-- **A construct of both vocabularies** conveys what its parts convey. -/
theorem conveys_shared (hs : IsJavaScript h s) (ht : h.tag? = some t)
    (htarget : t.isIn .target = true) (hlink : isLink h = false)
    (hparts : ∀ a ∈ s.toList, Conveys a)
    (hexports : ∀ a ∈ s.toList, a.head.is .declareModuleExports = false) :
    Conveys (.mk () h s) := by
  have hcomments (p : CommentPlace) (c : Comment) :=
    gives_parts (overlooks_hasComment p c) (fun a ha st => ((hparts a ha).convert st).comments p c)
      hexports hs ht
  have heffects := gives_parts (R := fun a => mayAct a = true) overlooks_hasEffects
    (fun a ha st => iff_of_eq (congrArg (· = true) ((hparts a ha).convert st).effects))
    hexports hs ht
  have hconvert : ((Tree.mk () h s).synthesize outcome).convert =
      attach h <$> convertShared t h (Tree.annotateSlots outcome s) := by
    rw [← Chain.convertNode_shared ht htarget]
    rfl
  have hrenders (st : State) : Renders (.mk () h s)
      (attach h (convertShared t h (Tree.annotateSlots outcome s) st).1) :=
    have hacts := actsAlone_convertShared ht (Tree.annotateSlots outcome s) st
    renders_attach hlink rfl hacts.1 hacts.2 (fun p c => hcomments p c st) (heffects st)
  constructor
  · rw [hconvert]
    exact hrenders
  · rw [Chain.chain_of_plain hlink, hconvert]
    intro st
    have hst := hrenders st
    have haccess := isAccess_convertShared hs ht st
    have hbelow (p : CommentPlace) (c : Comment) := hcomments p c st
    generalize hv :
      (convertShared t h (Tree.annotateSlots outcome s) st).1 = v at hst haccess hbelow
    show RendersChain _ (attach h (convertShared t h (Tree.annotateSlots outcome s) st).1, none)
    rw [hv]
    refine ⟨fun p c => ?_, fun p c => ?_, ?_, ?_, fun _ => ⟨rfl, ?_⟩⟩
    · have hkept : isLink (Tree.mk () h s).head = false := hlink
      simp only [Option.not_mem_none, false_and, exists_false, or_false, hst.comments, hkept,
        Bool.not_false, Carries]
    · obtain ⟨_, k, ks⟩ := v
      simp only [Option.not_mem_none, false_and, exists_false, or_false]
      rw [carried_plain hlink]
      refine (hbelow p c).trans ?_
      simp
    · rw [hst.effects]
      simp
    · obtain ⟨_, k, ks⟩ := v
      exact haccess
    · rw [Chain.is_head_attach, ← hv, head_convertShared]
      unfold Head.is
      rw [show (Tree.mk () h s).head.tag? = some t from ht]
      rfl

end Convert

end Typeshift
