import Typeshift.Normalize.Basic
import Typeshift.Proofs.Temporaries.Ledger

/-! # Temporaries are declared where they are used

The ledger says of every assignment to a temporary that it belongs to the nearest body or still
waits for one. In a program nothing is left waiting: all that lies outside of its statements are its
directives and its first line, and without a chain in them they assign nothing but what the source
assigns.

* `TemporaryOf`: a body declares a variable that has no other meaning in the tree.
* `chainless`: the account of trees without chains.
* `temporaries_declared`: every temporary belongs to the body it is used in. -/

namespace Typeshift.Convert

/-- **A temporary of a body**: the body declares it, it is no name of the source and does not stand
for what a module exports, and no body but this one, or a copy of it, declares it. -/
structure TemporaryOf (t out : Node) (B : Body) (n : String) : Prop where
  declared : B.Declares n
  unmentioned : n ∉ t.mentions
  notExported : ∀ a o m, Occurs a out o → a.bare = Target.exportAssignment (Target.ident m) → n ≠ m
  only : ∀ a B', Occurs a out (some B') → (∃ s ∈ B'.statements, s.declaresVariable n = true) →
    B' = B

/-- What an entry of the ledger says about a converted tree. -/
theorem temporaryOf_of_entry {t out : Node} {st : State} {G : Ledger} (h : Balanced t st G)
    (hout : out.Each (Accounted t st G)) {B : Body} {n : String} (hn : G n = some (.body B)) :
    TemporaryOf t out B n where
  declared := h.declared n B hn
  unmentioned hmem := by
    cases (h.mentioned n hmem).2.symm.trans hn
  notExported a o m ha hbare := by
    rintro rfl
    have haccounted : Accounted t st G (Target.exportAssignment (Target.ident n)) o :=
      accounted_dress hbare (hout a o ha)
    obtain ⟨m, hbare', hm⟩ := haccounted
    have hname : n = m := congrArg (fun a => (a.slots.child .expression).head.text .name) hbare'
    cases hname
    cases hm.symm.trans hn
  only a B' ha := by
    rintro ⟨s, hs, hdeclares⟩
    obtain ⟨d, hd, hbinds⟩ := exists_occurs_of_declaresVariable hdeclares
    have hin : Occurs d out (some B') := hd.trans (ha.statement hs)
    rcases belongs_of_binds (hout d _ hin) hbinds with hmem | hm | ⟨B'', ho, hm⟩
    · cases (h.mentioned n hmem).2.symm.trans hn
    · cases hm.symm.trans hn
    · cases ho
      cases hm.symm.trans hn
      rfl

/-! ### Outside of all bodies -/

/-- What a program, or the program of a file, holds beside its statements. -/
def prologue (t : Node) : List Node :=
  let program := if t.head.is .file then t.slots.child .program else t
  Slots.toList (program.slots.filter fun e => e.1 == .directives || e.1 == .interpreter)

/-- Whether a tree has no optional chain. -/
def isChainless (t : Node) : Bool :=
  t.preorder.all fun h => !h.isAny [.optionalMemberExpression, .optionalCallExpression]

/-- **The account of trees without chains**: they assign nothing that the source does not assign. -/
def chainless (t₀ : Node) : Account Unit where
  Inv _ _ := True
  Le _ _ _ _ := True
  source t := t.Every Sourced ∧ isChainless t = true ∧ ∃ o, Occurs t t₀ o
  mentioned _ := True
  chains := False
  Ok _ _ a _ := a.head.is .assignmentExpression = true → StemsFrom t₀ a
  refl _ _ := True.intro
  trans _ _ := True.intro
  lasts _ h := h
  dress hbare h ha := by
    unfold StemsFrom
    rw [← hbare]
    exact h (Node.is_eq_of_bare hbare _ ▸ ha)
  fits ht := by
    cases ht.1 with
    | mk here _ => exact here.1
  parts := by
    rintro ⟨⟨⟩, h, s⟩ ⟨hevery, hchain, o, ho⟩ c hc
    cases hevery with
    | mk _ below =>
      obtain ⟨o', ho'⟩ := Occurs.child hc
      refine ⟨below c hc, ?_, _, ho'.trans ho⟩
      unfold isChainless at hchain ⊢
      rw [Node.preorder_mk, List.all_cons, List.all_flatMap, Bool.and_eq_true,
        List.all_eq_true] at hchain
      exact hchain.2 c hc
  name _ _ := True.intro
  chain := by
    rintro ⟨⟨⟩, h, s⟩ ⟨-, hchain, -⟩ hlink
    unfold isChainless at hchain
    rw [Node.preorder_mk, List.all_cons, show h.isAny _ = true from hlink] at hchain
    cases hchain
  report _ _ := ⟨True.intro, True.intro⟩
  ambient _ _ := True.intro
  ambient_le _ _ _ := True.intro
  enter _ := True.intro
  leave _ _ _ _ _ := ⟨(), True.intro, True.intro, fun _ _ h => h, nofun, fun _ _ => nofun⟩
  temporary h _ := h.elim
  exports _ := ⟨(), True.intro, True.intro, fun _ => ⟨fun _ _ => nofun, fun _ => nofun, nofun⟩⟩
  unsupported _ _ := nofun
  plain t _ _ hw ht := by
    cases beq_iff_eq.mp (show (some t == some .assignmentExpression) = true from ht)
    exact absurd (by decide) hw
  declarator _ := nofun
  origin st₀ hsource hany _ := stemsFrom_convertNode hsource.2.2.choose_spec hany st₀

/-- What occurs outside of all bodies in a converted construct of both vocabularies occurs in a part
of it that was converted by itself. -/
theorem occurs_none_convertTree {tag : Tag} {h : Head} {s : Slots Unit} {st : State} {a : Node}
    (ht : h.tag? = some tag) (htarget : tag.isIn .target = true) (hno : tag.isFunction = false)
    (ha : Occurs a (convertTree (.mk () h s) st).1 none) :
    a.head.tag? = some tag ∨ ∃ f ∈ tag.slotOrder, (tag = .program → f ≠ .body) ∧
      ∃ slot d st', s.get? (sourceField tag f) = some slot ∧ d ∈ slot.toList ∧
        Occurs a (convertTree d st').1 none := by
  have hbare : (convertShared tag h (Tree.annotateSlots outcome s) st).1.bare =
      (convertTree (.mk () h s) st).1.bare := by
    show _ = (attach h (convertNode h (Tree.annotateSlots outcome s) st).1).bare
    rw [Chain.convertNode_shared ht htarget]
    simp [attach]
  have htag := Node.tag?_eq_of_bare hbare
  have hslots := Node.slots_eq_of_bare hbare
  generalize (convertTree (.mk () h s) st).1 = u at ha htag hslots
  generalize hnone : (none : Option Body) = o at ha
  cases ha with
  | here => exact .inl htag
  | @within k slots f slot c o hslot hc inner =>
    obtain ⟨rfl, hbody⟩ := Option.or_eq_none_iff.mp hnone.symm
    rw [show k.tag? = some tag from htag] at hbody
    rw [show slots = _ from hslots] at hslot
    obtain ⟨f', hf', heq⟩ := List.mem_filterMap.mp hslot
    obtain ⟨slot', -, heq⟩ := Option.map_eq_some_iff.mp heq
    cases heq
    have hprogram : tag = .program → f ≠ .body := by
      rintro rfl rfl
      cases hbody
    refine .inr ⟨f, hf', hprogram, ?_⟩
    obtain ⟨st', rfl⟩ := mem_slots_convertShared hslot
    cases hget : s.get? (sourceField tag f) with
    | none =>
      have hnothing : (Tree.annotateSlots outcome s).get? (sourceField tag f) = none := by
        rw [Slots.annotateSlots_eq_mapTrees, Slots.get?_mapTrees, hget]
        rfl
      unfold convertSlot at hc
      rw [hnothing] at hc
      cases hc
    | some slot =>
      have hsome : (Tree.annotateSlots outcome s).get? (sourceField tag f) =
          some (slot.map (Tree.annotate outcome)) := by
        rw [Slots.annotateSlots_eq_mapTrees, Slots.get?_mapTrees, hget]
        rfl
      rw [convertSlot_eq hsome (by simpa using hprogram)
        (by rw [hasScope_eq, hno, Bool.false_and]), Slot.mapM_map] at hc
      have hparts : Ensures (fun _ : State => True) (slot.mapM fun d => convertTree d)
          (Slot.Rel (fun d c => ∃ st', c = (convertTree d st').1) slot) :=
        .slotMapM fun d _ st _ => ⟨True.intro, st, rfl⟩
      obtain ⟨d, hd, st'', rfl⟩ :=
        exists_of_forall₂_left (List.Forall₂.flip (hparts st' True.intro).2.toList) hc
      exact ⟨slot, d, st'', rfl, hd, hnone ▸ inner⟩

/-- The directives and the first line of a program. -/
theorem stemsFrom_program {t : Node} {h : Head} {s : Slots Unit} {st : State} {a : Node}
    {o : Option Body} (ht : h.tag? = some .program) (hevery : Node.Every Sourced (.mk () h s))
    (hchain : ∀ d ∈ prologue (.mk () h s), isChainless d = true) (hroot : Occurs (.mk () h s) t o)
    (ha : Occurs a (convertTree (.mk () h s) st).1 none)
    (hassigns : a.head.is .assignmentExpression = true) : StemsFrom t a := by
  have hfile : h.is .file = false := by simp [Head.is, ht]
  rcases occurs_none_convertTree ht rfl rfl ha with htag | ⟨f, hf, hne, slot, d, st', hget, hd, ha⟩
  · rw [show a.head.tag? = some .assignmentExpression from beq_iff_eq.mp hassigns] at htag
    cases htag
  · have hmem : d ∈ s.toList := Slots.mem_toList.mpr ⟨_, Slots.get?_mem hget, hd⟩
    have hplace : d ∈ prologue (.mk () h s) := by
      unfold prologue
      rw [show (Tree.mk () h s).head.is .file = false from hfile]
      refine Slots.mem_toList.mpr ⟨_, List.mem_filter.mpr ⟨Slots.get?_mem hget, ?_⟩, hd⟩
      have hfields : f = .interpreter ∨ f = .directives ∨ f = .body := by
        simpa [Tag.slotOrder] using hf
      rcases hfields with rfl | rfl | rfl
      · rfl
      · rfl
      · exact absurd rfl (hne rfl)
    obtain ⟨o', hoccurs⟩ := Occurs.child (h := h) hmem
    have hsource : (chainless t).source d := by
      cases hevery with
      | mk _ below => exact ⟨below d hmem, hchain d hplace, _, hoccurs.trans hroot⟩
    obtain ⟨_, -, -, hwhole⟩ := (chainless t).convertTree hsource st' (g := ()) True.intro
    exact hwhole.fine a none ha hassigns

/-- A file has nothing beside its program. -/
theorem stemsFrom_file {h : Head} {s : Slots Unit} {st : State} {a : Node}
    (ht : h.tag? = some .file) (hevery : Node.Every Sourced (.mk () h s))
    (hp : ((s.child? .program).map (·.head.is .program)).getD false = true)
    (hchain : ∀ d ∈ prologue (.mk () h s), isChainless d = true)
    (ha : Occurs a (convertTree (.mk () h s) st).1 none)
    (hassigns : a.head.is .assignmentExpression = true) : StemsFrom (.mk () h s) a := by
  obtain ⟨hfits, below⟩ : Fits .source h s ∧ ∀ c ∈ s.toList, Node.Every Sourced c := by
    cases hevery with
    | mk here below => exact ⟨here.1, below⟩
  have hspec : FieldSpec.one .program ∈ Tag.file.fields .source := by decide
  obtain ⟨p, hone⟩ : ∃ p, s.get? .program = some (.one p) := hfits.one ht hspec rfl rfl
  have hchild : s.child? .program = some p := by
    unfold Slots.child?
    rw [hone]
  have hprogram : p.head.is .program = true := by
    rwa [hchild] at hp
  have hplace : prologue (.mk () h s) = prologue p := by
    have hfile : (Tree.mk () h s).head.is .file = true := beq_iff_eq.mpr ht
    have hnofile : p.head.is .file = false := by
      simp [Head.is, show p.head.tag? = some .program from beq_iff_eq.mp hprogram]
    unfold prologue Slots.child
    rw [hfile, hnofile, show (Tree.mk () h s).slots.child? .program = some p from hchild]
    rfl
  rcases occurs_none_convertTree ht rfl rfl ha with hroot | ⟨f, hf, -, slot, d, st', hget, hd, ha⟩
  · rw [show a.head.tag? = some .assignmentExpression from beq_iff_eq.mp hassigns] at hroot
    cases hroot
  · cases List.mem_singleton.mp (show f ∈ [Field.program] from hf)
    cases hone.symm.trans hget
    cases List.mem_singleton.mp hd
    obtain ⟨o, ho⟩ := Occurs.child (h := h) (Slots.child?_mem hchild)
    rw [hplace] at hchain
    obtain ⟨⟨⟩, k, ps⟩ := p
    exact stemsFrom_program (beq_iff_eq.mp hprogram) (below _ (Slots.child?_mem hchild)) hchain ho
      ha hassigns

/-- A tree with statements assigns nothing outside of them but what the source assigns. -/
theorem stemsFrom_of_occurs_none {t : Node} (hevery : t.Every Sourced)
    (hb : Normalize.hasBody t = true) (hchain : ∀ d ∈ prologue t, isChainless d = true)
    {st : State} {a : Node} (ha : Occurs a (convertTree t st).1 none)
    (hassigns : a.head.is .assignmentExpression = true) : StemsFrom t a := by
  obtain ⟨⟨⟩, h, s⟩ := t
  rcases (Bool.or_eq_true _ _).mp hb with hp | hfile
  · exact stemsFrom_program (beq_iff_eq.mp hp) hevery hchain .here ha hassigns
  · obtain ⟨hfile, hp⟩ := Bool.and_eq_true_iff.mp hfile
    exact stemsFrom_file (beq_iff_eq.mp hfile) hevery hp hchain ha hassigns

/-! ### The whole conversion -/

/-- The temporaries of a scope are not in use when it is entered, and stay in use. -/
theorem fresh_inScope {t b : Node} {o : Option Body} (ht : t.Every Sourced) (hb : Occurs b t o)
    {st : State} (hst : ∀ n ∈ t.mentions, st.names.contains n = true) :
    st.names.Within (inScope (convertTree b) st).2.names ∧
      ∀ n ∈ (inScope (convertTree b) st).1.2, st.names.contains n = false ∧
        (inScope (convertTree b) st).2.names.contains n = true := by
  have hinv : Balanced t { st with scopes := [] :: st.scopes } fun _ => none :=
    ⟨fun n hn => ⟨hst n hn, rfl⟩, fun _ h => absurd rfl h, by simp, by simp, nofun⟩
  obtain ⟨G, hkept, hgrown, -⟩ := (ledger t).convertTree ⟨hb.every ht, o, hb⟩ _ hinv
  obtain ⟨new, hnew, hfresh⟩ := hgrown.scopes
  have hscope : (inScope (convertTree b) st).1.2 = new := by
    show (convertTree b { st with scopes := [] :: st.scopes }).2.scopes.headD [] = new
    rw [hnew]
    rfl
  refine ⟨hgrown.names, fun n hn => ?_⟩
  rw [hscope] at hn
  exact ⟨hfresh n hn, (hkept.waiting new (congrArg List.head? hnew) n hn).2.1⟩

/-- **Every temporary is declared where it is used.** In the conversion of a program, or of a file
that holds one, without a chain beside its statements: an assignment that the source does not have
assigns to a temporary of the nearest body around it; a declaration that the source does not have
is that of what a module exports, or declares temporaries of its body; and the temporaries of a
function are new when its body is converted. -/
theorem temporaries_declared {t : Node} (ht : t.Every Sourced) (hb : Normalize.hasBody t = true)
    (hchain : ∀ d ∈ prologue t, isChainless d = true) :
    (∀ a o, Occurs a t.convert.tree o → a.head.is .assignmentExpression = true →
      StemsFrom t a ∨ ∃ B n, o = some B ∧ Assigns a n ∧ TemporaryOf t t.convert.tree B n) ∧
    (∀ a o, Occurs a t.convert.tree o → a.head.is .variableDeclaration = true →
      StemsFrom t a ∨ (∃ n ty isDeclare, a.bare = exportsDeclaration n ty isDeclare) ∨
        ∃ B names, o = some B ∧ a.bare = temporaryDeclaration names ∧
          ∀ n ∈ names, TemporaryOf t t.convert.tree B n) ∧
    ∀ b o st, Occurs b t o → (∀ n ∈ t.mentions, st.names.contains n = true) →
      st.names.Within (inScope (convertTree b) st).2.names ∧
        ∀ n ∈ (inScope (convertTree b) st).1.2, st.names.contains n = false ∧
          (inScope (convertTree b) st).2.names.contains n = true := by
  obtain ⟨G, hkept, -, hwhole⟩ := (ledger t).convertTree ⟨ht, none, .here⟩ _ (kept_start t)
  have hout : t.convert.tree.Each (Accounted t (convertTree t (.start t.names)).2 G) := hwhole.fine
  have hentry {B : Body} {n : String} (hn : G n = some (.body B)) :
      TemporaryOf t t.convert.tree B n := temporaryOf_of_entry hkept hout hn
  refine ⟨fun a o ha hassigns => ?_, fun a o ha hdeclares => ?_, fun b o st ho hst =>
    fresh_inScope ht ho hst⟩
  · have haccounted := hout a o ha
    unfold Accounted at haccounted
    rw [show a.head.tag? = some .assignmentExpression from beq_iff_eq.mp hassigns] at haccounted
    rcases haccounted with hstems | ⟨n, hn, hawaits⟩
    · exact .inl hstems
    · cases o with
      | none => exact .inl (stemsFrom_of_occurs_none ht hb hchain ha hassigns)
      | some B => exact .inr ⟨B, n, rfl, hn, hentry hawaits⟩
  · have haccounted := hout a o ha
    unfold Accounted at haccounted
    rw [show a.head.tag? = some .variableDeclaration from beq_iff_eq.mp hdeclares] at haccounted
    rcases haccounted with hstems | ⟨n, ty, b, hbare, -⟩ | ⟨B, names, ho, hbare, hnames⟩
    · exact .inl hstems
    · exact .inr (.inl ⟨n, ty, b, hbare⟩)
    · exact .inr (.inr ⟨B, names, ho, hbare, fun n hn => hentry (hnames n hn)⟩)

/-- A program that makes a function with a chain, `() => f()?.b;`. -/
def chainInArrow : Node :=
  let call := Node.of .callExpression []
    [(.callee, .one (Source.ident "f")), (.typeArguments, .maybe none),
      (.arguments, .many [])]
  let chain := Node.of .optionalMemberExpression
    [(.isComputed, .flag false), (.isOptional, .flag true)]
    [(.object, .one call), (.property, .one (Source.ident "b"))]
  let arrow := Node.of .arrowFunctionExpression [(.isAsync, .flag false)]
    [(.typeParameters, .maybe none), (.params, .many []), (.returnType, .maybe none),
      (.predicate, .maybe none), (.body, .one chain)]
  Node.of .program [(.sourceType, .textOrNone none)]
    [(.interpreter, .maybe none), (.directives, .many []),
      (.body, .many [Node.of .expressionStatement [] [(.expression, .one arrow)]])]

/-- The value of the call is bound to a temporary of the function. -/
theorem temporaries_declared_chainInArrow :
    chainInArrow.Every Sourced ∧ ∃ a B n, Occurs a chainInArrow.convert.tree (some B) ∧
      Assigns a n ∧ TemporaryOf chainInArrow chainInArrow.convert.tree B n := by
  have hevery : chainInArrow.Every Sourced := by decide
  refine ⟨hevery, ?_⟩
  have hany : ∃ h ∈ chainInArrow.convert.tree.preorder, h.is .assignmentExpression = true := by
    decide
  obtain ⟨h, hmem, hassigns⟩ := hany
  obtain ⟨a, o, ha, rfl⟩ := exists_occurs_of_mem_preorder hmem
  have hdeclared := (temporaries_declared hevery (by decide) (by decide)).1 a o ha hassigns
  rcases hdeclared with ⟨s, o, st, hs, hany, -⟩ | ⟨B, n, rfl, hn, hof⟩
  · have hnone : ∀ h ∈ chainInArrow.preorder, h.isAny origins = false := by decide
    rw [hnone _ hs.head_mem_preorder] at hany
    cases hany
  · exact ⟨a, B, n, ha, hn, hof⟩

end Typeshift.Convert
