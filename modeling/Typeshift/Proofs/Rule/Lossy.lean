import Typeshift.Proofs.Chain.Form
import Typeshift.Proofs.Convert.Shared
import Typeshift.Proofs.Convert.Rebuilt
import Typeshift.Proofs.Grammar.Convert
import Typeshift.Rule.Lossy
import Typeshift.Tree.Source

/-! # What the rule reports and what the converter loses

The rule for lossy conversions looks at the source tree, the converter has rules of its own. Both
decide for every node whether something is lost there, and they differ in two ways only.

* `Node.nodes`: the nodes of a tree in the order of the text.
* `Loses`: what the converter loses at a node.
* `Lossy.reports`, `Shows`: what the rule reports at a node, and on which nodes.
* `loses_reports`: where the two differ. -/

namespace Typeshift

/-! ### Going through a tree -/

/-- **The nodes of a tree**, in the order of the text. -/
def Node.nodes (t : Node) : List Node :=
  t.synthesize fun h s => .mk () h (s.mapTrees Tree.forget) :: s.toList.flatMap Tree.note

theorem forget_annotate {σ : Type} (rule : Head → Slots σ → σ) (t : Node) :
    (t.annotate rule).forget = t :=
  (Tree.annotate_annotate _ rule t).trans (Node.forget_eq t)

theorem mapTrees_forget_annotateSlots {σ : Type} (rule : Head → Slots σ → σ) (s : Slots Unit) :
    Slots.mapTrees Tree.forget (Tree.annotateSlots rule s) = s := by
  rw [Slots.annotateSlots_eq_mapTrees, Slots.mapTrees_mapTrees,
    Slots.mapTrees_congr fun t _ => forget_annotate rule t, Slots.mapTrees_id]

theorem Node.nodes_mk (h : Head) (s : Slots Unit) :
    Node.nodes (.mk () h s) = .mk () h s :: s.toList.flatMap Node.nodes := by
  unfold Node.nodes
  rw [Tree.synthesize_mk, mapTrees_forget_annotateSlots, Tree.toList_annotateSlots,
    List.flatMap_map]
  rfl

/-- **A rule that looks on entering** reports what it finds at the nodes, one after the other. -/
theorem Visitor.run_onEnter (enter : Node → List Diagnostic) (t : Node) :
    (Visitor.onEnter enter).run t = t.nodes.flatMap enter := by
  induction t using Tree.induct with
  | step _ h s ih =>
    have hroot : (Tree.mk [] h (Tree.annotateSlots (Visitor.onEnter enter).rule s)).forget =
        .mk () h s := by
      show Tree.mk () h (Tree.annotateSlots _ (Tree.annotateSlots _ s)) = _
      rw [Slots.annotateSlots_eq_mapTrees]
      exact congrArg (Tree.mk () h) (mapTrees_forget_annotateSlots _ s)
    rw [Node.nodes_mk, List.flatMap_cons, List.flatMap_assoc, ← List.flatMap_congr ih]
    unfold Visitor.run
    rw [Tree.synthesize_mk, Visitor.rule, hroot, Tree.toList_annotateSlots, List.flatMap_map]
    exact List.append_nil _

namespace Lossy

open Typeshift.Convert

/-! ### What the converter loses -/

/-- The constructs that may say how their type varies. -/
def isOwner (h : Head) : Bool :=
  h.isAny [.objectTypeProperty, .objectTypeIndexer, .classProperty, .classPrivateProperty,
    .typeParameter]

/-- The slots of a node with that of its variance emptied. -/
def dropVariance {ρ : Type} (s : Slots ρ) : Slots ρ :=
  s.map fun e => if e.1 = .variance then (e.1, .maybe none) else e

/-- **The variance of a node has no trace** in what is converted: whoever asks for the node, or for
it as a member of a declared class, gets what a node without variance gives. -/
structure Untraced (t : Node) : Prop where
  outcome : t.synthesize outcome = (Tree.mk () t.head (dropVariance t.slots)).synthesize outcome
  member : convertClassMember (t.annotate Convert.outcome) =
    convertClassMember ((Tree.mk () t.head (dropVariance t.slots)).annotate Convert.outcome)

/-- Whether a type is a difference of types. -/
def isDiff (t : Node) : Bool :=
  t.head.is .genericType && (t.slots.child .id).head.identifier? == some "$Diff"

/-- The number of the type arguments of a reference. -/
def argumentCount (t : Node) : Nat :=
  match t.slots.child? .typeParameters with
  | some ps =>
    if ps.head.is .typeParameterInstantiation then (ps.slots.children .params).length else 0
  | none => 0

/-- What a construct brings in, a value if it does not say so. -/
def importedKind (h : Head) : Word := (h.word? .importKind).getD .value

/-- **What the converter loses at a node**: a difference of types that becomes `any`, a variance `+`
that has no trace, what an import brings in if that changes, and `*` types, exact object types and
internal slots. The node is converted as a tree of its own, so what becomes of it where the tree
around it drops or rewrites it makes no difference: a difference of types counts as lost there
too. -/
def Loses : Finding → Node → Prop
  | .diffWidened, t => isDiff t = true ∧ ∀ st, (convertTree t st).1.head.is .tsAnyKeyword = true
  | .varianceDropped, t => isOwner t.head = true ∧ isCovariant t.slots = true ∧ Untraced t
  | .typeofImport, t => t.head.isAny [.importDeclaration, .importSpecifier] = true ∧
      ∀ st, importedKind (convertTree t st).1.head ≠ importedKind t.head
  | .existentialType, t => t.head.is .existsType = true
  | .exactObjectType, t => (t.head.is .objectType && t.head.flag .isExact) = true
  | .internalSlotDropped, t => t.head.is .objectTypeInternalSlot = true
  | _, _ => False

/-! ### What the rule reports -/

/-- Whether the rule reports a finding at a node. -/
def reports (f : Finding) (t : Node) : Bool := (enter t).any (·.code == f.code)

/-- The nodes that the rule reports, by finding. -/
def Shows : Finding → Node → Prop
  | .diffWidened, t => isDiff t = true
  | .varianceDropped, t =>
      (isOwner t.head && !t.head.is .typeParameter && isCovariant t.slots) = true
  | .typeofImport, t => t.head.isAny [.importDeclaration, .importSpecifier] = true ∧
      t.head.word? .importKind = some .typeof
  | .existentialType, t => t.head.is .existsType = true
  | .exactObjectType, t => (t.head.is .objectType && t.head.flag .isExact) = true
  | .internalSlotDropped, t => t.head.is .objectTypeInternalSlot = true
  | _, _ => False

theorem is_of_tag {h : Head} {tag : Tag} (htag : h.tag? = some tag) (other : Tag) :
    h.is other = (tag == other) := by
  unfold Head.is
  rw [htag]
  rfl

/-- A construct that is reported if it passes a test. -/
theorem enter_test {t : Node} {f : Finding} {args : List String} {c : Prop} [Decidable c]
    (hshows : ∀ g, Shows g t ↔ g = f ∧ c) {found : List Diagnostic}
    (hfound : found = if c then [.ofFinding f t.head.span args] else []) :
    (∃ f args, found = [.ofFinding f t.head.span args] ∧ ∀ g, Shows g t ↔ g = f) ∨
      found = [] ∧ ∀ g, ¬ Shows g t := by
  subst hfound
  split_ifs with hc
  · exact .inl ⟨f, args, rfl, fun g => (hshows g).trans (and_iff_left hc)⟩
  · exact .inr ⟨rfl, fun g hg => hc ((hshows g).mp hg).2⟩

/-- **At a node the rule reports one finding or none.** -/
theorem enter_spec (t : Node) :
    (∃ f args, enter t = [.ofFinding f t.head.span args] ∧ ∀ g, Shows g t ↔ g = f) ∨
      enter t = [] ∧ ∀ g, ¬ Shows g t := by
  unfold enter
  dsimp only
  split
  case h_11 h₁ h₂ h₃ h₄ h₅ h₆ h₇ h₈ h₉ h₁₀ =>
    have hno {tag : Tag} (h : ¬ t.head.tag? = some tag) : t.head.is tag = false := beq_false_of_ne h
    refine .inr ⟨rfl, fun g => ?_⟩
    cases g <;> simp [Shows, isDiff, isOwner, Head.isAny, hno h₁, hno h₂, hno h₃, hno h₄, hno h₅,
      hno h₆, hno h₇, hno h₈, hno h₉, hno h₁₀]
  case h_7 htag | h_8 htag =>
    refine enter_test (c := True) (fun g => ?_) rfl
    cases g <;> simp [Shows, isDiff, isOwner, Head.isAny, is_of_tag htag]
  all_goals
    next htag =>
    refine enter_test (fun g => ?_) rfl
    cases g <;> simp [Shows, isDiff, isOwner, Head.isAny, is_of_tag htag]

theorem code_injective {f g : Finding} (h : f.code = g.code) : f = g := by
  cases f <;> cases g <;> first | rfl | cases h

theorem reports_iff (f : Finding) (t : Node) : reports f t = true ↔ Shows f t := by
  unfold reports
  rcases enter_spec t with ⟨g, args, henter, hshows⟩ | ⟨henter, hshows⟩
  · rw [henter, hshows, List.any_cons, List.any_nil, Bool.or_false, code_ofFinding, beq_iff_eq]
    exact ⟨fun h => (code_injective h).symm, fun h => congrArg Finding.code h.symm⟩
  · rw [henter]
    simp [hshows f]

/-! ### Variance -/

section Variance

variable {ρ : Type} {s : Slots ρ} {f : Field}

theorem get?_dropVariance (hf : f ≠ .variance) : (dropVariance s).get? f = s.get? f := by
  unfold Slots.get? dropVariance
  induction s with
  | nil => rfl
  | cons e rest ih =>
    obtain ⟨g, slot⟩ := e
    rw [List.map_cons]
    by_cases hg : g = .variance
    · rw [if_pos hg, List.lookup_cons, List.lookup_cons, hg, beq_false_of_ne hf]
      exact ih
    · rw [if_neg hg, List.lookup_cons, List.lookup_cons]
      cases f == g with
      | true => rfl
      | false => exact ih

theorem child?_dropVariance (hf : f ≠ .variance) : (dropVariance s).child? f = s.child? f := by
  unfold Slots.child?
  rw [get?_dropVariance hf]

theorem child_dropVariance [Inhabited ρ] (hf : f ≠ .variance) :
    (dropVariance s).child f = s.child f := by
  unfold Slots.child
  rw [child?_dropVariance hf]

theorem child?_variance_dropVariance : (dropVariance s).child? .variance = none := by
  unfold Slots.child? Slots.get? dropVariance
  induction s with
  | nil => rfl
  | cons e rest ih =>
    obtain ⟨g, slot⟩ := e
    rw [List.map_cons]
    by_cases hg : g = .variance
    · rw [if_pos hg, hg]
      rfl
    · rw [if_neg hg, List.lookup_cons, beq_false_of_ne (Ne.symm hg)]
      exact ih

theorem annotateSlots_dropVariance (rule : Head → Slots Outcome → Outcome) (s : Slots Unit) :
    Tree.annotateSlots rule (dropVariance s) = dropVariance (Tree.annotateSlots rule s) := by
  rw [Slots.annotateSlots_eq_mapTrees, Slots.annotateSlots_eq_mapTrees]
  unfold dropVariance Slots.mapTrees
  rw [List.map_map, List.map_map]
  refine List.map_congr_left fun e _ => ?_
  simp only [Function.comp_apply]
  split_ifs <;> rfl

end Variance

section Untraced

variable {h : Head} {s : Slots Outcome}

/-- A variance `+` says nothing about reading. -/
theorem isReadOnly_dropVariance (hs : isReadOnly s = false) :
    isReadOnly (dropVariance s) = isReadOnly s := by
  rw [hs]
  unfold isReadOnly
  rw [child?_variance_dropVariance]

theorem isReadOnly_of_covariant {s : Slots Unit} (hs : isCovariant s = true) :
    isReadOnly (Tree.annotateSlots outcome s) = false := by
  unfold isCovariant at hs
  unfold isReadOnly
  rw [Slots.child?_annotateSlots]
  cases hv : s.child? .variance with
  | none => rfl
  | some v =>
    rw [hv] at hs
    obtain ⟨-, hkind⟩ := Bool.and_eq_true_iff.mp hs
    rw [Option.map_some]
    dsimp only
    rw [Tree.head_annotate, beq_iff_eq.mp hkind]
    exact Bool.and_false _

/-- What a rule asks of a node beside its variance. -/
theorem child_eq (f : Field) (hf : f ≠ .variance) : child (dropVariance s) f = child s f := by
  unfold child
  rw [child_dropVariance hf]

theorem mapM_congr {α β : Type} {f g : α → Pass β} : ∀ {as : List α}, (∀ a ∈ as, f a = g a) →
    as.mapM f = as.mapM g
  | [], _ => rfl
  | a :: as, h => by
    rw [List.mapM_cons, List.mapM_cons, h a List.mem_cons_self,
      mapM_congr fun b hb => h b (List.mem_cons_of_mem a hb)]

theorem convertSlot_dropVariance (t : Tag) {f : Field} (hf : sourceField t f ≠ .variance) :
    convertSlot t (dropVariance s) f = convertSlot t s f := by
  unfold convertSlot
  rw [get?_dropVariance hf]

/-- The variance of a class property is no field of the target. -/
theorem convertShared_dropVariance {t : Tag} (ht : t = .classProperty ∨ t = .classPrivateProperty)
    (hs : isReadOnly s = false) : convertShared t h (dropVariance s) = convertShared t h s := by
  have hfields : ∀ spec ∈ (t.fields .target).filter FieldSpec.isSlot,
      sourceField t spec.field ≠ .variance := by
    rcases ht with rfl | rfl <;> decide
  have hattr (f : Field) : convertAttr h (dropVariance s) f = convertAttr h s f := by
    unfold convertAttr
    rw [isReadOnly_dropVariance hs]
  have hslots : ((t.fields .target).filter FieldSpec.isSlot).mapM (fun spec => do
        return (spec.field, ← convertSlot t (dropVariance s) spec.field)) =
      ((t.fields .target).filter FieldSpec.isSlot).mapM fun spec => do
        return (spec.field, ← convertSlot t s spec.field) :=
    mapM_congr fun spec hspec => by rw [convertSlot_dropVariance t (hfields spec hspec)]
  unfold convertShared
  simp only [hslots, hattr]

/-- **The rule of a construct does not look at a variance `+`.** -/
theorem convertNode_dropVariance (howner : isOwner h = true) (hs : isReadOnly s = false) :
    convertNode h (dropVariance s) = convertNode h s := by
  have hkey := child_eq (s := s) .key (by decide)
  have hvalue := child_dropVariance (s := s) (f := .value) (by decide)
  have hread := isReadOnly_dropVariance hs
  obtain ⟨t, ht, his⟩ := List.any_eq_true.mp howner
  have htag : h.tag? = some t := beq_iff_eq.mp his
  unfold convertNode
  rw [htag]
  simp only [List.mem_cons, List.not_mem_nil, or_false] at ht
  rcases ht with rfl | rfl | rfl | rfl | rfl
  · show orUnsupported h (convertProperty? h _) = orUnsupported h (convertProperty? h _)
    unfold convertProperty?
    simp only [hkey, hvalue, hread]
  · show convertIndexer h _ = convertIndexer h _
    unfold convertIndexer
    simp only [hvalue, hread, child_dropVariance (s := s) (f := .key) (by decide),
      child?_dropVariance (s := s) (f := .id) (by decide)]
  · exact convertShared_dropVariance (.inl rfl) hs
  · exact convertShared_dropVariance (.inr rfl) hs
  · have hdefault : child? (dropVariance s) .default = child? s .default := by
      unfold child?
      rw [child?_dropVariance (by decide)]
    have hsource : Tag.isIn .target .typeParameter = false := rfl
    simp only [hsource, Bool.false_eq_true, if_false, hdefault,
      child?_dropVariance (s := s) (f := .bound) (by decide)]

/-- What a node offers does not depend on a variance `+`. -/
theorem outcome_dropVariance (howner : isOwner h = true) (hs : isReadOnly s = false) :
    outcome h (dropVariance s) = outcome h s := by
  obtain ⟨t, ht, his⟩ := List.any_eq_true.mp howner
  have htag : h.tag? = some t := beq_iff_eq.mp his
  have hplain : h.isAny [.optionalMemberExpression, .optionalCallExpression] = false ∧
      h.is .optionalIndexedAccessType = false ∧ h.is .qualifiedTypeIdentifier = false := by
    simp only [List.mem_cons, List.not_mem_nil, or_false] at ht
    unfold Head.isAny
    rcases ht with rfl | rfl | rfl | rfl | rfl <;> simp [is_of_tag htag]
  unfold outcome
  simp only [hplain, convertNode_dropVariance howner hs, Bool.false_eq_true, if_false]

/-- As a member of a declared class a node is converted without its variance `+`. -/
theorem convertClassMember_dropVariance {note note' : Outcome} (hs : isReadOnly s = false) :
    convertClassMember (.mk note h (dropVariance s)) = convertClassMember (.mk note' h s) := by
  have hkey := child_eq (s := s) .key (by decide)
  have hvalue := child_dropVariance (s := s) (f := .value) (by decide)
  have hkind : methodKind? h (dropVariance s) = methodKind? h s := by
    unfold methodKind?
    rw [child_dropVariance (by decide)]
  have hsignature : methodSignature? h (dropVariance s) = methodSignature? h s := by
    unfold methodSignature?
    rw [hkind, hvalue]
  unfold convertClassMember
  simp only [Tree.head_mk, Tree.slots_mk, hkey, hvalue, hsignature, isReadOnly_dropVariance hs]

end Untraced

/-- **A variance `+` has no trace.** -/
theorem untraced_of_covariant {t : Node} (howner : isOwner t.head = true)
    (hcovariant : isCovariant t.slots = true) : Untraced t := by
  obtain ⟨⟨⟩, h, s⟩ := t
  have hread := isReadOnly_of_covariant hcovariant
  have hslots := annotateSlots_dropVariance outcome s
  constructor
  · show outcome h _ = outcome h (Tree.annotateSlots outcome (dropVariance s))
    rw [hslots]
    exact (outcome_dropVariance howner hread).symm
  · show convertClassMember (.mk _ h _) =
      convertClassMember (.mk _ h (Tree.annotateSlots outcome (dropVariance s)))
    rw [hslots]
    exact (convertClassMember_dropVariance hread).symm

/-! ### Differences of types -/

theorem typeArguments_length (t : Node) :
    (typeArguments (t.annotate outcome).slots).length = argumentCount t := by
  unfold typeArguments argumentCount
  rw [Tree.child?_slots_annotate]
  cases t.slots.child? .typeParameters with
  | none => rfl
  | some ps =>
    rw [Option.map_some]
    dsimp only
    rw [Tree.head_annotate]
    split_ifs
    · obtain ⟨⟨⟩, k, r⟩ := ps
      show (Slots.children (Tree.annotateSlots outcome r) .params).length = _
      rw [Slots.children_annotateSlots, List.length_map]
      rfl
    · rfl

/-- A utility with the name of a difference has a counterpart if it has two arguments. -/
theorem convertUtility?_diff (args : List Part) :
    convertUtility? "$Diff" args = pure (if args.length = 2 then some Target.any else none) := by
  rcases args with _ | ⟨a, _ | ⟨b, _ | ⟨c, rest⟩⟩⟩ <;> simp [convertUtility?]

/-- **A difference of types becomes `any`** exactly if it has two arguments. -/
theorem is_any_convertTree_iff {t : Node} (ht : isDiff t = true) (st : State) :
    (convertTree t st).1.head.is .tsAnyKeyword = true ↔ argumentCount t = 2 := by
  obtain ⟨htag, hname⟩ := Bool.and_eq_true_iff.mp ht
  have hname : (t.slots.child .id).head.identifier? = some "$Diff" := beq_iff_eq.mp hname
  have hcount := typeArguments_length t
  obtain ⟨⟨⟩, h, s⟩ := t
  rw [← hcount]
  have hid : (Slots.child (Tree.annotateSlots outcome s) .id).head.identifier? = some "$Diff" := by
    unfold Slots.child at hname ⊢
    rw [Slots.child?_annotateSlots]
    cases hc : Slots.child? s .id with
    | none => rw [Tree.slots_mk, hc] at hname; cases hname
    | some c =>
      rw [Tree.slots_mk, hc] at hname
      rw [Option.map_some, Option.getD_some, Tree.head_annotate]
      exact hname
  have hnode : convertNode h (Tree.annotateSlots outcome s) =
      convertGeneric (Tree.annotateSlots outcome s) := by
    have hgeneric : h.tag? = some .genericType := beq_iff_eq.mp htag
    unfold convertNode
    rw [hgeneric]
    rfl
  show (attach h (convertNode h (Tree.annotateSlots outcome s) st).1).head.is _ = true ↔
    (typeArguments (Tree.annotateSlots outcome s)).length = 2
  rw [Chain.is_head_attach, hnode]
  unfold convertGeneric
  rw [hid]
  dsimp only
  rw [convertUtility?_diff, pure_bind]
  split_ifs with htwo
  · exact ⟨fun _ => htwo, fun _ => rfl⟩
  · exact ⟨fun h => absurd h Bool.false_ne_true, fun h => absurd h htwo⟩

/-! ### Imports -/

/-- A well-formed import brings in a value, a type or the type of a value. -/
theorem word?_importKind_mem {h : Head} {s : Slots Unit} {tag : Tag} (hfits : Fits .source h s)
    (htag : h.tag? = some tag)
    (hspec : FieldSpec.wordOrNone .importKind Word.importKinds ∈ tag.fields .source) :
    ∀ w ∈ h.word? .importKind, w ∈ Word.importKinds := by
  rcases hfits.value htag hspec with ⟨a, ha, hadmits⟩ | ⟨slot, -, hadmits⟩
  · obtain ⟨w, rfl, hw⟩ := exists_wordOrNone hadmits
    have hword : h.word? .importKind = w := word?_eq ha
    rwa [hword]
  · cases slot <;> cases hadmits

/-- **An import changes what it brings in** exactly if that is the type of a value. -/
theorem importedKind_convertTree {t : Node} (hw : t.WellFormed .source)
    (ht : t.head.isAny [.importDeclaration, .importSpecifier] = true) (st : State) :
    importedKind (convertTree t st).1.head ≠ importedKind t.head ↔
      t.head.word? .importKind = some .typeof := by
  cases hw with
  | @mk h s here _ =>
    obtain ⟨tag, hmem, his⟩ := List.any_eq_true.mp ht
    have htag : h.tag? = some tag := beq_iff_eq.mp his
    have hfacts : tag.isIn .target = true ∧
        FieldSpec.wordOrNone .importKind Word.importKinds ∈ tag.fields .source := by
      rcases List.mem_pair.mp hmem with rfl | rfl <;> decide
    have hattr (S : Slots Outcome) : (Head.ofTag tag (sharedAttrs tag h S)).word? .importKind =
        some (importKind (h.word? .importKind)) := by
      rcases List.mem_pair.mp hmem with rfl | rfl <;> rfl
    have hconverted : importedKind (convertTree (.mk () h s) st).1.head =
        importKind (h.word? .importKind) := by
      show importedKind (attach h (convertNode h (Tree.annotateSlots outcome s) st).1).head = _
      rw [Chain.convertNode_shared htag hfacts.1]
      show ((convertShared tag h _ st).1.head.word? .importKind).getD .value = _
      rw [head_convertShared, hattr]
      rfl
    have hword := word?_importKind_mem here htag hfacts.2
    rw [hconverted, Tree.head_mk]
    unfold importedKind
    cases hk : h.word? .importKind with
    | none => simp [importKind]
    | some w =>
      rw [hk] at hword
      have hw : w = .value ∨ w = .type ∨ w = .typeof := by
        simpa [Word.importKinds] using hword w rfl
      rcases hw with rfl | rfl | rfl <;> simp [importKind]

/-! ### The rule and the converter -/

theorem every_of_mem_nodes {P : Head → Slots Unit → Prop} {t u : Node} (ht : t.Every P)
    (hu : u ∈ t.nodes) : u.Every P := by
  induction t using Tree.induct with
  | step _ h s ih =>
    rw [Node.nodes_mk] at hu
    rcases List.mem_cons.mp hu with rfl | hu
    · exact ht
    · obtain ⟨c, hc, hu⟩ := List.mem_flatMap.mp hu
      cases ht with | mk _ below => exact ih c hc (below c hc) hu

theorem loses_diffWidened {t : Node} :
    Loses .diffWidened t ↔ isDiff t = true ∧ argumentCount t = 2 :=
  and_congr_right fun hdiff =>
    ⟨fun h => (is_any_convertTree_iff hdiff default).mp (h default),
      fun h st => (is_any_convertTree_iff hdiff st).mpr h⟩

theorem loses_varianceDropped {t : Node} :
    Loses .varianceDropped t ↔ isOwner t.head = true ∧ isCovariant t.slots = true :=
  and_congr_right fun howner => and_iff_left_of_imp (untraced_of_covariant howner)

theorem loses_typeofImport {t : Node} (hw : t.WellFormed .source) :
    Loses .typeofImport t ↔ Shows .typeofImport t :=
  and_congr_right fun himport =>
    ⟨fun h => (importedKind_convertTree hw himport default).mp (h default),
      fun h st => (importedKind_convertTree hw himport st).mpr h⟩

/-- **The rule and the converter agree**, with two exceptions. The rule goes through the nodes in
the order of the text and makes at most one report at each. It reports exactly what the converter
loses there, except that it also reports a difference of types that has not two arguments, and that
it does not report the variance of a type parameter. -/
theorem reports_exact {t : Node} (hw : t.WellFormed .source) :
    visitor.run t = t.nodes.flatMap enter ∧
      ∀ u ∈ t.nodes, (enter u = [] ∨ ∃ f args, enter u = [.ofFinding f u.head.span args]) ∧
        ∀ f, (reports f u = true ∧ ¬ Loses f u ↔
            f = .diffWidened ∧ isDiff u = true ∧ argumentCount u ≠ 2) ∧
          (Loses f u ∧ ¬ reports f u = true ↔
            f = .varianceDropped ∧ u.head.is .typeParameter = true ∧
              isCovariant u.slots = true) := by
  refine ⟨Visitor.run_onEnter enter t, fun u hu => ⟨?_, fun f => ?_⟩⟩
  · rcases enter_spec u with ⟨f, args, henter, -⟩ | ⟨henter, -⟩
    · exact .inr ⟨f, args, henter⟩
    · exact .inl henter
  · rw [reports_iff]
    by_cases hdiff : f = .diffWidened
    · subst hdiff
      rw [loses_diffWidened]
      show (isDiff u = true ∧ _ ↔ _) ∧ (_ ∧ ¬ isDiff u = true ↔ _)
      simp only [reduceCtorEq, true_and, false_and, iff_false]
      tauto
    by_cases hvariance : f = .varianceDropped
    · subst hvariance
      have howner : u.head.is .typeParameter = true → isOwner u.head = true := fun h => by
        simp [isOwner, Head.isAny, h]
      rw [loses_varianceDropped]
      show ((isOwner u.head && !u.head.is .typeParameter && isCovariant u.slots) = true ∧ _ ↔ _) ∧
        (_ ∧ ¬ (isOwner u.head && !u.head.is .typeParameter && isCovariant u.slots) = true ↔ _)
      simp only [Bool.and_eq_true, Bool.not_eq_true', reduceCtorEq, true_and, false_and, iff_false]
      cases hparam : u.head.is .typeParameter with
      | false => simp
      | true => simp [howner hparam]
    · have hagree : Loses f u ↔ Shows f u := by
        cases f with
        | diffWidened => exact absurd rfl hdiff
        | varianceDropped => exact absurd rfl hvariance
        | typeofImport => exact loses_typeofImport (every_of_mem_nodes hw hu)
        | _ => exact Iff.rfl
      rw [hagree]
      simp [hdiff, hvariance]

/-- The sign `+`. -/
def plus : Node := .of .variance [(.kind, .word .plus)] []

/-- `+T`. -/
def covariantParameter : Node :=
  .of .typeParameter [(.name, .text "T")]
    [(.bound, .maybe none), (.variance, .maybe (some plus)), (.default, .maybe none)]

/-- `$Diff<B>`. -/
def halfDiff : Node := Source.generic "$Diff" [Source.generic "B" []]

/-- `+p: $Diff<B>`. -/
def covariantProperty : Node :=
  .of .objectTypeProperty
    [(.isOptional, .flag false), (.isStatic, .flag false), (.isProto, .flag false),
      (.isMethod, .flag false), (.kind, .word .init)]
    [(.key, .one (Source.ident "p")), (.variance, .maybe (some plus)), (.value, .one halfDiff)]

/-- `type A<+T> = { +p: $Diff<B> };`. -/
def covariantAlias : Node :=
  .of .typeAlias []
    [(.id, .one (Source.ident "A")),
      (.typeParameters, .maybe (some
        (Node.of .typeParameterDeclaration [] [(.params, .many [covariantParameter])]))),
      (.right, .one (Source.objectType [covariantProperty] false))]

/-- In `type A<+T> = { +p: $Diff<B> };` both exceptions stand beside a report that is right. -/
theorem reports_exact_covariantAlias :
    covariantAlias.WellFormed .source ∧
      (visitor.run covariantAlias).map (·.code) = [1002, 1004] ∧
      Loses .varianceDropped covariantProperty ∧
      (reports .diffWidened halfDiff = true ∧ ¬ Loses .diffWidened halfDiff) ∧
      Loses .varianceDropped covariantParameter ∧
      ¬ reports .varianceDropped covariantParameter = true := by
  have hw : covariantAlias.WellFormed .source := by decide
  obtain ⟨hrun, hnodes⟩ := reports_exact hw
  have hparameter : covariantParameter ∈ covariantAlias.nodes := List.mem_of_getElem? (i := 3) rfl
  have hproperty : covariantProperty ∈ covariantAlias.nodes := List.mem_of_getElem? (i := 6) rfl
  have hhalf : halfDiff ∈ covariantAlias.nodes := List.mem_of_getElem? (i := 9) rfl
  refine ⟨hw, by rw [hrun]; decide, ?_, ?_, ?_⟩
  · have hnotOnly := ((hnodes covariantProperty hproperty).2 .varianceDropped).1
    by_contra hkept
    exact absurd (hnotOnly.mp ⟨by decide, hkept⟩).1 (by decide)
  · exact ((hnodes halfDiff hhalf).2 .diffWidened).1.mpr (by decide)
  · exact ((hnodes covariantParameter hparameter).2 .varianceDropped).2.mpr (by decide)

/-- The type `$Diff<B>` stays as it is, and the rule reports that it became `any`. -/
theorem not_reports_onlyLosses :
    ¬ ∀ t : Node, t.WellFormed .source → ∀ u ∈ t.nodes, ∀ f, reports f u = true ↔ Loses f u := by
  intro h
  have hhalf := h halfDiff (by decide) halfDiff (List.mem_of_getElem? (i := 0) rfl) .diffWidened
  have hcount := (loses_diffWidened.mp (hhalf.mp (by decide))).2
  exact absurd hcount (by decide)

end Lossy

end Typeshift
