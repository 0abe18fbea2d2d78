import Mathlib.Tactic.SplitIfs
import Typeshift.Normalize.Optional
import Typeshift.Proofs.Names
import Typeshift.Proofs.Tree.Slots

/-! # What is marked optional

From the top of a tree down, a node *may be omitted* if it is a parameter of a function type with a
nullable type, a class property annotated with one, or an identifier that stands as a parameter of a
function or method and is annotated with one.

* `Node.sites`: every node in the order of the text, with whether it may be omitted.
* `markOptional_exact`: marking sets the flags of exactly these nodes and counts those it
  changed. -/

namespace Typeshift

section Flag

/-- The tree with every flag of an optional part taken back. -/
def Node.clearOptional (t : Node) : Node :=
  t.synthesize fun h s => .mk () (h.setAttr .isOptional (.flag false)) (s.mapTrees Tree.note)

theorem Node.clearOptional_mk (h : Head) (s : Slots Unit) :
    Node.clearOptional (.mk () h s) =
      .mk () (h.setAttr .isOptional (.flag false)) (s.mapTrees Node.clearOptional) := by
  unfold Node.clearOptional
  rw [Tree.synthesize_mk, Slots.mapTrees_note]

theorem Head.setAttr_setAttr (h : Head) (f : Field) (a b : Attr) :
    (h.setAttr f a).setAttr f b = h.setAttr f b := by
  unfold Head.setAttr
  simp only [List.map_map]
  congr 1
  refine List.map_congr_left fun e _ => ?_
  by_cases he : e.1 = f <;> simp [he]

theorem Head.attr?_setAttr (h : Head) (f : Field) (a : Attr) :
    (h.setAttr f a).attr? f = (h.attr? f).map fun _ => a := by
  unfold Head.setAttr Head.attr?
  dsimp only
  induction h.attrs with
  | nil => rfl
  | cons e rest ih =>
    obtain ⟨g, b⟩ := e
    by_cases hg : g = f
    · subst hg; simp
    · have hne : (f == g) = false := beq_false_of_ne (Ne.symm hg)
      rw [List.map_cons, if_neg hg, List.lookup_cons, List.lookup_cons, hne]
      exact ih

theorem Head.flag_setAttr {h : Head} {f : Field} {b : Bool} (hf : h.attr? f = some (.flag b))
    (c : Bool) : (h.setAttr f (.flag c)).flag f = c := by
  unfold Head.flag
  rw [Head.attr?_setAttr, hf]
  rfl

theorem Head.attr?_setAttr_of_ne (h : Head) {f g : Field} (hg : g ≠ f) (a : Attr) :
    (h.setAttr f a).attr? g = h.attr? g := by
  unfold Head.setAttr Head.attr?
  dsimp only
  induction h.attrs with
  | nil => rfl
  | cons e rest ih =>
    obtain ⟨k, b⟩ := e
    rw [List.map_cons]
    by_cases hk : k = f
    · subst hk
      rw [if_pos rfl, List.lookup_cons, List.lookup_cons, beq_false_of_ne hg]
      exact ih
    · rw [if_neg hk, List.lookup_cons, List.lookup_cons, ih]

theorem Head.text_setAttr_of_ne (h : Head) {f g : Field} (hg : g ≠ f) (a : Attr) :
    (h.setAttr f a).text g = h.text g := by
  unfold Head.text
  rw [Head.attr?_setAttr_of_ne h hg]

theorem Node.preorder_clearOptional (t : Node) :
    t.clearOptional.preorder = t.preorder.map (·.setAttr .isOptional (.flag false)) := by
  induction t using Tree.induct with
  | step _ h s ih =>
    rw [Node.clearOptional_mk, Node.preorder_mk, Node.preorder_mk, Slots.toList_mapTrees,
      List.flatMap_map, List.map_cons, List.map_flatMap]
    exact congrArg _ (List.flatMap_congr ih)

theorem Node.mentions_clearOptional (t : Node) : t.clearOptional.mentions = t.mentions := by
  unfold Node.mentions
  rw [Node.preorder_clearOptional, List.filterMap_map]
  congr 1
  funext h
  show Head.mention? (h.setAttr .isOptional (.flag false)) = Head.mention? h
  unfold Head.mention?
  rw [Head.text_setAttr_of_ne h (by decide)]
  rfl

end Flag

namespace Normalize

variable {ρ σ : Type}

/-! ### Nodes that may be omitted -/

/-- Whether an annotation is an ascription of a nullable type. -/
def isNullable (a : Tree ρ) : Bool :=
  a.head.is .ascription && ((a.slots.child? .ty).map (·.head.is .nullableType)).getD false

/-- Whether a node may be omitted, given whether it stands as a parameter. -/
def mayOmit (isParameter : Bool) (h : Head) (s : Slots ρ) : Bool :=
  match h.tag? with
  | some .functionTypeParam => ((s.child? .ty).map (·.head.is .nullableType)).getD false
  | some .classProperty | some .classPrivateProperty => ((s.child? .ty).map isNullable).getD false
  | some .identifier => isParameter && ((s.child? .ty).map isNullable).getD false
  | _ => false

/-- Whether the nodes in a slot stand as parameters of a function or method. -/
def holdsParameters (h : Head) (f : Field) : Bool := hasParameters h && f = .params

/-- A node and those below it, with whether they may be omitted. -/
def sitesRule (h : Head) (s : Slots (Bool → List (Head × Bool))) (isParameter : Bool) :
    List (Head × Bool) :=
  (h, mayOmit isParameter h s) ::
    s.flatMap fun (f, slot) => slot.toList.flatMap fun c => c.note (holdsParameters h f)

/-- **Every node in the order of the text, with whether it may be omitted.** -/
def sites (t : Node) : List (Head × Bool) := t.synthesize sitesRule false

/-- What the annotation of an identifier or a class property holds is an ascription. -/
def IsAnnotated (h : Head) (s : Slots Unit) : Prop :=
  h.isAny [.identifier, .classProperty, .classPrivateProperty] = true →
    ∀ a ∈ s.child? .ty, a.head.is .ascription = true

instance (h : Head) (s : Slots Unit) : Decidable (IsAnnotated h s) :=
  inferInstanceAs (Decidable (_ → ∀ _ ∈ _, _))

/-- A node that can be marked has the flag for it. -/
def HasFlag (h : Head) : Prop :=
  h.isAny [.functionTypeParam, .identifier, .classProperty, .classPrivateProperty] = true →
    ∃ b, h.attr? .isOptional = some (.flag b)

section Annotate

variable (rule : Head → Slots σ → σ)

theorem isNullable_annotate (a : Tree ρ) : isNullable (a.annotate rule) = isNullable a := by
  unfold isNullable
  rw [Tree.head_annotate, Tree.child?_slots_annotate, Option.map_map]
  simp only [Function.comp_def, Tree.head_annotate]

theorem mayOmit_annotateSlots (isParameter : Bool) (h : Head) (s : Slots ρ) :
    mayOmit isParameter h (Tree.annotateSlots rule s) = mayOmit isParameter h s := by
  unfold mayOmit
  simp only [Slots.child?_annotateSlots, Option.map_map, Function.comp_def, Tree.head_annotate,
    isNullable_annotate]

theorem givesNullable_annotate (t : Tree ρ) : givesNullable (t.annotate rule) = givesNullable t :=
  Tree.synthesize_annotate nullableRule rule t

theorem marksItself_annotateSlots (h : Head) (s : Slots ρ) :
    marksItself h (Tree.annotateSlots rule s) = marksItself h s := by
  unfold marksItself
  simp only [Slots.child?_annotateSlots, Option.map_map, Function.comp_def, Tree.head_annotate,
    givesNullable_annotate]

theorem marksChild_annotate (h : Head) (f : Field) (t : Tree ρ) :
    marksChild h f (t.annotate rule) = marksChild h f t := by
  unfold marksChild
  rw [Tree.head_annotate, givesNullable_annotate]

end Annotate

/-- The marks on a node, given whether it stands as a parameter. -/
def markAt (isParameter : Bool) (t : Node) : Marked :=
  (markOptional t).markIf (isParameter && t.head.is .identifier && givesNullable t)

/-- The sites from a node on, given whether it stands as a parameter. -/
def sitesAt (isParameter : Bool) (t : Node) : List (Head × Bool) :=
  t.synthesize sitesRule isParameter

theorem sitesAt_mk (isParameter : Bool) (h : Head) (s : Slots Unit) :
    sitesAt isParameter (.mk () h s) = (h, mayOmit isParameter h s) ::
      s.flatMap fun e => e.2.toList.flatMap (sitesAt (holdsParameters h e.1)) := by
  unfold sitesAt
  rw [Tree.synthesize_mk]
  unfold sitesRule
  rw [mayOmit_annotateSlots, Slots.annotateSlots_eq_mapTrees]
  unfold Slots.mapTrees
  simp only [List.flatMap_map, Slot.toList_map]
  rfl

/-- The slots of a node with the marks on its parts. -/
def markedSlots (h : Head) (s : Slots Unit) : Slots Unit :=
  s.map fun e => (e.1, e.2.map fun t => (markAt (holdsParameters h e.1) t).node)

/-- The number of the marks on the parts of a node. -/
def markedCount (h : Head) (s : Slots Unit) : Nat :=
  (s.flatMap fun e => e.2.toList.map fun t => (markAt (holdsParameters h e.1) t).count).foldr
    (· + ·) 0

theorem slotMap_map {α β γ : Type} (f : α → β) (g : β → γ) (s : Slot α) :
    (s.map f).map g = s.map fun a => g (f a) :=
  Slot.Rel.map_eq (Slot.rel_map fun _ _ => rfl)

theorem markOptional_mk (h : Head) (s : Slots Unit) :
    markOptional (.mk () h s) =
      (Marked.mk (.mk () h (markedSlots h s)) (markedCount h s)).markIf (marksItself h s) := by
  have hparts : (Tree.annotateSlots markRule s).map (fun e =>
        (e.1, e.2.map fun (t : Tree Marked) => t.note.markIf (marksChild h e.1 t))) =
      s.map fun e => (e.1, e.2.map fun t => markAt (holdsParameters h e.1) t) := by
    rw [Slots.annotateSlots_eq_mapTrees]
    unfold Slots.mapTrees
    rw [List.map_map]
    refine List.map_congr_left fun e _ => ?_
    simp only [Function.comp_def, slotMap_map, marksChild_annotate]
    rfl
  have hnode : ∀ parts : List (Field × Slot Marked),
      parts = s.map (fun e => (e.1, e.2.map fun t => markAt (holdsParameters h e.1) t)) →
      parts.map (fun e => (e.1, e.2.map Marked.node)) = markedSlots h s := by
    rintro _ rfl
    rw [List.map_map]
    exact List.map_congr_left fun e _ => Prod.ext rfl (slotMap_map _ _ _)
  have hcount : ∀ parts : List (Field × Slot Marked),
      parts = s.map (fun e => (e.1, e.2.map fun t => markAt (holdsParameters h e.1) t)) →
      (parts.flatMap fun e => e.2.toList.map Marked.count).foldr (· + ·) 0 =
        markedCount h s := by
    rintro _ rfl
    simp only [List.flatMap_map, Slot.toList_map, List.map_map]
    rfl
  show markRule h (Tree.annotateSlots markRule s) = _
  rw [markRule, marksItself_annotateSlots]
  dsimp only
  rw [hnode _ hparts, hcount _ hparts]
  rfl

theorem givesNullable_ascription {a : Tree ρ} (ha : a.head.is .ascription = true) :
    givesNullable a = isNullable a := by
  obtain ⟨n, h, s⟩ := a
  unfold isNullable
  rw [ha, Bool.true_and]
  have ht : h.tag? = some .ascription := by simpa [Head.is] using ha
  unfold givesNullable
  rw [Tree.synthesize_mk, nullableRule, ht]
  simp only [Slots.child?_annotateSlots, Option.map_map, Function.comp_def, Tree.head_annotate,
    Tree.slots_mk]

theorem givesNullable_identifier {h : Head} {s : Slots ρ} (n : ρ)
    (ht : h.tag? = some .identifier) :
    givesNullable (.mk n h s) = ((s.child? .ty).map givesNullable).getD false := by
  unfold givesNullable
  rw [Tree.synthesize_mk, nullableRule, ht]
  simp only [Slots.child?_annotateSlots, Option.map_map, Function.comp_def]
  rfl

theorem map_givesNullable {h : Head} {s : Slots Unit} (hA : IsAnnotated h s)
    (ht : h.isAny [.identifier, .classProperty, .classPrivateProperty] = true) :
    ((s.child? .ty).map givesNullable).getD false = ((s.child? .ty).map isNullable).getD false := by
  cases hc : s.child? .ty with
  | none => rfl
  | some a => exact givesNullable_ascription (hA ht a hc)

/-- A node is marked by itself or by the function around it, and never by both. -/
theorem marks_eq_mayOmit {h : Head} {s : Slots Unit} (hA : IsAnnotated h s) (b : Bool) :
    (marksItself h s || (b && h.is .identifier && givesNullable (.mk () h s))) = mayOmit b h s ∧
      (marksItself h s && (b && h.is .identifier && givesNullable (.mk () h s))) = false := by
  by_cases hi : h.tag? = some .identifier
  · have his : h.is .identifier = true := by simp [Head.is, hi]
    have hm : marksItself h s = false := by unfold marksItself; rw [hi]
    rw [hm, his, givesNullable_identifier () hi, map_givesNullable hA (by simp [Head.isAny, his])]
    unfold mayOmit
    rw [hi]
    simp
  · have his : h.is .identifier = false := by simp [Head.is, hi]
    rw [his]
    simp only [Bool.and_false, Bool.false_and, Bool.or_false, and_true]
    unfold marksItself mayOmit
    split
    · next ht => rw [ht]
    · next ht => rw [ht]; exact map_givesNullable hA (by simp [Head.isAny, Head.is, ht])
    · next ht => rw [ht]; exact map_givesNullable hA (by simp [Head.isAny, Head.is, ht])
    · next h1 h2 h3 =>
      split
      · next ht => exact absurd ht h1
      · next ht => exact absurd ht h2
      · next ht => exact absurd ht h3
      · next ht => exact absurd ht hi
      · rfl

/-- Whether the flag of a node changes. -/
def changes (x : Head × Bool) : Bool := x.2 && !x.1.flag .isOptional

/-- The head of a node after marking. -/
def markedHead (x : Head × Bool) : Head :=
  if changes x then x.1.setAttr .isOptional (.flag true) else x.1

theorem markIf_mk (c : Bool) (h : Head) (s : Slots Unit) (k : Nat) :
    (Marked.mk (.mk () h s) k).markIf c =
      ⟨.mk () (markedHead (h, c)) s, k + if changes (h, c) then 1 else 0⟩ := by
  unfold Marked.markIf Marked.mark markedHead changes
  cases c with
  | false => rfl
  | true => cases hf : h.flag .isOptional <;> simp [hf]

theorem markIf_markIf {c d : Bool} (h : (c && d) = false) (m : Marked) :
    (m.markIf c).markIf d = m.markIf (c || d) := by
  cases c with
  | false => rfl
  | true => cases d with
    | false => rfl
    | true => cases h

theorem markAt_mk {h : Head} {s : Slots Unit} (hA : IsAnnotated h s) (b : Bool) :
    markAt b (.mk () h s) =
      ⟨.mk () (markedHead (h, mayOmit b h s)) (markedSlots h s),
        markedCount h s + if changes (h, mayOmit b h s) then 1 else 0⟩ := by
  obtain ⟨hor, hand⟩ := marks_eq_mayOmit hA b
  unfold markAt
  rw [markOptional_mk, Tree.head_mk, markIf_markIf hand, hor, markIf_mk]

/-! ### Marking is exact -/

theorem toList_markedSlots (h : Head) (s : Slots Unit) :
    (markedSlots h s).toList =
      s.flatMap fun e => e.2.toList.map fun t => (markAt (holdsParameters h e.1) t).node := by
  unfold markedSlots Slots.toList
  simp only [List.flatMap_map, Slot.toList_map]

theorem rel_markedSlots (h : Head) (s : Slots Unit) :
    s.Rel (fun t t' => t ∈ s.toList ∧ ∃ b, t' = (markAt b t).node) (markedSlots h s) := by
  unfold Slots.Rel markedSlots
  rw [List.forall₂_map_right_iff, List.forall₂_same]
  intro e he
  exact ⟨rfl, Slot.rel_map fun t ht => ⟨Slots.mem_toList.mpr ⟨e, he, ht⟩, _, rfl⟩⟩

theorem clearOptional_markIf (c : Bool) (m : Marked) :
    (m.markIf c).node.clearOptional = m.node.clearOptional := by
  obtain ⟨⟨_, h, s⟩, k⟩ := m
  rw [markIf_mk, Node.clearOptional_mk, Node.clearOptional_mk, markedHead]
  split_ifs
  · rw [Head.setAttr_setAttr]
  · rfl

/-- Marking changes flags only. -/
theorem clearOptional_markAt (b : Bool) (t : Node) :
    (markAt b t).node.clearOptional = t.clearOptional := by
  induction t using Tree.induct generalizing b with
  | step _ h s ih =>
    unfold markAt
    rw [clearOptional_markIf, markOptional_mk, clearOptional_markIf, Node.clearOptional_mk,
      Node.clearOptional_mk]
    refine congrArg (Tree.mk () _) (Slots.Rel.mapTrees_eq ((rel_markedSlots h s).imp ?_))
    rintro c _ ⟨hc, b, rfl⟩
    exact ih c hc b

theorem clearOptional_markOptional (t : Node) :
    (markOptional t).node.clearOptional = t.clearOptional := clearOptional_markAt false t

theorem mentions_markOptional (t : Node) : (markOptional t).node.mentions = t.mentions := by
  rw [← Node.mentions_clearOptional, clearOptional_markOptional, Node.mentions_clearOptional]

theorem flag_markedHead {h : Head} {s : Slots Unit} (hF : HasFlag h) (b : Bool) :
    (markedHead (h, mayOmit b h s)).flag .isOptional =
      (h.flag .isOptional || mayOmit b h s) := by
  unfold markedHead changes
  cases hm : mayOmit b h s with
  | false => simp
  | true =>
    cases hf : h.flag .isOptional with
    | true => simp [hf]
    | false =>
      have htag : h.isAny [.functionTypeParam, .identifier, .classProperty,
          .classPrivateProperty] = true := by
        unfold mayOmit at hm
        split at hm <;> first | cases hm | simp [Head.isAny, Head.is, *]
      obtain ⟨c, hc⟩ := hF htag
      simp [Head.flag_setAttr hc]

/-- **Marking is exact**, from every node down. -/
theorem markAt_exact {t : Node} (ht : t.Every fun h s => IsAnnotated h s ∧ HasFlag h) (b : Bool) :
    (markAt b t).node.preorder.map (·.flag .isOptional) =
        (sitesAt b t).map (fun x => x.1.flag .isOptional || x.2) ∧
      (markAt b t).count = (sitesAt b t).countP changes := by
  induction t using Tree.induct generalizing b with
  | step _ h s ih =>
    obtain ⟨hA, hF⟩ : IsAnnotated h s ∧ HasFlag h := by cases ht with | mk here _ => exact here
    have hbelow : ∀ c ∈ s.toList, Node.Every (fun h s => IsAnnotated h s ∧ HasFlag h) c := by
      cases ht with | mk _ below => exact below
    have hparts := fun c hc b => ih c hc (hbelow c hc) b
    rw [markAt_mk hA, sitesAt_mk]
    refine ⟨?_, ?_⟩
    · rw [Node.preorder_mk, toList_markedSlots, List.map_cons, List.map_cons, flag_markedHead hF,
        List.flatMap_assoc, List.map_flatMap, List.map_flatMap]
      refine congrArg _ (List.flatMap_congr fun e he => ?_)
      rw [List.flatMap_map, List.map_flatMap, List.map_flatMap]
      refine List.flatMap_congr fun c hc => ?_
      exact (hparts c (Slots.mem_toList.mpr ⟨e, he, hc⟩) _).1
    · rw [List.countP_cons, markedCount, ← List.sum_eq_foldr, List.countP_flatMap,
        List.flatMap_def, List.sum_flatten, List.map_map]
      refine congrArg (· + _) (congrArg List.sum (List.map_congr_left fun e he => ?_))
      rw [Function.comp_apply, Function.comp_apply, List.countP_flatMap]
      refine congrArg List.sum (List.map_congr_left fun c hc => ?_)
      exact (hparts c (Slots.mem_toList.mpr ⟨e, he, hc⟩) _).2

/-- **Marking sets the flags of exactly the nodes that may be omitted**, and counts those it
changed. -/
theorem markOptional_exact {t : Node} (ht : t.Every fun h s => IsAnnotated h s ∧ HasFlag h) :
    (markOptional t).node.preorder.map (·.flag .isOptional) =
        (sites t).map (fun x => x.1.flag .isOptional || x.2) ∧
      (markOptional t).count = (sites t).countP changes :=
  markAt_exact ht false

end Normalize

end Typeshift
