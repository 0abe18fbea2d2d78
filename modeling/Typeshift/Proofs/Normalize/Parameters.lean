import Mathlib.Data.List.Pairwise
import Typeshift.Proofs.Normalize.Idempotent

/-! # Optional parameters in order

In a list of parameters no required one may follow an optional one, and the parameter of a setter
may not be optional. Marking looks at one parameter at a time, so the order can be lost; whether it
is can be read off the tree before.

* `Judge`: which parameters count as optional and which as required; `marked` goes by the flags, and
  `omissible` takes in the parameters that accept null.
* `InOrder`, `FirmSetter`: the two conditions on a node.
* `Keeps`: what a pass keeps of a node that the conditions look at.
* `normalize_parameters`: when the parameters of a normalized tree are in order. -/

namespace Typeshift.Normalize

/-! ### Parameters -/

/-- Whether a parameter is marked optional. -/
def isOptional (h : Head) : Bool := h.isAny [.identifier, .functionTypeParam] && h.flag .isOptional

/-- Whether a parameter has to be given: it is not marked, has no default and is no rest
parameter. -/
def isRequired (h : Head) : Bool := !isOptional h && !h.isAny [.assignmentPattern, .restElement]

/-- Whether a parameter is annotated with a nullable type. An identifier has to stand as a parameter
of a function or method. -/
def acceptsNull (isParameter : Bool) (t : Node) : Bool :=
  t.head.is .functionTypeParam && ((t.slots.child? .ty).map (·.head.is .nullableType)).getD false ||
    isParameter && t.head.is .identifier && givesNullable t

/-- Which parameters of a construct count as optional, and which as required. -/
structure Judge where
  optional : Head → Node → Bool
  required : Head → Node → Bool

/-- By the marks. -/
def marked : Judge := ⟨fun _ t => isOptional t.head, fun _ t => isRequired t.head⟩

/-- A parameter that accepts null counts as optional. -/
def omissible : Judge where
  optional owner t := isOptional t.head || acceptsNull (hasParameters owner) t
  required owner t := isRequired t.head && !acceptsNull (hasParameters owner) t

/-- **No required parameter follows an optional one** in the list of a function, a method or a
function type. -/
def InOrder (j : Judge) (h : Head) (s : Slots Unit) : Prop :=
  (hasParameters h || h.is .functionType) = true →
    (s.children .params).Pairwise fun a b => ¬ (j.optional h a = true ∧ j.required h b = true)

/-- Whether a node is a setter of a class, an object or an object type. -/
def isSetter (h : Head) : Bool :=
  h.isAny [.classMethod, .classPrivateMethod, .objectMethod, .objectTypeProperty] &&
    h.word? .kind == some .set

/-- **A setter has no optional parameter.** The parameters of a setter in an object type are those
of its value. -/
def FirmSetter (j : Judge) (h : Head) (s : Slots Unit) : Prop :=
  isSetter h = true →
    (∀ a ∈ s.children .params, j.optional h a = false) ∧
      ∀ v ∈ s.child? .value, v.head.is .functionType = true →
        ∀ a ∈ v.slots.children .params, j.optional v.head a = false

instance (j : Judge) (h : Head) (s : Slots Unit) : Decidable (InOrder j h s) :=
  inferInstanceAs (Decidable (_ → List.Pairwise _ _))

instance (j : Judge) (h : Head) (s : Slots Unit) : Decidable (FirmSetter j h s) :=
  inferInstanceAs (Decidable (_ → (∀ _ ∈ _, _) ∧ ∀ _ ∈ _, _ → ∀ _ ∈ _, _))

/-! ### Marking -/

theorem word?_markedHead (h : Head) (c : Bool) (f : Field) (hf : f ≠ .isOptional) :
    (markedHead (h, c)).word? f = h.word? f := by
  unfold markedHead
  split_ifs
  · unfold Head.word?
    rw [Head.attr?_setAttr_of_ne _ hf]
  · rfl

/-- A mark makes a parameter optional. -/
theorem isOptional_markedHead {h : Head} (hF : HasFlag h) (c : Bool) :
    isOptional (markedHead (h, c)) =
      (isOptional h || h.isAny [.identifier, .functionTypeParam] && c) := by
  have hany : (markedHead (h, c)).isAny [.identifier, .functionTypeParam] =
      h.isAny [.identifier, .functionTypeParam] := by
    unfold Head.isAny Head.is
    rw [tag?_markedHead]
  unfold isOptional
  rw [hany]
  cases htag : h.isAny [.identifier, .functionTypeParam] with
  | false => simp
  | true =>
    obtain ⟨b, hb⟩ := hF (by
      simp only [Head.isAny, List.any_cons, List.any_nil, Bool.or_false, Bool.or_eq_true] at htag ⊢
      tauto)
    unfold markedHead changes
    cases c with
    | false => simp
    | true => cases hf : h.flag .isOptional <;> simp [hf, Head.flag_setAttr hb]

theorem tag?_markAt (b : Bool) (t : Node) : (markAt b t).node.head.tag? = t.head.tag? := by
  obtain ⟨⟨⟩, h, s⟩ := t
  rw [markAt_eq]
  exact tag?_markedHead _

/-- **A parameter is optional after marking** if it was, or if it accepts null. -/
theorem isOptional_markAt {t : Node} (hF : HasFlag t.head) (b : Bool) :
    isOptional (markAt b t).node.head = (isOptional t.head || acceptsNull b t) := by
  obtain ⟨⟨⟩, h, s⟩ := t
  rw [Tree.head_mk] at hF ⊢
  rw [markAt_eq]
  show isOptional (markedHead (h, marks b h s)) = _
  rw [isOptional_markedHead hF]
  congr 1
  unfold acceptsNull marks marksItself
  rw [Tree.head_mk, Tree.slots_mk]
  by_cases hparam : h.tag? = some .functionTypeParam
  · simp [Head.isAny, Head.is, hparam]
  · have hp : (h.tag? == some .functionTypeParam) = false := beq_false_of_ne hparam
    by_cases hident : h.tag? = some .identifier
    · simp [Head.isAny, Head.is, hident]
    · have hi : (h.tag? == some .identifier) = false := beq_false_of_ne hident
      simp [Head.isAny, Head.is, hp, hi]

theorem isRequired_markAt {t : Node} (hF : HasFlag t.head) (b : Bool) :
    isRequired (markAt b t).node.head = (isRequired t.head && !acceptsNull b t) := by
  have hany : (markAt b t).node.head.isAny [.assignmentPattern, .restElement] =
      t.head.isAny [.assignmentPattern, .restElement] := by
    unfold Head.isAny Head.is
    rw [tag?_markAt]
  unfold isRequired
  rw [hany, isOptional_markAt hF, Bool.not_or, Bool.and_assoc, Bool.and_assoc]
  exact congrArg _ (Bool.and_comm _ _)

/-- The parts of a node are marked as its fields say. -/
theorem relIn_marked (h : Head) (s : Slots Unit) :
    s.RelIn (fun f t t' => (markAt (holdsParameters h f) t).node = t') (markedSlots h s) := by
  unfold Slots.RelIn markedSlots
  rw [List.forall₂_map_right_iff, List.forall₂_same]
  exact fun e _ => ⟨rfl, Slot.rel_map fun _ _ => rfl⟩

theorem children_markedSlots (h : Head) (s : Slots Unit) (f : Field) :
    Slots.children (markedSlots h s) f =
      (s.children f).map fun t => (markAt (holdsParameters h f) t).node := by
  have hchildren := (relIn_marked h s).children f
  rw [← List.forall₂_map_left_iff, List.forall₂_eq_eq_eq] at hchildren
  exact hchildren.symm

theorem child?_markedSlots (h : Head) (s : Slots Unit) (f : Field) :
    Slots.child? (markedSlots h s) f =
      (s.child? f).map fun t => (markAt (holdsParameters h f) t).node := by
  have hchild := (relIn_marked h s).child? f
  cases ha : s.child? f <;> cases hb : Slots.child? (markedSlots h s) f <;>
    rw [ha, hb] at hchild <;> cases hchild
  · rfl
  · next hchild => exact congrArg some hchild.symm

/-! ### The conditions after marking -/

theorem holdsParameters_params (h : Head) : holdsParameters h .params = hasParameters h :=
  Bool.and_true _

theorem inOrder_markedSlots {h h' : Head} {s : Slots Unit} (htag : h'.tag? = h.tag?)
    (hF : ∀ c ∈ s.toList, HasFlag (Tree.head c)) :
    InOrder marked h' (markedSlots h s) ↔ InOrder omissible h s := by
  have howner : (hasParameters h' || h'.is .functionType) =
      (hasParameters h || h.is .functionType) := by
    unfold hasParameters Head.isAny Head.is
    rw [htag]
  have hflag : ∀ a ∈ s.children .params, HasFlag a.head := fun a ha => hF a (Slots.children_mem ha)
  unfold InOrder
  rw [howner, children_markedSlots, List.pairwise_map]
  refine imp_congr_right fun _ => List.Pairwise.iff_of_mem fun ha hb => ?_
  unfold marked omissible
  dsimp only
  rw [isOptional_markAt (hflag _ ha), isRequired_markAt (hflag _ hb), holdsParameters_params]

theorem firmSetter_markedSlots {h h' : Head} {s : Slots Unit} (htag : h'.tag? = h.tag?)
    (hword : h'.word? .kind = h.word? .kind)
    (hF : ∀ c ∈ s.toList, Node.Every (fun h _ => HasFlag h) c) :
    FirmSetter marked h' (markedSlots h s) ↔ FirmSetter omissible h s := by
  have hsetter : isSetter h' = isSetter h := by
    unfold isSetter Head.isAny Head.is
    rw [htag, hword]
  have hparams {k : Head} {r : Slots Unit} (hr : ∀ c ∈ r.toList, HasFlag (Tree.head c)) :
      (∀ a ∈ Slots.children (markedSlots k r) .params, isOptional a.head = false) ↔
        ∀ a ∈ r.children .params,
          (isOptional a.head || acceptsNull (hasParameters k) a) = false := by
    rw [children_markedSlots, List.forall_mem_map]
    refine forall₂_congr fun a ha => ?_
    rw [isOptional_markAt (hr a (Slots.children_mem ha)), holdsParameters_params]
  have hhead {c : Node} (hc : c.Every fun h _ => HasFlag h) : HasFlag c.head := by
    cases hc with | mk here _ => exact here
  unfold FirmSetter
  rw [hsetter, child?_markedSlots]
  refine imp_congr_right fun _ => and_congr (hparams fun c hc => hhead (hF c hc)) ?_
  cases hv : s.child? .value with
  | none => simp
  | some v =>
    obtain ⟨⟨⟩, k, r⟩ := v
    have hbelow := hF _ (Slots.child?_mem hv)
    simp only [Option.map_some, Option.mem_def, Option.some.injEq, forall_eq', markAt_eq,
      Tree.head_mk, Tree.slots_mk]
    unfold Head.is
    rw [tag?_markedHead]
    refine imp_congr_right fun _ => hparams fun c hc => ?_
    cases hbelow with | mk _ below => exact hhead (below c hc)

theorem every_mk {Q : Head → Slots Unit → Prop} {h : Head} {s : Slots Unit} :
    Node.Every Q (.mk () h s) ↔ Q h s ∧ ∀ c ∈ s.toList, Node.Every Q c :=
  ⟨fun ht => by cases ht with | mk here below => exact ⟨here, below⟩, fun ht => .mk ht.1 ht.2⟩

/-- **A condition after marking is one on the tree before.** -/
theorem every_markAt_iff {P Q : Head → Slots Unit → Prop}
    (hPQ : ∀ {h h' : Head} {s : Slots Unit}, h'.tag? = h.tag? → h'.word? .kind = h.word? .kind →
      (∀ c ∈ s.toList, Node.Every (fun h _ => HasFlag h) c) → (P h' (markedSlots h s) ↔ Q h s))
    {t : Node} (ht : t.Every fun h _ => HasFlag h) (b : Bool) :
    (markAt b t).node.Every P ↔ t.Every Q := by
  induction t using Tree.induct generalizing b with
  | step _ h s ih =>
    obtain ⟨-, hbelow⟩ := every_mk.mp ht
    rw [markAt_eq, every_mk, every_mk,
      hPQ (tag?_markedHead _) (word?_markedHead h _ _ (by decide)) hbelow]
    refine and_congr_right fun _ => ⟨fun hs c hc => ?_, fun hs c' hc' => ?_⟩
    · obtain ⟨c', hc', -, b, rfl⟩ := (rel_markedSlots h s).mem_left hc
      exact (ih c hc (hbelow c hc) b).mp (hs _ hc')
    · obtain ⟨c, -, hc, b, rfl⟩ := (rel_markedSlots h s).mem_right hc'
      exact (ih c hc (hbelow c hc) b).mpr (hs c hc)

theorem hasFlag_head {t : Node} (ht : t.Every fun h _ => HasFlag h) : HasFlag t.head := by
  cases ht with | mk here _ => exact here

/-! ### Hoisting -/

/-- How a node counts as a parameter: as optional, and as required. -/
def standing (t : Node) : Bool × Bool := (isOptional t.head, isRequired t.head)

/-- **What hoisting keeps of a node**: how it counts as a parameter and, if it still is a function
type, how its own parameters count. -/
structure Keeps (t t' : Node) : Prop where
  standing : standing t' = standing t
  parameters : t'.head.is .functionType = true → t.head.is .functionType = true ∧
    (t'.slots.children .params).map Normalize.standing =
      (t.slots.children .params).map Normalize.standing

section Rel

variable {h : Head} {s s' : Slots Unit}

theorem map_standing_of_rel (hrel : s.Rel Keeps s') (f : Field) :
    (s'.children f).map standing = (s.children f).map standing := by
  rw [← List.forall₂_eq_eq_eq, List.forall₂_map_left_iff, List.forall₂_map_right_iff]
  exact List.Forall₂.flip ((hrel.children f).imp fun _ _ hc => hc.standing)

theorem keeps_mk (hrel : s.Rel Keeps s') : Keeps (.mk () h s) (.mk () h s') :=
  ⟨rfl, fun hf => ⟨hf, map_standing_of_rel hrel .params⟩⟩

theorem keeps_reference {t : Node} (ht : t.head.is .functionType = true) (name : String)
    (span : Option Span) : Keeps t ((Source.generic name []).withSpan span) := by
  have htag : t.head.tag? = some .functionType := beq_iff_eq.mp ht
  refine ⟨?_, fun hf => absurd hf Bool.false_ne_true⟩
  have hstanding : Normalize.standing t = (false, true) := by
    unfold Normalize.standing isRequired isOptional Head.isAny Head.is
    rw [htag]
    rfl
  rw [hstanding]
  rfl

/-- The order of parameters, as one of what they count as. -/
theorem inOrder_iff : InOrder marked h s ↔ ((hasParameters h || h.is .functionType) = true →
    ((s.children .params).map standing).Pairwise fun x y => ¬ (x.1 = true ∧ y.2 = true)) := by
  rw [List.pairwise_map]
  rfl

theorem inOrder_of_rel (hrel : s.Rel Keeps s') : InOrder marked h s' ↔ InOrder marked h s := by
  rw [inOrder_iff, inOrder_iff, map_standing_of_rel hrel]

theorem firmSetter_of_rel (hrel : s.Rel Keeps s') (hs : FirmSetter marked h s) :
    FirmSetter marked h s' := by
  intro hset
  obtain ⟨hparams, hvalue⟩ := hs hset
  have hkept {as as' : List Node} (heq : as'.map standing = as.map standing)
      (has : ∀ a ∈ as, isOptional a.head = false) : ∀ a' ∈ as', isOptional a'.head = false := by
    intro a' ha'
    obtain ⟨a, ha, hstanding⟩ := List.mem_map.mp (heq ▸ List.mem_map_of_mem (f := standing) ha')
    exact (congrArg Prod.fst hstanding).symm.trans (has a ha)
  refine ⟨hkept (map_standing_of_rel hrel .params) hparams, fun v' hv' hf => ?_⟩
  have hchild := hrel.child? .value
  rw [Option.mem_def.mp hv'] at hchild
  cases hv : s.child? .value with
  | none => rw [hv] at hchild; cases hchild
  | some v =>
    rw [hv] at hchild
    cases hchild with
    | some hkeeps =>
      obtain ⟨hft, hps⟩ := hkeeps.parameters hf
      exact hkept hps (hvalue v hv hft)

end Rel

section Carries

variable {P : Head → Slots Unit → Prop} (T : List String)

/-- A condition that holds on when the parts of a node are hoisted from is one that hoisting
carries. -/
theorem carries_every
    (hP : ∀ {h : Head} {s s' : Slots Unit}, s.Rel Keeps s' → P h s → P h s')
    (hreference : ∀ name span, ((Source.generic name []).withSpan span).Every P) :
    Carries T fun _ t t' => Keeps t t' ∧ (t.Every P → t'.Every P) where
  lasting _ _ _ _ _ h := h
  node {st h s s'} _ _ hrel := by
    have hkeeps : s.Rel Keeps s' := hrel.imp fun _ _ hc => hc.1
    refine ⟨keeps_mk hkeeps, fun ht => ?_⟩
    obtain ⟨here, below⟩ := every_mk.mp ht
    refine every_mk.mpr ⟨hP hkeeps here, fun c' hc' => ?_⟩
    obtain ⟨c, hc, -, hevery⟩ := hrel.mem_right hc'
    exact hevery (below c hc)
  lift span _ hf _ := ⟨keeps_reference hf _ _, fun _ => hreference _ _⟩

/-- A condition that held before the parts of a node were hoisted from holds of a tree if it does of
what hoisting made of it and of the hoisted types. -/
theorem carries_every_back
    (hP : ∀ {h : Head} {s s' : Slots Unit}, s.Rel Keeps s' → P h s' → P h s) :
    Carries T fun st t t' => Keeps t t' ∧
      (t'.Every P → (∀ x ∈ st.hoisted, x.type.Every P) → t.Every P) where
  lasting _ _ _ _ hrun h := ⟨h.1, fun ht hx => h.2 ht fun x hmem => hx x (hrun.mem hmem)⟩
  node {st h s s'} _ _ hrel := by
    have hkeeps : s.Rel Keeps s' := hrel.imp fun _ _ hc => hc.1
    refine ⟨keeps_mk hkeeps, fun ht hx => ?_⟩
    obtain ⟨here, below⟩ := every_mk.mp ht
    refine every_mk.mpr ⟨hP hkeeps here, fun c hc => ?_⟩
    obtain ⟨c', hc', -, hevery⟩ := hrel.mem_left hc
    exact hevery (below c' hc') hx
  lift {st t t'} span _ hf h := by
    refine ⟨keeps_reference hf _ _, fun _ hx => ?_⟩
    obtain ⟨hold, hlast⟩ := List.forall_mem_append.mp hx
    exact h.2 (hlast _ (List.mem_singleton_self _)) hold

end Carries

/-- A hoisted type is a part of the tree. -/
theorem HoistedIn.every {P : Head → Slots Unit → Prop} {p : Position} {t F : Node}
    {around : List Node} (hF : HoistedIn p t around F) (ht : t.Every P) : F.Every P := by
  induction hF with
  | here => exact ht
  | inside he hc _ ih =>
    exact ih ((every_mk.mp ht).2 _ (Slots.mem_toList.mpr ⟨_, he, hc⟩))

/-! ### Normalization -/

/-- **A condition on parameters**, `Q` before marking and `P` afterwards. -/
structure Condition (P Q : Head → Slots Unit → Prop) : Prop where
  /-- It says nothing of constructs that have no parameters. -/
  idle : ∀ {h : Head} {s : Slots Unit},
    (hasParameters h || h.is .functionType || isSetter h) = false → P h s
  marking : ∀ {h h' : Head} {s : Slots Unit}, h'.tag? = h.tag? → h'.word? .kind = h.word? .kind →
    (∀ c ∈ s.toList, Node.Every (fun h _ => HasFlag h) c) → (P h' (markedSlots h s) ↔ Q h s)
  hoisting : ∀ {h : Head} {s s' : Slots Unit}, s.Rel Keeps s' → P h s → P h s'
  appending : ∀ {h : Head} {s : Slots Unit} (g : List Node → List Node),
    P h (s.map (onBody g)) ↔ P h s

theorem condition_inOrder : Condition (InOrder marked) (InOrder omissible) where
  idle hidle hlist := by
    rw [Bool.or_eq_false_iff] at hidle
    rw [hidle.1] at hlist
    cases hlist
  marking htag _ hF := inOrder_markedSlots htag fun c hc => hasFlag_head (hF c hc)
  hoisting hrel := (inOrder_of_rel hrel).mpr
  appending g := by
    unfold InOrder
    rw [children_onBody_of_ne g (by decide)]

theorem condition_firmSetter : Condition (FirmSetter marked) (FirmSetter omissible) where
  idle hidle hset := by
    rw [Bool.or_eq_false_iff] at hidle
    rw [hidle.2] at hset
    cases hset
  marking := firmSetter_markedSlots
  hoisting := firmSetter_of_rel
  appending g := by
    unfold FirmSetter
    rw [children_onBody_of_ne g (by decide), child?_onBody]

section Condition

variable {P Q : Head → Slots Unit → Prop} (hP : Condition P Q)
include hP

theorem Condition.every_ident (name : String) : (Source.ident name).Every P :=
  .mk (hP.idle rfl) nofun

theorem Condition.every_reference (name : String) (span : Option Span) :
    ((Source.generic name []).withSpan span).Every P :=
  .mk (hP.idle rfl) (List.forall_mem_singleton.mpr (hP.every_ident name))

theorem Condition.every_definition {x : Hoisted} :
    x.definition.Every P ↔ x.type.Every P := by
  refine ⟨fun hx => ?_, fun hx => .mk (hP.idle rfl) fun c hc => ?_⟩
  · cases hx with | mk _ below => exact below x.type (List.mem_pair.mpr (.inr rfl))
  · rcases List.mem_pair.mp hc with rfl | rfl
    · exact hP.every_ident x.name
    · exact hx

theorem Condition.top {h : Head} (hh : h.is .program = true ∨ h.is .file = true) (s : Slots Unit) :
    P h s := by
  refine hP.idle ?_
  simp only [Head.is, beq_iff_eq] at hh
  rcases hh with hh | hh <;> simp [hasParameters, isSetter, Head.isAny, Head.is, hh]

section Append

variable {xs : List Node} {t : Node} {body : List Node}

/-- More statements only add their own nodes. -/
theorem Condition.every_append (ht : t.Every P) (hx : ∀ x ∈ xs, x.Every P) :
    (appendToProgram xs t).Every P := by
  cases ht with
  | mk here below =>
    rw [appendToProgram_eq]
    exact .mk ((hP.appending _).mpr here) fun c hc => (mem_toList_onBody hc).elim (below c) (hx c)

theorem Condition.every_of_append (ht : (appendToProgram xs t).Every P) : t.Every P := by
  obtain ⟨⟨⟩, h, s⟩ := t
  rw [appendToProgram_eq] at ht
  obtain ⟨here, below⟩ := every_mk.mp ht
  exact .mk ((hP.appending _).mp here) fun c hc => below c (mem_toList_onBody_of_mem hc)

omit hP in
theorem every_of_mem_append (hbody : programBody? t = some body)
    (ht : (appendToProgram xs t).Every P) : ∀ x ∈ xs, x.Every P := by
  rw [appendToProgram_eq] at ht
  intro x hx
  exact (every_mk.mp ht).2 x (mem_toList_onBody_of_get? (programBody?_eq_some.mp hbody).2 hx)

theorem Condition.every_appendStatements (hbody : statements? t = some body) :
    (appendStatements xs t).Every P ↔ t.Every P ∧ ∀ x ∈ xs, x.Every P := by
  rw [appendStatements_eq]
  rcases statements?_eq_some.mp hbody with ⟨hf, hb⟩ | ⟨hf, p, hp, hb⟩
  · rw [if_neg (by rw [hf]; exact Bool.false_ne_true)]
    exact ⟨fun ht => ⟨hP.every_of_append ht, every_of_mem_append hb ht⟩,
      fun ht => hP.every_append ht.1 ht.2⟩
  · obtain ⟨⟨⟩, h, s⟩ := t
    rw [Tree.head_mk] at hf
    rw [Tree.head_mk, if_pos hf, Tree.slots_mk, every_mk, every_mk]
    have hprogram := get?_map_onProgram (appendToProgram xs) hp
    constructor
    · rintro ⟨-, below⟩
      refine ⟨⟨hP.top (.inr hf) s, fun c hc => ?_⟩, every_of_mem_append hb (below _
        (Slots.mem_toList.mpr ⟨_, Slots.get?_mem hprogram, List.mem_singleton_self _⟩))⟩
      obtain ⟨e, he, hc⟩ := Slots.mem_toList.mp hc
      have hmem := List.mem_map_of_mem (f := onProgram (appendToProgram xs)) he
      rcases onProgram_cases e with ⟨q, rfl⟩ | hid
      · rw [List.mem_singleton.mp hc]
        exact hP.every_of_append (below _
          (Slots.mem_toList.mpr ⟨_, hmem, List.mem_singleton_self _⟩))
      · rw [hid] at hmem
        exact below c (Slots.mem_toList.mpr ⟨e, hmem, hc⟩)
    · rintro ⟨⟨-, below⟩, hx⟩
      refine ⟨hP.top (.inr hf) _, fun c hc => ?_⟩
      obtain ⟨e', he', hc⟩ := Slots.mem_toList.mp hc
      obtain ⟨e, he, rfl⟩ := List.mem_map.mp he'
      rcases onProgram_cases e with ⟨q, rfl⟩ | hid
      · rw [List.mem_singleton.mp hc]
        exact hP.every_append (below q
          (Slots.mem_toList.mpr ⟨_, he, List.mem_singleton_self q⟩)) hx
      · rw [hid] at hc
        exact below c (Slots.mem_toList.mpr ⟨e, he, hc⟩)

end Append

/-- **What marking and hoisting make of a tree meets a condition** if the tree met it with the
parameters that accept null taken for optional. -/
theorem Condition.normalize {t : Node} (hw : t.WellFormed .source) (ht : t.Every Q) :
    t.normalize.1.Every P := by
  have hF : t.Every fun h _ => HasFlag h := Node.Every.imp₂ hw hw fun _ _ h _ => hasFlag_of_fits h
  have hmarked : (markOptional t).node.Every P := (every_markAt_iff hP.marking hF false).mpr ht
  by_cases hb : hasBody t = true
  · obtain ⟨st, core, body, -, hnorm, hrun, -, hbody⟩ := normalize_eq hw hb
    obtain ⟨st', hst', hreached, hhoists⟩ :=
      run_hoist (carries_every (P := P) (markOptional t).node.mentions hP.hoisting
        hP.every_reference)
    rw [hrun] at hst' hhoists
    dsimp only at hst' hhoists
    rw [hnorm, hP.every_appendStatements hbody]
    refine ⟨hhoists.related.2 hmarked, fun x hx => ?_⟩
    obtain ⟨x, hmem, rfl⟩ := List.mem_map.mp hx
    obtain ⟨around, F, hin, -, hevery⟩ := hreached.fromTree x (hst' ▸ hmem)
    exact hP.every_definition.mpr (hevery (hin.every hmarked))
  · unfold Node.normalize
    rwa [if_neg hb]

/-- A normalized tree does not meet a condition by chance, if hoisting loses no violation. -/
theorem Condition.of_normalize
    (hback : ∀ {h : Head} {s s' : Slots Unit}, s.Rel Keeps s' → P h s' → P h s)
    {t : Node} (hw : t.WellFormed .source) (ht : t.normalize.1.Every P) : t.Every Q := by
  have hF : t.Every fun h _ => HasFlag h := Node.Every.imp₂ hw hw fun _ _ h _ => hasFlag_of_fits h
  refine (every_markAt_iff hP.marking hF false).mp ?_
  by_cases hb : hasBody t = true
  · obtain ⟨st, core, body, -, hnorm, hrun, -, hbody⟩ := normalize_eq hw hb
    obtain ⟨st', hst', -, hhoists⟩ :=
      run_hoist (carries_every_back (P := P) (markOptional t).node.mentions hback)
    rw [hrun] at hst' hhoists
    dsimp only at hst' hhoists
    rw [hnorm, hP.every_appendStatements hbody] at ht
    refine hhoists.related.2 ht.1 fun x hx => ?_
    exact hP.every_definition.mp (ht.2 _ (List.mem_map_of_mem (hst' ▸ hx)))
  · unfold Node.normalize at ht
    rwa [if_neg hb] at ht

end Condition

/-- **Optional parameters in order.** In a normalized tree no required parameter follows an optional
one exactly if in the tree before none followed one that is optional or accepts null, unless it
accepts null itself. No setter has an optional parameter if none had one that is optional or accepts
null. -/
theorem normalize_parameters {t : Node} (hw : t.WellFormed .source) :
    (t.normalize.1.Every (InOrder marked) ↔ t.Every (InOrder omissible)) ∧
      (t.Every (FirmSetter omissible) → t.normalize.1.Every (FirmSetter marked)) :=
  ⟨⟨condition_inOrder.of_normalize (fun hrel => (inOrder_of_rel hrel).mp) hw,
    condition_inOrder.normalize hw⟩, condition_firmSetter.normalize hw⟩

/-- `function f(a: A, g: (?A, ?B) => C, b: ?B) {}` and `type O = { set x(v: A): void };`. -/
def nullableLast : Node :=
  let name (n : String) : Node := Source.generic n []
  let callback := Source.functionType
    [Source.functionParam none (Source.nullable (name "A")),
      Source.functionParam none (Source.nullable (name "B"))] (name "C")
  let setter : Node := .of .objectTypeProperty
    [(.isOptional, .flag false), (.isStatic, .flag false), (.isProto, .flag false),
      (.isMethod, .flag false), (.kind, .word .set)]
    [(.key, .one (Source.ident "x")), (.variance, .maybe none),
      (.value, .one (Source.functionType [Source.functionParam (some "v") (name "A")]
        (Node.leaf .voidType)))]
  Source.program [Source.function "f" [Source.typedIdent "a" (name "A"),
      Source.typedIdent "g" callback, Source.typedIdent "b" (Source.nullable (name "B"))] [],
    Source.typeAlias "O" (Source.objectType [setter] false)]

theorem normalize_parameters_nullableLast :
    nullableLast.WellFormed .source ∧ nullableLast.normalize.2 = ⟨["_tmp"], 3⟩ ∧
      nullableLast.normalize.1.Every (InOrder marked) ∧
      nullableLast.normalize.1.Every (FirmSetter marked) := by
  have hw : nullableLast.WellFormed .source := by decide +kernel
  obtain ⟨horder, hsetter⟩ := normalize_parameters hw
  exact ⟨hw, by decide +kernel, horder.mpr (by decide +kernel), hsetter (by decide +kernel)⟩

/-- `function f(a: ?A, b: B) {}`. -/
def nullableFirst : Node :=
  Source.program [Source.function "f"
    [Source.typedIdent "a" (Source.nullable (Source.generic "A" [])),
      Source.typedIdent "b" (Source.generic "B" [])] []]

/-- In `function f(a: ?A, b: B) {}` the required parameter comes to follow an optional one. -/
theorem not_normalize_keepsOrder :
    ¬ ∀ t : Node, t.WellFormed .source → t.Every (InOrder marked) → t.Every (FirmSetter marked) →
      t.normalize.1.Every (InOrder marked) ∧ t.normalize.1.Every (FirmSetter marked) := by
  intro h
  have hmarked := h nullableFirst (by decide +kernel) (by decide +kernel) (by decide +kernel)
  exact absurd hmarked.1 (by decide +kernel)

end Typeshift.Normalize
