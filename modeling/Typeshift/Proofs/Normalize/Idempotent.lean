import Mathlib.Algebra.BigOperators.Group.List.Basic
import Typeshift.Proofs.Grammar.Normalize

/-! # Normalizing twice

A tree is *normal* if no flag is left to set and no function type is left to hoist in it.
Normalizing a normal tree changes nothing, and a normalized tree is normal: the references in the
place of function types hold none, and a hoisted type stands on the right of its definition.

* `Saturated`: every part that is marked has its flag.
* `Flat`: no function type stands where it is hoisted.
* `normalize_normalize`: a second normalization changes nothing. -/

namespace Typeshift.Normalize

/-! ### Saturated trees -/

/-- Whether a node is marked, given whether it stands as a parameter. -/
def marks (isParameter : Bool) (h : Head) (s : Slots Unit) : Bool :=
  marksItself h s || (isParameter && h.is .identifier && givesNullable (.mk () h s))

/-- An identifier is not marked because of its own type. -/
theorem marksItself_and_is_identifier (h : Head) (s : Slots Unit) (b : Bool) :
    (marksItself h s && (b && h.is .identifier && givesNullable (.mk () h s))) = false := by
  by_cases hi : h.is .identifier = true
  · have ht : h.tag? = some .identifier := by simpa [Head.is] using hi
    have hm : marksItself h s = false := by unfold marksItself; rw [ht]
    rw [hm, Bool.false_and]
  · rw [Bool.eq_false_iff.mpr hi, Bool.and_false, Bool.false_and, Bool.and_false]

theorem markAt_eq (b : Bool) (h : Head) (s : Slots Unit) :
    markAt b (.mk () h s) = ⟨.mk () (markedHead (h, marks b h s)) (markedSlots h s),
      markedCount h s + if changes (h, marks b h s) then 1 else 0⟩ := by
  unfold markAt marks
  rw [markOptional_mk, Tree.head_mk, markIf_markIf (marksItself_and_is_identifier h s b), markIf_mk]

/-- **No flag is left to set**, given whether the node stands as a parameter. -/
inductive Saturated : Bool → Node → Prop where
  | mk {b : Bool} {h : Head} {s : Slots Unit} (here : changes (h, marks b h s) = false)
      (below : ∀ e ∈ s, ∀ c ∈ e.2.toList, Saturated (holdsParameters h e.1) c) :
    Saturated b (.mk () h s)

/-- Marking a saturated tree changes nothing. -/
theorem markAt_of_saturated {b : Bool} {t : Node} (ht : Saturated b t) : markAt b t = ⟨t, 0⟩ := by
  induction ht with
  | @mk b h s here _ ih =>
    have hslots : markedSlots h s = s := by
      unfold markedSlots
      refine (List.map_congr_left fun e he => ?_).trans (List.map_id s)
      have hid : e.2.map (fun t => (markAt (holdsParameters h e.1) t).node) = e.2.map id :=
        Slot.Rel.map_eq (Slot.rel_refl fun c hc => congrArg Marked.node (ih e he c hc))
      rw [hid, Slot.map_id]
      rfl
    have hcount : markedCount h s = 0 := by
      unfold markedCount
      refine List.sum_eq_foldr.symm.trans (List.sum_eq_zero fun k hk => ?_)
      obtain ⟨e, he, hk⟩ := List.mem_flatMap.mp hk
      obtain ⟨c, hc, rfl⟩ := List.mem_map.mp hk
      exact congrArg Marked.count (ih e he c hc)
    rw [markAt_eq, hslots, hcount, here]
    unfold markedHead
    rw [here]
    rfl

/-! ### What a mark depends on -/

/-- Nodes that are alike to the parts around them, as far as marks are concerned. -/
structure Resembles (t t' : Node) : Prop where
  isNullable : t'.head.is .nullableType = t.head.is .nullableType
  givesNullable : givesNullable t' = givesNullable t

theorem givesNullable_mk (h : Head) (s : Slots Unit) :
    givesNullable (.mk () h s) = match h.tag? with
      | some .ascription => ((s.child? .ty).map (·.head.is .nullableType)).getD false
      | some .identifier => ((s.child? .ty).map givesNullable).getD false
      | _ => false := by
  show nullableRule h (Tree.annotateSlots nullableRule s) = _
  unfold nullableRule
  simp only [Slots.child?_annotateSlots, Option.map_map, Function.comp_def, Tree.head_annotate]
  rfl

section Congr

variable {h h' : Head} {s s' : Slots Unit} (htag : h'.tag? = h.tag?)
  (hty : Option.Rel Resembles (s.child? .ty) (s'.child? .ty))
include hty

omit htag in
/-- What is asked of the type of a node is the same of one that it resembles. -/
theorem map_ty_congr {g : Node → Bool} (hg : ∀ c c', Resembles c c' → g c' = g c) :
    ((s'.child? .ty).map g).getD false = ((s.child? .ty).map g).getD false := by
  generalize s.child? .ty = c, s'.child? .ty = c' at hty ⊢
  cases hty with
  | none => rfl
  | some h => exact hg _ _ h

include htag

theorem resembles_mk : Resembles (.mk () h s) (.mk () h' s') := by
  refine ⟨?_, ?_⟩
  · show Head.is h' _ = Head.is h _
    unfold Head.is
    rw [htag]
  · rw [givesNullable_mk, givesNullable_mk, htag, map_ty_congr hty fun _ _ => Resembles.isNullable,
      map_ty_congr hty fun _ _ => Resembles.givesNullable]

/-- A node is marked as one with the same tag is whose type it resembles. -/
theorem marks_congr (b : Bool) : marks b h' s' = marks b h s := by
  have hself : marksItself h' s' = marksItself h s := by
    unfold marksItself
    rw [htag, map_ty_congr hty fun _ _ => Resembles.isNullable,
      map_ty_congr hty fun _ _ => Resembles.givesNullable]
  unfold marks Head.is
  rw [hself, htag, (resembles_mk htag hty).givesNullable]

end Congr

/-! ### Marked trees are saturated -/

theorem tag?_markedHead (x : Head × Bool) : (markedHead x).tag? = x.1.tag? := by
  unfold markedHead
  split_ifs <;> rfl

theorem resembles_markAt (b : Bool) (t : Node) : Resembles t (markAt b t).node := by
  induction t using Tree.induct generalizing b with
  | step _ h s ih =>
    rw [markAt_eq]
    have hrel : s.RelIn (fun _ => Resembles) (markedSlots h s) :=
      relIn_markedSlots fun c hc b _ => ih c hc b
    exact resembles_mk (tag?_markedHead _) (hrel.child? .ty)

/-- A node that is marked has a flag, so it has it set. -/
theorem changes_markedHead {h : Head} (hF : HasFlag h) (b : Bool) (s : Slots Unit) :
    changes (markedHead (h, marks b h s), marks b h s) = false := by
  cases hm : marks b h s with
  | false => rfl
  | true =>
    have htag : h.isAny [.functionTypeParam, .identifier, .classProperty,
        .classPrivateProperty] = true := by
      unfold marks at hm
      rw [Bool.or_eq_true, Bool.and_eq_true, Bool.and_eq_true] at hm
      rcases hm with hm | ⟨⟨-, hi⟩, -⟩
      · unfold marksItself at hm
        split at hm <;> first | cases hm | simp [Head.isAny, Head.is, *]
      · simp [Head.isAny, hi]
    obtain ⟨c, hc⟩ := hF htag
    unfold markedHead changes
    cases hf : h.flag .isOptional with
    | true => simp [hf]
    | false => simp [Head.flag_setAttr hc]

/-- **A marked tree is saturated.** -/
theorem saturated_markAt {t : Node} (ht : t.Every fun h _ => HasFlag h) (b : Bool) :
    Saturated b (markAt b t).node := by
  induction t using Tree.induct generalizing b with
  | step _ h s ih =>
    cases ht with
    | mk here below =>
      have hrel : s.RelIn (fun _ => Resembles) (markedSlots h s) :=
        relIn_markedSlots fun c _ b _ => resembles_markAt b c
      rw [markAt_eq]
      refine .mk ?_ fun e' he' c' hc' => ?_
      · rw [marks_congr (tag?_markedHead _) (hrel.child? .ty)]
        exact changes_markedHead here b s
      · obtain ⟨e, he, rfl⟩ := List.mem_map.mp he'
        rw [Slot.toList_map] at hc'
        obtain ⟨c, hc, rfl⟩ := List.mem_map.mp hc'
        have hmem : c ∈ s.toList := Slots.mem_toList.mpr ⟨e, he, hc⟩
        have hparameters : holdsParameters (markedHead (h, marks b h s)) e.1 =
            holdsParameters h e.1 := by
          unfold holdsParameters hasParameters Head.isAny Head.is
          rw [tag?_markedHead]
        rw [hparameters]
        exact ih c hmem (below c hmem) _

/-! ### Normal trees -/

/-- **No function type is left to hoist** from a node at a position. -/
def Flat (p : Position) (t : Node) : Prop := ∀ around F, ¬ HoistedIn p t around F

theorem flat_mk {p : Position} {h : Head} {s : Slots Unit}
    (hp : ¬ (h.is .functionType && p = .other) = true)
    (below : ∀ e ∈ s, ∀ c ∈ e.2.toList, Flat (p.child h e.1) c) : Flat p (.mk () h s) := by
  intro around F hF
  cases hF with
  | here hf => exact hp (by simp [hf])
  | inside he hc hF => exact below _ he _ hc _ F hF

/-- Hoisting from a tree without such types changes nothing. -/
theorem hoist_of_flat {p : Position} {t : Node} (ht : Flat p t) (st : Hoisting) :
    Ensures (· = st) (t.synthesize hoistRule p) (· = t) := by
  induction t using Tree.induct generalizing p with
  | step _ h s ih =>
    intro st' hst'
    subst st'
    have hparts : ∀ e ∈ s, ∀ c ∈ e.2.toList,
        Ensures (· = st) (c.synthesize hoistRule (p.child h e.1)) (· = c) := by
      intro e he c hc
      exact ih c (Slots.mem_toList.mpr ⟨e, he, hc⟩) fun around F hF => ht _ F (.inside he hc hF)
    obtain ⟨hst', hrel⟩ := ensures_hoistSlots (R := fun _ c c' => c' = c) hparts st rfl
    have hslots := Slots.Rel.mapTrees_eq (f := fun c => c) (g := fun c => c) hrel
    rw [Slots.mapTrees_id, Slots.mapTrees_id] at hslots
    have hp : ¬ (h.is .functionType && p = .other) = true := by
      intro hp
      obtain ⟨hf, hp⟩ := Bool.and_eq_true_iff.mp hp
      obtain rfl : p = .other := of_decide_eq_true hp
      exact ht _ _ (.here hf)
    rw [Tree.synthesize_mk, hoistRule_eq, if_neg hp, hslots]
    exact ⟨hst', rfl⟩

/-- **A normal tree**: no flag is left to set and no function type is left to hoist. -/
structure Normal (b : Bool) (p : Position) (t : Node) : Prop where
  saturated : Saturated b t
  flat : Flat p t

theorem normal_mk {b : Bool} {p : Position} {h : Head} {s : Slots Unit}
    (here : changes (h, marks b h s) = false) (hp : ¬ (h.is .functionType && p = .other) = true)
    (below : ∀ e ∈ s, ∀ c ∈ e.2.toList, Normal (holdsParameters h e.1) (p.child h e.1) c) :
    Normal b p (.mk () h s) :=
  ⟨.mk here fun e he c hc => (below e he c hc).saturated,
    flat_mk hp fun e he c hc => (below e he c hc).flat⟩

/-! ### What hoisting leaves is normal -/

/-- What becomes of a node at a position resembles it and is normal. -/
structure Settles (b : Bool) (p : Position) (t t' : Node) : Prop where
  resembles : Resembles t t'
  normal : Normal b p t'

/-- The hoisted types are normal on the right of their definitions. -/
def HoistedNormal (st : Hoisting) : Prop := ∀ x ∈ st.hoisted, Normal false .definition x.type

theorem normal_ident (b : Bool) (p : Position) (name : String) :
    Normal b p (Source.ident name) := by
  have hmarks : marks b (Head.ofTag .identifier [(.name, .text name), (.isOptional, .flag false)])
      [(.ty, .maybe none)] = false := by cases b <;> rfl
  refine normal_mk ?_ (fun h => by cases h) fun e he c hc => ?_
  · rw [hmarks]; rfl
  · rw [List.mem_singleton.mp he] at hc
    cases hc

theorem normal_reference (b : Bool) (name : String) (span : Option Span) :
    Normal b .other ((Source.generic name []).withSpan span) := by
  have hmarks : marks b ⟨.known .genericType, [], .none, span⟩
      (Source.generic name []).slots = false := by cases b <;> rfl
  refine normal_mk (s := (Source.generic name []).slots) ?_ (fun h => by cases h)
    fun e he c hc => ?_
  · exact congrArg (fun m => m && _) hmarks
  · rcases List.mem_pair.mp he with rfl | rfl
    · rw [List.mem_singleton.mp hc]
      exact normal_ident _ _ name
    · cases hc

/-- A function type is not marked, and neither is a reference. -/
theorem resembles_reference {h : Head} {s : Slots Unit} (hf : h.is .functionType = true)
    (name : String) (span : Option Span) :
    Resembles (.mk () h s) ((Source.generic name []).withSpan span) := by
  have htag : h.tag? = some .functionType := by simpa [Head.is] using hf
  refine ⟨?_, ?_⟩
  · show false = h.is .nullableType
    unfold Head.is
    rw [htag]
    rfl
  · rw [givesNullable_mk, htag]
    rfl

/-- A function type whose parts are normal is normal on the right of its definition. -/
theorem Normal.definition {h : Head} {s : Slots Unit} (hf : h.is .functionType = true)
    (below : ∀ e ∈ s, ∀ c ∈ e.2.toList,
      Normal (holdsParameters h e.1) (Position.other.child h e.1) c) :
    Normal false .definition (.mk () h s) := by
  have htag : h.tag? = some .functionType := by simpa [Head.is] using hf
  have hmarks : marks false h s = false := by
    unfold marks marksItself
    rw [htag]
    rfl
  have hchild : ∀ f, Position.definition.child h f = Position.other.child h f := by
    intro f
    unfold Position.child
    rw [htag]
  refine normal_mk ?_ (by simp) fun e he c hc => ?_
  · rw [hmarks]; rfl
  · rw [hchild]
    exact below e he c hc

/-- **What hoisting makes of a saturated tree is normal.** -/
theorem ensures_settles {b : Bool} {t : Node} (ht : Saturated b t) (p : Position) :
    Ensures HoistedNormal (t.synthesize hoistRule p) (Settles b p t) := by
  induction ht generalizing p with
  | @mk b h s here _ ih =>
    intro st hst
    obtain ⟨hst', hrel⟩ := ensures_hoistSlots
      (R := fun f => Settles (holdsParameters h f) (p.child h f))
      (fun e he c hc => ih e he c hc (p.child h e.1)) st hst
    rw [Tree.synthesize_mk, hoistRule_eq]
    generalize hoistSlots (p.child h) (Tree.annotateSlots hoistRule s) st = r at hst' hrel
    obtain ⟨s', st'⟩ := r
    dsimp only at hst' hrel ⊢
    have hty : Option.Rel Resembles (s.child? .ty) (s'.child? .ty) := by
      have hchild := hrel.child? .ty
      generalize s.child? .ty = c, s'.child? .ty = c' at hchild ⊢
      cases hchild with
      | none => exact .none
      | some h => exact .some h.resembles
    have hbelow : ∀ e ∈ s', ∀ c ∈ e.2.toList,
        Normal (holdsParameters h e.1) (p.child h e.1) c := by
      intro e' he' c' hc'
      obtain ⟨e, -, hfield, c, -, hsettles⟩ := hrel.mem_right he' hc'
      rw [← hfield]
      exact hsettles.normal
    split_ifs with hlift
    · obtain ⟨hf, hp⟩ := Bool.and_eq_true_iff.mp hlift
      obtain rfl : p = .other := of_decide_eq_true hp
      refine ⟨fun x hx => ?_, resembles_reference hf _ _, normal_reference b _ _⟩
      rcases List.mem_append.mp hx with hx | hx
      · exact hst' x hx
      · rw [List.mem_singleton.mp hx]
        exact .definition hf hbelow
    · refine ⟨hst', resembles_mk rfl hty, normal_mk ?_ hlift hbelow⟩
      rw [marks_congr rfl hty]
      exact here

/-! ### Appended definitions -/

theorem normal_definition {x : Hoisted} (hx : Normal false .definition x.type) :
    Normal false .other x.definition := by
  show Normal false .other (.mk () (Head.ofTag .typeAlias []) [(.id, .one (Source.ident x.name)),
    (.typeParameters, .maybe none), (.right, .one x.type)])
  refine normal_mk rfl (fun h => by cases h) ?_
  refine List.forall_mem_cons.mpr ⟨fun c hc => ?_, List.forall_mem_cons.mpr ⟨nofun, ?_⟩⟩
  · rw [List.mem_singleton.mp hc]
    exact normal_ident _ _ x.name
  · refine List.forall_mem_singleton.mpr fun c hc => ?_
    rw [List.mem_singleton.mp hc]
    exact hx

section Append

theorem child_body (h : Head) : Position.other.child h .body = .other := by
  unfold Position.child
  split <;> first | rfl | contradiction

theorem child_program (h : Head) : Position.other.child h .program = .other := by
  unfold Position.child
  split <;> first | rfl | contradiction

theorem holdsParameters_of_ne (h : Head) {f : Field} (hf : f ≠ .params) :
    holdsParameters h f = false := by simp [holdsParameters, hf]

/-- The parts of a normal node are normal where they stand. -/
theorem Normal.below {b : Bool} {p : Position} {h : Head} {s : Slots Unit}
    (ht : Normal b p (.mk () h s)) {e : Field × Slot Node} (he : e ∈ s) {c : Node}
    (hc : c ∈ e.2.toList) : Normal (holdsParameters h e.1) (p.child h e.1) c := by
  obtain ⟨hsaturated, hflat⟩ := ht
  cases hsaturated with
  | mk _ below => exact ⟨below e he c hc, fun around F hF => hflat _ F (.inside he hc hF)⟩

/-- A normal node with other parts that are normal, and a type that resembles its own. -/
theorem Normal.replace {b : Bool} {p : Position} {h : Head} {s s' : Slots Unit}
    (ht : Normal b p (.mk () h s)) (hty : Option.Rel Resembles (s.child? .ty) (s'.child? .ty))
    (below : ∀ e ∈ s', ∀ c ∈ e.2.toList, Normal (holdsParameters h e.1) (p.child h e.1) c) :
    Normal b p (.mk () h s') := by
  obtain ⟨hsaturated, hflat⟩ := ht
  cases hsaturated with
  | mk here _ =>
    refine normal_mk ?_ (fun hp => ?_) below
    · rw [marks_congr rfl hty]
      exact here
    · obtain ⟨hf, hp⟩ := Bool.and_eq_true_iff.mp hp
      obtain rfl : p = .other := of_decide_eq_true hp
      exact hflat _ _ (.here hf)

/-- The type of a program stays. -/
theorem rel_child?_onBody (g : List Node → List Node) (s : Slots Unit) :
    Option.Rel Resembles (s.child? .ty) (Slots.child? (s.map (onBody g)) .ty) := by
  rw [child?_onBody]
  cases s.child? .ty with
  | none => exact .none
  | some c => exact .some ⟨rfl, rfl⟩

theorem resembles_appendToProgram (xs : List Node) (t : Node) :
    Resembles t (appendToProgram xs t) := by
  obtain ⟨_, h, s⟩ := t
  rw [appendToProgram_eq]
  exact resembles_mk rfl (rel_child?_onBody (· ++ xs) s)

variable {xs : List Node} (hxs : ∀ x ∈ xs, Normal false .other x) {b : Bool} {t : Node}
include hxs

theorem normal_appendToProgram (ht : Normal b .other t) :
    Normal b .other (appendToProgram xs t) := by
  obtain ⟨_, h, s⟩ := t
  rw [appendToProgram_eq]
  refine ht.replace (rel_child?_onBody (· ++ xs) s) fun e' he' c hc => ?_
  obtain ⟨e, he, rfl⟩ := List.mem_map.mp he'
  rcases onBody_cases e with ⟨body, rfl⟩ | hid
  · rcases List.mem_append.mp hc with hc | hx
    · exact ht.below he hc
    · show Normal (holdsParameters h .body) (Position.other.child h .body) c
      rw [child_body, holdsParameters_of_ne h (by decide)]
      exact hxs c hx
  · rw [hid] at hc ⊢
    exact ht.below he hc

/-- **Normal statements may be appended.** -/
theorem normal_appendStatements (ht : Normal b .other t) :
    Normal b .other (appendStatements xs t) := by
  rw [appendStatements_eq]
  split_ifs with hfile
  · obtain ⟨_, h, s⟩ := t
    have hrel : Slots.RelIn (fun _ => Resembles) s (s.map (onProgram (appendToProgram xs))) :=
      relIn_onProgram fun c _ _ => ⟨⟨rfl, rfl⟩, resembles_appendToProgram xs c⟩
    refine ht.replace (hrel.child? .ty) fun e' he' c hc => ?_
    obtain ⟨e, he, rfl⟩ := List.mem_map.mp he'
    rcases onProgram_cases e with ⟨q, rfl⟩ | hid
    · have hq := ht.below he (List.mem_singleton_self q)
      rw [List.mem_singleton.mp hc]
      show Normal _ (Position.other.child h .program) _
      rw [child_program] at hq ⊢
      exact normal_appendToProgram hxs hq
    · rw [hid] at hc ⊢
      exact ht.below he hc
  · exact normal_appendToProgram hxs ht

end Append

theorem appendToProgram_nil (t : Node) : appendToProgram [] t = t := by
  obtain ⟨_, h, s⟩ := t
  rw [appendToProgram_eq]
  refine congrArg (Tree.mk () h) ((List.map_congr_left fun e _ => ?_).trans (List.map_id s))
  rcases onBody_cases e with ⟨body, rfl⟩ | hid
  · simp [onBody]
  · simp [hid]

theorem appendStatements_nil (t : Node) : appendStatements [] t = t := by
  rw [appendStatements_eq]
  split_ifs
  · obtain ⟨_, h, s⟩ := t
    refine congrArg (Tree.mk () h) ((List.map_congr_left fun e _ => ?_).trans (List.map_id s))
    rcases onProgram_cases e with ⟨q, rfl⟩ | hid
    · simp [onProgram, appendToProgram_nil]
    · simp [hid]
  · exact appendToProgram_nil t

/-! ### Normalizing twice -/

theorem markOptional_of_saturated {t : Node} (ht : Saturated false t) : markOptional t = ⟨t, 0⟩ :=
  markAt_of_saturated ht

/-- **Normalizing a normal tree changes nothing.** -/
theorem normalize_of_normal {t : Node} (ht : Normal false .other t) :
    t.normalize = (t, ⟨[], 0⟩) := by
  unfold Node.normalize
  rw [markOptional_of_saturated ht.saturated]
  obtain ⟨hst, hnode⟩ := hoist_of_flat ht.flat ⟨t.names, []⟩ _ rfl
  have hhoist : hoist t = (t, []) := Prod.ext hnode (congrArg Hoisting.hoisted hst)
  dsimp only
  rw [hhoist]
  split_ifs
  · rw [List.map_nil, List.map_nil, appendStatements_nil]
  · rfl

theorem normalize_of_not_hasBody {t : Node} (ht : Saturated false t) (hb : hasBody t = false) :
    t.normalize = (t, ⟨[], 0⟩) := by
  unfold Node.normalize
  rw [markOptional_of_saturated ht, if_neg (by rw [hb]; exact Bool.false_ne_true)]

theorem hasBody_clearOptional (t : Node) : hasBody t.clearOptional = hasBody t := by
  obtain ⟨_, h, s⟩ := t
  rw [Node.clearOptional_mk]
  unfold hasBody
  rw [Tree.slots_mk, Tree.slots_mk, Slots.child?_mapTrees]
  cases Slots.child? s .program with
  | none => rfl
  | some p =>
    obtain ⟨_, k, s'⟩ := p
    rw [Option.map_some, Node.clearOptional_mk]
    rfl

theorem hasBody_markOptional (t : Node) : hasBody (markOptional t).node = hasBody t := by
  rw [← hasBody_clearOptional, clearOptional_markOptional, hasBody_clearOptional]

theorem saturated_markOptional {t : Node} (hw : t.WellFormed .source) :
    Saturated false (markOptional t).node :=
  saturated_markAt (Node.Every.imp₂ hw hw fun _ _ hfits _ => hasFlag_of_fits hfits) false

/-- **Normalization is idempotent.** Normalizing a normalized tree leaves it as it is: no type is
hoisted and no part is marked. -/
theorem normalize_normalize {t : Node} (hw : t.WellFormed .source) :
    t.normalize.1.normalize = (t.normalize.1, ⟨[], 0⟩) := by
  have hmarked := saturated_markOptional hw
  by_cases hb : hasBody t = true
  · refine normalize_of_normal ?_
    obtain ⟨hst, hsettles⟩ :=
      ensures_settles hmarked .other ⟨(markOptional t).node.names, []⟩ nofun
    unfold Node.normalize
    rw [if_pos hb]
    refine normal_appendStatements (fun x hx => ?_) hsettles.normal
    obtain ⟨y, hy, rfl⟩ := List.mem_map.mp hx
    exact normal_definition (hst y hy)
  · have heq : t.normalize.1 = (markOptional t).node := by
      unfold Node.normalize
      rw [if_neg hb]
    rw [heq]
    exact normalize_of_not_hasBody hmarked
      ((hasBody_markOptional t).trans (Bool.eq_false_iff.mpr hb))

theorem normalize_normalize_nestedCallback :
    nestedCallback.normalize.2 = ⟨["_tmp", "_tmp2"], 2⟩ ∧
      nestedCallback.normalize.1.normalize = (nestedCallback.normalize.1, ⟨[], 0⟩) :=
  ⟨by decide +kernel, normalize_normalize (by decide +kernel)⟩

end Typeshift.Normalize
