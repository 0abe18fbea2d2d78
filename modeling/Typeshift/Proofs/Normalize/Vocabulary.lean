import Typeshift.Proofs.Normalize.Scope
import Typeshift.Proofs.Tree.Bodies

/-! # Vocabulary and names of a normalized tree

Normalization stays within the source vocabulary and drops no name. What it adds are the names of
the hoisted types, and these are new. Nodes that are not known keep the value they were read with,
with the identifiers in it; no pass looks at those.

* `Node.gather`: what the nodes of a tree contribute to a list of names.
* `Node.rawNames`: the identifiers in the values of nodes that are not known.
* `Conveys`: what hoisting keeps of a node.
* `normalize_conveys`: what normalization keeps. -/

namespace Typeshift

/-! ### Names of values -/

namespace Json

/-- The name of an object, if it is an identifier. -/
def identifierName? (entries : List (String × Json)) : Option String :=
  if (lookup "type" entries).bind text? = some "Identifier" then (lookup "name" entries).bind text?
  else none

mutual

/-- The names of the identifiers in a value. -/
def identifierNames : Json → List String
  | .arr items => itemNames items
  | .obj entries => (identifierName? entries).toList ++ entryNames entries
  | _ => []

/-- The names of the identifiers in the items of an array. -/
def itemNames : List Json → List String
  | [] => []
  | v :: rest => identifierNames v ++ itemNames rest

/-- The names of the identifiers in the entries of an object. -/
def entryNames : List (String × Json) → List String
  | [] => []
  | (_, v) :: rest => identifierNames v ++ entryNames rest

end

end Json

/-- The names of the identifiers in the value of a node that is not known. -/
def Head.rawNames (h : Head) : List String :=
  match h.kind with
  | .foreign _ raw => raw.identifierNames
  | .known _ => []

namespace Node

/-- What the nodes of a tree contribute to a list. -/
def gather (k : Head → List String) (t : Node) : List String := t.preorder.flatMap k

/-- The names of the identifiers in the values of nodes that are not known. -/
def rawNames (t : Node) : List String := t.gather Head.rawNames

variable {k : Head → List String} {h : Head} {s : Slots Unit} {n : String}

theorem mem_gather_mk :
    n ∈ gather k (.mk () h s) ↔ n ∈ k h ∨ ∃ c ∈ s.toList, n ∈ gather k c := by
  unfold gather
  rw [Node.preorder_mk, List.flatMap_cons, List.mem_append, List.flatMap_assoc]
  simp only [List.mem_flatMap]

theorem mentions_eq_gather (t : Node) : t.mentions = t.gather fun h => h.mention?.toList := by
  unfold mentions gather
  rw [List.filterMap_eq_flatMap_toList]

theorem mem_gather_of_occurs {a t : Node} {o : Option Body} (ha : Occurs a t o)
    (hn : n ∈ gather k a) : n ∈ gather k t := by
  induction ha with
  | here => exact hn
  | within hslot hc _ ih =>
    exact mem_gather_mk.mpr (.inr ⟨_, Slots.mem_toList.mpr ⟨_, hslot, hc⟩, ih⟩)

end Node

/-! ### Fields -/

section Fits

variable {h : Head} {s s' : Slots Unit}

/-- The same fields with slots of the same kinds. -/
def Alike (s s' : Slots Unit) : Prop :=
  List.Forall₂ (fun e e' => e'.1 = e.1 ∧
    ∀ spec : FieldSpec, spec.admits (.slot e'.2) = spec.admits (.slot e.2)) s s'

theorem alike_of_rel {R : Node → Node → Prop} (hrel : s.Rel R s') : Alike s s' := by
  refine List.Forall₂.imp ?_ hrel
  rintro ⟨f, a⟩ ⟨f', b⟩ ⟨rfl, hab⟩
  exact ⟨rfl, fun spec => by cases hab <;> rfl⟩

theorem alike_map {g : Field × Slot Node → Field × Slot Node} (hg : ∀ e, (g e).1 = e.1 ∧
    ∀ spec : FieldSpec, spec.admits (.slot (g e).2) = spec.admits (.slot e.2)) :
    Alike s (s.map g) := by
  unfold Alike
  rw [List.forall₂_map_right_iff, List.forall₂_same]
  exact fun e _ => hg e

theorem Alike.any_admits (h : Alike s s') (spec : FieldSpec) (f : Field) :
    ((s'.get? f).any fun slot => spec.admits (.slot slot)) =
      (s.get? f).any fun slot => spec.admits (.slot slot) := by
  unfold Slots.get?
  induction h with
  | nil => rfl
  | @cons e e' _ _ he _ ih =>
    obtain ⟨f₁, a⟩ := e
    obtain ⟨f₂, b⟩ := e'
    obtain ⟨rfl, hadmits⟩ := he
    rw [List.lookup_cons, List.lookup_cons]
    cases f == f₂ with
    | true => exact hadmits spec
    | false => exact ih

/-- Whether a node has the fields of its shape does not depend on the trees in them. -/
theorem Sourced.alike (hs : Sourced h s) (halike : Alike s s') : Sourced h s' := by
  refine ⟨fun t ht => ?_, hs.2⟩
  obtain ⟨hfilled, hfields⟩ := hs.1 t ht
  refine ⟨fun spec hspec => ?_, fun e' he' => ?_⟩
  · have hold := hfilled spec hspec
    unfold FieldSpec.isFilled at hold ⊢
    rwa [halike.any_admits]
  · obtain ⟨e, he, heq, -⟩ := exists_of_forall₂_left (List.Forall₂.flip halike) he'
    rw [heq]
    exact hfields e he

theorem optional_isFlag (t : Tag) : ∀ spec ∈ t.fields .source, spec.field = .isOptional →
    spec.type = .flag := by
  cases t <;> decide

/-- The flag of an optional part may be set. -/
theorem Sourced.setOptional (hs : Sourced h s) (b : Bool) :
    Sourced (h.setAttr .isOptional (.flag b)) s := by
  refine ⟨fun t ht => ⟨fun spec hspec => ?_, (hs.1 t ht).2⟩, hs.2⟩
  have hold := (hs.1 t ht).1 spec hspec
  unfold FieldSpec.isFilled at hold ⊢
  by_cases hf : spec.field = .isOptional
  · rw [hf] at hold ⊢
    rw [Head.attr?_setAttr]
    cases hattr : h.attr? .isOptional with
    | none => rwa [hattr] at hold
    | some a => simp [FieldSpec.admits, optional_isFlag t spec hspec hf]
  · rwa [Head.attr?_setAttr_of_ne h hf]

end Fits

namespace Normalize

/-! ### Marking -/

theorem sourced_markedHead {h : Head} {s : Slots Unit} (hs : Sourced h s) (c : Bool) :
    Sourced (markedHead (h, c)) s := by
  unfold markedHead
  split_ifs
  · exact hs.setOptional true
  · exact hs

theorem sourced_markAt {t : Node} (ht : t.Every Sourced) (b : Bool) :
    (markAt b t).node.Every Sourced := by
  induction t using Tree.induct generalizing b with
  | step _ h s ih =>
    cases ht with
    | mk here below =>
      unfold markAt
      rw [markOptional_mk, markIf_mk, markIf_mk]
      refine .mk ((sourced_markedHead (sourced_markedHead here _) _).alike
        (alike_of_rel (rel_markedSlots h s))) ?_
      intro c' hc'
      obtain ⟨c, -, hmem, b, rfl⟩ := (rel_markedSlots h s).mem_right hc'
      exact ih c hmem (below c hmem) b

theorem rawNames_markOptional (t : Node) : (markOptional t).node.rawNames = t.rawNames := by
  have hclear (u : Node) : u.clearOptional.rawNames = u.rawNames := by
    unfold Node.rawNames Node.gather
    rw [Node.preorder_clearOptional, List.flatMap_map]
    rfl
  rw [← hclear, clearOptional_markOptional, hclear]

/-! ### Hoisting -/

/-- **What hoisting keeps of a node**: the vocabulary, the names, which may have moved to a hoisted
type, and the values of nodes that are not known. -/
structure Conveys (st : Hoisting) (t t' : Node) : Prop where
  sourced : t.Every Sourced → t'.Every Sourced
  mentions : ∀ n ∈ t.mentions, n ∈ t'.mentions ∨ ∃ x ∈ st.hoisted, n ∈ x.type.mentions
  raw : ∀ n ∈ t'.rawNames, n ∈ t.rawNames

theorem sourced_ident (name : String) : (Source.ident name).Every Sourced :=
  .mk (of_decide_eq_true rfl) nofun

theorem sourced_reference (name : String) (span : Option Span) :
    ((Source.generic name []).withSpan span).Every Sourced :=
  .mk (of_decide_eq_true rfl) (List.forall_mem_singleton.mpr (sourced_ident name))

theorem rawNames_reference (name : String) (span : Option Span) :
    ((Source.generic name []).withSpan span).rawNames = [] := rfl

theorem carries_conveys (T : List String) : Carries T Conveys where
  lasting _ _ _ _ hrun h :=
    ⟨h.sourced, fun n hn => (h.mentions n hn).imp_right fun ⟨x, hx, hm⟩ => ⟨x, hrun.mem hx, hm⟩,
      h.raw⟩
  node {st h s s'} _ _ hrel := by
    refine ⟨fun ht => ?_, fun n hn => ?_, fun n hn => ?_⟩
    · cases ht with
      | mk here below =>
        refine .mk (here.alike (alike_of_rel hrel)) fun c' hc' => ?_
        obtain ⟨c, hc, hconveys⟩ := hrel.mem_right hc'
        exact hconveys.sourced (below c hc)
    · rcases Node.mem_mentions_mk.mp hn with hm | ⟨c, hc, hm⟩
      · exact .inl (Node.mem_mentions_mk.mpr (.inl hm))
      · obtain ⟨c', hc', hconveys⟩ := hrel.mem_left hc
        refine (hconveys.mentions n hm).imp_left fun hm => ?_
        exact Node.mem_mentions_mk.mpr (.inr ⟨c', hc', hm⟩)
    · rcases Node.mem_gather_mk.mp hn with hm | ⟨c', hc', hm⟩
      · exact Node.mem_gather_mk.mpr (.inl hm)
      · obtain ⟨c, hc, hconveys⟩ := hrel.mem_right hc'
        exact Node.mem_gather_mk.mpr (.inr ⟨c, hc, hconveys.raw n hm⟩)
  lift {st t t'} span _ _ h := by
    have hself : ∃ x ∈ (st.lifted t').hoisted, x.type = t' :=
      ⟨_, List.mem_append.mpr (.inr (List.mem_singleton.mpr rfl)), rfl⟩
    refine ⟨fun _ => sourced_reference _ _, fun n hn => .inr ?_, fun n hn => ?_⟩
    · rcases h.mentions n hn with hm | ⟨x, hx, hm⟩
      · obtain ⟨x, hx, rfl⟩ := hself
        exact ⟨x, hx, hm⟩
      · exact ⟨x, List.mem_append.mpr (.inl hx), hm⟩
    · rw [rawNames_reference] at hn
      cases hn

theorem HoistedIn.occurs {p : Position} {t F : Node} {around : List Node}
    (hF : HoistedIn p t around F) : ∃ o, Occurs F t o := by
  induction hF with
  | here => exact ⟨_, .here⟩
  | inside he hc _ ih =>
    obtain ⟨o, ho⟩ := ih
    exact ⟨_, .within he hc ho⟩

/-! ### Appended definitions -/

theorem sourced_definition {x : Hoisted} (hx : x.type.Every Sourced) :
    x.definition.Every Sourced := by
  refine .mk (of_decide_eq_true rfl) fun c hc => ?_
  rcases List.mem_pair.mp hc with rfl | rfl
  · exact sourced_ident x.name
  · exact hx

theorem mem_gather_definition {k : Head → List String} {x : Hoisted} {n : String}
    (hn : n ∈ x.type.gather k) : n ∈ x.definition.gather k :=
  Node.mem_gather_mk.mpr (.inr ⟨x.type, List.mem_pair.mpr (.inr rfl), hn⟩)

theorem mem_rawNames_of_definition {x : Hoisted} {n : String} (hn : n ∈ x.definition.rawNames) :
    n ∈ x.type.rawNames := by
  rcases Node.mem_gather_mk.mp hn with hn | ⟨c, hc, hn⟩
  · cases hn
  · rcases List.mem_pair.mp hc with rfl | rfl
    · cases hn
    · exact hn

section Append

variable {xs : List Node}

/-- Names gathered from nodes of which programs and files are none. -/
theorem gathers_gather {k : Head → List String}
    (hk : ∀ h : Head, h.is .program = true ∨ h.is .file = true → k h = []) :
    Gathers (Node.gather k) where
  top {h s n} hh := by
    rw [Node.mem_gather_mk, hk h hh]
    simp
  kept {xs t n} hn := by
    obtain ⟨⟨⟩, h, s⟩ := t
    rw [appendToProgram_eq]
    refine Node.mem_gather_mk.mpr ((Node.mem_gather_mk.mp hn).imp_right ?_)
    rintro ⟨c, hc, hn⟩
    exact ⟨c, mem_toList_onBody_of_mem hc, hn⟩
  added {xs t n} hn := by
    obtain ⟨⟨⟩, h, s⟩ := t
    rw [appendToProgram_eq] at hn
    rcases Node.mem_gather_mk.mp hn with hk | ⟨c, hc, hn⟩
    · exact .inl (Node.mem_gather_mk.mpr (.inl hk))
    · rcases mem_toList_onBody hc with hc | hx
      · exact .inl (Node.mem_gather_mk.mpr (.inr ⟨c, hc, hn⟩))
      · exact .inr ⟨c, hx, hn⟩

theorem mention?_program {h : Head} (hh : h.is .program = true ∨ h.is .file = true) :
    h.mention?.toList = [] := by
  simp only [Head.is, beq_iff_eq] at hh
  rcases hh with hh | hh <;> simp [Head.mention?, Head.isAny, Head.is, hh]

theorem rawNames_program {h : Head} (hh : h.is .program = true ∨ h.is .file = true) :
    h.rawNames = [] := by
  unfold Head.rawNames
  split
  · next heq =>
    unfold Head.is Head.tag? at hh
    rw [heq] at hh
    rcases hh with hh | hh <;> cases hh
  · rfl

theorem alike_onBody (g : List Node → List Node) (s : Slots Unit) : Alike s (s.map (onBody g)) := by
  refine alike_map fun e => ?_
  rcases onBody_cases e with ⟨body, rfl⟩ | he
  · exact ⟨rfl, fun _ => rfl⟩
  · rw [he]
    exact ⟨rfl, fun _ => rfl⟩

theorem alike_onProgram (g : Node → Node) (s : Slots Unit) : Alike s (s.map (onProgram g)) := by
  refine alike_map fun e => ?_
  rcases onProgram_cases e with ⟨p, rfl⟩ | he
  · exact ⟨rfl, fun _ => rfl⟩
  · rw [he]
    exact ⟨rfl, fun _ => rfl⟩

theorem sourced_appendToProgram (hxs : ∀ x ∈ xs, x.Every Sourced) {t : Node}
    (ht : t.Every Sourced) : (appendToProgram xs t).Every Sourced := by
  cases ht with
  | mk here below =>
    rw [appendToProgram_eq]
    exact .mk (here.alike (alike_onBody _ _)) fun c hc =>
      (mem_toList_onBody hc).elim (below c) (hxs c)

theorem sourced_appendStatements (hxs : ∀ x ∈ xs, x.Every Sourced) {t : Node}
    (ht : t.Every Sourced) : (appendStatements xs t).Every Sourced := by
  rw [appendStatements_eq]
  split_ifs
  · cases ht with
    | mk here below =>
      refine .mk (here.alike (alike_onProgram _ _)) fun c hc => ?_
      obtain ⟨e', he', hc⟩ := Slots.mem_toList.mp hc
      obtain ⟨e, he, rfl⟩ := List.mem_map.mp he'
      have hbelow : ∀ c ∈ e.2.toList, Node.Every Sourced c := fun c hc =>
        below c (Slots.mem_toList.mpr ⟨e, he, hc⟩)
      rcases onProgram_cases e with ⟨p, rfl⟩ | hid
      · rw [List.mem_singleton.mp hc]
        exact sourced_appendToProgram hxs (hbelow p (List.mem_singleton_self p))
      · rw [hid] at hc
        exact hbelow c hc
  · exact sourced_appendToProgram hxs ht

end Append

/-! ### Normalization -/

/-- **What normalization keeps**: the vocabulary, the names and the values of nodes that are not
known; and the names of the hoisted types are new. -/
theorem normalize_conveys {t : Node} (ht : t.Every Sourced) :
    t.normalize.1.Every Sourced ∧ (∀ n ∈ t.mentions, n ∈ t.normalize.1.mentions) ∧
      (∀ n ∈ t.normalize.1.rawNames, n ∈ t.rawNames) ∧
      ∀ n ∈ t.normalize.2.hoisted, n ∉ t.mentions := by
  have hmarked : (markOptional t).node.Every Sourced := sourced_markAt ht false
  by_cases hb : hasBody t = true
  · have hw : t.WellFormed .source := Node.Every.imp₂ ht ht fun _ _ h _ => h.1
    obtain ⟨st, core, body, hsupply, hnorm, hrun, -, hbody⟩ := normalize_eq hw hb
    obtain ⟨st', hst', hreached, hhoists⟩ :=
      run_hoist (carries_conveys (markOptional t).node.mentions)
    rw [hrun] at hst' hhoists
    dsimp only at hst' hhoists
    rw [hst'] at hnorm
    have hdefinitions : ∀ x ∈ st'.hoisted.map Hoisted.definition, x.Every Sourced := by
      intro x hx
      obtain ⟨x, hmem, rfl⟩ := List.mem_map.mp hx
      obtain ⟨around, F, hF, hconveys⟩ := hreached.fromTree x hmem
      obtain ⟨o, ho⟩ := hF.occurs
      exact sourced_definition (hconveys.sourced (ho.every hmarked))
    rw [hnorm]
    refine ⟨sourced_appendStatements hdefinitions (hhoists.related.sourced hmarked),
      fun n hn => ?_, fun n hn => ?_, fun n hn => ?_⟩
    · rw [← mentions_markOptional] at hn
      have hgathers := gathers_gather (k := fun h => h.mention?.toList) fun _ => mention?_program
      rw [Node.mentions_eq_gather, hgathers.mem_appendStatements hbody]
      rcases hhoists.related.mentions n hn with hn | ⟨x, hx, hn⟩
      · rw [Node.mentions_eq_gather] at hn
        exact .inl hn
      · rw [Node.mentions_eq_gather] at hn
        exact .inr ⟨_, List.mem_map_of_mem hx, mem_gather_definition hn⟩
    · rw [← rawNames_markOptional]
      have hgathers := gathers_gather (k := Head.rawNames) fun _ => rawNames_program
      rcases (hgathers.mem_appendStatements hbody).mp hn with hn | ⟨x, hx, hn⟩
      · exact hhoists.related.raw n hn
      · obtain ⟨x, hmem, rfl⟩ := List.mem_map.mp hx
        obtain ⟨around, F, hF, hconveys⟩ := hreached.fromTree x hmem
        obtain ⟨o, ho⟩ := hF.occurs
        exact Node.mem_gather_of_occurs ho (hconveys.raw n (mem_rawNames_of_definition hn))
    · obtain ⟨x, hx, rfl⟩ := List.mem_map.mp hn
      exact hsupply.fresh x (hst' ▸ hx)
  · unfold Node.normalize
    rw [if_neg hb]
    refine ⟨hmarked, fun n hn => ?_, fun n hn => ?_, nofun⟩
    · rwa [mentions_markOptional]
    · rwa [rawNames_markOptional] at hn

end Normalize

end Typeshift
