import Typeshift.Pipeline
import Typeshift.Proofs.Normalize.Vocabulary
import Typeshift.Proofs.Temporaries.Ledger

/-! # Names that are made up

The passes make up names: those of hoisted types, temporaries, and what a module exports as a whole.
None of them is a name that the source mentions. But a node that is not known is passed through with
the value it was read with, and no pass looks at the identifiers in there: these, and no others, may
have a name that is made up.

* `Invented`: a name that a pass made up.
* `unread`: the account of the values that are passed through.
* `Clashes`: an identifier of the output that stems from the source has such a name.
* `clashes_iff`: only an identifier in a value that is passed through can have one. -/

namespace Typeshift.Convert

/-! ### Values that are passed through -/

/-- The value of a known construct has no identifier in it. -/
theorem identifierNames_passedValue (h : Head) : (passedValue h).identifierNames = h.rawNames := by
  unfold passedValue Head.rawNames
  cases h.kind with
  | foreign name raw => rfl
  | known t =>
    have hname : Json.identifierName? [("type", .str t.name)] = none := by
      unfold Json.identifierName?
      split_ifs
      · rfl
      · rfl
    simp only [Json.identifierNames, Json.entryNames, hname]
    rfl

/-- A known node has no value to pass through. -/
theorem unread_of_tag {h : Head} {t : Tag} {p : String → Prop} (ht : h.tag? = some t) :
    ∀ n ∈ h.rawNames, p n := by
  unfold Head.tag? at ht
  unfold Head.rawNames
  cases hkind : h.kind with
  | foreign name raw =>
    rw [hkind] at ht
    cases ht
  | known _ => exact nofun

/-- **The account of the values that are passed through**: they are values of the source. -/
def unread (t₀ : Node) : Account Unit where
  Inv _ _ := True
  Le _ _ _ _ := True
  source t := t.WellFormed .source ∧ ∃ o, Occurs t t₀ o
  mentioned _ := True
  chains := True
  Ok _ _ a _ := ∀ n ∈ a.head.rawNames, n ∈ t₀.rawNames
  refl _ _ := True.intro
  trans _ _ := True.intro
  lasts _ h := h
  dress hbare h := by
    unfold Head.rawNames at h ⊢
    rwa [Node.kind_eq_of_bare hbare]
  fits ht := by
    cases ht.1 with
    | mk here _ => exact here
  parts := by
    rintro ⟨⟨⟩, h, s⟩ ⟨hevery, o, ho⟩ c hc
    cases hevery with
    | mk _ below =>
      obtain ⟨o', ho'⟩ := Occurs.child hc
      exact ⟨below c hc, _, ho'.trans ho⟩
  name _ _ := True.intro
  chain _ _ := True.intro
  report _ _ := ⟨True.intro, True.intro⟩
  ambient _ _ := True.intro
  ambient_le _ _ _ := True.intro
  enter _ := True.intro
  leave _ _ _ _ _ := ⟨(), True.intro, True.intro, fun _ _ h => h, unread_of_tag rfl,
    fun _ _ => unread_of_tag rfl⟩
  temporary _ _ := ⟨(), True.intro, True.intro, fun _ => unread_of_tag rfl⟩
  exports _ := ⟨(), True.intro, True.intro, fun _ => ⟨fun _ _ => unread_of_tag rfl,
    fun _ => unread_of_tag rfl, unread_of_tag rfl⟩⟩
  unsupported {_ _ h s} _ hsource n hn := by
    obtain ⟨-, o, ho⟩ := hsource
    have hn : n ∈ (passedValue h).identifierNames := hn
    rw [identifierNames_passedValue] at hn
    exact Node.mem_gather_of_occurs ho (Node.mem_gather_mk.mpr (.inl hn))
  plain _ _ _ _ := unread_of_tag rfl
  declarator _ := unread_of_tag rfl
  origin {_ _ _ h s} st₀ _ hany := by
    obtain ⟨t, -, ht⟩ := List.any_eq_true.mp hany
    have htag := tag?_convertNode_origin hany (Tree.annotateSlots outcome s) st₀
    split_ifs at htag
    · exact unread_of_tag htag
    · exact unread_of_tag (htag.trans (beq_iff_eq.mp ht))

theorem rawNames_convert {t : Node} (ht : t.WellFormed .source) :
    ∀ n ∈ t.convert.tree.rawNames, n ∈ t.rawNames := by
  intro n hn
  obtain ⟨_, -, -, hwhole⟩ :=
    (unread t).convertTree ⟨ht, none, .here⟩ (.start t.names) (g := ()) True.intro
  obtain ⟨h, hh, hn⟩ := List.mem_flatMap.mp hn
  obtain ⟨a, o, ha, rfl⟩ := exists_occurs_of_mem_preorder hh
  exact hwhole.fine a o ha n hn

/-! ### Markers -/

section Pragma

variable {markers : List String} {n : String}

theorem rawNames_withComments (t : Node) (c : Comments) :
    (t.withComments c).rawNames = t.rawNames := by
  obtain ⟨⟨⟩, h, s⟩ := t
  show Node.rawNames (.mk () { h with comments := c } s) = _
  unfold Node.rawNames Node.gather
  rw [Node.preorder_mk, Node.preorder_mk]
  rfl

/-- The names of a node whose parts have been exchanged. -/
theorem mem_rawNames_map {t : Node} {g : Field × Slot Node → Field × Slot Node}
    (hg : ∀ e ∈ t.slots, ∀ c' ∈ (g e).2.toList, n ∈ Node.rawNames c' →
      ∃ c ∈ t.slots.toList, n ∈ Node.rawNames c)
    (hn : n ∈ Node.rawNames (.mk () t.head (t.slots.map g))) : n ∈ t.rawNames := by
  obtain ⟨⟨⟩, h, s⟩ := t
  rcases Node.mem_gather_mk.mp hn with hn | ⟨c', hc', hn⟩
  · exact Node.mem_gather_mk.mpr (.inl hn)
  · obtain ⟨e', he', hc'⟩ := Slots.mem_toList.mp hc'
    obtain ⟨e, he, rfl⟩ := List.mem_map.mp he'
    exact Node.mem_gather_mk.mpr (.inr (hg e he c' hc' hn))

theorem mem_rawNames_stripProgram {t p : Node} (hp : t.stripProgram? markers = some p)
    (hn : n ∈ p.rawNames) : n ∈ t.rawNames := by
  unfold Node.stripProgram? at hp
  split_ifs at hp
  obtain ⟨body, hbody, rfl⟩ := Option.map_eq_some_iff.mp hp
  have hstatements : ∀ c' ∈ body, n ∈ c'.rawNames →
      ∃ c ∈ t.slots.toList, n ∈ Node.rawNames c := by
    intro c' hc' hraw
    cases hchildren : t.slots.children .body with
    | nil =>
      rw [hchildren] at hbody
      cases hbody
    | cons first rest =>
      rw [hchildren] at hbody
      obtain ⟨first', hfirst, rfl⟩ := Option.map_eq_some_iff.mp hbody
      obtain ⟨found, -, rfl⟩ := Option.map_eq_some_iff.mp hfirst
      have hmem {c : Node} (hc : c ∈ first :: rest) : c ∈ t.slots.toList :=
        Slots.children_mem (hchildren ▸ hc)
      rcases List.mem_cons.mp hc' with rfl | hc'
      · rw [rawNames_withComments] at hraw
        exact ⟨first, hmem List.mem_cons_self, hraw⟩
      · exact ⟨c', hmem (List.mem_cons_of_mem _ hc'), hraw⟩
  refine mem_rawNames_map (fun e he c' hc' hn => ?_) hn
  split at hc'
  · exact hstatements c' hc' hn
  · exact ⟨c', Slots.mem_toList.mpr ⟨e, he, hc'⟩, hn⟩

/-- Removing a marker adds no names. -/
theorem mem_rawNames_stripPragma {t : Node} (hn : n ∈ (t.stripPragma markers).1.rawNames) :
    n ∈ t.rawNames := by
  unfold Node.stripPragma at hn
  split at hn
  · next stripped hstrip =>
    unfold Node.strip? at hstrip
    split_ifs at hstrip
    · obtain ⟨p, hp, rfl⟩ := Option.map_eq_some_iff.mp hstrip
      obtain ⟨q, hq, hp⟩ := Option.bind_eq_some_iff.mp hp
      refine mem_rawNames_map (fun e he c' hc' hn => ?_) hn
      split at hc'
      · rw [List.mem_singleton.mp hc'] at hn
        exact ⟨q, Slots.child?_mem hq, mem_rawNames_stripProgram hp hn⟩
      · exact ⟨c', Slots.mem_toList.mpr ⟨e, he, hc'⟩, hn⟩
    · exact mem_rawNames_stripProgram hstrip hn
  · exact hn

end Pragma

/-! ### Names that are made up -/

/-- **A name that a pass made up** for a tree: that of a hoisted type, one that is assigned or
declared though the source does not assign or declare it, or one that stands for what a module
exports. -/
inductive Invented (t : Node) : String → Prop where
  | hoisted {n : String} (hn : n ∈ t.normalize.2.hoisted) : Invented t n
  | assigned {n : String} {a : Node} {o : Option Body} (ha : Occurs a t.normalize.1.convert.tree o)
      (hnew : ¬ StemsFrom t.normalize.1 a) (hn : Assigns a n) : Invented t n
  | declared {n : String} {a : Node} {o : Option Body} (ha : Occurs a t.normalize.1.convert.tree o)
      (hnew : ¬ StemsFrom t.normalize.1 a) (hn : a.declaresVariable n = true) : Invented t n
  | exported {n : String} {a : Node} {o : Option Body} (ha : Occurs a t.normalize.1.convert.tree o)
      (hn : a.bare = Target.exportAssignment (Target.ident n)) : Invented t n

section Invented

variable {t : Node} {st : State} {G : Ledger} {n : String} {a : Node} {o : Option Body}

theorem stemsFrom_of_bare {a' : Node} (h : a.bare = a'.bare) (hs : StemsFrom t a) :
    StemsFrom t a' := by
  unfold StemsFrom at hs ⊢
  rwa [← h]

/-- A name with an entry in the ledger is no name of the source. -/
theorem Balanced.not_mem_mentions (h : Balanced t st G) {x : Owner} (hn : G n = some x) :
    n ∉ t.mentions := by
  intro hmem
  cases (h.mentioned n hmem).2.symm.trans hn

theorem Balanced.not_mem_of_assigns (h : Balanced t st G) (ha : Accounted t st G a o)
    (hnew : ¬ StemsFrom t a) (hn : Assigns a n) : n ∉ t.mentions := by
  obtain ⟨v, hbare⟩ := hn
  have hbare : a.bare = (Target.assign (Target.ident n) v).bare := hbare
  rcases accounted_dress hbare ha with hs | ⟨m, ⟨v', hbare'⟩, hm⟩
  · exact absurd (stemsFrom_of_bare hbare.symm hs) hnew
  · have hname : n = m := congrArg (fun a => (a.slots.child .left).head.text .name) hbare'
    subst hname
    cases o with
    | none => exact hm.unmentioned
    | some B => exact h.not_mem_mentions hm

/-- The names of a declaration that the source does not have are in the ledger. -/
theorem entry_of_introduced (ha : Introduced G a o) (hn : a.declaresVariable n = true) :
    ∃ x, G n = some x := by
  obtain ⟨d, hd, hbinds⟩ := List.any_eq_true.mp (Bool.and_eq_true_iff.mp hn).2
  rcases ha with ⟨m, ty, b, hbare, hm⟩ | ⟨B, names, -, hbare, hnames⟩
  · have hbare : (exportsDeclaration m ty b).bare = a.bare := hbare.symm
    rw [Node.slots_eq_of_bare hbare] at hd
    cases List.mem_singleton.mp hd
    cases beq_iff_eq.mp (show (some m == some n) = true from hbinds)
    exact ⟨_, hm⟩
  · have hbare : (temporaryDeclaration names).bare = a.bare := hbare.symm
    rw [Node.slots_eq_of_bare hbare] at hd
    obtain ⟨m, hm, rfl⟩ := List.mem_map.mp hd
    cases beq_iff_eq.mp ((binds_temporaryDeclarator n m).symm.trans hbinds)
    exact ⟨_, hnames n hm⟩

theorem Balanced.not_mem_of_declares (h : Balanced t st G) (ha : Accounted t st G a o)
    (hnew : ¬ StemsFrom t a) (hn : a.declaresVariable n = true) : n ∉ t.mentions := by
  unfold Accounted at ha
  rw [show a.head.tag? = some .variableDeclaration from
    beq_iff_eq.mp (Bool.and_eq_true_iff.mp hn).1] at ha
  rcases ha with hs | hintroduced
  · exact absurd hs hnew
  · obtain ⟨x, hx⟩ := entry_of_introduced hintroduced hn
    exact h.not_mem_mentions hx

theorem Balanced.not_mem_of_exports (h : Balanced t st G) (ha : Accounted t st G a o)
    (hn : a.bare = Target.exportAssignment (Target.ident n)) : n ∉ t.mentions := by
  have hbare : a.bare = (Target.exportAssignment (Target.ident n)).bare := hn
  obtain ⟨m, hbare', hm⟩ := accounted_dress hbare ha
  have hname : n = m := congrArg (fun a => (a.slots.child .expression).head.text .name) hbare'
  subst hname
  exact h.not_mem_mentions hm

/-- **No name that is made up is mentioned by the source.** -/
theorem Invented.not_mem_mentions (ht : t.Every Sourced) (hn : Invented t n) : n ∉ t.mentions := by
  obtain ⟨hnorm, hmentions, -, hfresh⟩ := Normalize.normalize_conveys ht
  obtain ⟨G, hkept, -, hwhole⟩ :=
    (ledger t.normalize.1).convertTree ⟨hnorm, none, .here⟩ _ (kept_start t.normalize.1)
  have hout (a o) (ha : Occurs a t.normalize.1.convert.tree o) :
      Accounted t.normalize.1 _ G a o := hwhole.fine a o ha
  intro hmem
  cases hn with
  | hoisted hn => exact hfresh n hn hmem
  | assigned ha hnew hn =>
    exact hkept.not_mem_of_assigns (hout _ _ ha) hnew hn (hmentions n hmem)
  | declared ha hnew hn =>
    exact hkept.not_mem_of_declares (hout _ _ ha) hnew hn (hmentions n hmem)
  | exported ha hn => exact hkept.not_mem_of_exports (hout _ _ ha) hn (hmentions n hmem)

end Invented

/-! ### Clashes -/

/-- **A name clashes**: it was made up for a tree, and an identifier in the output has it that stems
from the source, being mentioned there or part of a value that is passed through. -/
structure Clashes (t out : Node) (n : String) : Prop where
  invented : Invented t n
  written : n ∈ out.toJson.identifierNames
  stems : n ∈ t.mentions ∨ n ∈ out.rawNames

/-- **Names that are made up clash with nothing but what is passed through**: a name clashes exactly
if an identifier in the value of a node that is not known has it, and the node is one of the
source. -/
theorem clashes_iff {t : Node} (ht : t.Every Sourced) (pragmas : List String) (rules : Registry)
    (n : String) :
    (Clashes t (t.transform pragmas rules).tree n ↔ Invented t n ∧
      n ∈ (t.transform pragmas rules).tree.toJson.identifierNames ∧
      n ∈ (t.transform pragmas rules).tree.rawNames) ∧
    (n ∈ (t.transform pragmas rules).tree.rawNames → n ∈ t.rawNames) := by
  refine ⟨⟨fun h => ⟨h.invented, h.written, ?_⟩, fun h => ⟨h.1, h.2.1, .inr h.2.2⟩⟩, fun hn => ?_⟩
  · exact h.stems.resolve_left (h.invented.not_mem_mentions ht)
  · obtain ⟨hnorm, -, hraw, -⟩ := Normalize.normalize_conveys ht
    have hw : t.normalize.1.WellFormed .source :=
      Node.Every.imp₂ hnorm hnorm fun _ _ h _ => h.1
    exact hraw n (rawNames_convert hw n (mem_rawNames_stripPragma hn))

/-- `f()?.b;` after a declaration that is not known and declares `name`. -/
def declaredByUnknown (name : String) : Node :=
  let declaration : Json := .obj [("type", .str "EnumDeclaration"),
    ("id", .obj [("type", .str "Identifier"), ("name", .str name)])]
  let call := Node.of .callExpression []
    [(.callee, .one (Source.ident "f")), (.typeArguments, .maybe none), (.arguments, .many [])]
  let chain := Node.of .optionalMemberExpression
    [(.isComputed, .flag false), (.isOptional, .flag true)]
    [(.object, .one call), (.property, .one (Source.ident "b"))]
  Source.program [Node.make ⟨.foreign "EnumDeclaration" declaration, [], .none, none⟩ [],
    Node.of .expressionStatement [] [(.expression, .one chain)]]

/-- The temporary of `declaredByUnknown` is `_a`. -/
theorem invented_declaredByUnknown : Invented (declaredByUnknown "_a") "_a" := by
  have hdeclares : ∃ a ∈ (declaredByUnknown "_a").normalize.1.convert.tree.slots.toList,
      Node.declaresVariable "_a" a = true := by decide +kernel
  obtain ⟨a, ha, hn⟩ := hdeclares
  have hnew : ¬ StemsFrom (declaredByUnknown "_a").normalize.1 a := by
    rintro ⟨s, o, st, hs, hany, -⟩
    have hnone : ∀ h ∈ (declaredByUnknown "_a").normalize.1.preorder, h.isAny origins = false := by
      decide +kernel
    rw [hnone _ hs.head_mem_preorder] at hany
    cases hany
  obtain ⟨o, ho⟩ := Occurs.child (h := (declaredByUnknown "_a").normalize.1.convert.tree.head) ha
  exact .declared ho hnew hn

/-- A value that is passed through clashes, if it has the name of a temporary. -/
theorem clashes_iff_declaredByUnknown :
    (declaredByUnknown "_a").Every Sourced ∧
      Clashes (declaredByUnknown "_a") ((declaredByUnknown "_a").transform [] .empty).tree "_a" ∧
      ¬ Clashes (declaredByUnknown "c")
        ((declaredByUnknown "c").transform [] .empty).tree "_a" := by
  refine ⟨by decide +kernel, ?_, fun h => ?_⟩
  · exact (clashes_iff (by decide +kernel) [] .empty "_a").1.mpr
      ⟨invented_declaredByUnknown, by decide +kernel, by decide +kernel⟩
  · have hraw := ((clashes_iff (by decide +kernel) [] .empty "_a").1.mp h).2.2
    exact absurd hraw (by decide +kernel)

/-- A temporary may have the name of a declaration that is passed through. -/
theorem exists_clash : ¬ ∀ (t : Node) (n : String), t.Every Sourced →
    ¬ Clashes t (t.transform [defaultPragma] .empty).tree n := by
  intro h
  refine h (declaredByUnknown "_a") "_a" (by decide +kernel)
    ⟨invented_declaredByUnknown, ?_, .inr ?_⟩
  · decide +kernel
  · decide +kernel

end Typeshift.Convert
