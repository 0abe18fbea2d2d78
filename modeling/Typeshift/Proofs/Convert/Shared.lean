import Mathlib.Data.List.Perm.Basic
import Typeshift.Convert.Basic
import Typeshift.Proofs.Names
import Typeshift.Proofs.Tree.Readback

/-! # The shared vocabulary is kept

A construct of both vocabularies is rebuilt field by field. What is written for the rebuilt tree is
read as the tree it was made from, except that imports and exports now say what they bring in.

* `Reports`: a step whose result does not depend on the state, and that only reports.
* `IsShared`: the constructs of both vocabularies.
* `Node.fillKinds`: the tree with absent kinds of imports and exports filled in.
* `reports_mk`, `load_converted`: one construct is rebuilt, and read back.
* `load_convert`: reading back a converted tree of the shared vocabulary. -/

namespace Typeshift

/-! ### Steps that only report -/

namespace Convert

variable {α β : Type}

/-- A step gives a result in every state, and changes nothing but what was found. -/
def Reports (p : Pass α) (a : α) (ds : List Diagnostic) : Prop :=
  ∀ st, p st = (a, { st with diagnostics := st.diagnostics ++ ds })

namespace Reports

variable {p : Pass α} {a : α} {ds es : List Diagnostic}

theorem pure (a : α) : Reports (Pure.pure a) a [] := by
  intro st
  rw [List.append_nil]
  rfl

theorem bind {f : α → Pass β} {b : β} (hp : Reports p a ds) (hf : Reports (f a) b es) :
    Reports (p >>= f) b (ds ++ es) := by
  intro st
  show f (p st).1 (p st).2 = _
  rw [hp st, hf, List.append_assoc]

theorem map (hp : Reports p a ds) (f : α → β) : Reports (f <$> p) (f a) ds := by
  intro st
  show (f (p st).1, (p st).2) = _
  rw [hp st]

theorem inScope (hp : Reports p a ds) : Reports (Convert.inScope p) (a, []) ds := by
  intro st
  unfold Convert.inScope
  rw [hp]
  rfl

theorem map_pure (hp : Reports p a ds) (f : α → β) :
    Reports (p >>= fun a => Pure.pure (f a)) (f a) ds := by
  rw [← map_eq_pure_bind]
  exact hp.map f

theorem mapM {f : α → Pass β} {g : α → β} {r : α → List Diagnostic} {as : List α}
    (h : ∀ a ∈ as, Reports (f a) (g a) (r a)) :
    Reports (as.mapM f) (as.map g) (as.flatMap r) := by
  induction as with
  | nil => exact pure []
  | cons a as ih =>
    rw [List.mapM_cons]
    have hrest := ih fun b hb => h b (List.mem_cons_of_mem a hb)
    refine (h a List.mem_cons_self).bind (f := fun b => as.mapM f >>= fun bs => _) ?_
    exact hrest.map_pure fun bs => g a :: bs

theorem slotMapM {f : α → Pass β} {g : α → β} {r : α → List Diagnostic} {slot : Slot α}
    (h : ∀ a ∈ slot.toList, Reports (f a) (g a) (r a)) :
    Reports (slot.mapM f) (slot.map g) (slot.toList.flatMap r) := by
  cases slot with
  | one a =>
    rw [show (Slot.one a).toList.flatMap r = r a from List.flatMap_singleton ..]
    exact (h a (by simp [Slot.toList])).map_pure Slot.one
  | maybe a =>
    cases a with
    | none => exact pure _
    | some a =>
      rw [show (Slot.maybe (some a)).toList.flatMap r = r a from List.flatMap_singleton ..]
      exact (h a (by simp [Slot.toList])).map_pure fun b => Slot.maybe (some b)
  | many as => exact (mapM h).map_pure Slot.many
  | holes as =>
    have hgaps : (as.filterMap id).flatMap r = as.flatMap fun a => a.toList.flatMap r := by
      induction as with
      | nil => rfl
      | cons a as ih => cases a <;> simp_all [Slot.toList]
    show Reports _ _ ((as.filterMap id).flatMap r)
    rw [hgaps]
    refine (mapM (g := Option.map g) fun a ha => ?_).map_pure Slot.holes
    cases a with
    | none => exact pure none
    | some a =>
      rw [Option.toList_some, List.flatMap_singleton]
      exact (h a (by simpa [Slot.toList] using ha)).map_pure some

end Reports

theorem Reports.converts {t : Node} {a : Node} {ds : List Diagnostic}
    (h : Reports (convertTree t) a ds) : t.convert.tree = a ∧ t.convert.diagnostics = ds := by
  unfold Node.convert
  rw [h]
  exact ⟨rfl, rfl⟩

end Convert

/-! ### Kinds of imports and exports -/

/-- An attribute, `value` for the absent kind of an import or export. -/
def fillKind (f : Field) (a : Attr) : Attr :=
  if (f = .importKind ∨ f = .exportKind) ∧ a = .wordOrNone none then .wordOrNone (some .value)
  else a

/-- The tree with the absent kinds of its imports and exports filled in. -/
def Node.fillKinds (t : Node) : Node :=
  t.synthesize fun h s =>
    .mk () { h with attrs := h.attrs.map fun e => (e.1, fillKind e.1 e.2) } (s.mapTrees Tree.note)

theorem Node.fillKinds_mk (h : Head) (s : Slots Unit) :
    Node.fillKinds (.mk () h s) =
      .mk () { h with attrs := h.attrs.map fun e => (e.1, fillKind e.1 e.2) }
        (s.mapTrees Node.fillKinds) := by
  unfold Node.fillKinds
  rw [Tree.synthesize_mk, Slots.mapTrees_note]

/-- The fields of the source that have no counterpart, or not everywhere. -/
def sourceFields : List Field := [.typeArguments, .variance, .predicate]

/-- A construct of both vocabularies that is said in the same words in both, or something else that
is kept as it is. -/
def IsShared (h : Head) (s : Slots Unit) : Prop :=
  (∀ t ∈ h.tag?, t.isIn .source = true ∧ t.isIn .target = true) ∧
    h.word? .importKind ≠ some .typeof ∧ ∀ f ∈ sourceFields, s.child? f = none

instance (h : Head) (s : Slots Unit) : Decidable (IsShared h s) :=
  inferInstanceAs (Decidable (_ ∧ _ ∧ ∀ _ ∈ _, _))

/-! ### The shapes of both vocabularies -/

section Shapes

theorem mem_slotOrder (t : Tag) : ∀ f ∈ slotFields .target t, f ∈ t.slotOrder := by
  cases t <;> decide

theorem slotOrder_perm (t : Tag) :
    (t.slotOrder.filter (· ∈ slotFields .source t)).Perm (slotFields .source t) := by
  cases t <;> decide

/-- The fields of the source alone are among those, and each may hold a node. -/
theorem sourceFields_spec (t : Tag) : ∀ spec ∈ t.shape,
    (spec.isIn .target = false → spec.field ∈ sourceFields) ∧
      (spec.field ∈ sourceFields → spec.type = .node ∧ spec.presence = .optional) := by
  cases t <;> decide

theorem sourceField_eq (t : Tag) : ∀ spec ∈ t.shape, spec.isIn .source = true →
    spec.isIn .target = true → Convert.sourceField t spec.field = spec.field := by
  cases t <;> decide

/-- The fields that fill those of the target are those of the source, as far as they are shared. -/
theorem map_sourceField {t : Tag} (hsource : t.isIn .source = true)
    (htarget : t.isIn .target = true) :
    (slotFields .target t).map (Convert.sourceField t) =
      (slotFields .source t).filter (· ∉ [.variance, .predicate]) := by
  revert hsource htarget
  cases t <;> decide

theorem kind_fields (t : Tag) : ∀ spec ∈ t.shape,
    (spec.field = .importKind → spec = .wordOrNone .importKind Word.importKinds) ∧
      (spec.field = .exportKind → spec = .wordOrNone .exportKind Word.exportKinds) := by
  cases t <;> decide

theorem extra_optional (t : Tag) :
    ∀ spec ∈ t.shape, spec.type = .extra → spec.presence = .optional := by
  cases t <;> decide

end Shapes

/-! ### Conversion of a shared construct -/

namespace Convert

/-- The tree is converted without changing the state, apart from what was found. -/
def Plain (t : Node) : Prop := Reports (convertTree t) t.convert.tree t.convert.diagnostics

theorem Reports.plain {t a : Node} {ds : List Diagnostic} (h : Reports (convertTree t) a ds) :
    Plain t := by
  unfold Plain
  rw [h.converts.1, h.converts.2]
  exact h

theorem Plain.functionBody {t : Node} (h : Plain t) :
    Reports (functionBody (t.annotate outcome)) t.convert.tree t.convert.diagnostics :=
  (Reports.inScope h).map_pure fun x => declareInBody x.2 x.1

theorem convertStatements_eq {ts : List Part}
    (h : ∀ t ∈ ts, t.head.is .declareModuleExports = false) :
    convertStatements ts = ts.mapM convertPart := by
  induction ts with
  | nil => rfl
  | cons t ts ih =>
    rw [List.forall_mem_cons] at h
    unfold convertStatements
    rw [h.1, List.mapM_cons, ih h.2]
    rfl

section Construct

variable {P : Node → Prop} {t : Tag} {result : Field → FieldValue}

/-- The slot of the target for a value of the source. -/
def convertedSlot (value : FieldValue) : Slot Node :=
  (value.slot?.getD (.maybe none)).map fun c => c.convert.tree

/-- What is found in the nodes of a value. -/
def found (value : FieldValue) : List Diagnostic :=
  value.nodes.flatMap fun c => c.convert.diagnostics

/-- The slots of a converted construct. -/
def convertedSlots (t : Tag) (result : Field → FieldValue) : Slots Unit :=
  t.slotOrder.filterMap fun f =>
    (if f ∈ slotFields .target t then some (convertedSlot (result (sourceField t f)))
      else none).map (f, ·)

/-- The head of a converted construct. -/
def convertedHead (t : Tag) (result : Field → FieldValue) (comments : Comments)
    (span : Option Span) : Head :=
  ⟨.known t, ((t.fields .target).filter (!·.isSlot)).map fun spec => (spec.field,
    convertAttr (headWith t result comments span) (Tree.annotateSlots outcome (slotsWith t result))
      spec.field), comments, span⟩

theorem exists_spec_sourceField {f : Field} (hsource : t.isIn .source = true)
    (htarget : t.isIn .target = true) (hf : f ∈ slotFields .target t) :
    ∃ spec ∈ t.fields .source, spec.isSlot = true ∧ spec.field = sourceField t f := by
  have hmem := List.mem_map_of_mem (f := sourceField t) hf
  rw [map_sourceField hsource htarget] at hmem
  obtain ⟨spec, hspec, heq⟩ := List.mem_map.mp (List.mem_filter.mp hmem).1
  obtain ⟨hspec, hslot⟩ := List.mem_filter.mp hspec
  exact ⟨spec, hspec, hslot, heq⟩

/-- The statements of a program are a list. -/
theorem program_body : ∀ spec ∈ Tag.program.fields .source, spec.field = .body →
    spec = .many .body := by
  decide

variable (hg : Given P t result) (hsource : t.isIn .source = true) (htarget : t.isIn .target = true)
  (hplain : ∀ c ∈ (slotsWith t result).toList,
    Plain c ∧ c.head.is .declareModuleExports = false)
include hg hsource htarget hplain

theorem reports_convertSlot {f : Field} (hf : f ∈ slotFields .target t) :
    Reports (convertSlot t (Tree.annotateSlots outcome (slotsWith t result)) f)
      (convertedSlot (result (sourceField t f))) (found (result (sourceField t f))) := by
  obtain ⟨spec, hspec, hisSlot, hfield⟩ := exists_spec_sourceField hsource htarget hf
  obtain ⟨slot, hslot, hadmits, -⟩ := hg.slot hspec hisSlot
  rw [hfield] at hslot
  have hget : Slots.get? (Tree.annotateSlots outcome (slotsWith t result))
      (sourceField t f) = some (slot.map (Tree.annotate outcome)) := by
    rw [Slots.annotateSlots_eq_mapTrees, Slots.get?_mapTrees, hg.get?_slots, hslot]
    rfl
  have hparts : ∀ c ∈ slot.toList, Plain c ∧ c.head.is .declareModuleExports = false := by
    intro c hc
    refine hplain c (Slots.mem_toList.mpr ⟨(sourceField t f, slot), ?_, hc⟩)
    refine Slots.get?_mem ?_
    rw [hg.get?_slots, hslot]
    rfl
  unfold convertSlot
  rw [hget, hslot]
  show Reports (if _ then _ else _) (slot.map _) (slot.toList.flatMap _)
  split_ifs with hprogram hbody
  · -- the statements of a program
    obtain ⟨rfl, rfl⟩ : t = .program ∧ f = .body := by simpa using hprogram
    obtain rfl := program_body spec hspec hfield
    cases slot with
    | many cs =>
      rw [Slot.toList_map, convertStatements_eq]
      · refine (Reports.inScope ?_).map_pure fun x => Slot.many (declareInProgram x.2 x.1)
        rw [List.mapM_map]
        exact Reports.mapM fun c hc => (hparts c hc).1
      · intro c hc
        obtain ⟨c, hc', rfl⟩ := List.mem_map.mp hc
        rw [Tree.head_annotate]
        exact (hparts c hc').2
    | one | maybe | holes => cases hadmits
  · rw [Slot.mapM_map]
    exact Reports.slotMapM fun c hc => (hparts c hc).1.functionBody
  · rw [Slot.mapM_map]
    exact Reports.slotMapM fun c hc => (hparts c hc).1

/-- **A shared construct is rebuilt** field by field, with its comments and its span. -/
theorem reports_mk (comments : Comments) (span : Option Span) :
    Reports (convertTree (.mk () (headWith t result comments span) (slotsWith t result)))
      (.mk () (convertedHead t result comments span) (convertedSlots t result))
      ((slotFields .target t).flatMap fun f => found (result (sourceField t f))) := by
  have hslots := Reports.mapM
    fun spec (hspec : spec ∈ (t.fields .target).filter FieldSpec.isSlot) =>
      (reports_convertSlot hg hsource htarget hplain (List.mem_map_of_mem hspec)).map_pure
        (Prod.mk spec.field)
  -- the node is made of its attributes and of the slots in their order, and put in place
  have hnode := (hslots.map_pure fun slots => Node.of t
    (convertedHead t result comments span).attrs
    (t.slotOrder.filterMap fun f => (slots.lookup f).map (f, ·))).map
    (attach (headWith t result comments span))
  have hshared : convertNode (headWith t result comments span)
      (Tree.annotateSlots outcome (slotsWith t result)) =
        convertShared t (headWith t result comments span)
          (Tree.annotateSlots outcome (slotsWith t result)) := by
    unfold convertNode
    exact if_pos htarget
  have hlookup := lookup_fields ((t.fields .target).filter FieldSpec.isSlot)
    fun f => convertedSlot (result (sourceField t f))
  have hwrap : Comments.none.wrap comments = comments := by simp [Comments.wrap, Comments.none]
  simp only [hlookup] at hnode
  unfold attach Node.wrapComments Node.of Node.withComments Node.withSpan at hnode
  dsimp only [Tree.head_mk, Head.ofTag, headWith] at hnode
  rw [hwrap] at hnode
  unfold convertedSlots slotFields
  rw [List.flatMap_map]
  show Reports (attach _ <$> convertNode _ _) _ _
  rw [hshared]
  exact hnode

end Construct

/-! ### Reading the converted construct -/

section Readback

variable {P : Node → Prop} {t : Tag} {result : Field → FieldValue} {comments : Comments}
  {span : Option Span} {spec : FieldSpec}

/-- A value with the kinds of imports and exports filled in. -/
def fillValue (f : Field) : FieldValue → FieldValue
  | .attr a => .attr (fillKind f a)
  | .slot s => .slot (s.map Node.fillKinds)

theorem admits_fillKind {a : Attr} (hspec : spec ∈ t.shape) (h : spec.admits (.attr a) = true) :
    spec.admits (.attr (fillKind spec.field a)) = true := by
  obtain ⟨himport, hexport⟩ := kind_fields t spec hspec
  unfold fillKind
  split_ifs with hkind
  · rcases hkind.1 with hf | hf
    · rw [himport hf]
      rfl
    · rw [hexport hf]
      rfl
  · exact h

theorem exists_wordOrNone {f : Field} {choices : List Word} {a : Attr}
    (h : (FieldSpec.wordOrNone f choices).admits (.attr a) = true) :
    ∃ w, a = .wordOrNone w ∧ ∀ x ∈ w, x ∈ choices := by
  cases a <;> simp [FieldSpec.admits, FieldSpec.wordOrNone, FieldSpec.plain] at h
  rename_i w
  refine ⟨w, rfl, ?_⟩
  rintro x rfl
  simpa using h

theorem word?_eq {h : Head} {f : Field} {w : Option Word} (ha : h.attr? f = some (.wordOrNone w)) :
    h.word? f = w := by
  unfold Head.word?
  rw [ha]

theorem admits_map {f : Node → Node} {slot : Slot Node} (h : spec.admits (.slot slot) = true) :
    spec.admits (.slot (slot.map f)) = true := by
  cases slot <;> exact h

/-- What is written for an attribute says what it is filled in with. -/
theorem toJson_convertAttr {h : Head} {s : Slots Outcome} {a : Attr} (hspec : spec ∈ t.shape)
    (ha : h.attr? spec.field = some a) (hadmits : spec.admits (.attr a) = true)
    (htypeof : h.word? .importKind ≠ some .typeof) :
    (convertAttr h s spec.field).toJson = (fillKind spec.field a).toJson := by
  obtain ⟨himport, hexport⟩ := kind_fields t spec hspec
  by_cases hi : spec.field = .importKind
  · rw [himport hi] at hadmits
    obtain ⟨w, rfl, hw⟩ := exists_wordOrNone hadmits
    rw [hi] at ha ⊢
    rw [word?_eq ha] at htypeof
    show (Attr.word (importKind (h.word? .importKind))).toJson = _
    rw [word?_eq ha]
    cases w with
    | none => rfl
    | some w =>
      have hmem : w ∈ [.value, .type, .typeof] := hw w rfl
      rcases hmem with _ | ⟨_, _ | ⟨_, _ | ⟨_, ⟨⟩⟩⟩⟩
      · rfl
      · rfl
      · exact absurd rfl htypeof
  by_cases he : spec.field = .exportKind
  · rw [hexport he] at hadmits
    obtain ⟨w, rfl, -⟩ := exists_wordOrNone hadmits
    rw [he] at ha ⊢
    show (Attr.word ((h.word? .exportKind).getD .value)).toJson = _
    rw [word?_eq ha]
    cases w <;> rfl
  · have hconvert : convertAttr h s spec.field = a := by
      unfold convertAttr
      split
      · exact absurd ‹_› hi
      · exact absurd ‹_› he
      · rw [ha]
        rfl
    have hfill : fillKind spec.field a = a := if_neg fun hkind => hkind.1.elim hi he
    rw [hconvert, hfill]

theorem attr?_convertedHead (hspec : spec ∈ t.fields .target) (hisSlot : spec.isSlot = false) :
    (convertedHead t result comments span).attr? spec.field =
      some (convertAttr (headWith t result comments span)
        (Tree.annotateSlots outcome (slotsWith t result)) spec.field) := by
  unfold convertedHead Head.attr?
  rw [lookup_fields, if_pos]
  exact List.mem_map_of_mem (List.mem_filter.mpr ⟨hspec, by rw [hisSlot]; rfl⟩)

theorem attr?_convertedHead_slot (hspec : spec ∈ t.fields .target) (hisSlot : spec.isSlot = true) :
    (convertedHead t result comments span).attr? spec.field = none := by
  unfold convertedHead Head.attr?
  rw [lookup_fields, if_neg]
  intro hmem
  obtain ⟨other, hother, heq⟩ := List.mem_map.mp hmem
  obtain ⟨hother, hnot⟩ := List.mem_filter.mp hother
  rw [List.inj_on_of_nodup_map (nodup_fields .target t) hother hspec heq, hisSlot] at hnot
  cases hnot

theorem get?_convertedSlots {f : Field} (hf : f ∈ slotFields .target t) :
    (convertedSlots t result).get? f = some (convertedSlot (result (sourceField t f))) := by
  unfold convertedSlots Slots.get?
  rw [lookup_filterMap, if_pos (mem_slotOrder t f hf), if_pos hf]

/-- What is written for a field of the converted construct. -/
def writtenValue (t : Tag) (result : Field → FieldValue) (comments : Comments)
    (span : Option Span) (f : Field) : Json :=
  (fieldEntry (convertedHead t result comments span)
    (Tree.annotateSlots nodeJson (convertedSlots t result)) f).2

theorem toJson_converted :
    Tree.toJson (.mk () (convertedHead t result comments span) (convertedSlots t result)) =
      .obj (objectEntries t (writtenValue t result comments span) comments span) := rfl

/-- Filling in goes value by value. -/
theorem fillKinds_mk : Node.fillKinds (.mk () (headWith t result comments span)
      (slotsWith t result)) =
    .mk () (headWith t (fun f => fillValue f (result f)) comments span)
      (slotsWith t fun f => fillValue f (result f)) := by
  have hattrs : (attrsOf (valuesOf t result)).map (fun e => (e.1, fillKind e.1 e.2)) =
      attrsOf (valuesOf t fun f => fillValue f (result f)) := by
    unfold attrsOf valuesOf
    rw [List.map_filterMap, List.filterMap_map, List.filterMap_map]
    refine List.filterMap_congr fun spec _ => ?_
    simp only [Function.comp]
    cases result spec.field <;> rfl
  have hslots : (slotsWith t result).mapTrees Node.fillKinds =
      slotsWith t fun f => fillValue f (result f) := by
    unfold slotsWith slotsOf Slots.mapTrees valuesOf
    rw [List.map_filterMap]
    refine List.filterMap_congr fun f _ => ?_
    have hfilled := lookup_fields (t.fields .source) (fun f => fillValue f (result f)) f
    rw [lookup_fields, hfilled]
    split_ifs
    · cases result f <;> rfl
    · rfl
  rw [Node.fillKinds_mk, hslots]
  unfold headWith
  dsimp only
  rw [hattrs]

variable (hg : Given P t result)
  (htypeof : (headWith t result comments span).word? .importKind ≠ some .typeof)
  (hload : ∀ c ∈ (slotsWith t result).toList,
    Node.load (Node.convert c).tree.toJson = .ok (Node.fillKinds c))
include hg htypeof hload

theorem reads_writtenValue (hspec : spec ∈ t.fields .target) (hin : spec.isIn .source = true) :
    Reads spec (writtenValue t result comments span spec.field)
      (fillValue spec.field (result spec.field)) := by
  obtain ⟨hshape, htarget⟩ := List.mem_filter.mp hspec
  have hsource : spec ∈ t.fields .source := List.mem_filter.mpr ⟨hshape, hin⟩
  unfold writtenValue fieldEntry
  cases hisSlot : spec.isSlot with
  | false =>
    obtain ⟨a, ha, hadmits, hlookup⟩ := hg.attr hsource hisSlot
    rw [attr?_convertedHead hspec hisSlot, ha]
    dsimp only
    rw [toJson_convertAttr (h := headWith t result comments span) hshape hlookup hadmits htypeof]
    exact .attr hisSlot (loadAttr_toJson (admits_fillKind hshape hadmits)
      (extra_optional t spec hshape))
  | true =>
    obtain ⟨slot, hslot, hadmits, -⟩ := hg.slot hsource hisSlot
    have hfield : spec.field ∈ slotFields .target t :=
      List.mem_map_of_mem (List.mem_filter.mpr ⟨hspec, hisSlot⟩)
    rw [attr?_convertedHead_slot hspec hisSlot, Slots.annotateSlots_eq_mapTrees,
      Slots.get?_mapTrees, get?_convertedSlots hfield, sourceField_eq t spec hshape hin htarget,
      hslot]
    have hparts : ∀ c ∈ slot.toList,
        Node.load (Node.convert c).tree.toJson = .ok (Node.fillKinds c) := by
      intro c hc
      refine hload c (Slots.mem_toList.mpr ⟨(spec.field, slot), Slots.get?_mem ?_, hc⟩)
      rw [hg.get?_slots, hslot]
      rfl
    have hjson : ((convertedSlot (.slot slot)).map (Tree.annotate nodeJson)).map Tree.note =
        slot.map fun c => (Node.convert c).tree.toJson := by
      show ((slot.map _).map _).map _ = _
      rw [Slot.map_map, Slot.map_map]
      rfl
    show Reads spec (((convertedSlot (.slot slot)).map _).map _).toJson _
    rw [hjson]
    exact .slot (admits_map hadmits) (Slot.rel_map_map hparts)


omit htypeof hload in
/-- A field that the target does not have is read as empty. -/
theorem default_eq (hempty : ∀ f ∈ sourceFields, (slotsWith t result).child? f = none)
    (hspec : spec ∈ t.fields .source) (hin : spec.isIn .target = false) :
    spec.default? = some (fillValue spec.field (result spec.field)) := by
  obtain ⟨honly, hmaybe⟩ := sourceFields_spec t spec (List.mem_filter.mp hspec).1
  obtain ⟨htype, hpresence⟩ := hmaybe (honly hin)
  rw [hg.eq_empty hspec htype (hempty spec.field (honly hin))]
  simp [FieldSpec.default?, FieldSpec.defaultSlot?, FieldSpec.isSlot, htype, hpresence, fillValue,
    Slot.map]

/-- **A converted construct is read back** as the construct it was made from. -/
theorem load_converted (hname : Tag.ofName? .source t.name = some t)
    (htarget : t.isIn .target = true) (hcomments : comments.Placed) (hspan : Span.Placed span)
    (hempty : ∀ f ∈ sourceFields, (slotsWith t result).child? f = none) :
    Node.load (Tree.toJson
        (.mk () (convertedHead t result comments span) (convertedSlots t result))) =
      .ok (Node.fillKinds (.mk () (headWith t result comments span) (slotsWith t result))) := by
  have htuple : t ≠ .tupleType := by
    rintro rfl
    exact absurd htarget (by decide)
  rw [toJson_converted, fillKinds_mk]
  exact load_object htuple hname hcomments hspan
    (fun spec hspec hin => reads_writtenValue hg htypeof hload hspec hin)
    fun spec hspec hin => default_eq hg hempty hspec hin

end Readback

/-! ### What is reported -/

/-- One report for every node that is kept as it is. -/
def unsupportedReports (t : Node) : List Diagnostic :=
  (t.preorder.filter fun h => h.tag?.isNone).map fun h => .ofCode 1001 h.span [h.name]

theorem unsupportedReports_mk {h : Head} {s : Slots Unit} {t : Tag} (ht : h.tag? = some t) :
    unsupportedReports (.mk () h s) = s.toList.flatMap unsupportedReports := by
  unfold unsupportedReports
  rw [Node.preorder_mk, List.filter_cons_of_neg (by rw [ht]; exact Bool.false_ne_true),
    List.filter_flatMap, List.map_flatMap]

theorem flatMap_filter {α β : Type} {p : α → Bool} {r : α → List β} {as : List α}
    (h : ∀ a ∈ as, p a = false → r a = []) : (as.filter p).flatMap r = as.flatMap r := by
  induction as with
  | nil => rfl
  | cons a as ih =>
    rw [List.forall_mem_cons] at h
    rw [List.flatMap_cons, ← ih h.2, List.filter_cons]
    split_ifs with ha
    · rfl
    · rw [h.1 (Bool.not_eq_true _ |>.mp ha)]
      rfl

open scoped List in
/-- The parts of a construct are converted in the order of its fields and not of the text; what is
found in them is the same. -/
theorem found_perm {P : Node → Prop} {t : Tag} {result : Field → FieldValue}
    (hg : Given P t result) (hsource : t.isIn .source = true) (htarget : t.isIn .target = true)
    (hempty : ∀ f ∈ sourceFields, (slotsWith t result).child? f = none) :
    ((slotFields .target t).flatMap fun f => found (result (sourceField t f))).Perm
      ((slotsWith t result).toList.flatMap fun c => (Node.convert c).diagnostics) := by
  have hunshared : ∀ f ∈ slotFields .source t, decide (f ∉ [.variance, .predicate]) = false →
      found (result f) = [] := by
    intro f hf hshared
    have hmem : f ∈ sourceFields :=
      List.mem_cons_of_mem _ (not_not.mp (of_decide_eq_false hshared))
    obtain ⟨spec, hspec, rfl⟩ := List.mem_map.mp hf
    obtain ⟨hspec, -⟩ := List.mem_filter.mp hspec
    obtain ⟨htype, -⟩ := (sourceFields_spec t spec (List.mem_filter.mp hspec).1).2 hmem
    rw [hg.eq_empty hspec htype (hempty _ hmem)]
    rfl
  have hother : ∀ f ∈ t.slotOrder, decide (f ∈ slotFields .source t) = false →
      found (result f) = [] := by
    intro f _ hf
    cases hr : result f with
    | attr a => rfl
    | slot s =>
      exact absurd (hg.mem_slotFields (congrArg FieldValue.slot? hr)) (of_decide_eq_false hf)
  calc (slotFields .target t).flatMap (fun f => found (result (sourceField t f)))
      = ((slotFields .target t).map (sourceField t)).flatMap (fun f => found (result f)) := by
        rw [List.flatMap_map]
    _ = (slotFields .source t).flatMap (fun f => found (result f)) := by
        rw [map_sourceField hsource htarget, flatMap_filter hunshared]
    _ ~ (t.slotOrder.filter (· ∈ slotFields .source t)).flatMap (fun f => found (result f)) :=
        (slotOrder_perm t).symm.flatMap_right _
    _ = (slotsWith t result).toList.flatMap (fun c => (Node.convert c).diagnostics) := by
        rw [flatMap_filter hother, hg.toList_slots, List.flatMap_assoc]
        rfl

/-! ### Whole trees -/

/-- The tree is kept: what is written for its conversion is read as the tree, and only what is kept
as it is was reported. -/
structure Kept (t : Node) : Prop where
  plain : Plain t
  load : Node.load t.convert.tree.toJson = .ok t.fillKinds
  reported : t.convert.diagnostics.Perm (unsupportedReports t)

theorem kept_foreign {name : String} {entries : List (String × Json)} {h : Head}
    (hkind : h.kind = .foreign name (.obj entries)) (hattrs : h.attrs = [])
    (hload : Node.load (.obj entries) = .ok (Node.make h [])) : Kept (Node.make h []) := by
  obtain ⟨kind, attrs, comments, span⟩ := h
  obtain rfl : kind = .foreign name (.obj entries) := hkind
  obtain rfl : attrs = [] := hattrs
  have hreports : Reports
      (convertTree (Node.make ⟨.foreign name (.obj entries), [], comments, span⟩ []))
      (Node.make ⟨.foreign name (.obj entries), [], comments, span⟩ [])
      [.ofCode 1001 span [name]] := by
    have hunsupported : Reports (unsupported ⟨.foreign name (.obj entries), [], comments, span⟩)
        (Node.make ⟨.foreign name (.obj entries), [], .none, none⟩ [])
        [.ofCode 1001 span [name]] := fun st => rfl
    have hattach := hunsupported.map (attach ⟨.foreign name (.obj entries), [], comments, span⟩)
    have hwrap : Comments.none.wrap comments = comments := by simp [Comments.wrap, Comments.none]
    unfold attach Node.wrapComments Node.make Node.withComments Node.withSpan at hattach
    dsimp only [Tree.head_mk] at hattach
    rw [hwrap] at hattach
    exact hattach
  refine ⟨hreports.plain, ?_, ?_⟩
  · rw [hreports.converts.1]
    exact hload
  · rw [hreports.converts.2]
    exact .refl _

theorem kept_known {P : Node → Prop} {t : Tag} {result : Field → FieldValue} {comments : Comments}
    {span : Option Span} (hg : Given P t result) (hname : Tag.ofName? .source t.name = some t)
    (hcomments : comments.Placed) (hspan : Span.Placed span)
    (hshared : IsShared (headWith t result comments span) (slotsWith t result))
    (hparts : ∀ c ∈ (slotsWith t result).toList,
      Kept c ∧ c.head.is .declareModuleExports = false) :
    Kept (.mk () (headWith t result comments span) (slotsWith t result)) := by
  obtain ⟨hsides, htypeof, hempty⟩ := hshared
  obtain ⟨hsource, htarget⟩ := hsides t rfl
  have hreports := reports_mk hg hsource htarget
    (fun c hc => ⟨(hparts c hc).1.plain, (hparts c hc).2⟩) comments span
  refine ⟨hreports.plain, ?_, ?_⟩
  · rw [hreports.converts.1]
    exact load_converted hg htypeof (fun c hc => (hparts c hc).1.load) hname htarget hcomments hspan
      hempty
  · rw [hreports.converts.2, unsupportedReports_mk (t := t) rfl]
    refine (found_perm hg hsource htarget hempty).trans ?_
    exact List.Perm.flatMap_left _ fun c hc => (hparts c hc).1.reported

theorem is_declareModuleExports {t : Node} (h : t.Every IsShared) :
    t.head.is .declareModuleExports = false := by
  obtain ⟨here, -⟩ := h
  rename_i head slots
  cases ht : head.tag? with
  | none => simp [Head.is, ht]
  | some tag =>
    obtain ⟨hsource, htarget⟩ := here.1 tag ht
    have hne : tag ≠ .declareModuleExports := by
      rintro rfl
      exact absurd htarget (by decide)
    simpa [Head.is, ht] using hne

theorem kept_of_load {v : Json} {t : Node} (h : Node.load v = .ok t) :
    t.Every IsShared → Kept t := by
  refine Node.load_induct (P := fun t => t.Every IsShared → Kept t) ?_ ?_ v h
  · intro name entries h hkind hattrs hload _
    exact kept_foreign hkind hattrs hload
  · intro entries t comments values hname hcomments hfilled hshared
    obtain ⟨result, rfl, hg⟩ := hfilled.exists_given
    cases hshared with
    | mk here below =>
      exact kept_known hg hname (Comments.placed_of_load hcomments) (Span.placed_ofJson? _) here
        fun c hc => ⟨hg.forall_toList c hc (below c hc), is_declareModuleExports (below c hc)⟩

/-- **Conversion keeps the shared vocabulary.** A tree that was read, and that is said in the same
words in both vocabularies, is written by its conversion as a value from which the reader gets it
again, with only the absent kinds of imports and exports filled in. What is found are the nodes that
are kept as they are, each once. -/
theorem load_convert {v : Json} {t : Node} (hload : Node.load v = .ok t)
    (hshared : t.Every IsShared) :
    Node.load t.convert.tree.toJson = .ok t.fillKinds ∧
      t.convert.diagnostics.Perm
        ((t.preorder.filter fun h => h.tag?.isNone).map fun h => .ofCode 1001 h.span [h.name]) :=
  have hkept := kept_of_load hload hshared
  ⟨hkept.load, hkept.reported⟩

/-- `import a from "m"` without a kind and after a comment, and a statement that is no construct of
the source. -/
def importedValue : Json :=
  .obj [("type", .str "Program"), ("body", .arr [
    .obj [("type", .str "ImportDeclaration"),
      ("specifiers", .arr [.obj [("type", .str "ImportDefaultSpecifier"),
        ("local", .obj [("type", .str "Identifier"), ("name", .str "a")])]]),
      ("source", .obj [("value", .str "m"), ("type", .str "StringLiteral")]),
      ("leadingComments", .arr [.obj [("type", .str "CommentLine"), ("value", .str " @flow"),
        ("start", .int 0)]])],
    .obj [("type", .str "ExpressionStatement"), ("start", .int 20), ("end", .int 30),
      ("expression", .obj [("type", .str "Mystery"), ("answer", .arr [.null, .int 42])])]])]

/-- The tree of `importedValue`. -/
def importedTree : Node :=
  let source := Node.of .stringLiteral [(.value, .text "m"), (.extra, .extra none)] []
  let name := Node.of .identifier [(.name, .text "a"), (.isOptional, .flag false)]
    [(.ty, .maybe none)]
  let clause := Node.of .importDefaultSpecifier [] [(.localName, .one name)]
  let mystery : Node := .make ⟨.foreign "Mystery"
    (.obj [("type", .str "Mystery"), ("answer", .arr [.null, .int 42])]), [], .none, none⟩ []
  Node.of .program [(.sourceType, .textOrNone none)] [(.interpreter, .maybe none),
    (.directives, .many []), (.body, .many [
      (Node.of .importDeclaration [(.importKind, .wordOrNone none)]
        [(.specifiers, .many [clause]), (.source, .one source)]).withComments
          (.ofLeading [⟨.line, " @flow", some 0, none⟩]),
      (Node.of .expressionStatement [] [(.expression, .one mystery)]).withSpan (some ⟨20, 30⟩)])]

theorem load_convert_importedTree :
    Node.load importedValue = .ok importedTree ∧ importedTree.Every IsShared ∧
      Node.load importedTree.convert.tree.toJson = .ok importedTree.fillKinds ∧
      importedTree.convert.diagnostics.Perm [.ofCode 1001 none ["Mystery"]] :=
  have hload : Node.load importedValue = .ok importedTree := by rfl
  have hshared : importedTree.Every IsShared := by decide +kernel
  have h := load_convert hload hshared
  ⟨hload, hshared, h.1, h.2⟩

end Convert

end Typeshift
