import Typeshift.Proofs.Tree.Reordered

/-! # Loading does not depend on the order of keys

An object is read entry by entry, so the order of its keys decides which error is met first. It does
not decide whether there is one, nor what is read: each field is read at most once, and what is
missing is filled in afterwards, in the order of the shape.

* `FieldSpec.load`: how the value of one field is read.
* `loadEntries_eq`, `loadEntries_error`: the entries of an object are read one by one, unless two of
  them are for the same field.
* `concur_loadEntries`: so they are read alike in any order.
* `Node.load_reordered`: and so is the whole tree. -/

namespace Typeshift

/-! ### Fields -/

/-- Values of a field that differ in raw JSON, and there in the order of keys. -/
inductive FieldValue.Reordered : FieldValue → FieldValue → Prop where
  | attr (a : Attr) : Reordered (.attr a) (.attr a)
  | slot {s s' : Slot Node} (h : Slot.Rel Node.Reordered s s') : Reordered (.slot s) (.slot s')

/-- How the value of a field is read. -/
def FieldSpec.load (s : FieldSpec) (v : Json) : Loaded FieldValue :=
  match s.type with
  | .node =>
    match s.presence, v with
    | .required, _ => (fun n => FieldValue.slot (.one n)) <$> Node.load v
    | _, .null => pure (.slot (.maybe none))
    | _, _ => (fun n => FieldValue.slot (.maybe (some n))) <$> Node.load v
  | .nodes =>
    match v with
    | .arr items => (fun ns => FieldValue.slot (.many ns)) <$> loadList items
    | _ => loadNoList s v
  | .holes =>
    match v with
    | .arr items => (fun ns => FieldValue.slot (.holes ns)) <$> loadGaps items
    | _ => .error (.wrongType v "a sequence")
  | _ => FieldValue.attr <$> loadAttr s v

/-- Values that differ in the order of keys, and are read alike. -/
structure ReadsAlike (v w : Json) : Prop where
  reordered : v.Reordered w
  load : Concur Node.Reordered (Node.load v) (Node.load w)

/-- The items of a list. -/
def Json.items : Json → List Json
  | .arr items => items
  | _ => []

section Fields

variable {vs ws : List Json}

theorem concur_loadList (h : List.Forall₂ ReadsAlike vs ws) :
    Concur (List.Forall₂ Node.Reordered) (loadList vs) (loadList ws) := by
  induction h with
  | nil => exact .ok .nil
  | cons h _ ih => exact h.load.bind fun _ _ ht => ih.bind fun _ _ hts => .ok (.cons ht hts)

theorem loadGaps_cons (v : Json) (vs : List Json) :
    loadGaps (v :: vs) =
      (if Loaded.isNull v then pure none else some <$> Node.load v) >>= fun t? =>
        loadGaps vs >>= fun ts => pure (t? :: ts) := by
  cases v <;> first | rfl | simp [loadGaps, Loaded.isNull]

theorem concur_loadGaps (h : List.Forall₂ ReadsAlike vs ws) :
    Concur (List.Forall₂ (Option.Rel Node.Reordered)) (loadGaps vs) (loadGaps ws) := by
  induction h with
  | nil => exact .ok .nil
  | cons h _ ih =>
    rw [loadGaps_cons, loadGaps_cons, isNull_eq h.reordered]
    refine Concur.bind (R := Option.Rel Node.Reordered) ?_ fun _ _ ht =>
      ih.bind fun _ _ hts => .ok (.cons ht hts)
    split
    · exact .ok .none
    · exact h.load.map fun _ _ => .some

theorem concur_loadField (s : FieldSpec) {v w : Json} (h : ReadsAlike v w)
    (hitems : List.Forall₂ ReadsAlike v.items w.items) :
    Concur FieldValue.Reordered (s.load v) (s.load w) := by
  have hone : Concur FieldValue.Reordered
      ((fun n => FieldValue.slot (.one n)) <$> Node.load v)
      ((fun n => FieldValue.slot (.one n)) <$> Node.load w) :=
    h.load.map fun _ _ ht => .slot (.one ht)
  have hmaybe : Concur FieldValue.Reordered
      ((fun n => FieldValue.slot (.maybe (some n))) <$> Node.load v)
      ((fun n => FieldValue.slot (.maybe (some n))) <$> Node.load w) :=
    h.load.map fun _ _ ht => .slot (.maybe (.some ht))
  have hattr : Concur FieldValue.Reordered (FieldValue.attr <$> loadAttr s v)
      (FieldValue.attr <$> loadAttr s w) :=
    (concur_loadAttr s h.reordered).map fun a _ ha => ha ▸ .attr a
  unfold FieldSpec.load
  cases s.type with
  | node =>
    cases s.presence with
    | required => exact hone
    | _ => cases h.reordered <;> first | exact hmaybe | exact .ok (.slot (.maybe .none))
  | nodes =>
    cases h.reordered with
    | arr => exact (concur_loadList hitems).map fun _ _ hts => .slot (.many hts)
    | null =>
      dsimp only [loadNoList]
      cases s.presence <;> first | exact .error | exact .ok (.slot (.many .nil))
    | _ => dsimp only [loadNoList]; cases s.presence <;> exact .error
  | holes =>
    cases h.reordered with
    | arr => exact (concur_loadGaps hitems).map fun _ _ hts => .slot (.holes hts)
    | _ => exact .error
  | _ => exact hattr

end Fields

/-! ### Entries -/

theorem loadEntries_step (shape : List FieldSpec) (seen : List Field) (key : String) (v : Json)
    (rest : List (String × Json)) :
    loadEntries shape seen ((key, v) :: rest) =
      match shape.find? (·.hasKey key) with
      | none => loadEntries shape seen rest
      | some s =>
        if s.field ∈ seen then .error (.duplicateField s.field.jsonKey) else do
          let value ← s.load v
          let others ← loadEntries shape (s.field :: seen) rest
          return (s.field, value) :: others := by
  rw [loadEntries]
  cases shape.find? (·.hasKey key) with
  | none => rfl
  | some s =>
    dsimp only
    split
    · rfl
    · unfold FieldSpec.load
      cases s.type with
      | node => cases s.presence <;> cases v <;> rfl
      | nodes => cases v <;> rfl
      | holes => cases v <;> rfl
      | _ => rfl

/-- The fields of a shape for which an object has entries, with the values of the entries. -/
def matched (shape : List FieldSpec) (entries : List (String × Json)) : List (FieldSpec × Json) :=
  entries.filterMap fun e => (shape.find? (·.hasKey e.1)).map (·, e.2)

/-- Read the value of a field. -/
def loadMatched (m : FieldSpec × Json) : Loaded (Field × FieldValue) :=
  (m.1.field, ·) <$> m.1.load m.2

/-- No field is there twice, nor is one that was there before. -/
def Unrepeated (seen fields : List Field) : Prop := fields.Nodup ∧ ∀ f ∈ fields, f ∉ seen

section Entries

variable {shape : List FieldSpec} {entries : List (String × Json)} {seen fields : List Field}
  {f : Field}

theorem unrepeated_cons :
    Unrepeated seen (f :: fields) ↔ f ∉ seen ∧ Unrepeated (f :: seen) fields := by
  unfold Unrepeated
  rw [List.nodup_cons, List.forall_mem_cons]
  simp only [List.mem_cons, not_or]
  constructor
  · rintro ⟨⟨hf, hn⟩, hseen, hall⟩
    exact ⟨hseen, hn, fun g hg => ⟨fun heq => hf (heq ▸ hg), hall g hg⟩⟩
  · rintro ⟨hseen, hn, hall⟩
    exact ⟨⟨fun hf => (hall f hf).1 rfl, hn⟩, hseen, fun g hg => (hall g hg).2⟩

/-- **The entries of an object are read one by one.** -/
theorem loadEntries_eq (h : Unrepeated seen ((matched shape entries).map (·.1.field))) :
    loadEntries shape seen entries = (matched shape entries).mapM loadMatched := by
  induction entries generalizing seen with
  | nil => rfl
  | cons e rest ih =>
    obtain ⟨key, v⟩ := e
    rw [loadEntries_step]
    unfold matched at h ih ⊢
    rw [List.filterMap_cons] at h ⊢
    cases hfind : shape.find? (·.hasKey key) with
    | none =>
      rw [hfind] at h
      exact ih h
    | some s =>
      rw [hfind] at h
      obtain ⟨hs, h⟩ := unrepeated_cons.mp h
      dsimp only [Option.map_some]
      rw [if_neg hs, ih h, List.mapM_cons]
      unfold loadMatched
      cases s.load v <;> rfl

/-- Two entries for the same field are an error, whatever their values are. -/
theorem loadEntries_error (h : ¬ Unrepeated seen ((matched shape entries).map (·.1.field))) :
    ∃ e, loadEntries shape seen entries = .error e := by
  induction entries generalizing seen with
  | nil => exact absurd ⟨List.nodup_nil, fun _ hf => by cases hf⟩ h
  | cons e rest ih =>
    obtain ⟨key, v⟩ := e
    rw [loadEntries_step]
    unfold matched at h ih
    rw [List.filterMap_cons] at h
    cases hfind : shape.find? (·.hasKey key) with
    | none =>
      rw [hfind] at h
      exact ih h
    | some s =>
      rw [hfind] at h
      dsimp only
      split
      · exact ⟨_, rfl⟩
      · next hs =>
        obtain ⟨e, he⟩ := ih fun hrest => h (unrepeated_cons.mpr ⟨hs, hrest⟩)
        rw [he]
        cases s.load v <;> exact ⟨_, rfl⟩

theorem forall₂_matched (shape : List FieldSpec) {R : Json → Json → Prop}
    {entries' : List (String × Json)}
    (h : List.Forall₂ (Entry R) entries entries') :
    List.Forall₂ (Entry R) (matched shape entries) (matched shape entries') := by
  unfold matched
  induction h with
  | nil => exact .nil
  | @cons e e' es es' he _ ih =>
    rw [List.filterMap_cons, List.filterMap_cons, ← he.1]
    cases shape.find? (·.hasKey e.1) with
    | none => exact ih
    | some s => exact .cons ⟨rfl, he.2⟩ ih

/-- **The order of the entries does not matter**, neither for success nor for the values. -/
theorem concur_loadEntries {R : Json → Json → Prop} {entries' : List (String × Json)}
    (h : Reorders R entries entries')
    (hR : ∀ (s : FieldSpec) v w, R v w → Concur FieldValue.Reordered (s.load v) (s.load w)) :
    Concur (Reorders FieldValue.Reordered) (loadEntries shape [] entries)
      (loadEntries shape [] entries') := by
  obtain ⟨between, haligned, hperm⟩ := h.exists_aligned
  have hmatched := forall₂_matched shape haligned
  have hpermuted : (matched shape between).Perm (matched shape entries') := hperm.filterMap _
  have hfields : (matched shape entries).map (·.1.field) =
      (matched shape between).map (·.1.field) := by
    have hkeys := congrArg (List.map FieldSpec.field) (keys_eq hmatched)
    rwa [List.map_map, List.map_map] at hkeys
  have hrepeated : Unrepeated [] ((matched shape entries).map (·.1.field)) ↔
      Unrepeated [] ((matched shape entries').map (·.1.field)) := by
    rw [hfields]
    have hfields' := hpermuted.map (·.1.field)
    exact and_congr hfields'.nodup_iff (forall_congr' fun f => imp_congr_left hfields'.mem_iff)
  by_cases hn : Unrepeated [] ((matched shape entries).map (·.1.field))
  · rw [loadEntries_eq hn, loadEntries_eq (hrepeated.mp hn)]
    have hread : Concur (List.Forall₂ (Entry FieldValue.Reordered))
        ((matched shape entries).mapM loadMatched) ((matched shape between).mapM loadMatched) := by
      refine Concur.mapM (hmatched.imp fun m m' hm => ?_)
      unfold loadMatched
      rw [← hm.1]
      exact (hR m.1 m.2 m'.2 hm.2).map fun _ _ hvalue => ⟨rfl, hvalue⟩
    refine hread.and_eq.trans (Concur.mapM_perm hpermuted) fun written _ _ hwritten hperm => ?_
    obtain ⟨hok, -, hwritten⟩ := hwritten
    refine .of_aligned ?_ hwritten hperm
    have hkeys : List.Forall₂ (fun m e => m.1.field = e.1) (matched shape entries) written := by
      refine (forall₂_of_mapM hok).imp fun m e he => ?_
      obtain ⟨value, -, rfl⟩ := map_eq_ok.mp he
      rfl
    rw [← List.forall₂_map_right_iff, ← List.forall₂_map_left_iff, List.forall₂_eq_eq_eq] at hkeys
    exact hkeys ▸ hn.1
  · obtain ⟨e, he⟩ := loadEntries_error hn
    obtain ⟨e', he'⟩ := loadEntries_error (fun hn' => hn (hrepeated.mpr hn'))
    rw [he, he']
    exact .error

end Entries

/-! ### Nodes -/

section Nodes

variable {written written' values values' : List (Field × FieldValue)}

theorem reordered_default? {s : FieldSpec} {value : FieldValue} (h : s.default? = some value) :
    value.Reordered value := by
  unfold FieldSpec.default? at h
  split at h
  · obtain ⟨slot, hslot, rfl⟩ := Option.map_eq_some_iff.mp h
    unfold FieldSpec.defaultSlot? at hslot
    split at hslot <;> cases hslot
    · exact .slot (.maybe .none)
    · exact .slot (.many .nil)
  · obtain ⟨a, -, rfl⟩ := Option.map_eq_some_iff.mp h
    exact .attr a

theorem concur_complete (h : Reorders FieldValue.Reordered written written')
    (shape : List FieldSpec) : Concur (List.Forall₂ (Entry FieldValue.Reordered))
      (complete written shape) (complete written' shape) := by
  refine Concur.mapM (List.forall₂_same.mpr fun s _ => ?_)
  have hlookup := h.lookup s.field
  generalize written.lookup s.field = value?, written'.lookup s.field = value?' at hlookup ⊢
  cases hlookup with
  | some hvalue => exact .ok ⟨rfl, hvalue⟩
  | none =>
    cases hd : s.default? with
    | none => exact .error
    | some value => exact .ok ⟨rfl, reordered_default? hd⟩

theorem attrsOf_eq (h : List.Forall₂ (Entry FieldValue.Reordered) values values') :
    attrsOf values = attrsOf values' := by
  unfold attrsOf
  induction h with
  | nil => rfl
  | @cons e e' es es' he _ ih =>
    obtain ⟨f, value⟩ := e
    obtain ⟨_, value'⟩ := e'
    obtain ⟨rfl, hvalue⟩ := he
    rw [List.filterMap_cons, List.filterMap_cons, ih]
    cases hvalue <;> rfl

theorem rel_slotsOf (h : List.Forall₂ (Entry FieldValue.Reordered) values values')
    (order : List Field) :
    Slots.Rel Node.Reordered (slotsOf order values) (slotsOf order values') := by
  unfold slotsOf
  induction order with
  | nil => exact .nil
  | cons f order ih =>
    rw [List.filterMap_cons, List.filterMap_cons]
    have hlookup := rel_lookup h f
    generalize values.lookup f = value?, values'.lookup f = value?' at hlookup ⊢
    cases hlookup with
    | none => exact ih
    | some hvalue =>
      cases hvalue with
      | attr a => exact ih
      | slot hslot => exact .cons ⟨rfl, hslot⟩ ih

theorem Node.Reordered.of_slots {h h' : Head} {s s' : Slots Unit}
    (kind : h.kind.Reordered h'.kind) (attrs : h.attrs = h'.attrs)
    (comments : h.comments = h'.comments) (span : h.span = h'.span)
    (slots : Slots.Rel Node.Reordered s s') : (Node.make h s).Reordered (Node.make h' s') :=
  .mk kind attrs comments span (keys_eq slots) fun _ _ hmem =>
    ((List.forall₂_iff_zip.mp slots).2 hmem).2

/-- **An object is read alike** in any order of its entries, if the values of the entries are. -/
theorem concur_loadObject {entries entries' : List (String × Json)} {R : Json → Json → Prop}
    (hobj : (Json.obj entries).Reordered (.obj entries')) (h : Reorders R entries entries')
    (hR : ∀ (s : FieldSpec) v w, R v w → Concur FieldValue.Reordered (s.load v) (s.load w)) :
    Concur Node.Reordered (Node.load (.obj entries)) (Node.load (.obj entries')) := by
  have htype := rel_jsonLookup hobj.reorders "type"
  rw [Node.load, Node.load]
  generalize Json.lookup "type" entries = type?, Json.lookup "type" entries' = type?' at htype ⊢
  cases htype with
  | none => exact .error
  | some htype =>
    cases htype with
    | str name =>
      dsimp only
      refine (Comments.concur_load hobj.reorders).mapError.bind fun comments _ hcomments => ?_
      subst hcomments
      rw [ofJson?_eq hobj.reorders]
      cases Tag.ofName? .source name with
      | none => exact .ok (.of_slots (.foreign name hobj) rfl rfl rfl .nil)
      | some t =>
        refine (concur_loadEntries h hR).mapError.bind fun written written' hwritten => ?_
        refine (concur_complete hwritten _).mapError.bind fun values values' hvalues => ?_
        exact .ok (.of_slots (.known t) (attrsOf_eq hvalues) rfl rfl (rel_slotsOf hvalues _))
    | _ => exact .error

theorem Json.Reordered.readsAlike {v w : Json} (h : v.Reordered w) :
    ReadsAlike v w ∧ List.Forall₂ ReadsAlike v.items w.items := by
  induction h with
  | null => exact ⟨⟨.null, .error⟩, .nil⟩
  | bool b => exact ⟨⟨.bool b, .error⟩, .nil⟩
  | int i => exact ⟨⟨.int i, .error⟩, .nil⟩
  | float x => exact ⟨⟨.float x, .error⟩, .nil⟩
  | str s => exact ⟨⟨.str s, .error⟩, .nil⟩
  | arr length items ih =>
    exact ⟨⟨.arr length items, .error⟩,
      List.forall₂_iff_zip.mpr ⟨length, fun hmem => (ih _ _ hmem).1⟩⟩
  | obj keys nodup values ih =>
    have hobj := Json.Reordered.obj keys nodup values
    refine ⟨⟨hobj, concur_loadObject hobj ⟨keys, nodup, ih⟩ fun s v w hvw => ?_⟩, .nil⟩
    exact concur_loadField s hvw.1 hvw.2

/-- **Loading does not depend on the order of keys**: of two values that differ in the order of keys
only, at any depth, either none is a tree, or both are, and the trees differ in the raw JSON of
unknown nodes, and there in the order of keys. -/
theorem Node.load_reordered {v w : Json} (h : v.Reordered w) :
    (∃ t t', Node.load v = .ok t ∧ Node.load w = .ok t' ∧ t.Reordered t') ∨
      ∃ e e', Node.load v = .error e ∧ Node.load w = .error e' := by
  have hload := h.readsAlike.1.load
  generalize Node.load v = x, Node.load w = y at hload
  cases hload with
  | ok ht => exact .inl ⟨_, _, rfl, rfl, ht⟩
  | error => exact .inr ⟨_, _, rfl, rfl⟩

end Nodes

/-- A statement with an unknown node in it. -/
def statementOfUnknown : Json :=
  .obj [("type", .str "ExpressionStatement"),
    ("expression", .obj [("type", .str "Mystery"), ("depth", .int 1), ("start", .int 0)])]

/-- The same statement with its keys in another order, and those of the unknown node too. -/
def statementOfUnknown' : Json :=
  .obj [("expression", .obj [("depth", .int 1), ("start", .int 0), ("type", .str "Mystery")]),
    ("type", .str "ExpressionStatement")]

theorem reordered_statementOfUnknown : statementOfUnknown.Reordered statementOfUnknown' := by
  refine .obj (by decide) (by decide) fun key v w hv hw => ?_
  simp only [List.mem_cons, List.not_mem_nil, Prod.mk.injEq, or_false] at hv
  obtain ⟨rfl, rfl⟩ | ⟨rfl, rfl⟩ := hv
  · obtain rfl : w = _ := by simpa using hw
    exact .str _
  · obtain rfl : w = _ := by simpa using hw
    refine .obj (by decide) (by decide) fun key v w hv hw => ?_
    simp only [List.mem_cons, List.not_mem_nil, Prod.mk.injEq, or_false] at hv
    obtain ⟨rfl, rfl⟩ | ⟨rfl, rfl⟩ | ⟨rfl, rfl⟩ := hv <;> obtain rfl : w = _ := by simpa using hw
    · exact .str _
    · exact .int _
    · exact .int _

theorem Node.load_reordered_statementOfUnknown :
    statementOfUnknown.Reordered statementOfUnknown' ∧
      ∃ t t', Node.load statementOfUnknown = .ok t ∧ Node.load statementOfUnknown' = .ok t' ∧
        t.Reordered t' := by
  refine ⟨reordered_statementOfUnknown,
    (Node.load_reordered reordered_statementOfUnknown).resolve_right ?_⟩
  rintro ⟨e, -, he, -⟩
  cases he

end Typeshift
