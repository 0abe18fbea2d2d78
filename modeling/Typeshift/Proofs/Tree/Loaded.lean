import Mathlib.Data.List.Nodup
import Typeshift.Proofs.Tree.WellFormed

/-! # Trees that are read are well formed

The reader checks every field against its spec and fills in what may be missing, so every node of
the tree it makes has the fields of its shape.

* `admits_of_loadAttr`, `admits_of_default?`: what is read for a field, or stands in for it, is of
  its kind.
* `Node.load_induct`: induction over the trees that are read.
* `Node.wellFormed_of_load`, `Node.wellFormed_of_parse`: a tree from a JSON value, or from a text,
  is well formed. -/

namespace Typeshift

/-! ### Results -/

section Results

variable {ε ε' α β : Type} {x : Except ε α} {f : α → Except ε β} {g : α → β} {b : β}

theorem bind_eq_ok : (x >>= f) = .ok b ↔ ∃ a, x = .ok a ∧ f a = .ok b := by
  cases x <;> simp [bind, Except.bind]

theorem map_eq_ok : g <$> x = .ok b ↔ ∃ a, x = .ok a ∧ g a = b := by
  cases x <;> simp [Functor.map, Except.map]

theorem mapError_eq_ok {k : ε → ε'} {a : α} : x.mapError k = .ok a ↔ x = .ok a := by
  cases x <;> simp [Except.mapError]

theorem forall₂_of_mapM {xs : List α} {ys : List β} (h : xs.mapM f = .ok ys) :
    List.Forall₂ (fun x y => f x = .ok y) xs ys := by
  induction xs generalizing ys with
  | nil => cases h; exact .nil
  | cons x xs ih =>
    rw [List.mapM_cons] at h
    obtain ⟨y, hy, h⟩ := bind_eq_ok.mp h
    obtain ⟨zs, hzs, h⟩ := bind_eq_ok.mp h
    cases h
    exact .cons hy (ih hzs)

end Results

/-! ### The values of a field -/

theorem Loaded.mem_of_find {α : Type} {choices : List (String × α)} {s : String} {a : α}
    (h : Loaded.choice.find choices s = .ok a) : a ∈ choices.map Prod.snd := by
  unfold Loaded.choice.find at h
  split at h
  · next b hb =>
    cases h
    obtain ⟨l₁, l₂, hsplit, -⟩ := List.lookup_eq_some_iff.mp hb
    rw [hsplit]
    simp
  · cases h

theorem Loaded.mem_of_choice {α : Type} {choices : List (String × α)} {isVoid : Json → Bool}
    {v : Json} {a : α} (h : Loaded.choice choices isVoid v = .ok a) :
    a ∈ choices.map Prod.snd := by
  unfold Loaded.choice at h
  split at h
  · exact mem_of_find h
  · obtain ⟨b, hb, h⟩ := bind_eq_ok.mp h
    split at h
    · cases h
      exact mem_of_find hb
    · cases h
  · cases h
  · cases h

theorem exists_of_loadTemplate {v : Json} {a : Attr} (h : loadTemplate v = .ok a) :
    ∃ raw cooked, a = .template raw cooked := by
  unfold loadTemplate at h
  split at h
  · obtain ⟨d, -, h⟩ := bind_eq_ok.mp h
    dsimp only at h
    split at h <;> cases h
    exact ⟨_, _, rfl⟩
  · cases h
  · obtain ⟨raw, -, h⟩ := bind_eq_ok.mp h
    cases h
    exact ⟨_, _, rfl⟩
  · obtain ⟨raw, -, h⟩ := bind_eq_ok.mp h
    obtain ⟨cooked, -, h⟩ := bind_eq_ok.mp h
    split at h <;> cases h
    exact ⟨_, _, rfl⟩
  · cases h

variable {spec : FieldSpec} {v : Json} {a : Attr}

theorem admits_of_defaultAttr? (h : spec.defaultAttr? = some a) : spec.admits (.attr a) = true := by
  unfold FieldSpec.defaultAttr? at h
  split at h
  · cases h
  all_goals split at h <;> cases h <;> simp_all [FieldSpec.admits]

theorem admits_of_loadAttr (h : loadAttr spec v = .ok a) : spec.admits (.attr a) = true := by
  unfold loadAttr at h
  split at h
  · next hd => cases h; exact admits_of_defaultAttr? hd
  · next hd => cases h; exact admits_of_defaultAttr? hd
  · split at h
    · next ht =>
      obtain ⟨text, -, h⟩ := bind_eq_ok.mp h
      cases h
      split <;> simp_all [FieldSpec.admits]
    · next ht =>
      obtain ⟨b, -, rfl⟩ := map_eq_ok.mp h
      simp [FieldSpec.admits, ht]
    · next ht =>
      obtain ⟨x, -, rfl⟩ := map_eq_ok.mp h
      simp [FieldSpec.admits, ht]
    · next ht =>
      obtain ⟨e, -, rfl⟩ := map_eq_ok.mp h
      simp [FieldSpec.admits, ht]
    · next ht =>
      obtain ⟨raw, cooked, rfl⟩ := exists_of_loadTemplate h
      simp [FieldSpec.admits, ht]
    · next choices ht =>
      obtain ⟨w, hw, h⟩ := bind_eq_ok.mp h
      have hmem : w ∈ choices := by simpa using Loaded.mem_of_choice hw
      cases h
      split <;> simp_all [FieldSpec.admits]
    · cases h
    · cases h
    · cases h

theorem admits_of_default? {value : FieldValue} (h : spec.default? = some value) :
    spec.admits value = true := by
  unfold FieldSpec.default? at h
  split at h
  · obtain ⟨slot, hs, rfl⟩ := Option.map_eq_some_iff.mp h
    unfold FieldSpec.defaultSlot? at hs
    split at hs <;> cases hs <;> simp_all [FieldSpec.admits]
  · obtain ⟨a, ha, rfl⟩ := Option.map_eq_some_iff.mp h
    exact admits_of_defaultAttr? ha

/-! ### The fields of a node -/

/-- The nodes in the value of a field. -/
def FieldValue.nodes : FieldValue → List Node
  | .attr _ => []
  | .slot s => s.toList

/-- A value is of the kind of a field, and the nodes in it have a property. -/
def FieldSpec.Holds (P : Node → Prop) (spec : FieldSpec) (value : FieldValue) : Prop :=
  spec.admits value = true ∧ ∀ c ∈ value.nodes, P c

variable {P : Node → Prop}

theorem holds_default? {value : FieldValue} (h : spec.default? = some value) :
    spec.Holds P value := by
  refine ⟨admits_of_default? h, ?_⟩
  have hnodes : value.nodes = [] := by
    unfold FieldSpec.default? at h
    split at h
    · obtain ⟨slot, hs, rfl⟩ := Option.map_eq_some_iff.mp h
      unfold FieldSpec.defaultSlot? at hs
      split at hs <;> cases hs <;> rfl
    · obtain ⟨a, -, rfl⟩ := Option.map_eq_some_iff.mp h
      rfl
  rw [hnodes]
  simp

theorem lookup_attrsOf {values : List (Field × FieldValue)} {f : Field}
    (h : values.lookup f = some (.attr a)) : (attrsOf values).lookup f = some a := by
  induction values with
  | nil => cases h
  | cons e rest ih =>
    obtain ⟨g, value⟩ := e
    rw [List.lookup_cons] at h
    cases hfg : f == g with
    | true =>
      rw [hfg] at h
      cases h
      show List.lookup f ((g, a) :: attrsOf rest) = _
      rw [List.lookup_cons, hfg]
    | false =>
      rw [hfg] at h
      cases value with
      | attr b =>
        show List.lookup f ((g, b) :: attrsOf rest) = _
        rw [List.lookup_cons, hfg]
        exact ih h
      | slot s => exact ih h

theorem lookup_slotsOf {values : List (Field × FieldValue)} {order : List Field} {f : Field}
    {slot : Slot Node} (hf : f ∈ order) (h : values.lookup f = some (.slot slot)) :
    (slotsOf order values).lookup f = some slot := by
  induction order with
  | nil => cases hf
  | cons g rest ih =>
    unfold slotsOf at ih ⊢
    rw [List.filterMap_cons]
    by_cases hfg : f = g
    · subst hfg
      rw [h]
      simp
    · have hrest := ih ((List.mem_cons.mp hf).resolve_left hfg)
      split
      · exact hrest
      · next e he =>
        have hkey : e.1 = g := by
          split at he <;> cases he
          rfl
        obtain ⟨k, s⟩ := e
        rw [List.lookup_cons, show k = g from hkey, beq_false_of_ne hfg]
        exact hrest

/-- The values of all fields of a shape. -/
def Filled (P : Node → Prop) (shape : List FieldSpec) (values : List (Field × FieldValue)) : Prop :=
  List.Forall₂ (fun spec e => e.1 = spec.field ∧ spec.Holds P e.2) shape values

theorem Filled.exists_lookup {shape : List FieldSpec} {values : List (Field × FieldValue)}
    (h : Filled P shape values) (hn : (shape.map FieldSpec.field).Nodup) (hspec : spec ∈ shape) :
    ∃ value, values.lookup spec.field = some value ∧ spec.Holds P value := by
  induction h with
  | nil => cases hspec
  | @cons first e shape values he _ ih =>
    obtain ⟨f, value⟩ := e
    obtain ⟨rfl, hholds⟩ := he
    rw [List.map_cons, List.nodup_cons] at hn
    rcases List.mem_cons.mp hspec with rfl | hspec
    · exact ⟨value, by simp, hholds⟩
    · have hne : spec.field ≠ first.field := fun heq =>
        hn.1 (heq ▸ List.mem_map_of_mem hspec)
      obtain ⟨value', hvalue, hholds'⟩ := ih hn.2 hspec
      refine ⟨value', ?_, hholds'⟩
      rw [List.lookup_cons, beq_false_of_ne hne]
      exact hvalue

theorem Filled.exists_spec {shape : List FieldSpec} {values : List (Field × FieldValue)}
    (h : Filled P shape values) {f : Field} {value : FieldValue}
    (hf : values.lookup f = some value) : ∃ spec ∈ shape, spec.field = f ∧ spec.Holds P value := by
  obtain ⟨l₁, l₂, hsplit, -⟩ := List.lookup_eq_some_iff.mp hf
  have hmem : (f, value) ∈ values := by rw [hsplit]; simp
  obtain ⟨spec, hspec, hkey, hholds⟩ := exists_of_forall₂_left (R := flip _) h.flip hmem
  exact ⟨spec, hspec, hkey.symm, hholds⟩

/-- Fields and slots of every shape agree. -/
theorem slotOrder_fields (t : Tag) :
    (∀ spec ∈ t.fields .source, spec.isSlot = true → spec.field ∈ t.slotOrder) ∧
      ((t.fields .source).map FieldSpec.field).Nodup := by
  cases t <;> decide

theorem isSlot_of_admits {slot : Slot Node} (h : spec.admits (.slot slot) = true) :
    spec.isSlot = true := by
  cases slot <;> simp_all [FieldSpec.admits, FieldSpec.isSlot]

theorem not_isSlot_of_admits (h : spec.admits (.attr a) = true) : spec.isSlot = false := by
  unfold FieldSpec.isSlot
  cases ht : spec.type <;> cases a <;> simp_all [FieldSpec.admits]

theorem lookup_of_mem_slotsOf {values : List (Field × FieldValue)} {order : List Field} :
    ∀ e ∈ slotsOf order values, values.lookup e.1 = some (.slot e.2) := by
  intro e he
  obtain ⟨f, -, hf⟩ := List.mem_filterMap.mp he
  split at hf <;> cases hf
  assumption

/-- The nodes in the slots of filled fields. -/
theorem Filled.forall_slotsOf {shape : List FieldSpec} {values : List (Field × FieldValue)}
    (h : Filled P shape values) (order : List Field) :
    ∀ c ∈ Slots.toList (slotsOf order values), P c := by
  intro c hc
  obtain ⟨e, he, hc⟩ := Slots.mem_toList.mp hc
  obtain ⟨spec, -, -, -, hnodes⟩ := h.exists_spec (lookup_of_mem_slotsOf e he)
  exact hnodes c hc

theorem Filled.field_of_mem_attrsOf {shape : List FieldSpec} {values : List (Field × FieldValue)}
    (h : Filled P shape values) : ∀ e ∈ attrsOf values, e.1 ∈ shape.map FieldSpec.field := by
  intro e he
  obtain ⟨⟨f, value⟩, hmem, hattr⟩ := List.mem_filterMap.mp he
  obtain ⟨spec, hspec, hkey, -⟩ := exists_of_forall₂_left (R := flip _) h.flip hmem
  refine List.mem_map.mpr ⟨spec, hspec, ?_⟩
  cases value with
  | attr a =>
    cases hattr
    exact hkey.symm
  | slot s => cases hattr

/-- **A node of filled fields is well formed.** -/
theorem wellFormed_of_filled {t : Tag} {values : List (Field × FieldValue)}
    (h : Filled (Node.WellFormed .source) (t.fields .source) values) (comments : Comments)
    (span : Option Span) :
    Node.WellFormed .source
      (Node.make ⟨.known t, attrsOf values, comments, span⟩ (slotsOf t.slotOrder values)) := by
  obtain ⟨horder, hnodup⟩ := slotOrder_fields t
  refine .mk ?_ (h.forall_slotsOf _)
  rintro _ ⟨⟩
  refine ⟨fun spec hspec => ?_, fun e he => ?_⟩
  · obtain ⟨value, hvalue, hadmits, -⟩ := h.exists_lookup hnodup hspec
    unfold FieldSpec.isFilled
    rw [Bool.or_eq_true, Option.any_eq_true, Option.any_eq_true]
    cases value with
    | attr a => exact .inl ⟨a, lookup_attrsOf hvalue, hadmits⟩
    | slot s =>
      exact .inr ⟨s, lookup_slotsOf (horder spec hspec (isSlot_of_admits hadmits)) hvalue, hadmits⟩
  · obtain ⟨spec, hspec, hkey, -⟩ := h.exists_spec (lookup_of_mem_slotsOf e he)
    exact List.mem_map.mpr ⟨spec, hspec, hkey⟩

/-- The values that are written for the fields of a shape. -/
def Written (P : Node → Prop) (shape : List FieldSpec) (written : List (Field × FieldValue)) :
    Prop :=
  ∀ e ∈ written, ∃ spec ∈ shape, spec.field = e.1 ∧ spec.Holds P e.2

theorem Written.filled {shape : List FieldSpec} {written values : List (Field × FieldValue)}
    (h : Written P shape written) (hn : (shape.map FieldSpec.field).Nodup)
    (hc : complete written shape = .ok values) : Filled P shape values := by
  have hall := (List.forall₂_and_left (p := (· ∈ shape)) _ _).mpr ⟨fun _ => id, forall₂_of_mapM hc⟩
  refine List.Forall₂.imp ?_ hall
  rintro spec e ⟨hspec, he⟩
  split at he
  · next value hvalue =>
    cases he
    obtain ⟨l₁, l₂, hsplit, -⟩ := List.lookup_eq_some_iff.mp hvalue
    obtain ⟨spec', hspec', hkey, hholds⟩ := h (spec.field, value) (by rw [hsplit]; simp)
    have heq : spec' = spec := List.inj_on_of_nodup_map hn hspec' hspec hkey
    exact ⟨rfl, heq ▸ hholds⟩
  · next hd =>
    cases he
    exact ⟨rfl, holds_default? hd⟩
  · cases he

/-! ### Trees -/

theorem name_of_ofName? {side : Side} {name : String} {t : Tag}
    (h : Tag.ofName? side name = some t) : t.name = name := by
  have ht := List.find?_some h
  rw [Bool.and_eq_true, beq_iff_eq] at ht
  exact ht.1

section Induction

variable
  (foreign : ∀ {name : String} {entries : List (String × Json)} {h : Head},
    h.kind = .foreign name (.obj entries) → h.attrs = [] →
    Node.load (.obj entries) = .ok (Node.make h []) → P (Node.make h []))
  (known : ∀ {entries : List (String × Json)} {t : Tag} {comments : Comments}
    {values : List (Field × FieldValue)}, Tag.ofName? .source t.name = some t →
    Comments.load (.obj entries) = .ok comments → Filled P (t.fields .source) values →
    P (Node.make ⟨.known t, attrsOf values, comments, Span.ofJson? (.obj entries)⟩
      (slotsOf t.slotOrder values)))
include foreign known

set_option linter.unusedSectionVars false in
mutual

/-- **Induction over trees that are read.** A property holds of every tree from a JSON value if it
holds of the objects that are kept as they are, and of a node of filled fields whenever it holds of
the nodes in them. -/
theorem Node.load_induct : ∀ (v : Json) {t : Node}, Node.load v = .ok t → P t
  | .obj entries, t, h => by
    rw [Node.load] at h
    split at h
    · next name hname =>
      obtain ⟨comments, hcomments, hrest⟩ := bind_eq_ok.mp h
      dsimp only at hrest
      split at hrest
      · cases hrest
        refine foreign rfl rfl ?_
        rw [Node.load, hname]
        exact h
      · next tag htag =>
        obtain ⟨written, hwritten, hrest⟩ := bind_eq_ok.mp hrest
        obtain ⟨values, hvalues, hrest⟩ := bind_eq_ok.mp hrest
        cases hrest
        have hw := written_of_loadEntries entries (mapError_eq_ok.mp hwritten)
        have hfilled := hw.filled (slotOrder_fields tag).2 (mapError_eq_ok.mp hvalues)
        refine known ?_ (mapError_eq_ok.mp hcomments) hfilled
        rw [name_of_ofName? htag]
        exact htag
    · cases h
  | .null, _, h | .bool _, _, h | .int _, _, h | .float _, _, h | .str _, _, h | .arr _, _, h => by
    cases h

theorem written_of_loadEntries {shape : List FieldSpec} : ∀ (entries : List (String × Json))
    {seen : List Field} {written : List (Field × FieldValue)},
    loadEntries shape seen entries = .ok written → Written P shape written
  | [], _, _, h => by
    cases h
    intro e he
    cases he
  | (key, v) :: rest, seen, written, h => by
    rw [loadEntries] at h
    split at h
    · exact written_of_loadEntries rest h
    · next spec hfind =>
      split at h
      · cases h
      -- however the value is read, the other entries are read after it
      have hothers : ∀ {value : FieldValue}, spec.Holds P value →
          (loadEntries shape (spec.field :: seen) rest >>= fun others =>
            pure ((spec.field, value) :: others)) = .ok written → Written P shape written := by
        intro value hvalue h
        obtain ⟨others, ho, h⟩ := bind_eq_ok.mp h
        cases h
        exact List.forall_mem_cons.mpr ⟨⟨spec, List.mem_of_find?_eq_some hfind, rfl, hvalue⟩,
          written_of_loadEntries rest ho⟩
      have hnode : ∀ {n : Node}, Node.load v = .ok n → P n := Node.load_induct v
      dsimp only at h
      split at h
      · next htype =>
        split at h
        · next hp =>
          obtain ⟨value, hvalue, h⟩ := bind_eq_ok.mp h
          obtain ⟨n, hn, rfl⟩ := map_eq_ok.mp hvalue
          refine hothers ⟨by simp [FieldSpec.admits, htype, hp], ?_⟩ h
          exact List.forall_mem_singleton.mpr (hnode hn)
        · next hp =>
          obtain ⟨value, hvalue, h⟩ := bind_eq_ok.mp h
          cases hvalue
          exact hothers ⟨by simpa [FieldSpec.admits, htype] using hp, List.forall_mem_nil _⟩ h
        · next hp =>
          obtain ⟨value, hvalue, h⟩ := bind_eq_ok.mp h
          obtain ⟨n, hn, rfl⟩ := map_eq_ok.mp hvalue
          refine hothers ⟨by simpa [FieldSpec.admits, htype] using hp, ?_⟩ h
          exact List.forall_mem_singleton.mpr (hnode hn)
      · next htype =>
        split at h
        · next items =>
          obtain ⟨value, hvalue, h⟩ := bind_eq_ok.mp h
          obtain ⟨ns, hns, rfl⟩ := map_eq_ok.mp hvalue
          refine hothers ⟨by simp [FieldSpec.admits, htype], ?_⟩ h
          exact of_loadList items hns
        · obtain ⟨value, hvalue, h⟩ := bind_eq_ok.mp h
          unfold loadNoList at hvalue
          split at hvalue <;> cases hvalue
          exact hothers ⟨by simp [FieldSpec.admits, htype], List.forall_mem_nil _⟩ h
      · next htype =>
        split at h
        · next items =>
          obtain ⟨value, hvalue, h⟩ := bind_eq_ok.mp h
          obtain ⟨ns, hns, rfl⟩ := map_eq_ok.mp hvalue
          refine hothers ⟨by simp [FieldSpec.admits, htype], fun c hc => ?_⟩ h
          exact of_loadGaps items hns c (by simpa [FieldValue.nodes, Slot.toList] using hc)
        · cases h
      · obtain ⟨value, hvalue, h⟩ := bind_eq_ok.mp h
        obtain ⟨a, ha, rfl⟩ := map_eq_ok.mp hvalue
        exact hothers ⟨admits_of_loadAttr ha, List.forall_mem_nil _⟩ h

theorem of_loadList : ∀ (vs : List Json) {ts : List Node}, loadList vs = .ok ts →
    ∀ t ∈ ts, P t
  | [], _, h => by
    cases h
    intro t ht
    cases ht
  | v :: rest, ts, h => by
    rw [loadList] at h
    obtain ⟨t, ht, h⟩ := bind_eq_ok.mp h
    obtain ⟨others, hothers, h⟩ := bind_eq_ok.mp h
    cases h
    exact List.forall_mem_cons.mpr ⟨Node.load_induct v ht, of_loadList rest hothers⟩

theorem of_loadGaps : ∀ (vs : List Json) {ts : List (Option Node)},
    loadGaps vs = .ok ts → ∀ t, some t ∈ ts → P t
  | [], _, h => by
    cases h
    intro t ht
    cases ht
  | v :: rest, ts, h => by
    have hnode : ∀ {n : Node}, Node.load v = .ok n → P n := Node.load_induct v
    have hrest : ∀ {others : List (Option Node)}, loadGaps rest = .ok others →
        ∀ t, some t ∈ others → P t := of_loadGaps rest
    rw [loadGaps.eq_def] at h
    split at h
    · next heq => cases heq
    · next heq =>
      cases heq
      obtain ⟨others, hothers, h⟩ := bind_eq_ok.mp h
      cases h
      intro t ht
      rcases List.mem_cons.mp ht with ht | ht
      · cases ht
      · exact hrest hothers t ht
    · next heq =>
      cases heq
      obtain ⟨n, hn, h⟩ := bind_eq_ok.mp h
      obtain ⟨others, hothers, h⟩ := bind_eq_ok.mp h
      cases h
      intro t ht
      rcases List.mem_cons.mp ht with ht | ht
      · cases ht
        exact hnode hn
      · exact hrest hothers t ht

end

end Induction

/-- **A tree from a JSON value is well formed.** -/
theorem Node.wellFormed_of_load (v : Json) {t : Node} (h : Node.load v = .ok t) :
    t.WellFormed .source := by
  refine Node.load_induct ?_ (fun _ _ hfilled => wellFormed_of_filled hfilled _ _) v h
  intro name entries h hkind _ _
  refine .mk (fun tag htag => ?_) (fun _ hc => by cases hc)
  unfold Head.tag? at htag
  rw [hkind] at htag
  cases htag

theorem Node.wellFormed_of_parse {s : String} {t : Node} (h : Node.parse s = .ok t) :
    t.WellFormed .source := by
  unfold Node.parse at h
  split at h
  · exact wellFormed_of_load _ h
  · cases h

end Typeshift
