import Typeshift.Proofs.Tree.Values
import Typeshift.Tree.Serialize

/-! # Reading back what was written

The comments, the offsets and the attributes of a tree that was read are written as values from
which the reader gets them again. Offsets have to fit 32 bits; those that were read do.

* `Comments.load_toEntries`: comments among other entries.
* `Span.ofJson?_toEntries`: a span among other entries.
* `loadAttr_toJson`: an attribute of the kind of its field.
* `loadEntries_fields`: the fields of an object, one after another. -/

namespace Typeshift

theorem foldlM_invariant {α β ε : Type} {f : β → α → Except ε β} {I : β → Prop} {as : List α}
    {b c : β} (hf : ∀ b a c, f b a = .ok c → I b → I c) (hb : I b)
    (h : as.foldlM f b = .ok c) : I c := by
  induction as generalizing b with
  | nil =>
    cases h
    exact hb
  | cons a as ih =>
    rw [List.foldlM_cons] at h
    obtain ⟨d, hd, h⟩ := bind_eq_ok.mp h
    exact ih (hf b a d hd hb) h

theorem mapM_eq_ok {α β ε : Type} {f : α → Except ε β} {g : α → β} {as : List α}
    (h : ∀ a ∈ as, f a = .ok (g a)) : as.mapM f = .ok (as.map g) := by
  induction as with
  | nil => rfl
  | cons a as ih =>
    rw [List.mapM_cons, h a List.mem_cons_self, ih fun b hb => h b (List.mem_cons_of_mem a hb)]
    rfl

/-! ### Offsets -/

/-- An offset, if there is one, fits 32 bits. -/
def Fits32 (x : Option Nat) : Prop := ∀ n ∈ x, (n : Int) < Json.word32Bound

theorem fits32_none : Fits32 none := nofun

theorem fits32_of_offset {v : Json} {x : Option Nat}
    (h : Loaded.orNone Loaded.offset v = .ok x) : Fits32 x := by
  unfold Loaded.orNone at h
  split at h
  · cases h
    exact fits32_none
  · obtain ⟨n, hn, rfl⟩ := map_eq_ok.mp h
    unfold Loaded.offset at hn
    split at hn
    · split_ifs at hn with hi
      cases hn
      rintro _ ⟨⟩
      rw [Int.toNat_of_nonneg hi.1]
      exact hi.2
    · cases hn

theorem offset_int {n : Nat} (h : Fits32 (some n)) : Loaded.offset (.int n) = .ok n := by
  unfold Loaded.offset
  exact if_pos ⟨Int.natCast_nonneg n, h n rfl⟩

theorem word32?_int {n : Nat} (h : Fits32 (some n)) : Json.word32? (.int n) = some n := by
  unfold Json.word32?
  exact if_pos ⟨Int.natCast_nonneg n, h n rfl⟩

theorem fits32_of_word32? {v : Json} {n : Nat} (h : v.word32? = some n) : Fits32 (some n) := by
  unfold Json.word32? at h
  split at h
  · split_ifs at h with hi
    cases h
    rintro _ ⟨⟩
    rw [Int.toNat_of_nonneg hi.1]
    exact hi.2
  · cases h

/-! ### Comments -/

/-- The offsets of a comment fit 32 bits. -/
def Comment.Placed (c : Comment) : Prop := Fits32 c.start ∧ Fits32 c.stop

theorem Comment.placed_of_load {v : Json} {c : Comment} (h : Comment.load v = .ok c) :
    c.Placed := by
  have hstep : ∀ (d : Draft) (e : String × Json) (d' : Draft), loadEntry d e = .ok d' →
      Fits32 d.start ∧ Fits32 d.stop → Fits32 d'.start ∧ Fits32 d'.stop := by
    intro d e d' hd hfits
    unfold loadEntry at hd
    split at hd
    · obtain ⟨_, -, hd⟩ := bind_eq_ok.mp hd
      cases hd
      exact hfits
    · obtain ⟨_, -, hd⟩ := bind_eq_ok.mp hd
      cases hd
      exact hfits
    · obtain ⟨x, hx, hd⟩ := bind_eq_ok.mp hd
      cases hd
      exact ⟨fits32_of_offset hx, hfits.2⟩
    · obtain ⟨x, hx, hd⟩ := bind_eq_ok.mp hd
      cases hd
      exact ⟨hfits.1, fits32_of_offset hx⟩
    · cases hd
      exact hfits
  unfold load at h
  split at h
  · obtain ⟨d, hd, h⟩ := bind_eq_ok.mp h
    have hfits := foldlM_invariant hstep ⟨fits32_none, fits32_none⟩ hd
    split at h
    · cases h
    · cases h
    · cases h
      exact hfits
  · obtain ⟨d, hd, h⟩ := bind_eq_ok.mp h
    have hfits := foldlM_invariant hstep ⟨fits32_none, fits32_none⟩ hd
    split at h
    · split_ifs at h
      cases h
      exact hfits
    · cases h
  · cases h

theorem orNone_offset {n : Nat} (h : Fits32 (some n)) :
    Loaded.orNone Loaded.offset (.int n) = .ok (some n) := by
  have hread : Loaded.orNone Loaded.offset (.int n) = some <$> Loaded.offset (.int n) := rfl
  rw [hread, offset_int h]
  rfl

theorem Comment.load_toJson {c : Comment} (h : c.Placed) : Comment.load c.toJson = .ok c := by
  obtain ⟨kind, value, start, stop⟩ := c
  obtain ⟨hstart, hstop⟩ : Fits32 start ∧ Fits32 stop := h
  have hkind : Loaded.choice kinds Loaded.isNull
      (.str (if (kind == .block) = true then "CommentBlock" else "CommentLine")) = .ok kind := by
    cases kind <;> simp [Loaded.choice, Loaded.choice.find, kinds, List.lookup_cons]
  have hfirst : (start.toList.map fun n : Nat => ("start", Json.int n)).foldlM loadEntry
      ⟨some kind, some value, none, none⟩ = .ok ⟨some kind, some value, start, none⟩ := by
    cases start with
    | none => rfl
    | some n =>
      simp only [Option.toList_some, List.map_cons, List.map_nil, List.foldlM_cons,
        List.foldlM_nil, loadEntry, orNone_offset hstart]
      rfl
  have hlast : (stop.toList.map fun n : Nat => ("end", Json.int n)).foldlM loadEntry
      ⟨some kind, some value, start, none⟩ = .ok ⟨some kind, some value, start, stop⟩ := by
    cases stop with
    | none => rfl
    | some n =>
      simp only [Option.toList_some, List.map_cons, List.map_nil, List.foldlM_cons,
        List.foldlM_nil, loadEntry, orNone_offset hstop]
      rfl
  have hhead : [("type", Json.str (if (kind == .block) = true then "CommentBlock"
      else "CommentLine")), ("value", .str value)].foldlM loadEntry ⟨none, none, none, none⟩ =
        .ok ⟨some kind, some value, none, none⟩ := by
    simp only [List.foldlM_cons, List.foldlM_nil, loadEntry, hkind, Loaded.text]
    rfl
  unfold load toJson isBlock
  dsimp only
  rw [List.foldlM_append, List.foldlM_append, hhead]
  simp only [bind, Except.bind, hfirst, hlast]

/-- The keys of the comments of a node. -/
def commentKeys : List String := ["leadingComments", "trailingComments", "innerComments"]

namespace Comments

/-- All comments have offsets that fit. -/
structure Placed (c : Comments) : Prop where
  leading : ∀ x ∈ c.leading, x.Placed
  trailing : ∀ x ∈ c.trailing, x.Placed
  inner : ∀ x ∈ c.inner, x.Placed

theorem placed_of_loadList {v : Json} {cs : List Comment} (h : loadList v = .ok cs) :
    ∀ c ∈ cs, c.Placed := by
  unfold loadList at h
  split at h
  · cases h
    exact List.forall_mem_nil _
  · intro c hc
    obtain ⟨v, -, hv⟩ := exists_of_forall₂_left (R := flip _) (forall₂_of_mapM h).flip hc
    exact Comment.placed_of_load hv
  · cases h

theorem placed_of_load {entries : List (String × Json)} {c : Comments}
    (h : Comments.load (.obj entries) = .ok c) : c.Placed := by
  refine foldlM_invariant (I := Placed) ?_ ⟨?_, ?_, ?_⟩ h
  rotate_left
  · exact List.forall_mem_nil _
  · exact List.forall_mem_nil _
  · exact List.forall_mem_nil _
  intro c e c' hc hplaced
  unfold loadEntry at hc
  split at hc
  · obtain ⟨cs, hcs, hc⟩ := bind_eq_ok.mp hc
    cases hc
    exact ⟨placed_of_loadList hcs, hplaced.trailing, hplaced.inner⟩
  · obtain ⟨cs, hcs, hc⟩ := bind_eq_ok.mp hc
    cases hc
    exact ⟨hplaced.leading, placed_of_loadList hcs, hplaced.inner⟩
  · obtain ⟨cs, hcs, hc⟩ := bind_eq_ok.mp hc
    cases hc
    exact ⟨hplaced.leading, hplaced.trailing, placed_of_loadList hcs⟩
  · cases hc
    exact hplaced

theorem loadList_toJson {cs : List Comment} (h : ∀ c ∈ cs, c.Placed) :
    loadList (.arr (cs.map Comment.toJson)) = .ok cs := by
  unfold loadList
  dsimp only
  rw [List.mapM_map]
  exact (mapM_eq_ok (g := id) fun c hc => Comment.load_toJson (h c hc)).trans
    (congrArg _ (List.map_id cs))

/-- Entries under other keys are passed over. -/
theorem foldlM_other {entries : List (String × Json)} (h : ∀ e ∈ entries, e.1 ∉ commentKeys)
    (c : Comments) : entries.foldlM loadEntry c = .ok c := by
  induction entries with
  | nil => rfl
  | cons e entries ih =>
    obtain ⟨he, hrest⟩ := List.forall_mem_cons.mp h
    have hskip : loadEntry c e = .ok c := by
      unfold loadEntry
      split
      · next hk => exact absurd (by rw [hk]; decide) he
      · next hk => exact absurd (by rw [hk]; decide) he
      · next hk => exact absurd (by rw [hk]; decide) he
      · rfl
    rw [List.foldlM_cons, hskip]
    exact ih hrest

theorem foldlM_entry {key : String} {cs : List Comment} {c c' : Comments}
    (hset : cs ≠ [] → loadEntry c (key, .arr (cs.map Comment.toJson)) = .ok c')
    (hnil : cs = [] → c = c') : (entry key cs).foldlM loadEntry c = .ok c' := by
  unfold entry
  split_ifs with hempty
  · rw [hnil (List.isEmpty_iff.mp hempty)]
    rfl
  · rw [List.foldlM_cons, hset fun h => hempty (List.isEmpty_iff.mpr h)]
    rfl

/-- **Comments are read back** from among other entries. -/
theorem load_toEntries {c : Comments} (hc : c.Placed) {before after : List (String × Json)}
    (hbefore : ∀ e ∈ before, e.1 ∉ commentKeys) (hafter : ∀ e ∈ after, e.1 ∉ commentKeys) :
    Comments.load (.obj (before ++ c.toEntries ++ after)) = .ok c := by
  obtain ⟨leading, trailing, inner⟩ := c
  have hleading : (entry "leadingComments" leading).foldlM loadEntry none =
      .ok ⟨leading, [], []⟩ := by
    refine foldlM_entry (fun _ => ?_) fun h => by subst h; rfl
    simp only [loadEntry, loadList_toJson hc.leading]
    rfl
  have htrailing : (entry "trailingComments" trailing).foldlM loadEntry ⟨leading, [], []⟩ =
      .ok ⟨leading, trailing, []⟩ := by
    refine foldlM_entry (fun _ => ?_) fun h => by subst h; rfl
    simp only [loadEntry, loadList_toJson hc.trailing]
    rfl
  have hinner : (entry "innerComments" inner).foldlM loadEntry ⟨leading, trailing, []⟩ =
      .ok ⟨leading, trailing, inner⟩ := by
    refine foldlM_entry (fun _ => ?_) fun h => by subst h; rfl
    simp only [loadEntry, loadList_toJson hc.inner]
    rfl
  unfold Comments.load toEntries
  simp only [List.foldlM_append, foldlM_other hbefore, bind, Except.bind, hleading, htrailing,
    hinner, foldlM_other hafter]

end Comments

/-! ### Spans -/

/-- The offsets of a span fit 32 bits. -/
def Span.Placed (x : Option Span) : Prop :=
  ∀ s ∈ x, Fits32 (some s.start) ∧ Fits32 (some s.stop)

theorem Span.placed_ofJson? (v : Json) : Span.Placed (Span.ofJson? v) := by
  intro s hs
  unfold ofJson? at hs
  obtain ⟨start, hstart, hs⟩ := Option.bind_eq_some_iff.mp hs
  obtain ⟨first, hfirst, hs⟩ := Option.bind_eq_some_iff.mp hs
  obtain ⟨stop, hstop, hs⟩ := Option.bind_eq_some_iff.mp hs
  obtain ⟨last, hlast, hs⟩ := Option.bind_eq_some_iff.mp hs
  cases hs
  exact ⟨fits32_of_word32? hfirst, fits32_of_word32? hlast⟩

theorem Json.lookup_append_of_not_mem {key : String} {before after : List (String × Json)}
    (h : ∀ e ∈ before, e.1 ≠ key) : Json.lookup key (before ++ after) = Json.lookup key after := by
  unfold Json.lookup
  rw [List.find?_append, List.find?_eq_none.mpr fun e he => by simpa using h e he]
  rfl

/-- **A span is read back** from after other entries. -/
theorem Span.ofJson?_toEntries {x : Option Span} (hx : Span.Placed x)
    {before : List (String × Json)} (h : ∀ e ∈ before, e.1 ∉ ["start", "end"]) :
    Span.ofJson? (.obj (before ++ Span.toEntries x)) = x := by
  have hstart : ∀ e ∈ before, e.1 ≠ "start" := fun e he heq => h e he (by simp [heq])
  have hstop : ∀ e ∈ before, e.1 ≠ "end" := fun e he heq => h e he (by simp [heq])
  unfold ofJson? Json.get?
  dsimp only
  rw [Json.lookup_append_of_not_mem hstart, Json.lookup_append_of_not_mem hstop]
  cases x with
  | none => rfl
  | some s =>
    obtain ⟨hfirst, hlast⟩ := hx s rfl
    have hs : Json.lookup "start" (toEntries (some s)) = some (.int s.start) := by
      simp [Json.lookup, toEntries]
    have he : Json.lookup "end" (toEntries (some s)) = some (.int s.stop) := by
      simp [Json.lookup, toEntries]
    rw [hs, he, Option.bind_eq_bind, Option.bind_some, word32?_int hfirst, Option.bind_eq_bind,
      Option.bind_some, Option.bind_some, word32?_int hlast, Option.bind_some]
    rfl

/-! ### Attributes -/

theorem Word.text_injective : Function.Injective Word.text := by
  intro a b h
  cases a <;> cases b <;> first | rfl | exact absurd h (by decide)

theorem lookup_text {w : Word} {choices : List Word} (h : w ∈ choices) :
    (choices.map fun w => (w.text, w)).lookup w.text = some w := by
  induction choices with
  | nil => cases h
  | cons c choices ih =>
    rw [List.map_cons, List.lookup_cons]
    by_cases hc : w.text = c.text
    · rw [Word.text_injective hc]
      simp
    · rw [beq_false_of_ne hc]
      exact ih ((List.mem_cons.mp h).resolve_left fun heq => hc (congrArg Word.text heq))

theorem choice_text {w : Word} {choices : List Word} (h : w ∈ choices) :
    Loaded.choice (choices.map fun w => (w.text, w)) Loaded.isVoid (.str w.text) = .ok w := by
  unfold Loaded.choice Loaded.choice.find
  dsimp only
  rw [lookup_text h]

theorem LiteralExtra.load_toJson (e : LiteralExtra) :
    LiteralExtra.load (.obj (e.raw.toList.map fun s => ("raw", .str s))) = .ok e := by
  obtain ⟨raw⟩ := e
  cases raw <;> rfl

theorem loadTemplate_toJson (raw : String) (cooked : Option String) :
    loadTemplate (.obj [("raw", .str raw), ("cooked", .ofText? cooked)]) =
      .ok (.template raw cooked) := by
  cases cooked <;> rfl

/-- **An attribute of the kind of its field is read back.** -/
theorem loadAttr_toJson {spec : FieldSpec} {a : Attr} (h : spec.admits (.attr a) = true)
    (hextra : spec.type = .extra → spec.presence = .optional) :
    loadAttr spec a.toJson = .ok a := by
  cases a with
  | text s =>
    simp only [FieldSpec.admits, Bool.and_eq_true, beq_iff_eq, bne_iff_ne] at h
    simp [loadAttr, Attr.toJson, h.1, h.2, Loaded.text]
  | textOrNone s =>
    simp only [FieldSpec.admits, Bool.and_eq_true, beq_iff_eq] at h
    cases s <;> simp [loadAttr, Attr.toJson, Json.ofText?, FieldSpec.defaultAttr?, h.1, h.2,
      Loaded.text]
  | flag b =>
    simp only [FieldSpec.admits, beq_iff_eq] at h
    simp [loadAttr, Attr.toJson, h, Loaded.flag]
  | number x =>
    simp only [FieldSpec.admits, beq_iff_eq] at h
    simp [loadAttr, Attr.toJson, h, Loaded.number]
  | extra e =>
    simp only [FieldSpec.admits, beq_iff_eq] at h
    cases e with
    | none => simp [loadAttr, Attr.toJson, FieldSpec.defaultAttr?, h, hextra h]
    | some e => simp [loadAttr, Attr.toJson, h, LiteralExtra.load_toJson]
  | template raw cooked =>
    simp only [FieldSpec.admits, beq_iff_eq] at h
    simp [loadAttr, Attr.toJson, h, loadTemplate_toJson]
  | word w =>
    unfold FieldSpec.admits at h
    dsimp only at h
    split at h
    · next choices ht =>
      simp only [Bool.and_eq_true, bne_iff_ne, List.contains_iff_mem] at h
      simp [loadAttr, Attr.toJson, ht, choice_text h.1, h.2]
    · cases h
  | wordOrNone w =>
    unfold FieldSpec.admits at h
    dsimp only at h
    split at h
    · next choices ht =>
      simp only [Bool.and_eq_true, beq_iff_eq] at h
      cases w with
      | none => simp [loadAttr, Attr.toJson, Json.ofText?, FieldSpec.defaultAttr?, ht, h.2]
      | some w =>
        have hw : w ∈ choices := by simpa using h.1
        simp [loadAttr, Attr.toJson, Json.ofText?, ht, choice_text hw, h.2]
    · cases h

/-! ### Fields -/

/-- The reader gets a value of a field from a JSON value. -/
inductive Reads (spec : FieldSpec) : Json → FieldValue → Prop where
  | attr {v : Json} {a : Attr} (hspec : spec.isSlot = false) (h : loadAttr spec v = .ok a) :
    Reads spec v (.attr a)
  | slot {vs : Slot Json} {ns : Slot Node} (hspec : spec.admits (.slot ns) = true)
    (h : vs.Rel (fun v n => Node.load v = .ok n) ns) : Reads spec vs.toJson (.slot ns)

theorem exists_obj_of_load {v : Json} {t : Node} (h : Node.load v = .ok t) :
    ∃ entries, v = .obj entries := by
  cases v with
  | obj entries => exact ⟨entries, rfl⟩
  | null | bool | int | float | str | arr => cases h

theorem loadList_eq_ok {vs : List Json} {ns : List Node}
    (h : List.Forall₂ (fun v n => Node.load v = .ok n) vs ns) : loadList vs = .ok ns := by
  induction h with
  | nil => rfl
  | cons hv _ ih =>
    rw [loadList, hv, ih]
    rfl

theorem loadGaps_eq_ok {vs : List (Option Json)} {ns : List (Option Node)}
    (h : List.Forall₂ (Option.Rel fun v n => Node.load v = .ok n) vs ns) :
    loadGaps (vs.map (·.getD .null)) = .ok ns := by
  induction h with
  | nil => rfl
  | @cons v n vs ns hv _ ih =>
    cases hv with
    | none =>
      show loadGaps (.null :: vs.map (·.getD .null)) = _
      rw [loadGaps, ih]
      rfl
    | @some v n hv =>
      obtain ⟨entries, rfl⟩ := exists_obj_of_load hv
      show loadGaps (.obj entries :: vs.map (·.getD .null)) = _
      rw [loadGaps, hv, ih]
      · rfl
      · intro hnull
        cases hnull

theorem loadEntries_cons {shape : List FieldSpec} {seen : List Field} {key : String} {v : Json}
    {rest : List (String × Json)} {spec : FieldSpec} {value : FieldValue}
    (hfind : shape.find? (·.hasKey key) = some spec) (hseen : spec.field ∉ seen)
    (hv : Reads spec v value) :
    loadEntries shape seen ((key, v) :: rest) = (do
      let others ← loadEntries shape (spec.field :: seen) rest
      return (spec.field, value) :: others) := by
  rw [loadEntries, hfind]
  dsimp only
  rw [if_neg hseen]
  cases hv with
  | attr hspec h =>
    cases htype : spec.type with
    | node | nodes | holes => simp [FieldSpec.isSlot, htype] at hspec
    | text | flag | number | extra | template | word =>
      dsimp only
      rw [h]
      rfl
  | slot hspec h =>
    cases h with
    | one h =>
      simp only [FieldSpec.admits, Bool.and_eq_true, beq_iff_eq] at hspec
      simp only [hspec.1, hspec.2, Slot.toJson, h]
      rfl
    | maybe h =>
      simp only [FieldSpec.admits, Bool.and_eq_true, beq_iff_eq, bne_iff_ne] at hspec
      rw [hspec.1]
      cases h with
      | none =>
        dsimp only [Slot.toJson, Option.getD_none]
        split
        · next hp => exact absurd hp hspec.2
        · rfl
        · next hnull => exact absurd rfl hnull
      | @some v n h =>
        obtain ⟨entries, rfl⟩ := exists_obj_of_load h
        dsimp only [Slot.toJson, Option.getD_some]
        split
        · next hp => exact absurd hp hspec.2
        · next hnull _ => cases hnull
        · rw [h]
          rfl
    | many h =>
      simp only [FieldSpec.admits, beq_iff_eq] at hspec
      simp only [hspec, Slot.toJson, loadList_eq_ok h]
      rfl
    | holes h =>
      simp only [FieldSpec.admits, beq_iff_eq] at hspec
      simp only [hspec, Slot.toJson, loadGaps_eq_ok h]
      rfl

/-- Entries under keys of no field are passed over. -/
theorem loadEntries_other {shape : List FieldSpec} {seen : List Field}
    {entries : List (String × Json)} (h : ∀ e ∈ entries, shape.find? (·.hasKey e.1) = none) :
    loadEntries shape seen entries = .ok [] := by
  induction entries with
  | nil => rfl
  | cons e entries ih =>
    obtain ⟨key, v⟩ := e
    obtain ⟨he, hrest⟩ := List.forall_mem_cons.mp h
    rw [loadEntries, he]
    exact ih hrest

/-- **The fields of an object are read back** one after another, those of the shape with their
values. -/
theorem loadEntries_fields {shape specs : List FieldSpec} (value : Field → Json)
    (result : Field → FieldValue) {rest : List (String × Json)}
    (hknown : ∀ spec ∈ specs, spec.isIn .source = true →
      shape.find? (·.hasKey spec.field.jsonKey) = some spec ∧
        Reads spec (value spec.field) (result spec.field))
    (hother : ∀ spec ∈ specs, spec.isIn .source = false →
      shape.find? (·.hasKey spec.field.jsonKey) = none)
    (hrest : ∀ e ∈ rest, shape.find? (·.hasKey e.1) = none)
    (hnodup : (specs.map FieldSpec.field).Nodup) {seen : List Field}
    (hseen : ∀ spec ∈ specs, spec.field ∉ seen) :
    loadEntries shape seen
        (specs.map (fun spec => (spec.field.jsonKey, value spec.field)) ++ rest) =
      .ok ((specs.filter (FieldSpec.isIn .source)).map fun spec =>
        (spec.field, result spec.field)) := by
  induction specs generalizing seen with
  | nil => exact loadEntries_other hrest
  | cons spec specs ih =>
    rw [List.map_cons, List.nodup_cons] at hnodup
    rw [List.forall_mem_cons] at hknown hother hseen
    have hfield : ∀ other ∈ specs, other.field ≠ spec.field := fun other hmem heq =>
      hnodup.1 (heq ▸ List.mem_map_of_mem hmem)
    rw [List.map_cons, List.cons_append]
    cases hin : spec.isIn .source with
    | true =>
      obtain ⟨hfind, hreads⟩ := hknown.1 hin
      rw [loadEntries_cons hfind hseen.1 hreads, ih hknown.2 hother.2 hnodup.2,
        List.filter_cons_of_pos hin]
      · rfl
      · intro other hmem
        exact List.not_mem_cons_of_ne_of_not_mem (hfield other hmem) (hseen.2 other hmem)
    | false =>
      rw [loadEntries, hother.1 hin, List.filter_cons_of_neg (by simp [hin])]
      exact ih hknown.2 hother.2 hnodup.2 hseen.2

/-! ### Objects -/

/-- The keys of an object that are those of no field. -/
def reservedKeys : List String := "type" :: "start" :: "end" :: commentKeys

theorem jsonKey_not_mem (f : Field) : f.jsonKey ∉ reservedKeys := by
  cases f <;> decide

theorem otherKey_eq_none {t : Tag} (ht : t ≠ .tupleType) :
    ∀ spec ∈ t.shape, spec.otherKey = none := by
  revert ht
  cases t <;> decide

theorem find?_hasKey {shape : List FieldSpec} (hother : ∀ spec ∈ shape, spec.otherKey = none)
    (hnodup : (shape.map fun spec => spec.field.jsonKey).Nodup) {spec : FieldSpec}
    (hspec : spec ∈ shape) (side : Side) :
    (shape.filter (FieldSpec.isIn side)).find? (·.hasKey spec.field.jsonKey) =
      if spec.isIn side then some spec else none := by
  have hkey : ∀ other ∈ shape, other.hasKey spec.field.jsonKey = true → other = spec := by
    intro other hmem hkey
    unfold FieldSpec.hasKey at hkey
    rw [hother other hmem, Bool.or_eq_true, beq_iff_eq] at hkey
    exact List.inj_on_of_nodup_map hnodup hmem hspec (hkey.resolve_right nofun)
  split_ifs with hin
  · have hmem : spec ∈ shape.filter (FieldSpec.isIn side) := List.mem_filter.mpr ⟨hspec, hin⟩
    have hself : spec.hasKey spec.field.jsonKey = true := by simp [FieldSpec.hasKey]
    have hsome : ((shape.filter (FieldSpec.isIn side)).find?
        (·.hasKey spec.field.jsonKey)).isSome = true := List.find?_isSome.mpr ⟨spec, hmem, hself⟩
    obtain ⟨found, hfound⟩ := Option.isSome_iff_exists.mp hsome
    have hk := List.find?_some hfound
    rw [hfound, hkey found (List.mem_filter.mp (List.mem_of_find?_eq_some hfound)).1 hk]
  · refine List.find?_eq_none.mpr fun other hmem hk => ?_
    obtain ⟨hmem, hother⟩ := List.mem_filter.mp hmem
    rw [hkey other hmem hk] at hother
    exact hin hother

theorem find?_reserved {t : Tag} (ht : t ≠ .tupleType) {key : String} (hkey : key ∈ reservedKeys) :
    (t.fields .source).find? (·.hasKey key) = none := by
  refine List.find?_eq_none.mpr fun spec hspec hk => ?_
  unfold FieldSpec.hasKey at hk
  rw [otherKey_eq_none ht spec (List.mem_filter.mp hspec).1, Bool.or_eq_true, beq_iff_eq] at hk
  exact jsonKey_not_mem spec.field ((hk.resolve_right nofun) ▸ hkey)

/-- The entries of an object. -/
def objectEntries (t : Tag) (value : Field → Json) (comments : Comments) (span : Option Span) :
    List (String × Json) :=
  ("type", .str t.name) ::
    (t.fields .target).map (fun spec => (spec.field.jsonKey, value spec.field)) ++
    comments.toEntries ++ Span.toEntries span

theorem mem_entry {key : String} {cs : List Comment} {e : String × Json}
    (h : e ∈ Comments.entry key cs) : e.1 = key := by
  unfold Comments.entry at h
  split_ifs at h
  · cases h
  · rw [List.mem_singleton.mp h]

theorem mem_commentKeys {c : Comments} : ∀ e ∈ c.toEntries, e.1 ∈ commentKeys := by
  intro e he
  rcases List.mem_append.mp he with he | he
  · rcases List.mem_append.mp he with he | he
    · rw [mem_entry he]
      decide
    · rw [mem_entry he]
      decide
  · rw [mem_entry he]
    decide

theorem mem_spanKeys {x : Option Span} : ∀ e ∈ Span.toEntries x, e.1 ∈ ["start", "end"] := by
  cases x with
  | none => exact List.forall_mem_nil _
  | some s => simp [Span.toEntries]

section Object

variable {t : Tag} {value : Field → Json} {result : Field → FieldValue} {comments : Comments}
  {span : Option Span} (ht : t ≠ .tupleType)
include ht

theorem loadEntries_object (hreads : ∀ spec ∈ t.fields .target, spec.isIn .source = true →
      Reads spec (value spec.field) (result spec.field)) :
    loadEntries (t.fields .source) [] (objectEntries t value comments span) =
      .ok (((t.fields .target).filter (FieldSpec.isIn .source)).map fun spec =>
        (spec.field, result spec.field)) := by
  have hshape {spec : FieldSpec} (h : spec ∈ t.fields .target) : spec ∈ t.shape :=
    (List.mem_filter.mp h).1
  have hfind {spec : FieldSpec} (h : spec ∈ t.fields .target) :=
    find?_hasKey (otherKey_eq_none ht) (nodup_jsonKeys t) (hshape h) .source
  have hreserved : ∀ e ∈ comments.toEntries ++ Span.toEntries span, e.1 ∈ reservedKeys := by
    refine List.forall_mem_append.mpr ⟨fun e he => ?_, fun e he => ?_⟩
    · exact List.mem_append_right ["type", "start", "end"] (mem_commentKeys e he)
    · exact List.mem_cons_of_mem _ (List.mem_append_left commentKeys (mem_spanKeys e he))
  unfold objectEntries
  rw [List.cons_append, List.cons_append, loadEntries, find?_reserved ht (by decide)]
  dsimp only
  rw [List.append_assoc]
  refine loadEntries_fields value result (fun spec hspec hin => ?_) (fun spec hspec hin => ?_)
    (fun e he => find?_reserved ht (hreserved e he)) (nodup_fields .target t)
    fun _ _ => List.not_mem_nil
  · exact ⟨(hfind hspec).trans (if_pos hin), hreads spec hspec hin⟩
  · exact (hfind hspec).trans (if_neg (by rw [hin]; exact Bool.false_ne_true))

omit ht in
theorem complete_object
    (hdefault : ∀ spec ∈ t.fields .source, spec.isIn .target = false →
      spec.default? = some (result spec.field)) :
    complete (((t.fields .target).filter (FieldSpec.isIn .source)).map fun spec =>
      (spec.field, result spec.field)) (t.fields .source) = .ok (valuesOf t result) := by
  refine mapM_eq_ok fun spec hspec => ?_
  rw [lookup_fields]
  split_ifs with hmem
  · rfl
  · have hin : spec.isIn .target = false := by
      refine Bool.not_eq_true _ |>.mp fun hin => hmem (List.mem_map_of_mem ?_)
      obtain ⟨hshape, hsource⟩ := List.mem_filter.mp hspec
      exact List.mem_filter.mpr ⟨List.mem_filter.mpr ⟨hshape, hin⟩, hsource⟩
    rw [hdefault spec hspec hin]

/-- **An object is read back**: its fields get the values that are written for them or, where the
target vocabulary has no such field, the value that stands in for a missing one. -/
theorem load_object (hname : Tag.ofName? .source t.name = some t) (hcomments : comments.Placed)
    (hspan : Span.Placed span)
    (hreads : ∀ spec ∈ t.fields .target, spec.isIn .source = true →
      Reads spec (value spec.field) (result spec.field))
    (hdefault : ∀ spec ∈ t.fields .source, spec.isIn .target = false →
      spec.default? = some (result spec.field)) :
    Node.load (.obj (objectEntries t value comments span)) =
      .ok (.mk () (headWith t result comments span) (slotsWith t result)) := by
  have hfields : ∀ e ∈ ("type", Json.str t.name) ::
      (t.fields .target).map (fun spec => (spec.field.jsonKey, value spec.field)),
      e.1 ∉ commentKeys ∧ e.1 ∉ ["start", "end"] := by
    refine List.forall_mem_cons.mpr ⟨?_, fun e he => ?_⟩
    · show "type" ∉ commentKeys ∧ "type" ∉ ["start", "end"]
      decide
    obtain ⟨spec, -, rfl⟩ := List.mem_map.mp he
    have hkey := jsonKey_not_mem spec.field
    refine ⟨fun hmem => hkey (List.mem_append_right ["type", "start", "end"] hmem), fun hmem => ?_⟩
    exact hkey (List.mem_cons_of_mem _ (List.mem_append_left commentKeys hmem))
  have hdisjoint : ∀ key ∈ ["start", "end"], key ∉ commentKeys := by decide
  have hload : Comments.load (.obj (objectEntries t value comments span)) = .ok comments := by
    refine Comments.load_toEntries hcomments (fun e he => (hfields e he).1) fun e he hmem => ?_
    exact hdisjoint e.1 (mem_spanKeys e he) hmem
  have hread : Span.ofJson? (.obj (objectEntries t value comments span)) = span := by
    refine Span.ofJson?_toEntries hspan fun e he => ?_
    rcases List.mem_append.mp he with he | he
    · exact (hfields e he).2
    · exact fun hmem => hdisjoint e.1 hmem (mem_commentKeys e he)
  have htype : Json.lookup "type" (objectEntries t value comments span) = some (.str t.name) := rfl
  rw [Node.load, htype]
  dsimp only
  rw [hload, hread, hname]
  show ((loadEntries _ [] _).mapError _ >>= fun written =>
    (complete written _).mapError _ >>= _) = _
  rw [loadEntries_object ht hreads]
  show ((complete _ _).mapError _ >>= _) = _
  rw [complete_object hdefault]
  rfl

end Object

end Typeshift
