import Typeshift.Proofs.Json.Reordered
import Typeshift.Proofs.Tree.Values

/-! # Trees from values that differ in the order of keys

Two JSON values may differ in the order of keys. The trees that are read from them may then differ
in the raw JSON that unknown nodes keep. The comments, the span and the attributes of a node do not
keep JSON, so they are the same, if they are read at all.

* `Kind.Reordered`, `Node.Reordered`: trees that differ in raw JSON, and there in the order of keys.
* `Comments.concur_load`, `ofJson?_eq`, `concur_loadAttr`: comments, spans and attributes. -/

namespace Typeshift

open Json (Reordered)

/-! ### Trees -/

/-- Kinds that differ in raw JSON, and there in the order of keys. -/
inductive Kind.Reordered : Kind → Kind → Prop where
  | known (t : Tag) : Reordered (.known t) (.known t)
  | foreign (name : String) {v w : Json} (h : v.Reordered w) :
    Reordered (.foreign name v) (.foreign name w)

/-- **Trees that differ in the raw JSON of unknown nodes**, and there in the order of keys. -/
inductive Node.Reordered : Node → Node → Prop where
  | mk {h h' : Head} {s s' : Slots Unit} (kind : h.kind.Reordered h'.kind)
    (attrs : h.attrs = h'.attrs) (comments : h.comments = h'.comments) (span : h.span = h'.span)
    (fields : s.map Prod.fst = s'.map Prod.fst)
    (slots : ∀ e e', (e, e') ∈ s.zip s' → Slot.Rel Node.Reordered e.2 e'.2) :
    Reordered (.mk () h s) (.mk () h' s')

/-! ### Values without nodes -/

section Values

variable {v w : Json} (h : v.Reordered w)
include h

theorem concur_text : Concur Eq (Loaded.text v) (Loaded.text w) := by
  cases h <;> first | exact .error | exact .ok rfl

theorem concur_flag : Concur Eq (Loaded.flag v) (Loaded.flag w) := by
  cases h <;> first | exact .error | exact .ok rfl

theorem concur_number : Concur Eq (Loaded.number v) (Loaded.number w) := by
  cases h <;> first | exact .error | exact .ok rfl

theorem concur_offset : Concur Eq (Loaded.offset v) (Loaded.offset w) := by
  cases h with
  | int i => exact .refl (fun _ => rfl) _
  | _ => exact .error

theorem isNull_eq : Loaded.isNull v = Loaded.isNull w := by
  cases h <;> rfl

theorem isVoid_eq : Loaded.isVoid v = Loaded.isVoid w := by
  cases h with
  | @obj es es' keys =>
    cases es with
    | nil =>
      obtain rfl : es' = [] := List.map_eq_nil_iff.mp keys.nil_eq.symm
      rfl
    | cons e es =>
      cases es' with
      | nil => exact absurd keys.symm.nil_eq (by simp)
      | cons e' es' => rfl
  | _ => rfl

theorem concur_orNone {α : Type} {read : Json → Loaded α} (hread : Concur Eq (read v) (read w)) :
    Concur Eq (Loaded.orNone read v) (Loaded.orNone read w) := by
  cases h with
  | null => exact .ok rfl
  | _ => exact hread.map fun _ _ => congrArg some

theorem concur_choice {α : Type} (choices : List (String × α)) {isVoid : Json → Bool}
    (hvoid : ∀ {v w : Json}, v.Reordered w → isVoid v = isVoid w) :
    Concur Eq (Loaded.choice choices isVoid v) (Loaded.choice choices isVoid w) := by
  cases h with
  | str s => exact .refl (fun _ => rfl) _
  | @obj es es' keys nodup values =>
    match es, es' with
    | [], [] => exact .error
    | [(k, v)], [(k', w)] =>
      obtain rfl : k = k' := by simpa using keys
      have hvw := hvoid (values k v w List.mem_cons_self List.mem_cons_self)
      refine (Concur.refl (fun _ => rfl) _).bind fun a b hab => ?_
      rw [hvw]
      split
      · exact .ok hab
      · exact .error
    | _ :: _ :: _, _ :: _ :: _ => exact .error
    | [], _ :: _ | _ :: _, [] | [_], _ :: _ :: _ | _ :: _ :: _, [_] =>
      exact absurd keys.length_eq (by simp)
  | _ => exact .error

end Values

/-! ### Comments -/

/-- Lists of parts in place of objects. -/
theorem forall₂_zip {κ : Type} {R : Json → Json → Prop} (keys : List κ) {vs ws : List Json}
    (h : List.Forall₂ R vs ws) : List.Forall₂ (Entry R) (keys.zip vs) (keys.zip ws) := by
  induction h generalizing keys with
  | nil => simp
  | cons hab _ ih =>
    cases keys with
    | nil => exact .nil
    | cons key keys => exact .cons ⟨rfl, hab⟩ (ih keys)

theorem Json.Reordered.forall₂ {vs ws : List Json} (h : (Json.arr vs).Reordered (.arr ws)) :
    List.Forall₂ Json.Reordered vs ws := by
  cases h with
  | arr length items => exact List.forall₂_iff_zip.mpr ⟨length, fun hmem => items _ _ hmem⟩

theorem Json.Reordered.reorders {es es' : List (String × Json)}
    (h : (Json.obj es).Reordered (.obj es')) : Reorders Json.Reordered es es' := by
  cases h with
  | obj keys nodup values => exact ⟨keys, nodup, values⟩

namespace Comment

theorem concur_loadEntry (d : Draft) {e e' : String × Json} (h : Entry Json.Reordered e e') :
    Concur Eq (loadEntry d e) (loadEntry d e') := by
  obtain ⟨key, v⟩ := e
  obtain ⟨_, w⟩ := e'
  obtain ⟨rfl, h⟩ := h
  have h : v.Reordered w := h
  unfold loadEntry
  dsimp only
  split
  · exact (concur_choice h kinds isNull_eq).bind fun _ _ heq => .ok (heq ▸ rfl)
  · exact (concur_text h).bind fun _ _ heq => .ok (heq ▸ rfl)
  · exact (concur_orNone h (concur_offset h)).bind fun _ _ heq => .ok (heq ▸ rfl)
  · exact (concur_orNone h (concur_offset h)).bind fun _ _ heq => .ok (heq ▸ rfl)
  · exact .ok rfl

theorem concur_loadEntry_comm (d : Draft) {e e' : String × Json} (hne : e.1 ≠ e'.1) :
    Concur Eq (loadEntry d e >>= (loadEntry · e')) (loadEntry d e' >>= (loadEntry · e)) := by
  obtain ⟨key, v⟩ := e
  obtain ⟨key', w⟩ := e'
  unfold loadEntry
  dsimp only at hne ⊢
  split <;> split
  -- the same key twice, two keys that are read, or one that is not
  all_goals first
    | exact absurd rfl hne
    | simp only [bind_assoc, pure_bind]
      exact .comm fun _ _ => .ok rfl
    | simp only [Concur.ok_eq_pure, pure_bind, bind_pure]
      exact .refl (fun _ => rfl) _

theorem concur_load {v w : Json} (h : v.Reordered w) : Concur Eq (load v) (load w) := by
  cases h with
  | @obj es es' keys nodup values =>
    refine ((Json.Reordered.obj keys nodup values).reorders.foldlM (fun d _ _ => concur_loadEntry d)
      (fun d _ _ => concur_loadEntry_comm d) _).bind fun d _ hd => ?_
    exact hd ▸ .refl (fun _ => rfl) _
  | @arr vs ws length items =>
    have hitems := (Json.Reordered.arr length items).forall₂
    refine (Concur.foldlM_forall₂ ((forall₂_zip _ hitems).imp fun _ _ h d => concur_loadEntry d h)
      _).bind fun d _ hd => ?_
    rw [← hd, ← length]
    rcases d with ⟨_ | kind, _ | value, start, stop⟩
    case some.some =>
      dsimp only
      split
      · exact .ok rfl
      · exact .error
    all_goals exact .error
  | _ => exact .error

end Comment

namespace Comments

theorem concur_loadList {v w : Json} (h : v.Reordered w) : Concur Eq (loadList v) (loadList w) := by
  cases h with
  | null => exact .ok rfl
  | arr length items =>
    have hitems := (Json.Reordered.arr length items).forall₂
    refine (Concur.mapM (hitems.imp fun _ _ => Comment.concur_load)).imp fun cs ds h => ?_
    exact List.forall₂_eq_eq_eq ▸ h
  | _ => exact .error

theorem concur_loadEntry (c : Comments) {e e' : String × Json} (h : Entry Json.Reordered e e') :
    Concur Eq (loadEntry c e) (loadEntry c e') := by
  obtain ⟨key, v⟩ := e
  obtain ⟨_, w⟩ := e'
  obtain ⟨rfl, h⟩ := h
  have h : v.Reordered w := h
  unfold loadEntry
  dsimp only
  split
  case h_4 => exact .ok rfl
  all_goals exact (concur_loadList h).bind fun _ _ heq => .ok (heq ▸ rfl)

theorem concur_loadEntry_comm (c : Comments) {e e' : String × Json} (hne : e.1 ≠ e'.1) :
    Concur Eq (loadEntry c e >>= (loadEntry · e')) (loadEntry c e' >>= (loadEntry · e)) := by
  obtain ⟨key, v⟩ := e
  obtain ⟨key', w⟩ := e'
  unfold loadEntry
  dsimp only at hne ⊢
  split <;> split
  all_goals first
    | exact absurd rfl hne
    | simp only [bind_assoc, pure_bind]
      exact .comm fun _ _ => .ok rfl
    | simp only [Concur.ok_eq_pure, pure_bind, bind_pure]
      exact .refl (fun _ => rfl) _

theorem concur_load {es es' : List (String × Json)} (h : Reorders Json.Reordered es es') :
    Concur Eq (load (.obj es)) (load (.obj es')) :=
  h.foldlM (fun c _ _ => concur_loadEntry c) (fun c _ _ => concur_loadEntry_comm c) _

end Comments

theorem bind_eq_of_rel {α β γ : Type} {R : α → β → Prop} {x : Option α} {y : Option β}
    {f : α → Option γ} {g : β → Option γ} (h : Option.Rel R x y)
    (hfg : ∀ a b, R a b → f a = g b) : (x >>= f) = (y >>= g) := by
  cases h with
  | none => rfl
  | some h => exact hfg _ _ h

section Entries

variable {es es' : List (String × Json)} (h : Reorders Json.Reordered es es')
include h

theorem rel_jsonLookup (key : String) :
    Option.Rel Json.Reordered (Json.lookup key es) (Json.lookup key es') := by
  rw [Json.lookup_eq, Json.lookup_eq]
  exact h.lookup key

theorem ofJson?_eq : Span.ofJson? (.obj es) = Span.ofJson? (.obj es') := by
  have hword {v w : Json} (h : v.Reordered w) : v.word32? = w.word32? := by cases h <;> rfl
  unfold Span.ofJson?
  refine bind_eq_of_rel (rel_jsonLookup h "start") fun v w hvw => ?_
  rw [hword hvw]
  refine bind_congr fun start => bind_eq_of_rel (rel_jsonLookup h "end") fun v w hvw => ?_
  rw [hword hvw]

end Entries

/-! ### Attributes -/

theorem LiteralExtra.concur_load {v w : Json} (h : v.Reordered w) :
    Concur Eq (LiteralExtra.load v) (LiteralExtra.load w) := by
  cases h with
  | @obj es es' keys nodup values =>
    refine (Json.Reordered.obj keys nodup values).reorders.foldlM (fun c e e' h => ?_)
      (fun c e e' hne => ?_) _
    · rw [h.1]
      split
      · exact (concur_orNone h.2 (concur_text h.2)).bind fun _ _ heq => .ok (heq ▸ rfl)
      · exact .ok rfl
    · split <;> split
      · next h h' => exact absurd (h.trans h'.symm) hne
      · simp only [pure_bind, bind_pure]
        exact .refl (fun _ => rfl) _
      · simp only [pure_bind, bind_pure]
        exact .refl (fun _ => rfl) _
      · exact .ok rfl
  | arr length items =>
    cases (Json.Reordered.arr length items).forall₂ with
    | nil => exact .ok rfl
    | cons hraw hrest =>
      refine (concur_orNone hraw (concur_text hraw)).bind fun e _ he => ?_
      cases hrest with
      | nil => exact .ok (he ▸ rfl)
      | cons => exact .error
  | _ => exact .error

theorem concur_loadTemplate {v w : Json} (h : v.Reordered w) :
    Concur Eq (loadTemplate v) (loadTemplate w) := by
  cases h with
  | @obj es es' keys nodup values =>
    refine ((Json.Reordered.obj keys nodup values).reorders.foldlM (fun d e e' h => ?_)
      (fun d e e' hne => ?_) _).bind fun d _ hd => ?_
    · rw [h.1]
      split
      · exact (concur_text h.2).bind fun _ _ heq => .ok (heq ▸ rfl)
      · exact (concur_orNone h.2 (concur_text h.2)).bind fun _ _ heq => .ok (heq ▸ rfl)
      · exact .ok rfl
    · split <;> split
      all_goals first
        | next h _ h' => exact absurd (h.trans h'.symm) hne
        | simp only [bind_assoc, pure_bind]
          first | exact .refl (fun _ => rfl) _ | exact .comm fun _ _ => .ok rfl
    · exact hd ▸ .refl (fun _ => rfl) _
  | arr length items =>
    match (Json.Reordered.arr length items).forall₂ with
    | .nil => exact .error
    | .cons hraw .nil => exact (concur_text hraw).bind fun _ _ heq => .ok (heq ▸ rfl)
    | .cons hraw (.cons hcooked hrest) =>
      refine (concur_text hraw).bind fun raw _ hr => ?_
      refine (concur_orNone hcooked (concur_text hcooked)).bind fun cooked _ hc => ?_
      cases hrest with
      | nil => exact .ok (hr ▸ hc ▸ rfl)
      | cons => exact .error
  | _ => exact .error

/-- A value for which `null` may stand in. -/
theorem concur_orDefault {read : Presence → Json → Loaded Attr} (p : Presence) (a? : Option Attr)
    {v w : Json} : v.Reordered w → Concur Eq (read p v) (read p w) →
    Concur Eq
      (match p, v, a? with
        | .optional, .null, some a => .ok a
        | .orNull, .null, some a => .ok a
        | p, v, _ => read p v)
      (match p, w, a? with
        | .optional, .null, some a => .ok a
        | .orNull, .null, some a => .ok a
        | p, v, _ => read p v) := by
  intro h hread
  cases h <;> cases p <;> cases a? <;> first | exact hread | exact .ok rfl

theorem concur_loadAttr (s : FieldSpec) {v w : Json} (h : v.Reordered w) :
    Concur Eq (loadAttr s v) (loadAttr s w) := by
  unfold loadAttr
  refine concur_orDefault s.presence s.defaultAttr? h ?_
  cases s.type with
  | text => exact (concur_text h).bind fun _ _ heq => .ok (heq ▸ rfl)
  | flag => exact (concur_flag h).map fun _ _ => congrArg _
  | number => exact (concur_number h).map fun _ _ => congrArg _
  | extra => exact (LiteralExtra.concur_load h).map fun _ _ heq => heq ▸ rfl
  | template => exact concur_loadTemplate h
  | word choices => exact (concur_choice h _ isVoid_eq).bind fun _ _ heq => .ok (heq ▸ rfl)
  | node => exact .error
  | nodes => exact .error
  | holes => exact .error

end Typeshift
