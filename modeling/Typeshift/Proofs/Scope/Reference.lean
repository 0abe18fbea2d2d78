import Typeshift.Proofs.Tree.Slots

/-! # References to types

A type is referred to by its name, and the name may be declared around the reference: by a
declaration in a list of statements, by an import, by a type parameter, or by the declaration that
the reference stands in. Both vocabularies declare types in the same way, so the definitions are
made for the trees of both.

* `names`: the types that a node declares for the list it stands in.
* `scope`: the types that a node declares for what one of its fields holds.
* `Refers`: a tree refers to a type, with the types that are declared around the reference. In a
  source tree a utility refers to the built-in type that takes its place, and so does an optional
  link of an access.
* `RefersAt`: the same, with the node of the tree that makes the reference. -/

namespace Typeshift

/-- A reference to a type by its name. -/
structure Reference where
  name : String
  /-- Where the name is written; a name that a pass makes is written nowhere. -/
  span : Option Span
  /-- The types that are declared around the reference. -/
  scope : List String

namespace Reference

/-- The reference with more types declared around it. -/
def inside (names : List String) (r : Reference) : Reference :=
  { r with scope := names ++ r.scope }

/-- The same name at the same place, around which the same types are declared, and maybe more. -/
structure Covers (y x : Reference) : Prop where
  name : y.name = x.name
  span : y.span = x.span
  scope : x.scope ⊆ y.scope

theorem inside_inside (r : Reference) (a b : List String) :
    (r.inside b).inside a = r.inside (a ++ b) := by
  unfold inside
  rw [List.append_assoc]

namespace Covers

variable {x y z : Reference} {a b : List String}

theorem refl (x : Reference) : x.Covers x := ⟨rfl, rfl, List.Subset.refl _⟩

theorem trans (h : z.Covers y) (h' : y.Covers x) : z.Covers x :=
  ⟨h.name.trans h'.name, h.span.trans h'.span, List.Subset.trans h'.scope h.scope⟩

/-- More types may be declared around the reference that covers. -/
theorem inside (h : y.Covers x) (hab : a ⊆ b) : (y.inside b).Covers (x.inside a) := by
  refine ⟨h.name, h.span, List.append_subset.mpr ⟨?_, ?_⟩⟩
  · exact List.Subset.trans hab (List.subset_append_left _ _)
  · exact List.Subset.trans h.scope (List.subset_append_right _ _)

theorem inside_left (h : y.Covers x) (b : List String) : (y.inside b).Covers x :=
  h.inside (List.nil_subset b)

end Covers

end Reference

namespace Scope

variable {ρ σ : Type}

/-! ### Declared types -/

/-- What a field holds, in a slot of any kind. -/
def held (s : Slots ρ) (f : Field) : List (Tree ρ) := (s.get? f).elim [] Slot.toList

/-- The fields with the names that a construct declares for the list it stands in. -/
def namingFields : Tag → List Field
  | .typeAlias | .opaqueType | .interfaceDeclaration | .declareTypeAlias | .declareOpaqueType
  | .declareInterface | .declareClass | .classDeclaration | .tsTypeAliasDeclaration
  | .tsInterfaceDeclaration => [.id]
  | .importSpecifier | .importDefaultSpecifier | .importNamespaceSpecifier => [.localName]
  | .importDeclaration => [.specifiers]
  | .exportNamedDeclaration | .exportDefaultDeclaration | .declareExportDeclaration =>
    [.declaration]
  | .switchCase => [.consequent]
  | .typeParameterDeclaration | .tsTypeParameterDeclaration => [.params]
  | _ => []

/-- The constructs that are names by themselves. -/
def nameTags : List Tag := [.identifier, .typeParameter, .tsTypeParameter]

/-- The names of a node, given those of its parts. -/
def namesRule (h : Head) (s : Slots (List String)) : List String :=
  if h.isAny nameTags then [h.text .name]
  else (h.tag?.elim [] namingFields).flatMap fun f => (held s f).flatMap Tree.note

/-- **The types that a node declares** for the list it stands in. -/
def names (t : Tree ρ) : List String := t.synthesize namesRule

/-- The fields with the names that a construct declares for its own parts. -/
def scopeFields : Tag → List Field
  | .program | .blockStatement | .declareModule | .tsModuleBlock => [.body]
  | .switchStatement => [.cases]
  | .typeAlias | .opaqueType | .interfaceDeclaration | .declareTypeAlias | .declareOpaqueType
  | .declareInterface | .declareClass | .classDeclaration | .classExpression
  | .tsTypeAliasDeclaration | .tsInterfaceDeclaration => [.id, .typeParameters]
  | .functionDeclaration | .functionExpression | .arrowFunctionExpression | .classMethod
  | .classPrivateMethod | .objectMethod | .functionType | .tsDeclareFunction | .tsDeclareMethod
  | .tsFunctionType | .tsMethodSignature | .tsCallSignatureDeclaration => [.typeParameters]
  | _ => []

/-- The fields that stand outside of what their construct declares. -/
def isOutside (f : Field) : Bool := [Field.key, .decorators, .discriminant].contains f

/-- The names of what some fields hold. -/
def namesIn (s : Slots ρ) (fs : List Field) : List String :=
  fs.flatMap fun f => (held s f).flatMap names

/-- The types that a node declares for its own parts. -/
def inner (h : Head) (s : Slots ρ) : List String := namesIn s (h.tag?.elim [] scopeFields)

/-- **The types that a node declares for what a field holds.** -/
def scope (h : Head) (s : Slots ρ) (f : Field) : List String :=
  if isOutside f then [] else inner h s

/-! ### References -/

/-- The references by the names that a field holds. -/
def written (s : Slots ρ) (f : Field) : List Reference :=
  (held s f).flatMap fun c => c.head.identifier?.toList.map fun n => ⟨n, c.head.span, []⟩

/-- The built-in type that takes the place of a utility. -/
def builtin? : String → Option String
  | "$ReadOnly" => some "Readonly"
  | "$ReadOnlyArray" => some "ReadonlyArray"
  | "$Shape" => some "Partial"
  | "$NonMaybeType" => some "NonNullable"
  | _ => none

/-- The type arguments of a reference. -/
def arguments (s : Slots ρ) : List (Tree ρ) :=
  match s.child? .typeParameters with
  | some t => if t.head.is .typeParameterInstantiation then t.slots.children .params else []
  | none => []

/-- The built-in type that takes the place of a reference: one to a utility with one argument. -/
def introduced? (s : Slots ρ) : Option String :=
  match (s.child? .id).bind (·.head.identifier?), arguments s with
  | some name, [_] => builtin? name
  | _, _ => none

/-- A reference that is made by a pass. -/
def made (name : String) : Reference := ⟨name, none, []⟩

/-- The references of a node itself. -/
def own (h : Head) (s : Slots ρ) : List Reference :=
  match h.tag? with
  | some .tsTypeReference => written s .typeName
  | some .interfaceExtends => written s .id
  | some .genericType => (introduced? s).elim (written s .id) fun name => [made name]
  | some .optionalIndexedAccessType => if h.flag .isOptional then [made "NonNullable"] else []
  | _ => []

/-- **A tree refers to a type.** The reference has the types that the nodes of the tree declare
around it. -/
inductive Refers : Tree ρ → Reference → Prop where
  | here {t : Tree ρ} {r : Reference} (hr : r ∈ own t.head t.slots) : Refers t r
  | part {t c : Tree ρ} {f : Field} {r : Reference} (hc : c ∈ held t.slots f) (hr : Refers c r) :
    Refers t (r.inside (scope t.head t.slots f))

/-- **A node of a tree refers to a type.** -/
inductive RefersAt : Tree ρ → Tree ρ → Reference → Prop where
  | here {t : Tree ρ} {r : Reference} (hr : r ∈ own t.head t.slots) : RefersAt t t r
  | part {t c a : Tree ρ} {f : Field} {r : Reference} (hc : c ∈ held t.slots f)
    (hr : RefersAt c a r) : RefersAt t a (r.inside (scope t.head t.slots f))

theorem RefersAt.refers {t a : Tree ρ} {r : Reference} (hr : RefersAt t a r) : Refers t r := by
  induction hr with
  | here hr => exact .here hr
  | part hc _ ih => exact .part hc ih

/-- Some node of a tree makes a reference. -/
theorem Refers.exists_at {t : Tree ρ} {r : Reference} (hr : Refers t r) : ∃ a, RefersAt t a r := by
  induction hr with
  | here hr => exact ⟨_, .here hr⟩
  | part hc _ ih =>
    obtain ⟨a, ha⟩ := ih
    exact ⟨a, .part hc ha⟩

/-- The fields with types that may take the place of the construct around them. -/
def typeFields : Tag → List Field
  | .typeParameterInstantiation => [.params]
  | .objectTypeSpreadProperty => [.argument]
  | .interfaceType => [.body]
  | _ => []

/-- **Types stand where the grammar has them**: the arguments of a reference, what an object type
spreads and the body of an interface type are no names and declare none. A construct that is
dropped leaves them in its own place, where a declaration would be one of the list around it. -/
def HoldsTypes (h : Head) (s : Slots ρ) : Prop :=
  ∀ f ∈ h.tag?.elim [] typeFields, ∀ c ∈ held s f, names c = []

instance (h : Head) (s : Slots ρ) : Decidable (HoldsTypes h s) :=
  inferInstanceAs (Decidable (∀ f ∈ h.tag?.elim [] typeFields, ∀ c ∈ held s f, names c = []))

/-! ### What fields hold -/

section Held

variable {s : Slots ρ} {f : Field} {c : Tree ρ}

theorem mem_slot_of_held (hc : c ∈ held s f) : ∃ slot, (f, slot) ∈ s ∧ c ∈ slot.toList := by
  unfold held at hc
  cases hget : s.get? f with
  | none =>
    rw [hget] at hc
    cases hc
  | some slot =>
    rw [hget] at hc
    exact ⟨slot, Slots.get?_mem hget, hc⟩

theorem mem_toList_of_held (hc : c ∈ held s f) : c ∈ s.toList := by
  obtain ⟨slot, hslot, hmem⟩ := mem_slot_of_held hc
  exact Slots.mem_toList.mpr ⟨_, hslot, hmem⟩

theorem held_of_child? (hc : s.child? f = some c) : c ∈ held s f := by
  unfold Slots.child? at hc
  unfold held
  split at hc
  · next a ha =>
    rw [ha]
    cases hc
    exact List.mem_singleton_self _
  · next a ha =>
    rw [ha]
    exact Option.mem_toList.mpr hc
  · cases hc

theorem held_of_children (hc : c ∈ s.children f) : c ∈ held s f := by
  unfold Slots.children at hc
  unfold held
  split at hc
  · next as ha =>
    rw [ha]
    exact hc
  · cases hc

end Held

/-! ### Notes do not matter -/

section Annotate

variable (rule : Head → Slots σ → σ) (h : Head) (s : Slots ρ) (f : Field)

theorem names_annotate (t : Tree ρ) : names (t.annotate rule) = names t :=
  Tree.synthesize_annotate _ _ t

theorem held_annotateSlots :
    held (Tree.annotateSlots rule s) f = (held s f).map (Tree.annotate rule) := by
  unfold held
  rw [Slots.annotateSlots_eq_mapTrees, Slots.get?_mapTrees]
  cases s.get? f with
  | none => rfl
  | some slot => exact Slot.toList_map _ _

theorem names_mk (n : ρ) : names (.mk n h s) =
    if h.isAny nameTags then [h.text .name] else namesIn s (h.tag?.elim [] namingFields) := by
  show namesRule h (Tree.annotateSlots namesRule s) = _
  unfold namesRule namesIn
  simp only [held_annotateSlots, List.flatMap_map]
  rfl

theorem inner_annotateSlots : inner h (Tree.annotateSlots rule s) = inner h s := by
  unfold inner namesIn
  simp only [held_annotateSlots, List.flatMap_map, names_annotate]

theorem scope_annotateSlots : scope h (Tree.annotateSlots rule s) f = scope h s f := by
  unfold scope
  rw [inner_annotateSlots]

theorem written_annotateSlots : written (Tree.annotateSlots rule s) f = written s f := by
  unfold written
  simp only [held_annotateSlots, List.flatMap_map, Tree.head_annotate]

theorem introduced?_annotateSlots : introduced? (Tree.annotateSlots rule s) = introduced? s := by
  have harguments :
      arguments (Tree.annotateSlots rule s) = (arguments s).map (Tree.annotate rule) := by
    unfold arguments
    rw [Slots.child?_annotateSlots]
    cases s.child? .typeParameters with
    | none => rfl
    | some t =>
      obtain ⟨n, h, s⟩ := t
      show (if h.is .typeParameterInstantiation then
        Slots.children (Tree.annotateSlots rule s) .params else []) =
          List.map _ (if h.is .typeParameterInstantiation then
            Slots.children s .params else [])
      rw [Slots.children_annotateSlots]
      split_ifs <;> rfl
  unfold introduced?
  rw [harguments, Slots.child?_annotateSlots, Option.bind_map]
  simp only [Function.comp_def, Tree.head_annotate]
  cases (s.child? .id).bind (·.head.identifier?) with
  | none => rfl
  | some name => rcases arguments s with _ | ⟨a, _ | ⟨b, rest⟩⟩ <;> rfl

theorem holdsTypes_annotateSlots : HoldsTypes h (Tree.annotateSlots rule s) ↔ HoldsTypes h s := by
  unfold HoldsTypes
  simp only [held_annotateSlots, List.forall_mem_map, names_annotate]

theorem own_annotateSlots : own h (Tree.annotateSlots rule s) = own h s := by
  unfold own
  simp only [written_annotateSlots, introduced?_annotateSlots]

end Annotate

/-! ### Names and references of a construct -/

section Tagged

variable {h : Head} {s : Slots ρ} {p : Tree ρ} {t : Tag} {f : Field} {fs : List Field}
  {S : List String}

theorem namesIn_subset (hS : ∀ f ∈ fs, ∀ c ∈ held s f, names c ⊆ S) : namesIn s fs ⊆ S := by
  intro n hn
  obtain ⟨f, hf, hn⟩ := List.mem_flatMap.mp hn
  obtain ⟨c, hc, hn⟩ := List.mem_flatMap.mp hn
  exact hS f hf c hc hn

theorem subset_namesIn (hf : f ∈ fs) : (held s f).flatMap names ⊆ namesIn s fs :=
  fun _ hn => List.mem_flatMap.mpr ⟨f, hf, hn⟩

theorem isAny_nameTags (ht : h.is t = true) : h.isAny nameTags = true ↔ t ∈ nameTags := by
  refine List.any_eq_true.trans ⟨?_, fun hname => ⟨t, hname, ht⟩⟩
  rintro ⟨tag, hmem, heq⟩
  cases (beq_iff_eq.mp ht).symm.trans (beq_iff_eq.mp heq)
  exact hmem

/-- A construct that is a name. -/
theorem names_of_mem (ht : p.head.is t = true) (hname : t ∈ nameTags) :
    names p = [p.head.text .name] := by
  obtain ⟨n, h, s⟩ := p
  exact (names_mk h s n).trans (if_pos ((isAny_nameTags ht).mpr hname))

theorem names_of_not_mem (ht : p.head.is t = true) (hname : t ∉ nameTags) :
    names p = namesIn p.slots (namingFields t) := by
  obtain ⟨n, h, s⟩ := p
  have htag : h.tag? = some t := beq_iff_eq.mp ht
  refine (names_mk h s n).trans ((if_neg (mt (isAny_nameTags ht).mp hname)).trans ?_)
  rw [htag]
  rfl

theorem inner_of_is (ht : h.is t = true) : inner h s = namesIn s (scopeFields t) := by
  unfold inner
  rw [show h.tag? = some t from beq_iff_eq.mp ht]
  rfl

theorem own_of_is (ht : h.is t = true) : own h s = own (.ofTag t h.attrs) s := by
  unfold own
  rw [show h.tag? = some t from beq_iff_eq.mp ht]
  rfl

theorem is_ofTag {attrs : List (Field × Attr)} : (Head.ofTag t attrs).is t = true :=
  beq_self_eq_true (some t)

end Tagged

/-- An annotated tree refers to what the tree refers to, at the same nodes. -/
theorem RefersAt.of_annotate {rule : Head → Slots σ → σ} {t : Tree ρ} {a : Tree σ} {r : Reference}
    (hr : RefersAt (t.annotate rule) a r) : ∃ b, a = b.annotate rule ∧ RefersAt t b r := by
  induction t using Tree.induct generalizing r with
  | step n h s ih =>
    rcases hr with hr | ⟨hc, hr⟩
    · rw [Tree.head_annotate, show (Tree.annotate rule (.mk n h s)).slots =
        Tree.annotateSlots rule s from rfl, own_annotateSlots] at hr
      exact ⟨.mk n h s, rfl, .here hr⟩
    · change _ ∈ held (Tree.annotateSlots rule s) _ at hc
      rw [held_annotateSlots] at hc
      obtain ⟨c, hmem, rfl⟩ := List.mem_map.mp hc
      obtain ⟨b, rfl, hb⟩ := ih c (mem_toList_of_held hmem) hr
      rw [Tree.head_annotate, show (Tree.annotate rule (.mk n h s)).slots =
        Tree.annotateSlots rule s from rfl, scope_annotateSlots]
      exact ⟨b, rfl, .part (t := .mk n h s) hmem hb⟩

end Scope

end Typeshift
