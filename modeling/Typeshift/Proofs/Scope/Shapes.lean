import Typeshift.Proofs.Convert.Static
import Typeshift.Proofs.Scope.Mirror

/-! # References in what the rules make

The rules of a conversion put the answers of parts together in few ways. If the answers mirror the
parts, then all that is made of them refers only to what the construct refers to, and with no more
types declared around a reference.

* `promise`: the answers of a part mirror it.
* `In`: the counterpart of something that a field of a construct holds.
* `Signed`: the signature of a function type that stands in a construct.
* `fine_composed`: what is put together of answers.
* `mirrors_simple`: what declares nothing. -/

namespace Typeshift.Scope

open Typeshift.Convert

/-- What is said of the answers of parts. -/
def promise : Promise where
  convert c v := Mirrors c c.head.span v
  chain c x := Mirrors c c.head.span x.1 ∧ ∀ g ∈ x.2, Fine c [] g
  access c x := Fine c [] x.1
  entity c v := Fine c [] v
  exported c v := Mirrors c c.head.span v
  refused _ := True

variable {p q c : Part} {f : Field} {u v : Node} {us : List Node} {x : Option Node}
  {F S : List String} {o : Option Span} {sig : Signature}

/-! ### Parts -/

section Parts

theorem Fine.fill (hc : Fills p.slots f c) (hv : Fine c F v) :
    Fine p (scope p.head p.slots f ++ F) v := by
  cases hc with
  | held hslot hmem =>
    refine hv.lift ?_
    unfold held
    rw [hslot]
    exact hmem
  | vacant => exact hv.of_default

theorem Fine.fill_scope (hc : Fills p.slots f c) (hv : Fine c [] v) :
    Fine p (scope p.head p.slots f) v := by
  have hfine := hv.fill hc
  rwa [List.append_nil] at hfine

/-- The counterpart of something that a field of a construct holds. -/
structure In (p : Part) (f : Field) (v : Node) : Prop where
  fine : Fine p (scope p.head p.slots f) v
  names : names v ⊆ (held p.slots f).flatMap names
  name : ∀ n, v.head.identifier? = some n →
    ∃ c ∈ held p.slots f, c.head.identifier? = some n ∧ v.head.span = c.head.span

theorem Mirrors.isIn (hv : Mirrors c c.head.span v) (hc : Fills p.slots f c) : In p f v where
  fine := hv.fine.fill_scope hc
  names n hn := by
    have hn := hv.names hn
    cases hc with
    | held hslot hmem =>
      refine List.mem_flatMap.mpr ⟨c, ?_, hn⟩
      unfold held
      rw [hslot]
      exact hmem
    | vacant => cases hn
  name n hn := by
    obtain ⟨hname, hspan⟩ := hv.name n hn
    cases hc with
    | held hslot hmem =>
      refine ⟨c, ?_, hname, hspan⟩
      unfold held
      rw [hslot]
      exact hmem
    | vacant => cases hname

theorem In.free (hv : In p f v) : Fine p [] v := hv.fine.free

theorem in_of_held (hv : Held promise.view p.slots f v) : In p f v := by
  obtain ⟨c, hc, hv⟩ := hv
  exact Mirrors.isIn hv hc

/-- Names that the construct declares for its own parts. -/
theorem In.subset_inner {t : Tag} (hu : In p f u) (ht : p.head.is t = true)
    (hf : f ∈ scopeFields t) :
    Scope.names u ⊆ inner p.head p.slots :=
  List.Subset.trans hu.names (inner_of_is ht ▸ subset_namesIn hf)

/-- Names that the construct declares for the list it stands in. -/
theorem In.subset_names {t : Tag} (hu : In p f u) (ht : p.head.is t = true) (hname : t ∉ nameTags)
    (hf : f ∈ namingFields t) : Scope.names u ⊆ Scope.names p :=
  List.Subset.trans hu.names (names_of_not_mem ht hname ▸ subset_namesIn hf)

end Parts

/-! ### References -/

section References

/-- A reference by a name that a part refers to. -/
theorem fine_typeReference
    (hown : ∀ n, u.head.identifier? = some n → ∃ c y, RefersAt p c y ∧
      StandsFor c (Target.typeReference u x) ∧ y.Covers ⟨n, u.head.span, []⟩)
    (hu : Fine p [] u) (hx : ∀ a ∈ x, Fine p [] a) : Fine p [] (Target.typeReference u x) := by
  refine fine_of ?_ (.one hu (.maybe hx .nil))
  intro r hr
  obtain ⟨c, hc, hr⟩ := List.mem_flatMap.mp hr
  cases List.mem_singleton.mp hc
  obtain ⟨n, hn, rfl⟩ := List.mem_map.mp hr
  exact hown n (Option.mem_toList.mp hn)

theorem builtin?_eq_some {name n : String} (h : (name, n) ∈ builtins) : builtin? name = some n := by
  simp only [builtins, List.mem_cons, Prod.mk.injEq, List.not_mem_nil, or_false] at h
  rcases h with ⟨rfl, rfl⟩ | ⟨rfl, rfl⟩ | ⟨rfl, rfl⟩ | ⟨rfl, rfl⟩ <;> rfl

/-- A utility that a built-in type takes the place of. -/
theorem convertUtility?_builtin {name n : String} (h : builtin? name = some n) (q : Part) :
    convertUtility? name [q] = do return some (Target.namedReference n [← convertPart q]) := by
  unfold builtin? at h
  split at h
  · cases h; rfl
  · cases h; rfl
  · cases h; rfl
  · cases h; rfl
  · cases h

theorem identifier?_child (s : Slots Outcome) :
    (s.child .id).head.identifier? = (s.child? .id).bind (·.head.identifier?) := by
  unfold Slots.child
  cases s.child? .id <;> rfl

theorem typeArguments_eq (s : Slots Outcome) : typeArguments s = arguments s := by
  unfold typeArguments arguments
  cases s.child? .typeParameters <;> rfl

/-- **A built-in type is one that the construct refers to**, as the utility or the link that it
is. -/
theorem refers_of_introduces {n : String} (hh : Introduces p.head p.slots n u) :
    RefersAt p p (made n) := by
  refine .here ?_
  cases hh with
  | @utility name _ c _ ht hname hargs hbuiltin =>
    have hintroduced : introduced? p.slots = some n := by
      rw [identifier?_child] at hname
      rw [typeArguments_eq] at hargs
      unfold introduced?
      rw [hname, hargs]
      exact builtin?_eq_some hbuiltin
    rw [own_of_is ht]
    show made n ∈ (introduced? p.slots).elim (written p.slots .id) fun name => [made name]
    rw [hintroduced]
    exact List.mem_singleton_self _
  | link ht hflag =>
    rw [own_of_is ht]
    show made "NonNullable" ∈ if p.head.flag .isOptional then [made "NonNullable"] else []
    rw [if_pos hflag]
    exact List.mem_singleton_self _

theorem fine_introduced {n : String} (hh : Introduces p.head p.slots n u) (hu : Fine p [] u) :
    Fine p [] (Target.namedReference n [u]) := by
  refine fine_typeReference ?_ (fine_neutral rfl (.none .nil)) (forall_mem_some ?_)
  · rintro _ ⟨⟩
    exact ⟨p, made n, refers_of_introduces hh, .introduced hh rfl, .refl _⟩
  · exact fine_neutral rfl (.many (List.forall_mem_singleton.mpr hu) .nil)

/-- A construct that refers to a type by its own name is no utility. -/
theorem own_of_isReference (hh : IsReference p.head p.slots) :
    own p.head p.slots = written p.slots .id := by
  cases hh with
  | parent ht => exact own_of_is ht
  | generic ht hno =>
    have hnone : introduced? p.slots = none := by
      cases hi : introduced? p.slots with
      | none => rfl
      | some n =>
        unfold introduced? at hi
        split at hi
        · next name q hname hq =>
          rw [← identifier?_child] at hname
          rw [← typeArguments_eq] at hq
          obtain ⟨st, hst⟩ := hno name hname
          rw [hq, convertUtility?_builtin hi] at hst
          cases hst
        · cases hi
    rw [own_of_is ht]
    show (introduced? p.slots).elim (written p.slots .id) (fun name => [made name]) = _
    rw [hnone]
    rfl

/-- **A reference by the name of the construct** stands for the construct. -/
theorem fine_references (hh : References promise.view p.head p.slots u x) :
    Fine p [] (Target.typeReference u x) := by
  have hname := in_of_held hh.name
  refine fine_typeReference (fun n hn => ?_) hname.free fun a ha =>
    (in_of_held (hh.arguments a ha)).free
  obtain ⟨c, hc, hidentifier, hspan⟩ := hname.name n hn
  refine ⟨p, ⟨n, u.head.span, []⟩, .here ?_, .name hh.nameRun hh.argumentsRun rfl, .refl _⟩
  rw [own_of_isReference hh.isReference, hspan]
  exact List.mem_flatMap.mpr ⟨c, hc, List.mem_map.mpr ⟨n, Option.mem_toList.mpr hidentifier, rfl⟩⟩

end References

/-! ### Composed nodes -/

/-- Only the empty list of types is declared around all fields. -/
theorem eq_nil_of_anywhere (hS : ∀ f, anywhere f → S ⊆ scope p.head p.slots f) : S = [] :=
  List.subset_nil.mp (hS .key True.intro)

/-- **What is put together of answers** refers only to what the construct refers to. The types that
the construct declares for all fields that the answers come from are declared around it. -/
theorem fine_composed {h : Head} {s : Slots Outcome} {P : Field → Prop}
    (hv : Composed promise.view h s P v) (hh : p.head = h) (hs : p.slots = s)
    (hS : ∀ f, P f → S ⊆ scope p.head p.slots f) : Fine p S v := by
  induction hv generalizing p S with
  | part hf hv =>
    subst hs
    exact (in_of_held hv).fine.mono (hS _ hf)
  | value hf hc hx =>
    subst hs
    exact (hx.1.fine.fill_scope hc).mono (hS _ hf)
  | guard hf hc hx hg =>
    subst hs
    exact ((hx.2 _ hg).fill_scope hc).mono (hS _ hf)
  | @piece h s P f c x k hf hc hx _ _ =>
    subst hs
    refine (Fine.fill_scope hc ?_).mono (hS _ hf)
    unfold Slots.child
    cases hk : x.1.slots.child? k with
    | some a => exact hx.1.fine.part (held_of_child? hk)
    | none => exact fine_default
  | object hf hc hx =>
    subst hs
    refine (Fine.fill_scope hc ?_).mono (hS _ hf)
    unfold baseOf
    split_ifs
    · exact Fine.dress hx (by simp)
    · exact hx
  | entity hf hc hv =>
    subst hs
    exact (Fine.fill_scope hc hv).mono (hS _ hf)
  | taken hf hv hu =>
    subst hs
    exact ((in_of_held hv).fine.part (held_of_children hu)).mono (hS _ hf)
  | within hf hc _ ih =>
    subst hs
    exact ((ih rfl rfl fun f _ => List.nil_subset _).fill_scope hc).mono (hS _ hf)
  | node htag _ ih =>
    have hneutral : ∀ t ∈ plainTags, isNeutral t = true := by decide
    exact fine_neutral (hneutral _ htag) fun e he c hc =>
      ih c (Slots.mem_toList.mpr ⟨e, he, hc⟩) hh hs hS
  | member _ _ _ iha ihb =>
    exact fine_neutral rfl (.one (iha hh hs hS) (.one (ihb hh hs hS) .nil))
  | cast _ _ _ ihe ihty =>
    exact fine_neutral rfl (.one (fine_neutral rfl
      (.one (ihe hh hs hS) (.one (ihty hh hs hS) .nil))) .nil)
  | assign _ _ ih =>
    exact fine_neutral rfl (.one (fine_neutral rfl (.none .nil)) (.one (ih hh hs hS) .nil))
  | reference hreference =>
    subst hh hs
    rw [eq_nil_of_anywhere hS]
    exact fine_references hreference
  | introduced hintroduces _ ih =>
    subst hh hs
    rw [eq_nil_of_anywhere hS]
    exact fine_introduced hintroduces (ih rfl rfl fun f _ => List.nil_subset _)
  | dress _ _ hbare ih => exact (ih hh hs hS).dress hbare
  | wrap _ c ih => exact (ih hh hs hS).dress (by simp)

/-- What is put together of answers of any fields. -/
theorem free_composed (hv : Composed promise.view p.head p.slots anywhere v) : Fine p [] v :=
  fine_composed hv rfl rfl fun _ _ => List.nil_subset _

/-! ### Signatures -/

/-- A signature of fine parts. Its type parameters are declared around all of them. -/
structure Signed (p : Part) (S : List String) (sig : Signature) : Prop where
  typeParameters : ∀ u ∈ sig.typeParameters, Fine p S u ∧ names u ⊆ S
  parameters : ∀ u ∈ sig.parameters, Fine p S u
  returnType : Fine p S sig.returnType

/-- A signature stands where its function type stands. -/
theorem Signed.fill (hsig : Signed c S sig) (hc : Fills p.slots f c) :
    Signed p (scope p.head p.slots f ++ S) sig where
  typeParameters u hu := ⟨(hsig.typeParameters u hu).1.fill hc,
    List.Subset.trans (hsig.typeParameters u hu).2 (List.subset_append_right _ _)⟩
  parameters u hu := (hsig.parameters u hu).fill hc
  returnType := hsig.returnType.fill hc

/-- **The signature of a function type that stands in a construct.** -/
theorem signed_of {h : Head} {s : Slots Outcome} (hsig : SignatureOf promise.view h s sig)
    (hh : p.head = h) (hs : p.slots = s) : ∃ S, Signed p S sig := by
  induction hsig generalizing p with
  | here ht hps hparameters hreturn =>
    subst hh hs
    have hinner : inner p.head p.slots = (held p.slots .typeParameters).flatMap names :=
      (inner_of_is ht).trans (List.append_nil _)
    have hscope : ∀ f ∈ signatureFields, inner p.head p.slots ⊆ scope p.head p.slots f := by
      have houtside : ∀ f ∈ signatureFields, isOutside f = false := by decide
      intro f hf
      unfold scope
      rw [houtside f hf]
      exact List.Subset.refl _
    refine ⟨inner p.head p.slots, fun u hu => ⟨(in_of_held (hps u hu)).fine, ?_⟩, ?_, ?_⟩
    · rw [hinner]
      exact (in_of_held (hps u hu)).names
    · exact fun u hu => fine_composed (hparameters u hu) rfl rfl hscope
    · exact fine_composed hreturn rfl rfl hscope
  | part hc _ ih =>
    subst hs
    obtain ⟨S, hS⟩ := ih rfl rfl
    exact ⟨_, hS.fill hc⟩

/-- Whether the type parameters of a construct are all that it declares, for its own parts. -/
def isSigned (t : Tag) : Bool :=
  scopeFields t == [.typeParameters] && (namingFields t).isEmpty &&
    !(referenceTags ++ nameTags).contains t

/-- A construct with a signature. -/
theorem Signed.mirrors {t : Tag} {attrs : List (Field × Attr)} {s : Slots Unit}
    (hsig : Signed p S sig) (ht : isSigned t = true)
    (hps : held s .typeParameters = sig.typeParameters.toList)
    (hs : FineSlots p (fun f => if isOutside f then [] else S) s) :
    Mirrors p o (.of t attrs s) := by
  simp only [isSigned, Bool.and_eq_true, beq_iff_eq, List.isEmpty_iff, Bool.not_eq_true',
    List.contains_eq_mem, decide_eq_false_iff_not, List.mem_append, not_or] at ht
  obtain ⟨⟨hscope, hnaming⟩, hreference, hname⟩ := ht
  refine mirrors_of hname (fine_scoped hreference ?_ hs) ?_
  · rw [hscope, List.forall_mem_singleton, hps]
    exact fun u hu => (hsig.typeParameters u (Option.mem_toList.mp hu)).2
  · rw [hnaming]
    exact nofun

theorem Signed.fine_typeParameters (hsig : Signed p S sig) :
    ∀ u ∈ sig.typeParameters, Fine p S u := fun u hu => (hsig.typeParameters u hu).1

theorem Signed.fine_result (hsig : Signed p S sig) (hx : x = none ∨ x = some sig.returnType) :
    ∀ u ∈ x, Fine p S u := by
  rcases hx with rfl | rfl
  · exact nofun
  · exact forall_mem_some hsig.returnType

/-- **A member of a declared class.** -/
theorem fine_memberOf {h : Head} {s : Slots Outcome} (hv : MemberOf promise.view h s v)
    (hh : p.head = h) (hs : p.slots = s) : Fine p [] v := by
  induction hv generalizing p with
  | plain hu =>
    subst hh hs
    exact free_composed hu
  | @method _ _ kind key sig x isStatic isOptional hkey hsig hx =>
    subst hs
    obtain ⟨S, hS⟩ := signed_of hsig hh rfl
    have hmethod : Mirrors p none (Target.declareMethod kind key sig.parameters false isStatic
        isOptional sig.typeParameters x) :=
      hS.mirrors rfl rfl (.one (in_of_held hkey).free (.maybe hS.fine_typeParameters
        (.many hS.parameters (.maybe (hS.fine_result hx) .nil))))
    exact hmethod.fine.dress (by simp [Convert.atOrigin])
  | part hc _ ih =>
    subst hs
    exact ((ih rfl rfl).fill hc).free

/-! ### What declares nothing -/

/-- Types stand where they may, in a construct and in its parts. -/
structure Typed (p : Part) : Prop where
  here : HoldsTypes p.head p.slots
  parts : ∀ f c, Fills p.slots f c → HoldsTypes c.head c.slots

/-- The counterpart of a type declares nothing, so it can take the place of what is around it. -/
theorem mirrors_type {t : Tag} (hq : HoldsTypes q.head q.slots) (ht : q.head.is t = true)
    (hf : (t, f) ∈ typePlaces) (hv : Held promise.view q.slots f v) (hfine : Fine p [] v) :
    Mirrors p o v := by
  have hempty : (held q.slots f).flatMap names = [] := by
    have hfields : ∀ e ∈ typePlaces, e.2 ∈ typeFields e.1 := by decide
    refine List.flatMap_eq_nil_iff.mpr (hq f ?_)
    rw [show q.head.tag? = some t from beq_iff_eq.mp ht]
    exact hfields _ hf
  have hin := in_of_held hv
  refine ⟨hfine, fun n hn => ?_, fun n hn => ?_⟩
  · cases hempty ▸ hin.names hn
  · obtain ⟨c, hc, hname, -⟩ := hin.name n hn
    have hident : c.head.is .identifier = true := beq_iff_eq.mpr (Head.tag?_of_identifier? hname)
    have hmem : c.head.text .name ∈ (held q.slots f).flatMap names := by
      refine List.mem_flatMap.mpr ⟨c, hc, ?_⟩
      rw [names_of_mem hident List.mem_cons_self]
      exact List.mem_singleton_self _
    cases hempty ▸ hmem

/-- An export declares what it exports. -/
theorem mirrors_export {t : Tag} {attrs : List (Field × Attr)} {s : Slots Unit}
    (ht : p.head.is .declareExportDeclaration = true) (hneutral : isNeutral t = true)
    (hname : t ∉ nameTags) (hnaming : namingFields t = [.declaration])
    (hdeclaration : ∀ u ∈ held s .declaration, In p .declaration u)
    (hs : FineSlots p (fun _ => []) s) : Mirrors p o (.of t attrs s) := by
  refine mirrors_of hname (fine_neutral hneutral hs) ?_
  rw [hnaming, List.forall_mem_singleton]
  exact fun u hu => (hdeclaration u hu).subset_names ht (by decide) List.mem_cons_self

/-- **What declares nothing mirrors the construct**, wherever it is written. -/
theorem mirrors_simple (hp : Typed p) (hv : Simple promise.view p.head p.slots v) :
    Mirrors p o v := by
  induction hv generalizing o with
  | @node tag _ _ htag hname hslots =>
    have hplain : ∀ t ∈ plainTags, t ≠ .identifier → isPlain t = true := by decide
    exact mirrors_plain (hplain tag htag hname) fun e he c hc =>
      free_composed (hslots c (Slots.mem_toList.mpr ⟨e, he, hc⟩))
  | member ha hb _ =>
    exact mirrors_plain rfl (.one (free_composed ha) (.one (free_composed hb) .nil))
  | cast he hty _ =>
    exact mirrors_plain rfl (.one (fine_neutral rfl
      (.one (free_composed he) (.one (free_composed hty) .nil))) .nil)
  | dress _ htag hbare ih =>
    refine (ih (o := none)).dress hbare fun n hn _ => ?_
    exact absurd rfl (htag _ (Head.tag?_of_identifier? hn)).2
  | wrap _ c ih => exact ih.wrapComments c
  | type ht hf hv =>
    exact mirrors_type hp.here ht hf hv (in_of_held hv).free
  | typeBelow hc ht hf hv =>
    exact mirrors_type (hp.parts _ _ hc) ht hf hv ((in_of_held hv).free.fill hc).free
  | intersect _ ih =>
    unfold Convert.intersect
    split
    · exact ih _ List.mem_cons_self
    · exact mirrors_plain rfl (.many (fun u hu => (ih u hu (o := none)).fine) .nil)
  | guarded hg _ ih =>
    exact mirrors_plain rfl (.one (free_composed hg) (.one (ih (o := none)).fine .nil))
  | maybeUndefined _ ih =>
    have hundefined : Fine p [] Target.undefined := fine_neutral rfl .nil
    refine mirrors_plain rfl (.many (List.forall_mem_cons.mpr ⟨(ih (o := none)).fine, ?_⟩) .nil)
    exact List.forall_mem_singleton.mpr hundefined
  | reference hreference =>
    exact mirrors_of (by decide) (fine_references hreference) nofun
  | introduced hintroduces hu =>
    exact mirrors_of (by decide) (fine_introduced hintroduces (free_composed hu)) nofun
  | functionType hsig =>
    obtain ⟨S, hS⟩ := signed_of hsig rfl rfl
    exact hS.mirrors rfl rfl (.maybe hS.fine_typeParameters
      (.many hS.parameters (.one hS.returnType .nil)))
  | callSignature hsig =>
    obtain ⟨S, hS⟩ := signed_of hsig rfl rfl
    exact hS.mirrors rfl rfl (.maybe hS.fine_typeParameters
      (.many hS.parameters (.some hS.returnType .nil)))
  | accessor _ hkey hsig hx =>
    obtain ⟨S, hS⟩ := signed_of hsig rfl rfl
    exact hS.mirrors rfl rfl (.one (in_of_held hkey).free (.maybe hS.fine_typeParameters
      (.many hS.parameters (.maybe (hS.fine_result hx) .nil))))
  | typeParameters ht hus =>
    refine mirrors_of (by decide)
      (fine_neutral rfl (.many (fun u hu => (in_of_held (hus u hu)).free) .nil)) ?_
    exact List.forall_mem_singleton.mpr fun u hu =>
      (in_of_held (hus u hu)).subset_names ht (by decide) List.mem_cons_self
  | @typeParameter x y ht hx hy =>
    refine ⟨fine_neutral rfl (.maybe (fun u hu => free_composed (hx u hu))
      (.maybe (fun u hu => free_composed (hy u hu)) .nil)), ?_, nofun⟩
    rw [names_of_mem ht (by decide)]
    exact List.Subset.refl _
  | exportDefault ht hu =>
    exact mirrors_export ht rfl (by decide) rfl (List.forall_mem_singleton.mpr (in_of_held hu))
      (.one (in_of_held hu).free .nil)
  | exportNamed ht hx hus hy =>
    exact mirrors_export ht rfl (by decide) rfl
      (fun u hu => in_of_held (hx u (Option.mem_toList.mp hu)))
      (.maybe (fun u hu => (in_of_held (hx u hu)).free)
        (.many (fun u hu => free_composed (hus u hu))
          (.maybe (fun u hu => free_composed (hy u hu)) .nil)))

end Typeshift.Scope
