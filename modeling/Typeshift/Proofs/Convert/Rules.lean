import Typeshift.Proofs.Convert.Logic

/-! # What the rules for types and casts make

Every rule is gone through once, in any logic for conversions. Where it asks its parts their answers
are known; the shape of what it makes follows.

* `Sound.signature?`: the signature of a function type.
* `Sound.convertGeneric`, `Sound.convertObject`, `Sound.convertCast` and the rules beside them. -/

namespace Typeshift.Convert

open Ambient (openers)

variable {V : View} {d : Nat} {t : Tag} {h : Head} {s : Slots Outcome} {f : Field}
  {F : Field → Prop}
  {u v : Node} {us : List Node} {p c : Part} {ps : List Part} {pre : Fact}

/-! ### Composed nodes -/

namespace Composed

theorem leaf {tag : Tag} (htag : tag ∈ plainTags) : Composed V h s F (.leaf tag) := .node htag .nil

theorem any : Composed V h s F Target.any := leaf (by decide)

theorem param {x : Option Node} (hx : ∀ u ∈ x, Composed V h s F u) (name : String)
    (isOptional : Bool) : Composed V h s F (Target.param name x isOptional) :=
  .node (by decide) (.maybe hx .nil)

theorem ident (name : String) : Composed V h s F (Target.ident name) :=
  param (x := none) nofun name false

theorem ascribe (hu : Composed V h s F u) : Composed V h s F (Target.ascribe u) := by
  unfold Target.ascribe
  split_ifs
  · exact hu
  · exact .node (by decide) (.one hu .nil)

theorem atOrigin {tag : Tag} {attrs : List (Field × Attr)} {slots : Slots Unit}
    (hu : Composed V h s F (.of tag attrs slots)) (htag : tag ∉ Ambient.declarationTags)
    (k : Head) :
    Composed V h s F (Convert.atOrigin k (.of tag attrs slots)) :=
  .dress hu (Ambient.not_mem_of_tag? rfl htag) (by simp [Convert.atOrigin])

theorem withSpan {tag : Tag} {attrs : List (Field × Attr)} {slots : Slots Unit}
    (hu : Composed V h s F (.of tag attrs slots)) (htag : tag ∉ Ambient.declarationTags)
    (span : Option Span) : Composed V h s F ((Node.of tag attrs slots).withSpan span) :=
  .dress hu (Ambient.not_mem_of_tag? rfl htag) (by simp)

theorem keyof (hu : Composed V h s F u) : Composed V h s F (Target.keyof u) :=
  .node (by decide) (.one hu .nil)

theorem both (hu : Composed V h s F u) (hv : Composed V h s F v) :
    Composed V h s F (Target.both u v) := .node (by decide) (.one hu (.one hv .nil))

theorem held {us : List Node} (hf : F f) (hus : ∀ u ∈ us, Held V s f u) :
    ∀ u ∈ us, Composed V h s F u := fun u hu => .part hf (hus u hu)

theorem held? {x : Option Node} (hf : F f) (hx : ∀ u ∈ x, Held V s f u) :
    ∀ u ∈ x, Composed V h s F u := fun u hu => .part hf (hx u hu)

end Composed

/-! ### Types -/

namespace Survey

variable {S : Survey}

/-- The type that a part in some field holds or is. -/
theorem Usable.bareType (hc : S.Usable d c) (h : Head) (hfill : Fills s f c) (hf : F f) :
    S.Gives d pre (bareType c) (Fact.composed h s F) := by
  unfold Convert.bareType
  split_ifs with ha
  · refine ((hc.ready.sound ha).child rfl).bind fun u => .pure ?_
    rintro V - ⟨-, hu⟩
    exact .wrap (.within hf hfill (.part True.intro hu)) _
  · exact hc.convertPart.imp fun u V _ _ hu => .part hf ⟨c, hfill, hu⟩

theorem Usable.ascribed (hc : S.Usable d c) (h : Head) (hfill : Fills s f c) (hf : F f) :
    S.Gives d pre (ascribed c) (Fact.composed h s F) :=
  (hc.bareType h hfill hf).bind fun _ => .pure fun _ _ hu => hu.2.ascribe

/-- The type of a parameter of a function type. -/
theorem Ready.ascribed_ty (hc : S.Ready d c) (h : Head) (hfill : Fills s f c) (hf : F f)
    (ht : c.head.is .functionTypeParam = true) :
    S.Gives d pre (Convert.ascribed (c.slots.child .ty)) (Fact.composed h s F) := by
  have hty : S.Usable d (c.slots.child .ty) := (hc.sound ht).usable_child rfl
  refine (hty.ascribed (F := anywhere) c.head (fills_child c.slots .ty) True.intro).imp ?_
  exact fun u V _ _ hu => .within hf hfill hu

theorem gives_convertParameters (h : Head) (hf : F f) :
    ∀ {ps : List Part} (names : Names) {pre : Fact},
    (∀ p ∈ ps, Fills s f p ∧ S.Admitted d .functionTypeParam p) →
    S.Gives d pre (convertParameters names ps) fun x => Fact.all (Fact.composed h s F) x.1
  | [], _, _, _ => .pure fun _ _ _ => nofun
  | p :: ps, names, _, hps => by
    obtain ⟨⟨hfill, hp⟩, hrest⟩ := List.forall_mem_cons.mp hps
    unfold convertParameters
    split_ifs with ht
    · refine (hp.ready.ascribed_ty h hfill hf ht).bind fun ty => ?_
      refine (gives_convertParameters h hf _ hrest).bind fun x => .pure ?_
      rintro V - ⟨⟨-, hty⟩, hx⟩
      refine List.forall_mem_cons.mpr ⟨Composed.atOrigin ?_ (by decide) _, hx⟩
      exact .param (forall_mem_some hty) _ _
    · refine (hp.usable ht).convertPart.bind fun u => ?_
      refine (gives_convertParameters h hf _ hrest).bind fun x => .pure ?_
      rintro V - ⟨⟨-, hu⟩, hx⟩
      exact List.forall_mem_cons.mpr ⟨.part hf ⟨p, hfill, hu⟩, hx⟩

theorem gives_convertReceiver (h : Head) (hf : F f) {x : Option Part}
    (hx : ∀ p ∈ x, Fills s f p ∧ S.Admitted d .functionTypeParam p) :
    S.Gives d pre (convertReceiver x) (Fact.all (Fact.composed h s F)) := by
  cases x with
  | none => exact .pure fun _ _ _ => nofun
  | some p =>
    obtain ⟨hfill, hp⟩ := hx p rfl
    have hty : S.Gives d pre (Convert.ascribed
        (if p.head.is .functionTypeParam then p.slots.child .ty else p)) (Fact.composed h s F) := by
      split_ifs with ht
      · exact hp.ready.ascribed_ty h hfill hf ht
      · exact (hp.usable ht).ascribed h hfill hf
    refine hty.bind fun ty => .pure ?_
    rintro V - ⟨-, hty⟩
    refine List.forall_mem_singleton.mpr (Composed.withSpan ?_ (by decide) _)
    exact .param (forall_mem_some hty) _ _

theorem gives_convertRest (h : Head) (hf : F f) (names : Names) {x : Option Part}
    (hx : ∀ p ∈ x, Fills s f p ∧ S.Admitted d .functionTypeParam p) :
    S.Gives d pre (convertRest names x) fun y =>
      Fact.option (Fact.all (Fact.composed h s F)) y := by
  cases x with
  | none => exact .pure fun _ _ _ => forall_mem_some nofun
  | some p =>
    obtain ⟨hfill, hp⟩ := hx p rfl
    unfold convertRest
    dsimp only
    split_ifs with ht
    · refine (hp.ready.ascribed_ty h hfill hf ht).bind fun ty => .pure ?_
      rintro V - ⟨-, hty⟩
      refine forall_mem_some (List.forall_mem_singleton.mpr (Composed.atOrigin ?_ (by decide) _))
      exact .node (by decide) (.one (.ident _) (.some hty .nil))
    · exact .pure fun _ _ _ => nofun

/-- **The signature of a function type** is known. -/
theorem Sound.signature? (hs : S.Sound d .functionType p.head p.slots) :
    S.Gives d pre (signature? p) fun x => Fact.option (Fact.signature p.head p.slots) x := by
  have hguests {f : Field} (hg : guests .functionType f = [.functionTypeParam]) {slot : Slot Part}
      (hslot : (f, slot) ∈ p.slots) {c : Part} (hc : c ∈ slot.toList) :
      S.Admitted d .functionTypeParam c := hs.admitted hg rfl hslot hc
  have hchild (f : Field) (hg : guests .functionType f = [.functionTypeParam]) :
      ∀ c ∈ p.slots.child? f, Fills p.slots f c ∧ S.Admitted d .functionTypeParam c := by
    intro c hc
    obtain ⟨slot, hslot, hmem⟩ := Slots.child?_mem_slot hc
    exact ⟨fills_child? hc, hguests hg hslot hmem⟩
  have hparams : ∀ c ∈ p.slots.children .params,
      Fills p.slots .params c ∧ S.Admitted d .functionTypeParam c := by
    intro c hc
    obtain ⟨slot, hslot, hmem⟩ := Slots.children_mem_slot hc
    exact ⟨fills_children hc, hguests rfl hslot hmem⟩
  unfold Convert.signature?
  split_ifs with his
  · exact .pure fun _ _ _ => nofun
  refine (gives_convertReceiver (F := (· ∈ signatureFields)) p.head (by decide)
    (hchild .receiver rfl)).bind fun receiver => ?_
  refine (gives_convertParameters (F := (· ∈ signatureFields)) p.head (by decide) _
    hparams).bind fun x => ?_
  refine (gives_convertRest (F := (· ∈ signatureFields)) p.head (by decide) _
    (hchild .rest rfl)).bind fun y => ?_
  cases y with
  | none => exact .pure fun _ _ _ => nofun
  | some rest =>
    refine (hs.child? rfl).bind fun typeParameters => ?_
    refine ((hs.usable_child rfl).ascribed (F := (· ∈ signatureFields)) p.head
      (fills_child _ _) (by decide)).bind fun ty => .pure ?_
    rintro V - ⟨⟨⟨⟨⟨-, hreceiver⟩, hx⟩, hrest⟩, hps⟩, hty⟩
    refine forall_mem_some (.here hs.is hps ?_ hty)
    refine List.forall_mem_append.mpr ⟨List.forall_mem_append.mpr ⟨hreceiver, hx⟩, ?_⟩
    exact hrest rest rfl

/-- A part has a signature only if it is a function type. -/
theorem Ready.signature? (hp : S.Ready d p) :
    S.Gives d pre (signature? p) fun x => Fact.option (Fact.signature p.head p.slots) x := by
  by_cases his : p.head.is .functionType = true
  · exact (hp.sound his).signature?
  · unfold Convert.signature?
    rw [Bool.not_eq_true _ |>.mp his]
    exact .pure fun _ _ _ => nofun

/-- The signature of a part in some field. -/
theorem Ready.signature?_in (hp : S.Ready d p) (h : Head) (hfill : Fills s f p) :
    S.Gives d pre (Convert.signature? p) fun x => Fact.option (Fact.signature h s) x :=
  hp.signature?.imp fun _ _ _ _ hx sig hsig => .part hfill (hx sig hsig)

/-! ### References -/

/-- An argument of a reference is held by the instantiation below it. -/
theorem Sound.typeArgument (hs : S.Sound d .genericType h s) (hc : c ∈ typeArguments s) :
    S.Usable d c ∧ ∃ k, Fills s .typeParameters k ∧
      k.head.is .typeParameterInstantiation = true ∧ Fills k.slots .params c := by
  unfold typeArguments at hc
  split at hc
  · next k hk =>
    split_ifs at hc with hi
    · have hk' := (hs.usable_child? rfl k hk).ready.sound hi
      exact ⟨hk'.usable_children rfl c hc, k, fills_child? hk, hi, fills_children hc⟩
    · cases hc
  · cases hc

/-- What an argument of a reference becomes. -/
def argument (s : Slots Outcome) (c : Part) (u : Node) : Fact :=
  .given (c ∈ typeArguments s ∧ ∃ st, u = (convertPart c st).1) (.convert c u)

theorem composed_argument (hs : S.Sound d .genericType h s) (hu : (argument s c u).At V) :
    Composed V h s anywhere u := by
  obtain ⟨-, k, hk, -, hc⟩ := hs.typeArgument hu.1.1
  exact .within True.intro hk (.part True.intro ⟨c, hc, hu.2⟩)

theorem simple_argument (hs : S.Sound d .genericType h s) (hu : (argument s c u).At V) :
    Simple V h s u := by
  obtain ⟨-, k, hk, hi, hc⟩ := hs.typeArgument hu.1.1
  exact .typeBelow hk hi (by decide) ⟨c, hc, hu.2⟩

theorem Sound.convertUtility? (hs : S.Sound d .genericType h s) {name : String}
    (hname : (s.child .id).head.identifier? = some name) (hps : typeArguments s = ps) :
    S.Gives d pre (convertUtility? name ps) fun x => Fact.option (Fact.simple h s) x := by
  have hask {c : Part} (hc : c ∈ ps) (pre : Fact) :
      S.Gives d pre (convertPart c) (argument s c) := by
    rw [← hps] at hc
    refine (hs.typeArgument hc).1.convertPart.ran.imp fun u V _ _ hu => ?_
    obtain ⟨⟨st, -, hrun⟩, hu⟩ := hu
    exact ⟨⟨hc, st, hrun⟩, hu⟩
  have one {c : Part} (g : Node → Node) (hc : c ∈ ps)
      (hg : ∀ u V, (argument s c u).At V → Simple V h s (g u)) :
      S.Gives d pre (do return some (g (← convertPart c))) fun x =>
        Fact.option (Fact.simple h s) x :=
    (hask hc _).bind fun u => .pure fun V _ hu => forall_mem_some (hg u V hu.2)
  have two {a b : Part} (ha : a ∈ ps) (hb : b ∈ ps) : S.Gives d pre (do
      let u ← convertPart a
      return some (Target.indexedAccess u (← convertPart b))) fun x =>
        Fact.option (Fact.simple h s) x := by
    refine (hask ha _).bind fun u => (hask hb _).bind fun v => .pure ?_
    rintro V - ⟨⟨-, hu⟩, hv⟩
    exact forall_mem_some (.node (by decide) (by decide)
      (.one (composed_argument hs hu) (.one (composed_argument hs hv) .nil)))
  have builtin {c : Part} {n : String} (hc : ps = [c]) (hn : (name, n) ∈ builtins) :
      S.Gives d pre (do return some (Target.namedReference n [← convertPart c])) fun x =>
        Fact.option (Fact.simple h s) x :=
    one (fun u => Target.namedReference n [u]) (by rw [hc]; exact List.mem_singleton_self c)
      fun u V hu => .introduced (.utility hs.is hname (hps.trans hc) hn hu.1.2)
        (composed_argument hs hu)
  unfold Convert.convertUtility?
  split
  · exact one _ (List.mem_singleton_self _) fun u V hu =>
      .node (by decide) (by decide) (.one (composed_argument hs hu) .nil)
  · exact one (fun u => Target.indexedAccess u (Target.keyof u)) (List.mem_singleton_self _)
      fun u V hu => .node (by decide) (by decide)
        (.one (composed_argument hs hu) (.one (composed_argument hs hu).keyof .nil))
  · exact .pure fun _ _ _ => forall_mem_some (.node (by decide) (by decide) .nil)
  · exact one id (List.mem_singleton_self _) fun u V hu => simple_argument hs hu
  · exact builtin rfl (by decide)
  · exact builtin rfl (by decide)
  · exact builtin rfl (by decide)
  · exact builtin rfl (by decide)
  · exact two (by simp) (by simp)
  · exact two (by simp) (by simp)
  · exact .pure fun _ _ _ => nofun

/-- A reference by the name of a construct, if that refers to a type by it. -/
def isReference (h : Head) (s : Slots Outcome) (v : Node) : Fact where
  At V := ∃ u x, v = Target.typeReference u x ∧ (IsReference h s → References V h s u x)
  lasts hle := fun ⟨u, x, hv, hh⟩ => ⟨u, x, hv, fun hreference => (hh hreference).mono hle⟩

theorem Sound.convertReference (hs : S.Sound d t h s) (hid : needs t .id = true)
    (hparams : asks t .typeParameters = true) :
    S.Gives d pre (convertReference s) (isReference h s) := by
  refine (hs.child? hparams).ran.bind fun x => (hs.child hid).ran.bind fun u => .pure ?_
  rintro V - ⟨⟨-, ⟨st, -, hx⟩, harguments⟩, ⟨st', -, hu⟩, hname⟩
  exact ⟨u, x, rfl, fun hh => ⟨hh, hname, harguments, ⟨st', hu⟩, st, hx⟩⟩

theorem Sound.convertGeneric (hs : S.Sound d .genericType h s) :
    S.Gives d pre (convertGeneric s) (Fact.simple h s) := by
  have hrest (pre : Fact) (hno : ∀ V, S.World V → pre.At V → IsReference h s) :
      S.Gives d pre (Convert.convertReference s) (Fact.simple h s) := by
    refine (hs.convertReference rfl rfl).imp fun v V hV hpre hv => ?_
    obtain ⟨u, x, rfl, hh⟩ := hv
    exact .reference (hh (hno V hV hpre))
  unfold Convert.convertGeneric
  dsimp only
  split
  · next name hname =>
    refine (hs.convertUtility? hname rfl).ran.bind fun x => ?_
    cases x with
    | some u => exact .pure fun V _ hu => hu.2.2 u rfl
    | none =>
      refine hrest _ fun V _ hpre => .generic hs.is fun name' hname' => ?_
      obtain ⟨-, ⟨st, -, hst⟩, -⟩ := hpre
      cases hname.symm.trans hname'
      exact ⟨st, hst.symm⟩
  · next hname =>
    refine hrest _ fun V _ _ => .generic hs.is fun name' hname' => ?_
    cases hname.symm.trans hname'

theorem Usable.convertTypeof (hp : S.Usable d p) (hfill : Fills s f p) :
    S.Gives d pre (convertTypeof p) (Fact.composed h s anywhere) := by
  unfold Convert.convertTypeof
  split_ifs with hg
  · refine ((hp.ready.sound hg).child rfl).bind fun u => .pure fun V _ hu => ?_
    exact .wrap (.within True.intro hfill (.part True.intro hu.2)) _
  · exact hp.convertPart.imp fun u V _ _ hu => .part True.intro ⟨p, hfill, hu⟩

/-! ### Optional access -/

/-- An access to a type, made of composed nodes. -/
def isAccess (h : Head) (s : Slots Outcome) (x : Node × Bool) : Fact where
  At V := ∃ a b, x.1 = Target.indexedAccess a b ∧ Composed V h s anywhere a ∧
    Composed V h s anywhere b
  lasts hle := fun ⟨a, b, hx, ha, hb⟩ => ⟨a, b, hx, ha.mono hle, hb.mono hle⟩

theorem Sound.accessStep (hs : S.Sound d .optionalIndexedAccessType h s) :
    S.Gives d pre (accessStep h s) (isAccess h s) := by
  have hbase : S.Usable d (s.child .objectType) := hs.usable_child rfl
  refine (hbase.answers.access pre).ran.bind fun x => (hs.child rfl).bind fun u => .pure ?_
  rintro V - ⟨⟨-, ⟨st, -, hrun⟩, hx⟩, hu⟩
  have hobject : Composed V h s anywhere (baseOf (s.child .objectType) x.1) :=
    .object True.intro (fills_child s .objectType) hx
  refine ⟨if h.flag .isOptional then
    Target.namedReference "NonNullable" [baseOf (s.child .objectType) x.1]
    else baseOf (s.child .objectType) x.1, u, rfl, ?_, .part True.intro hu⟩
  split_ifs with hflag
  · exact .introduced (.link hs.is hflag ⟨st, by rw [hrun]⟩) hobject
  · exact hobject

theorem simple_closeAccess {x : Node × Bool} (hx : (isAccess h s x).At V) :
    Simple V h s (closeAccess x.1 x.2) := by
  obtain ⟨a, b, heq, ha, hb⟩ := hx
  have hsimple : Simple V h s x.1 := by
    rw [heq]
    exact .node (by decide) (by decide) (.one ha (.one hb .nil))
  unfold closeAccess
  split_ifs
  · exact .maybeUndefined hsimple
  · exact hsimple

/-! ### Object types -/

theorem simple_literalOf (hus : ∀ u ∈ us, Composed V h s anywhere u) :
    ∀ u ∈ literalOf us, Simple V h s u := by
  unfold literalOf
  split_ifs
  · exact nofun
  · exact List.forall_mem_singleton.mpr (.node (by decide) (by decide) (.many hus .nil))

theorem gives_convertProperties (h : Head) : ∀ {ps : List Part} {members : List Node} {pre : Fact},
    (∀ V, S.World V → pre.At V → ∀ u ∈ members, Composed V h s anywhere u) →
    (∀ p ∈ ps, Fills s .properties p ∧ S.Admitted d .objectTypeSpreadProperty p) →
    S.Gives d pre (convertProperties members ps) fun x =>
      (Fact.all (Fact.simple h s) x.1).and (Fact.all (Fact.composed h s anywhere) x.2)
  | [], _, _, hmembers, _ => .pure fun V hV hpre => ⟨nofun, hmembers V hV hpre⟩
  | p :: ps, members, pre, hmembers, hps => by
    obtain ⟨⟨hfill, hp⟩, hrest⟩ := List.forall_mem_cons.mp hps
    unfold convertProperties
    split_ifs with ht
    · refine ((hp.ready.sound ht).child (f := .argument) rfl).bind fun u => ?_
      refine (gives_convertProperties h (fun _ _ _ => List.forall_mem_nil _) hrest).bind fun x =>
        .pure ?_
      rintro V hV ⟨⟨hpre, hu⟩, hx⟩
      refine ⟨List.forall_mem_append.mpr ⟨simple_literalOf (hmembers V hV hpre), ?_⟩, hx.2⟩
      exact List.forall_mem_cons.mpr ⟨.wrap (.typeBelow hfill ht (by decide) hu) _, hx.1⟩
    · refine (hp.usable ht).convertPart.bind fun u => gives_convertProperties h ?_ hrest
      rintro V hV ⟨hpre, hu⟩
      refine List.forall_mem_append.mpr ⟨hmembers V hV hpre, ?_⟩
      exact List.forall_mem_singleton.mpr (.part True.intro ⟨p, hfill, hu⟩)

/-- The properties of an object type. -/
theorem Sound.admitted_properties (hs : S.Sound d .objectType h s) :
    ∀ p ∈ s.children .properties,
      Fills s .properties p ∧ S.Admitted d .objectTypeSpreadProperty p := by
  intro p hp
  obtain ⟨slot, hslot, hmem⟩ := Slots.children_mem_slot hp
  exact ⟨fills_children hp, hs.admitted rfl rfl hslot hmem⟩

theorem Sound.convertObject (hs : S.Sound d .objectType h s) :
    S.Gives d pre (convertObject s) (Fact.simple h s) := by
  refine (gives_convertProperties h (fun _ _ _ => List.forall_mem_nil _)
    hs.admitted_properties).bind fun x => ?_
  refine (hs.children rfl).bind fun indexers => (hs.children rfl).bind fun calls => .pure ?_
  rintro V - ⟨⟨⟨-, hx⟩, hindexers⟩, hcalls⟩
  have hmembers : ∀ u ∈ x.2 ++ indexers ++ calls, Composed V h s anywhere u :=
    List.forall_mem_append.mpr ⟨List.forall_mem_append.mpr
      ⟨hx.2, Composed.held True.intro hindexers⟩, Composed.held True.intro hcalls⟩
  refine .intersect (List.forall_mem_append.mpr ⟨hx.1, ?_⟩)
  split_ifs
  · exact List.forall_mem_singleton.mpr (.node (by decide) (by decide) (.many hmembers .nil))
  · exact simple_literalOf hmembers

/-! ### Members -/

theorem Sound.convertProperty? (hs : S.Sound d .objectTypeProperty h s) :
    S.Gives d pre (convertProperty? h s) fun x => Fact.option (Fact.simple h s) x := by
  have hvalue : S.Usable d (s.child .value) := hs.usable_child rfl
  unfold Convert.convertProperty?
  dsimp only
  split
  -- an accessor has the signature of its value
  iterate 2
    · refine (hvalue.ready.signature?_in h (fills_child s .value)).bind fun x => ?_
      cases x with
      | none => exact .pure fun _ _ _ => nofun
      | some sig =>
        refine (hs.child rfl).bind fun key => .pure ?_
        rintro V - ⟨⟨-, hsig⟩, hkey⟩
        exact forall_mem_some (.accessor _ hkey (hsig sig rfl) (by simp))
  · refine (hs.child rfl).bind fun key => ?_
    refine (hvalue.ascribed (F := anywhere) h (fills_child s .value) True.intro).bind
      fun ty => .pure ?_
    rintro V - ⟨⟨-, hkey⟩, hty⟩
    exact forall_mem_some (.node (by decide) (by decide)
      (.one (.part True.intro hkey) (.some hty .nil)))

theorem Sound.convertIndexer (hs : S.Sound d .objectTypeIndexer h s) :
    S.Gives d pre (convertIndexer h s) (Fact.simple h s) := by
  have hrest (name : String) (keyType : Node) (pre : Fact)
      (hk : ∀ V, S.World V → pre.At V → Composed V h s anywhere keyType) : S.Gives d pre (do
      let ty ← ascribed (s.child .value)
      return Target.indexSignature [Target.param name (some (Target.ascribe keyType)) false]
        (some ty) (isReadOnly s) (h.flag .isStatic)) (Fact.simple h s) := by
    refine ((hs.usable_child rfl).ascribed (F := anywhere) h (fills_child s .value)
      True.intro).bind fun ty => .pure ?_
    rintro V hV ⟨hpre, hty⟩
    have hparam : Composed V h s anywhere
        (Target.param name (some (Target.ascribe keyType)) false) :=
      .param (forall_mem_some (hk V hV hpre).ascribe) name false
    exact .node (by decide) (by decide) (.many (List.forall_mem_singleton.mpr hparam)
      (.some hty .nil))
  unfold Convert.convertIndexer
  dsimp only
  split_ifs
  · exact hrest _ _ _ fun _ _ _ => .leaf (by decide)
  · exact (hs.usable_child rfl).convertPart.bind fun u => hrest _ _ _ fun V _ hu =>
      .part True.intro ⟨_, fills_child s .key, hu.2⟩

/-- The rules of a construct that place the signature of a part. -/
theorem gives_place {g : Signature → Node} {step : Pass (Option Signature)}
    (hstep : S.Gives d pre step fun x => Fact.option (Fact.signature h s) x)
    (hg : ∀ sig V, SignatureOf V h s sig → Simple V h s (g sig)) :
    S.Gives d pre (do
      match ← step with
      | none => return none
      | some sig => return some (g sig)) fun x => Fact.option (Fact.simple h s) x := by
  refine hstep.bind fun x => ?_
  cases x with
  | none => exact .pure fun _ _ _ => nofun
  | some sig => exact .pure fun V _ hsig => forall_mem_some (hg sig V (hsig.2 sig rfl))

theorem Sound.convertCall? (hs : S.Sound d .objectTypeCallProperty h s) :
    S.Gives d pre (convertCall? s) fun x => Fact.option (Fact.simple h s) x :=
  gives_place ((hs.usable_child rfl).ready.signature?_in h (fills_child s .value))
    fun _ _ hsig => .callSignature hsig

theorem Sound.convertFunction? (hs : S.Sound d .functionType p.head p.slots) :
    S.Gives d pre (convertFunction? p) fun x => Fact.option (Fact.simple p.head p.slots) x :=
  gives_place hs.signature? fun _ _ hsig => .functionType hsig

theorem Usable.convertParent (hp : S.Usable d p) (hfill : Fills s f p) :
    S.Gives d pre (convertParent p) (Fact.composed h s anywhere) := by
  unfold Convert.convertParent
  split_ifs with ht
  · refine ((hp.ready.sound ht).convertReference rfl rfl).bind fun v => .pure ?_
    rintro V - ⟨-, u, x, rfl, hh⟩
    have hreference : Composed V p.head p.slots anywhere (Target.typeReference u x) :=
      .reference (hh (.parent ht))
    exact .within True.intro hfill (hreference.atOrigin (by decide) _)
  · exact hp.convertPart.imp fun u V _ _ hu => .part True.intro ⟨p, hfill, hu⟩

theorem Sound.convertInterfaceType (hs : S.Sound d .interfaceType h s) :
    S.Gives d pre (convertInterfaceType s) (Fact.simple h s) := by
  refine (Logic.Gives.mapM (R := Fact.composed h s anywhere) fun c hc _ =>
    (hs.usable_children rfl c hc).convertParent (fills_children hc)).bind fun us => ?_
  refine (hs.child rfl).bind fun u => .pure ?_
  rintro V - ⟨⟨-, hus⟩, hu⟩
  cases us with
  | nil => exact .type hs.is (by decide) hu
  | cons v vs =>
    have heq : intersect (v :: vs ++ [u]) = Target.intersection (v :: vs ++ [u]) := by
      cases vs <;> rfl
    rw [heq]
    refine .node (by decide) (by decide) (.many (List.forall_mem_append.mpr ⟨hus, ?_⟩) .nil)
    exact List.forall_mem_singleton.mpr (.part True.intro hu)

/-! ### Casts -/

theorem Sound.convertCast (hs : S.Sound d .typeCastExpression h s) :
    S.Gives d pre (convertCast s) (Fact.simple h s) := by
  refine ((hs.usable_child rfl).bareType (F := anywhere) h (fills_child s .ty)
    True.intro).bind fun ty => ?_
  refine (hs.child rfl).bind fun e => .pure ?_
  rintro V - ⟨⟨-, hty⟩, he⟩
  have he : Composed V h s anywhere e := .part True.intro he
  split_ifs with hany
  · exact .cast he hty (Bool.or_eq_true_iff.mp hany)
  · exact .cast (.cast he .any (.inl rfl)) hty (.inr rfl)

end Survey

end Typeshift.Convert
