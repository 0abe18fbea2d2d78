import Typeshift.Proofs.Convert.Rules

/-! # The walk over a source tree

The rules for declarations, for chains and for what both vocabularies have are gone through as those
for types are. Every construct has its rule, so all answers of a source tree are known.

* `Sound.convertNode`: what the rule of a construct makes.
* `ready_annotate`: the parts of a source tree are ready. -/

namespace Typeshift.Convert

open Ambient (openers depthAt declareTags)

variable {V : View} {d : Nat} {t : Tag} {h : Head} {s : Slots Outcome} {f : Field}
  {F : Field → Prop}
  {u v : Node} {us : List Node} {p c : Part} {ps : List Part} {pre : Fact}

namespace Survey

variable {S : Survey}

/-! ### Declarations -/

section Declarations

theorem isAny_eq_false {ts : List Tag} (ht : h.tag? = some t) (hts : t ∉ ts) :
    h.isAny ts = false := by
  refine List.any_eq_false.mpr fun k hk hi => hts ?_
  cases ht.symm.trans (beq_iff_eq.mp hi)
  exact hk

/-- A declaration says that it is ambient if the source does and nothing around it does. -/
theorem declare_eq (hs : S.Sound d t h s) {b : Bool}
    (hb : b = if t ∈ declareTags then d == 0 else false) : b = (h.isAny declareTags && d == 0) := by
  rw [hb]
  split_ifs with ht
  · rw [hs.isAny ht, Bool.true_and]
  · rw [isAny_eq_false hs.tag ht, Bool.false_and]

theorem Sound.convertTypeAlias {k : Field} {b : Bool} (hs : S.Sound d t h s)
    (ht : t ∈ [.typeAlias, .opaqueType, .declareTypeAlias, .declareOpaqueType])
    (hid : needs t .id = true) (hparams : asks t .typeParameters = true) (hk : needs t k = true)
    (hmem : k ∈ declarationFields)
    (hb : ∀ V, S.World V → pre.At V → b = if t ∈ declareTags then d == 0 else false) :
    S.Gives d pre (convertTypeAlias s k b) (Fact.made d h s) := by
  refine (hs.child hid).bind fun id => (hs.child? hparams).bind fun x => ?_
  refine (hs.child hk).bind fun ty => .pure ?_
  rintro V hV ⟨⟨⟨hpre, hid⟩, hx⟩, hty⟩
  have hb := declare_eq hs (hb V hV hpre)
  subst hb
  exact .typeAlias hs.is ht hid hx (.part hmem hty)

theorem Sound.convertOpaque (hs : S.Sound d .declareOpaqueType h s) :
    S.Gives d pre (convertOpaque s) (Fact.made d h s) := by
  have hrest (ty : Node) (pre : Fact)
      (hty : ∀ V, S.World V → pre.At V → Composed V h s (· ∈ declarationFields) ty) :
      S.Gives d pre (do
        let id ← Convert.child s .id
        let typeParameters ← Convert.child? s .typeParameters
        return Target.typeAlias id typeParameters ty (← declares)) (Fact.made d h s) := by
    refine (hs.child rfl).bind fun id => (hs.child? rfl).bind fun x => ?_
    refine S.declares.bind fun b => .pure ?_
    rintro V hV ⟨⟨⟨hpre, hid⟩, hx⟩, hb, -⟩
    rw [declare_eq hs hb]
    exact .typeAlias hs.is (by decide) hid hx (hty V hV hpre)
  unfold Convert.convertOpaque
  dsimp only
  split
  · next c hc =>
    obtain ⟨k, hk, hmem, hasks⟩ : ∃ k, s.child? k = some c ∧ k ∈ declarationFields ∧
        asks .declareOpaqueType k = true := by
      cases hi : s.child? .impltype with
      | none =>
        rw [hi] at hc
        exact ⟨_, hc, by decide, rfl⟩
      | some u =>
        rw [hi] at hc
        exact ⟨_, hi.trans hc, by decide, rfl⟩
    refine (hs.usable_child? hasks c hk).convertPart.bind fun ty => hrest ty _ ?_
    exact fun V _ hty => .part hmem ⟨c, fills_child? hk, hty.2⟩
  · exact hrest _ _ fun _ _ _ => .any

theorem Sound.convertUnsplit (hs : S.Sound d t h s) (ht : t ∈ unsplitTags)
    (hbody : (s.child .body).head.is .objectType = true) :
    ∀ {ps : List Part} {pre : Fact}, (∀ p ∈ ps, p ∈ (s.child .body).slots.children .properties) →
    (∀ p ∈ ps, Fills (s.child .body).slots .properties p ∧
      S.Admitted d .objectTypeSpreadProperty p) →
    S.Gives d pre (Convert.convertUnsplit ps) (Fact.all (Fact.composed h s (· ∈ declarationFields)))
  | [], _, _, _ => .pure fun _ _ _ => nofun
  | p :: ps, _, hmem, hps => by
    obtain ⟨⟨hfill, hp⟩, hrest⟩ := List.forall_mem_cons.mp hps
    obtain ⟨hin, hmem⟩ := List.forall_mem_cons.mp hmem
    unfold Convert.convertUnsplit
    split_ifs with hspread
    · refine (S.drop hs.stems (hs.isAny ht) hbody hin ?_).bind fun _ =>
        hs.convertUnsplit ht hbody hmem hrest
      unfold Head.is
      rw [beq_iff_eq.mp hspread]
      rfl
    · refine (hp.usable hspread).convertPart.bind fun u => ?_
      refine (hs.convertUnsplit ht hbody hmem hrest).bind fun us => .pure ?_
      rintro V - ⟨⟨-, hu⟩, hus⟩
      refine List.forall_mem_cons.mpr ⟨.within (by decide) (fills_child s .body) ?_, hus⟩
      exact .part True.intro ⟨p, hfill, hu⟩

theorem Sound.convertMembers (hs : S.Sound d t h s) (ht : t ∈ unsplitTags)
    (hneeds : needs t .body = true) :
    S.Gives d pre (convertMembers (s.child .body))
      (Fact.all (Fact.composed h s (· ∈ declarationFields))) := by
  have hbody : S.Usable d (s.child .body) := hs.usable_child hneeds
  unfold Convert.convertMembers
  split_ifs with ho
  · have ho' := hbody.ready.sound ho
    refine (hs.convertUnsplit ht ho (fun _ hp => hp) ho'.admitted_properties).bind fun us => ?_
    refine (ho'.children rfl).bind fun indexers => (ho'.children rfl).bind fun calls => .pure ?_
    rintro V - ⟨⟨⟨-, hus⟩, hindexers⟩, hcalls⟩
    have hwithin {f : Field} {vs : List Node} (hvs : ∀ v ∈ vs, Held V (s.child .body).slots f v) :
        ∀ v ∈ vs, Composed V h s (· ∈ declarationFields) v := fun v hv =>
      .within (by decide) (fills_child s .body) (.part True.intro (hvs v hv))
    exact List.forall_mem_append.mpr
      ⟨List.forall_mem_append.mpr ⟨hus, hwithin hindexers⟩, hwithin hcalls⟩
  · refine hbody.convertPart.bind fun v => .pure ?_
    rintro V - ⟨-, hv⟩ u hu
    exact .taken (f := .body) (by decide) ⟨_, fills_child s .body, hv⟩ hu

theorem Sound.convertInterface {b : Bool} (hs : S.Sound d t h s)
    (ht : t ∈ [.interfaceDeclaration, .declareInterface])
    (hneeds : needs t .body = true ∧ needs t .id = true)
    (hasks : asks t .typeParameters = true ∧ asks t .heritage = true)
    (hb : ∀ V, S.World V → pre.At V → b = if t ∈ declareTags then d == 0 else false) :
    S.Gives d pre (convertInterface s b) (Fact.made d h s) := by
  have hunsplit : t ∈ unsplitTags := by
    rcases List.mem_cons.mp ht with rfl | ht
    · decide
    · rw [List.mem_singleton.mp ht]
      decide
  refine (hs.convertMembers hunsplit hneeds.1).bind fun us => ?_
  refine (hs.child hneeds.2).bind fun id => (hs.child? hasks.1).bind fun x => ?_
  refine (hs.children hasks.2).bind fun parents => .pure ?_
  rintro V hV ⟨⟨⟨⟨hpre, hus⟩, hid⟩, hx⟩, hparents⟩
  rw [declare_eq hs (hb V hV hpre)]
  exact .interfaceDeclaration hs.is ht hid hx hparents hus

theorem Sound.convertVariable (hs : S.Sound d .declareVariable h s) :
    S.Gives d pre (convertVariable s) (Fact.made d h s) := by
  refine (hs.child rfl).bind fun id => S.declares.bind fun b => .pure ?_
  rintro V - ⟨⟨-, hid⟩, hb, -⟩
  rw [hb]
  exact .declaredVariable hs.is hid

theorem Sound.convertDeclaredFunction? (hs : S.Sound d .declareFunction h s) :
    S.Gives d pre (convertDeclaredFunction? s) fun x => Fact.option (Fact.made d h s) x := by
  unfold Convert.convertDeclaredFunction?
  dsimp only
  split
  · next name ty hname hty =>
    have hident : (s.child .id).head.is .identifier = true :=
      beq_iff_eq.mpr (Head.tag?_of_identifier? hname)
    have hid := (hs.usable_child (f := .id) rfl).ready.sound hident
    have husable := hid.usable_child? (f := .ty) rfl ty hty
    have hsig : S.Gives d pre
        (Convert.signature? (if ty.head.is .ascription then ty.slots.child .ty else ty))
        fun x => Fact.option (Fact.signature h s) x := by
      have hin {u : Part} (hu : S.Ready d u) {k : Head} {s' : Slots Outcome} {f : Field}
          (hfill : Fills s' f u) (hup : ∀ V sig, SignatureOf V k s' sig → SignatureOf V h s sig) :
          S.Gives d pre (Convert.signature? u) fun x => Fact.option (Fact.signature h s) x :=
        (hu.signature?_in k hfill).imp fun x V _ _ hx sig hsig => hup V sig (hx sig hsig)
      have hfill := fills_child? hty
      split_ifs with ha
      · refine hin (k := ty.head) ((husable.ready.sound ha).usable_child rfl).ready
          (fills_child ty.slots .ty) fun V sig hsig => ?_
        exact .part (fills_child s .id) (.part hfill hsig)
      · exact hin (k := (s.child .id).head) husable.ready hfill fun V sig hsig =>
          .part (fills_child s .id) hsig
    refine hsig.bind fun x => ?_
    cases x with
    | none => exact .pure fun _ _ _ => nofun
    | some sig =>
      refine S.declares.bind fun b => .pure ?_
      rintro V - ⟨⟨-, hsig⟩, hb, -⟩
      rw [hb]
      exact forall_mem_some (.declaredFunction hs.is (hsig sig rfl))
  · exact .pure fun _ _ _ => nofun

/-! ### Classes -/

theorem Sound.methodSignature? (hs : S.Sound d .objectTypeProperty h s) :
    S.Gives d pre (methodSignature? h s) fun x =>
      Fact.option (fun y => Fact.signature h s y.2) x := by
  unfold Convert.methodSignature?
  split
  · exact .pure fun _ _ _ => nofun
  · refine ((hs.usable_child rfl).ready.signature?_in h (fills_child s .value)).bind fun x =>
      .pure ?_
    rintro V - ⟨-, hx⟩ y hy
    obtain ⟨sig, hsig, rfl⟩ := Option.map_eq_some_iff.mp hy
    exact hx sig hsig

theorem Sound.convertClassMember (hs : S.Sound d .objectTypeProperty p.head p.slots) :
    S.Gives d pre (convertClassMember p) (Fact.member p.head p.slots) := by
  refine hs.methodSignature?.bind fun x => ?_
  rcases x with _ | ⟨kind, sig⟩
  · refine (hs.child rfl).bind fun key => ?_
    refine ((hs.usable_child rfl).ascribed (F := anywhere) p.head (fills_child p.slots .value)
      True.intro).bind fun ty => .pure ?_
    rintro V - ⟨⟨-, hkey⟩, hty⟩
    refine .plain (Composed.atOrigin (.node (by decide) ?_) (by decide) _)
    exact .many nofun (.one (.part True.intro hkey) (.some hty (.none .nil)))
  · refine (hs.child rfl).bind fun key => .pure ?_
    rintro V - ⟨⟨-, hsig⟩, hkey⟩
    refine .method _ _ hkey (hsig _ rfl) ?_
    split_ifs
    · exact .inl rfl
    · exact .inr rfl

theorem Sound.convertClassProperties (hs : S.Sound d .declareClass h s)
    (hbody : (s.child .body).head.is .objectType = true) :
    ∀ {ps : List Part} {pre : Fact}, (∀ p ∈ ps, p ∈ (s.child .body).slots.children .properties) →
    (∀ p ∈ ps, Fills (s.child .body).slots .properties p ∧
      S.Admitted d .objectTypeSpreadProperty p) →
    S.Gives d pre (Convert.convertClassProperties ps)
      (Fact.all (Fact.member (s.child .body).head (s.child .body).slots))
  | [], _, _, _ => .pure fun _ _ _ => nofun
  | p :: ps, _, hmem, hps => by
    obtain ⟨⟨hfill, hp⟩, hrest⟩ := List.forall_mem_cons.mp hps
    obtain ⟨hin, hmem⟩ := List.forall_mem_cons.mp hmem
    unfold Convert.convertClassProperties
    split_ifs with hproperty
    · refine (hp.ready.sound hproperty).convertClassMember.bind fun u => ?_
      refine (hs.convertClassProperties hbody hmem hrest).bind fun us => .pure ?_
      rintro V - ⟨⟨-, hu⟩, hus⟩
      exact List.forall_mem_cons.mpr ⟨.part hfill hu, hus⟩
    · exact (S.drop hs.stems (hs.isAny (by decide)) hbody hin
        (Bool.not_eq_true _ |>.mp hproperty)).bind fun _ =>
          hs.convertClassProperties hbody hmem hrest

theorem Sound.convertClassMembers (hs : S.Sound d .declareClass h s) (name : String) :
    S.Gives d pre (convertClassMembers name (s.child .body))
      (Fact.all (Fact.member (s.child .body).head (s.child .body).slots)) := by
  unfold Convert.convertClassMembers
  split_ifs with ho
  · exact .pure fun _ _ _ => nofun
  · have ho : (s.child .body).head.is .objectType = true := by simpa using ho
    have ho' := (hs.usable_child (f := .body) rfl).ready.sound ho
    refine (hs.convertClassProperties ho (fun _ hp => hp) ho'.admitted_properties).bind fun us => ?_
    refine (ho'.children rfl).bind fun indexers => ?_
    refine (Logic.Gives.forIn (fun c _ => ?_) _).bind fun _ => .pure ?_
    · exact (S.report _ _ (by decide)).bind fun _ => .pure fun _ _ _ => True.intro
    · rintro V - ⟨⟨⟨-, hus⟩, hindexers⟩, -⟩
      exact List.forall_mem_append.mpr ⟨hus, fun u hu => .plain (.part True.intro (hindexers u hu))⟩

theorem gives_reportDropped (name : String) (parents mixins : List Part) :
    S.Gives d pre (reportDropped name parents mixins) fun _ => Fact.none := by
  have hdropped (kind : String) (p : Part) (pre : Fact) : S.Gives d pre (do
      Convert.report .classHeritageDropped p.head [kind, parentName p, name]
      return ForInStep.yield PUnit.unit) fun _ => Fact.none :=
    (S.report _ _ (by decide)).bind fun _ => .pure fun _ _ _ => True.intro
  refine (Logic.Gives.forIn (hdropped "Extended class") _).bind fun _ => ?_
  exact (Logic.Gives.forIn (hdropped "Mixin") _).bind fun _ => .pure fun _ _ _ => True.intro

theorem Sound.convertClass (hs : S.Sound d .declareClass h s) :
    S.Gives d pre (convertClass s) (Fact.made d h s) := by
  unfold Convert.convertClass
  refine (gives_reportDropped _ _ _).bind fun _ => ?_
  extract_lets body rest
  have hrest (x : Option Node × Option Node) (pre : Fact)
      (hx : ∀ V, S.World V → pre.At V → (∀ u ∈ x.1, Composed V h s (· ∈ declarationFields) u) ∧
        ∀ u ∈ x.2, Composed V h s (· ∈ declarationFields) u) :
      S.Gives d pre (rest x) (Fact.made d h s) := by
    refine (hs.convertClassMembers _).bind fun members => ?_
    refine (hs.child rfl).bind fun id => (hs.child? rfl).bind fun ps => ?_
    refine (hs.children rfl).bind fun contracts => S.declares.bind fun b => .pure ?_
    rintro V hV ⟨⟨⟨⟨⟨hpre, hmembers⟩, hid⟩, hps⟩, hcontracts⟩, hb, -⟩
    obtain ⟨hsuper, hsuperParams⟩ := hx V hV hpre
    rw [hb]
    exact .classDeclaration hs.is hid hsuper hsuperParams hps hcontracts fun u hu =>
      ⟨_, fills_child s .body, hmembers u hu⟩
  split
  · next c hc =>
    have hmem := List.mem_of_mem_head? hc
    have hfill : Fills s .heritage c := fills_children hmem
    split_ifs with ht
    · have hparent := (hs.usable_children rfl c hmem).ready.sound ht
      refine ((hparent.usable_child rfl).answers.entity _).bind fun e => ?_
      refine (hparent.child? rfl).bind fun x => hrest (some e, x) _ ?_
      rintro V - ⟨⟨-, he⟩, hx⟩
      refine ⟨forall_mem_some ?_, fun u hu => ?_⟩
      · exact .within (by decide) hfill (.entity True.intro (fills_child c.slots .id) he)
      · exact .within (by decide) hfill (.part True.intro (hx u hu))
    · exact hrest (none, none) _ fun _ _ _ => ⟨nofun, nofun⟩
  · exact hrest (none, none) _ fun _ _ _ => ⟨nofun, nofun⟩

/-- The name of a type as an expression. -/
def isEntity (h : Head) (s : Slots Outcome) (v : Node) : Fact where
  At V := ∃ a b, v = (Target.member a b false).withSpan h.span ∧ Composed V h s anywhere a ∧
    Composed V h s anywhere b
  lasts hle := fun ⟨a, b, hv, ha, hb⟩ => ⟨a, b, hv, ha.mono hle, hb.mono hle⟩

theorem Sound.entityStep (hs : S.Sound d .qualifiedTypeIdentifier h s) :
    S.Gives d pre (entityStep h s) (isEntity h s) := by
  refine ((hs.usable_child rfl).answers.entity _).bind fun a => ?_
  refine (hs.child rfl).bind fun b => .pure ?_
  rintro V - ⟨⟨-, ha⟩, hb⟩
  exact ⟨a, b, rfl, .entity True.intro (fills_child s .qualification) ha, .part True.intro hb⟩

/-! ### Modules and exports -/

theorem Sound.convertModuleExports (hs : S.Sound d .declareModuleExports h s) :
    S.Gives d pre (convertModuleExports h s) (Fact.all (Fact.exported (asPart h s))) := by
  have hmade : S.Gives d pre (Convert.convertModuleExports h s)
    (Fact.all (Fact.ofExported d h s)) := by
    refine S.exports.bind fun name => (hs.child rfl).bind fun ty =>
      S.declares.bind fun b => .pure ?_
    rintro V - ⟨⟨⟨-, hname⟩, hty⟩, hb, -⟩
    rw [hb]
    exact List.forall_mem_cons.mpr ⟨.constant hname hty,
      List.forall_mem_singleton.mpr (.assignment hname)⟩
  refine hmade.ran.imp fun us V hV _ hus u hu => ?_
  obtain ⟨⟨st, hd, rfl⟩, hus⟩ := hus
  exact S.exported hs.stems hs.is hV hd hu (hus u hu)

theorem gives_convertStatements : ∀ {ps : List Part} {pre : Fact},
    (∀ p ∈ ps, S.Admitted d .declareModuleExports p) →
    S.Gives d pre (convertStatements ps) (Fact.all (Fact.becomes ps))
  | [], _, _ => .pure fun _ _ _ => nofun
  | p :: ps, _, hps => by
    obtain ⟨hp, hrest⟩ := List.forall_mem_cons.mp hps
    have hnext (us : List Node) (V : View) (hus : (Fact.all (Fact.becomes ps) us).At V) :
        (Fact.all (Fact.becomes (p :: ps)) us).At V := by
      intro u hu
      obtain ⟨c, hc, hbecomes⟩ := hus u hu
      exact ⟨c, List.mem_cons_of_mem p hc, hbecomes⟩
    unfold convertStatements
    split_ifs with he
    · refine (hp.ready.sound he).convertModuleExports.bind fun us => ?_
      refine (gives_convertStatements hrest).bind fun vs => .pure ?_
      rintro V - ⟨⟨-, hus⟩, hvs⟩
      refine List.forall_mem_append.mpr
        ⟨fun u hu => ⟨p, List.mem_cons_self, .inr ?_⟩, hnext vs V hvs⟩
      rw [hp.ready.eq_asPart he]
      exact hus u hu
    · refine (hp.usable he).convertPart.bind fun u => ?_
      refine (gives_convertStatements hrest).bind fun us => .pure ?_
      rintro V - ⟨⟨-, hu⟩, hus⟩
      exact List.forall_mem_cons.mpr ⟨⟨p, List.mem_cons_self, .inl hu⟩, hnext us V hus⟩

/-- The statements of the body of a module. -/
theorem Admitted.statements (hbody : S.Admitted d .blockStatement (s.child .body)) :
    ∀ p ∈ moduleStatements s, S.Admitted d .declareModuleExports p := by
  unfold moduleStatements
  split_ifs with hb
  · intro p hp
    obtain ⟨slot, hslot, hmem⟩ := Slots.children_mem_slot hp
    exact (hbody.ready.sound hb).admitted rfl rfl hslot hmem
  · exact List.forall_mem_singleton.mpr ((hbody.usable hb).admitted _)

/-- The body of a module stands inside of an ambient context. -/
theorem Sound.admitted_body (hs : S.Sound d .declareModule h s) :
    S.Admitted (d + 1) .blockStatement (s.child .body) := by
  rcases hs.child_mem (f := .body) (by decide) with ⟨hlenient, heq⟩ | ⟨slot, hslot, hmem⟩
  · rw [heq]
    exact (Usable.vacant hlenient).admitted _
  · have hready := hs.parts _ _ hslot _ hmem
    rw [Ambient.depthAt_module hs.tag, if_pos rfl] at hready
    refine ⟨hready, fun hb => S.speaks hs.stems hs.tag hslot hmem ?_⟩
    exact List.forall_mem_singleton.mpr hb

theorem Sound.convertModule (hs : S.Sound d .declareModule h s) :
    S.Gives d pre (convertModule s) (Fact.made d h s) := by
  have hid : S.Usable d (s.child .id) := by
    rcases hs.child_mem (f := .id) (by decide) with ⟨hlenient, heq⟩ | ⟨slot, hslot, hmem⟩
    · rw [heq]
      exact .vacant hlenient
    · have hready := hs.parts _ _ hslot _ hmem
      rw [Ambient.depthAt_module hs.tag, if_neg (by decide)] at hready
      exact ⟨hready, S.speaks hs.stems hs.tag hslot hmem nofun⟩
  refine S.declares.bind fun b => ?_
  refine (S.inAmbient fun _ => gives_convertStatements hs.admitted_body.statements).bind
    fun us => ?_
  refine hid.convertPart.bind fun v => .pure ?_
  rintro V - ⟨⟨⟨-, hb, -⟩, hus⟩, hv⟩
  rw [hb]
  exact .declaredModule hs.is ⟨_, fills_child s .id, hv⟩ hus

/-- What a declared export holds stands inside of an ambient context if it is the default. -/
theorem Sound.usable_export (hs : S.Sound d .declareExportDeclaration h s)
    (hg : guests .declareExportDeclaration f = []) {slot : Slot Part} (hslot : (f, slot) ∈ s)
    (hc : c ∈ slot.toList) : S.Usable (if h.flag .default then d + 1 else d) c := by
  rw [← Ambient.depthAt_export hs.tag d f]
  refine ⟨hs.parts _ _ hslot c hc, S.speaks hs.stems hs.tag hslot hc ?_⟩
  rw [hg]
  exact nofun

theorem Sound.convertExport? (hs : S.Sound d .declareExportDeclaration h s) :
    S.Gives d pre (convertExport? h s) fun x => Fact.option (Fact.simple h s) x := by
  have hchild? (f : Field) (hg : guests .declareExportDeclaration f = []) (c : Part)
      (hc : c ∈ s.child? f) : S.Usable (if h.flag .default then d + 1 else d) c := by
    obtain ⟨slot, hslot, hmem⟩ := Slots.child?_mem_slot hc
    exact hs.usable_export hg hslot hmem
  unfold Convert.convertExport?
  split_ifs with hdefault
  · split
    · next c hc =>
      split_ifs
      · have hc' := hchild? _ rfl c hc
        rw [if_pos hdefault] at hc'
        refine (S.inAmbient fun _ => hc'.convertPart).bind fun u => .pure ?_
        rintro V - ⟨-, hu⟩
        exact forall_mem_some (.exportDefault hs.is ⟨c, fills_child? hc, hu⟩)
      · exact .pure fun _ _ _ => nofun
    · exact .pure fun _ _ _ => nofun
  · simp only [hdefault, Bool.false_eq_true, if_false] at hchild?
    have hask (f : Field) (hg : guests .declareExportDeclaration f = []) (pre : Fact) :
        S.Gives d pre (Convert.child? s f) fun x => Fact.option (Fact.held s f) x := by
      unfold Convert.child? convertOption
      split
      · exact .pure fun _ _ _ => nofun
      · next c hc =>
        refine (hchild? f hg c hc).convertPart.bind fun u => .pure fun V _ hu => ?_
        exact forall_mem_some ⟨c, fills_child? hc, hu.2⟩
    have hspecifiers (pre : Fact) :
        S.Gives d pre (Convert.children s .specifiers) (Fact.all (Fact.held s .specifiers)) := by
      refine .mapM fun c hc _ => ?_
      obtain ⟨slot, hslot, hmem⟩ := Slots.children_mem_slot hc
      have hc' := hs.usable_export rfl hslot hmem
      rw [if_neg hdefault] at hc'
      exact hc'.convertPart.imp fun _ _ _ _ hu => ⟨c, fills_children hc, hu⟩
    refine (hask .declaration rfl _).bind fun x => (hspecifiers _).bind fun us => ?_
    refine (hask .source rfl _).bind fun y => .pure ?_
    rintro V - ⟨⟨⟨-, hx⟩, hus⟩, hy⟩
    exact forall_mem_some (.exportNamed hs.is hx (Composed.held True.intro hus)
      (Composed.held? True.intro hy))

end Declarations

/-! ### Chains -/

section Chains

/-- Both expressions that a value is bound to are composed. -/
def bound (h : Head) (s : Slots Outcome) (x : Node × Node) : Fact :=
  (Fact.composed h s anywhere x.1).and (Fact.composed h s anywhere x.2)

theorem Sound.bind (hs : S.Sound d t h s) (ht : t ∈ links)
    (hv : ∀ V, S.World V → pre.At V → Composed V h s anywhere v) :
    S.Gives d pre (Convert.bind v) (bound h s) := by
  refine (S.temporary hs.stems (hs.isAny ht)).bind fun name => .pure ?_
  rintro V hV ⟨hpre, hname⟩
  exact ⟨.assign hname (hv V hV hpre), .ident name⟩

/-- A value that is guarded is bound to temporaries if it has effects. -/
theorem Sound.bindGuarded (hs : S.Sound d t h s) (ht : t ∈ links) (isCallee : Bool)
    {x : Node × Option Node} (hfill : Fills s f p)
    (hx : ∀ V, S.World V → pre.At V → V.chain p x) :
    S.Gives d pre (bindGuarded x.1 isCallee) (bound h s) := by
  have hvalue (V : View) (hV : S.World V) (hpre : pre.At V) : Composed V h s anywhere x.1 :=
    .value True.intro hfill (hx V hV hpre)
  unfold Convert.bindGuarded
  split_ifs with heffects hm
  · exact .pure fun V hV hpre => ⟨hvalue V hV hpre, hvalue V hV hpre⟩
  · have hm : x.1.head.is .memberExpression = true := (Bool.and_eq_true_iff.mp hm).2
    have hpiece {k : Field} (hk : k ∈ [Field.object, .property]) (V : View) (hV : S.World V)
        (hpre : pre.At V) : Composed V h s anywhere (x.1.slots.child k) :=
      .piece True.intro hfill (hx V hV hpre) hm hk
    have hrest (a b : Node × Node) (pre : Fact) (isComputed : Bool)
        (ha : ∀ V, S.World V → pre.At V → (bound h s a).At V)
        (hb : ∀ V, S.World V → pre.At V → (bound h s b).At V) : S.Gives d pre (Pure.pure
          ((Target.member a.1 b.1 isComputed).withSpan x.1.head.span,
            Target.member a.2 b.2 isComputed)) (bound h s) := by
      refine .pure fun V hV hpre => ?_
      obtain ⟨ha₁, ha₂⟩ := ha V hV hpre
      obtain ⟨hb₁, hb₂⟩ := hb V hV hpre
      have hplain : ∀ t ∈ some Tag.memberExpression, t ∉ Ambient.declarationTags := by decide
      exact ⟨.dress (.member ha₁ hb₁ isComputed) hplain (by simp), .member ha₂ hb₂ isComputed⟩
    refine (hs.bind ht (hpiece (by decide))).bind fun a => ?_
    dsimp only
    split_ifs
    · have hkey : S.Gives d (pre.and (bound h s a)) (Convert.bind (x.1.slots.child .property))
          (bound h s) := hs.bind ht fun V hV hpre => hpiece (by decide) V hV hpre.1
      refine hkey.bind fun b => hrest a b _ _ (fun V _ hpre => hpre.1.2) fun V _ hpre => hpre.2
    · refine hrest a (_, _) _ _ (fun V _ hpre => hpre.2) fun V hV hpre => ?_
      exact ⟨hpiece (by decide) V hV hpre.1, hpiece (by decide) V hV hpre.1⟩
  · exact hs.bind ht hvalue

theorem Sound.applyLink (hs : S.Sound d t h s) (ht : t ∈ links)
    (hv : ∀ V, S.World V → pre.At V → Composed V h s anywhere v) :
    S.Gives d pre (applyLink h s v) (Fact.simple h s) := by
  unfold Convert.applyLink
  split_ifs with hcall
  · obtain ⟨harguments, htypes⟩ :
        asks t .arguments = true ∧ asks t .typeArguments = true := by
      rcases List.mem_cons.mp ht with rfl | ht
      · exact ⟨rfl, rfl⟩
      · rw [List.mem_singleton.mp ht]
        exact ⟨rfl, rfl⟩
    refine (hs.children harguments).bind fun us => (hs.child? htypes).bind fun x => .pure ?_
    rintro V hV ⟨⟨hpre, hus⟩, hx⟩
    refine .dress (u := Target.call v us x) (.node (by decide) (by decide) ?_)
      (by rintro _ ⟨⟩; decide) (by simp)
    exact .one (hv V hV hpre) (.maybe (Composed.held? True.intro hx)
      (.many (Composed.held True.intro hus) .nil))
  · have htag : t = .optionalMemberExpression := by
      rcases List.mem_cons.mp ht with rfl | ht
      · rfl
      · rw [List.mem_singleton.mp ht] at hs
        exact absurd hs.is hcall
    subst htag
    refine (hs.child rfl).bind fun u => .pure ?_
    rintro V hV ⟨hpre, hu⟩
    exact .dress (.member (hv V hV hpre) (.part True.intro hu) (h.flag .isComputed))
      (by rintro _ ⟨⟩; decide) (by simp)

/-- The value of a chain and its guard. -/
def linked (h : Head) (s : Slots Outcome) (x : Node × Option Node) : Fact :=
  (Fact.simple h s x.1).and (Fact.option (Fact.composed h s anywhere) x.2)

theorem Sound.chainStep (hs : S.Sound d t h s) (ht : t ∈ links) :
    S.Gives d pre (chainStep h s) (linked h s) := by
  have hstep (k : Field) (hneeds : needs t k = true) : S.Gives d pre (do
      let x ← (s.child k).note.chain
      if h.flag .isOptional then
        let y ← Convert.bindGuarded x.1 (h.is .optionalCallExpression)
        return (← Convert.applyLink h s y.2, some (extendGuard x.2 y.1))
      else return (← Convert.applyLink h s x.1, x.2)) (linked h s) := by
    have hfill := fills_child s k
    refine ((hs.usable_child hneeds).answers.chain _).bind fun x => ?_
    have hguarded : S.Gives d (pre.and (Fact.chain (s.child k) x))
        (Convert.bindGuarded x.1 (h.is .optionalCallExpression)) (bound h s) :=
      hs.bindGuarded ht _ hfill fun V _ hpre => hpre.2
    split_ifs
    · refine hguarded.bind fun y => Logic.Gives.bind (hs.applyLink ht ?_) fun u => .pure ?_
      · exact fun V _ hpre => hpre.2.2
      rintro V - ⟨⟨⟨-, hx⟩, hy⟩, hu⟩
      refine ⟨hu, forall_mem_some ?_⟩
      unfold extendGuard
      split
      · next g hg => exact .both (.guard True.intro hfill hx hg) hy.1
      · exact hy.1
    · refine Logic.Gives.bind (hs.applyLink ht ?_) fun u => .pure ?_
      · exact fun V _ hpre => .value True.intro hfill hpre.2
      rintro V - ⟨⟨-, hx⟩, hu⟩
      exact ⟨hu, fun g hg => .guard True.intro hfill hx hg⟩
  refine hstep _ ?_
  unfold Head.is
  rw [hs.tag]
  rcases List.mem_cons.mp ht with rfl | ht
  · rfl
  · rw [List.mem_singleton.mp ht]
    rfl

theorem simple_closeChain {x : Node × Option Node} (hx : (linked h s x).At V) :
    Simple V h s (closeChain x.1 x.2) := by
  unfold closeChain
  split
  · next g hg => exact .guarded (hx.2 g hg) hx.1
  · exact hx.1

end Chains

/-! ### Constructs of both vocabularies -/

section Shared

/-- Fields of the target are filled from fields that are made for no guest, lists of statements
apart. -/
theorem asks_sourceField (t : Tag) (htarget : t.isIn .target = true) :
    openers.contains t = false ∧ ∀ spec ∈ (t.fields .target).filter FieldSpec.isSlot,
      guests t (sourceField t spec.field) = [] ∨
        spec.field = .body ∧ (t = .program ∨ t = .blockStatement) := by
  revert htarget
  cases t <;> decide

theorem convertSlot_program {slot : Slot Part} (hslot : s.get? .body = some slot) :
    Convert.convertSlot .program s .body = Slot.many <$> programBody slot.toList := by
  unfold Convert.convertSlot
  rw [show sourceField .program .body = .body from rfl, hslot]
  rfl

theorem Sound.convertSlot (hs : S.Sound d t h s) (hspeaks : S.Speaks (asPart h s))
    (hopen : openers.contains t = false) (hf : guests t (sourceField t f) = [] ∨
      f = .body ∧ (t = .program ∨ t = .blockStatement)) :
    S.Gives d pre (convertSlot t s f) (Fact.filled t s f) := by
  cases hslot : s.get? (sourceField t f) with
  | none =>
    unfold Convert.convertSlot
    rw [hslot]
    exact .pure fun _ _ _ => .empty
  | some slot =>
    have hmem := Slots.get?_mem hslot
    by_cases hp : t = .program ∧ f = .body
    · obtain ⟨rfl, rfl⟩ := hp
      rw [convertSlot_program hslot]
      refine (S.program fun _ => gives_convertStatements fun c hc =>
        hs.admitted rfl hopen hmem hc).map fun us V _ _ hus => ?_
      exact .statements rfl rfl (fun c hc => .held hslot hc) hus
    have husable : ∀ c ∈ slot.toList, S.Usable d c := by
      intro c hc
      refine ⟨hs.ready hopen hmem hc, ?_⟩
      rcases hf with hg | ⟨rfl, rfl | rfl⟩
      · refine S.speaks hs.stems hs.tag hmem hc ?_
        rw [hg]
        exact nofun
      · exact absurd ⟨rfl, rfl⟩ hp
      · exact S.speaks_statement hs.stems hs.tag hspeaks hslot hc
    have hp' : (t = .program && f = .body) = false := by simpa using hp
    unfold Convert.convertSlot
    simp only [hslot, hp', Bool.false_eq_true, if_false]
    by_cases hb : hasScope t = true ∧ f = .body
    · obtain ⟨hscope, rfl⟩ := hb
      have hfill (c : Part) (hc : c ∈ slot.toList) : Fills s .body c := by
        rw [show Field.body = sourceField t .body by cases t <;> rfl]
        exact .held hslot hc
      simp only [hscope, decide_true, Bool.and_self, if_true]
      refine (Logic.Gives.slotMapM (R := Fact.bodyOf s) fun c hc _ => ?_).imp
        fun us V _ _ hus => Filled.bodies hscope rfl hus
      exact (S.body fun _ => (husable c hc).convertPart).imp fun u V _ _ hu => ⟨c, hfill c hc, hu⟩
    · have hb' : (hasScope t && decide (f = .body)) = false := by simpa using hb
      simp only [hb', Bool.false_eq_true, if_false]
      refine (Logic.Gives.slotMapM (R := Fact.held s (sourceField t f)) fun c hc _ => ?_).imp
        fun us V _ _ hus => Filled.parts (fun hbody => ?_) hus
      · exact (husable c hc).convertPart.imp fun u V _ _ hu => ⟨c, .held hslot hc, hu⟩
      · exact ⟨fun ht => hp ⟨ht, hbody⟩, Bool.not_eq_true _ |>.mp fun hscope => hb ⟨hscope, hbody⟩⟩

/-- **A construct of both vocabularies.** -/
theorem Sound.convertShared (hs : S.Sound d t h s) (hspeaks : S.Speaks (asPart h s))
    (htarget : t.isIn .target = true) :
    S.Gives d pre (convertShared t h s) (Fact.made d h s) := by
  obtain ⟨hopen, hasks⟩ := asks_sourceField t htarget
  have hslots : S.Gives d pre (Convert.convertShared t h s) fun v =>
      Fact.all (fun e => Fact.filled t s e.1 e.2) v.slots := by
    refine (Logic.Gives.mapM (R := fun e : Field × Slot Node => Fact.filled t s e.1 e.2)
      fun spec hspec _ => ?_).bind fun slots => .pure ?_
    · exact (hs.convertSlot hspeaks hopen (hasks spec hspec)).bind fun slot =>
        .pure fun V _ hslot => hslot.2
    · rintro V - ⟨-, hslots⟩ e he
      obtain ⟨f, -, hf⟩ := List.mem_filterMap.mp he
      obtain ⟨slot, hslot, rfl⟩ := Option.map_eq_some_iff.mp hf
      exact hslots _ (Slots.get?_mem hslot)
  refine hslots.ran.imp fun v V _ _ hv => ?_
  obtain ⟨⟨st, -, rfl⟩, hfilled⟩ := hv
  exact .shared hs.is htarget st hfilled

end Shared

/-! ### Constructs -/

section Constructs

theorem Sound.unsupported (hs : S.Sound d t h s) (hspeaks : S.Speaks (asPart h s))
    (hrefused : ∀ V, S.World V → pre.At V → Refused h s) :
    S.Gives d pre (Convert.unsupported h) (Fact.made d h s) := by
  refine (S.refuse hs.stems hspeaks hrefused).imp fun v V _ _ hv => ?_
  obtain ⟨rfl, hv⟩ := hv
  exact .passed hv

theorem Sound.orUnsupported {step : Pass (Option Node)} (hs : S.Sound d t h s)
    (hspeaks : S.Speaks (asPart h s)) (hnone : ∀ st : State, (step st).1 = none → Refused h s)
    (hstep : S.Gives d pre step fun x => Fact.option (Fact.made d h s) x) :
    S.Gives d pre (orUnsupported h step) (Fact.made d h s) := by
  refine hstep.ran.bind fun x => ?_
  cases x with
  | some u => exact .pure fun V _ hu => hu.2.2 u rfl
  | none =>
    refine hs.unsupported hspeaks fun V _ hpre => ?_
    obtain ⟨-, ⟨st, -, hst⟩, -⟩ := hpre
    exact hnone st hst.symm

theorem gives_made {p : Pass Node} (hp : S.Gives d pre p (Fact.simple h s)) :
    S.Gives d pre p (Fact.made d h s) := hp.imp fun _ _ _ _ hv => .simple hv

theorem gives_made? {p : Pass (Option Node)}
    (hp : S.Gives d pre p fun x => Fact.option (Fact.simple h s) x) :
    S.Gives d pre p fun x => Fact.option (Fact.made d h s) x :=
  hp.imp fun _ _ _ _ hx u hu => .simple (hx u hu)

theorem Sound.convertTypeParameter (hs : S.Sound d .typeParameter h s) : S.Gives d pre (do
    let constraint ← match s.child? .bound with
      | some t => some <$> bareType t
      | none => Pure.pure none
    return Target.typeParameter (h.text .name) constraint (← Convert.child? s .default))
    (Fact.simple h s) := by
  have hrest (x : Option Node) (pre : Fact)
      (hx : ∀ V, S.World V → pre.At V → ∀ u ∈ x, Composed V h s anywhere u) : S.Gives d pre (do
      return Target.typeParameter (h.text .name) x (← Convert.child? s .default))
      (Fact.simple h s) := by
    refine (hs.child? rfl).bind fun y => .pure ?_
    rintro V hV ⟨hpre, hy⟩
    exact .typeParameter hs.is (hx V hV hpre) (Composed.held? True.intro hy)
  dsimp only
  split
  · next c hc =>
    have hbound (pre : Fact) : S.Gives d pre (some <$> bareType c) fun x =>
        Fact.option (Fact.composed h s anywhere) x :=
      ((hs.usable_child? (f := .bound) rfl c hc).bareType h (fills_child? hc) True.intro).map
        fun _ _ _ _ hu => forall_mem_some hu
    exact (hbound _).bind fun x => hrest x _ fun _ _ hx => hx.2
  · exact hrest none _ fun _ _ _ => nofun

/-- A construct that is made of the answer for one part. -/
theorem Sound.ofChild {tag : Tag} {attrs : List (Field × Attr)} {g : Node → Slots Unit}
    (hs : S.Sound d t h s) (hf : needs t f = true) (htag : tag ∈ plainTags ∧ tag ≠ .identifier)
    (hg : ∀ V u, Composed V h s anywhere u → Holds (Composed V h s anywhere) (g u)) :
    S.Gives d pre (do return Node.of tag attrs (g (← Convert.child s f))) (Fact.simple h s) :=
  (hs.child hf).bind fun u => .pure fun V _ hu =>
    .node htag.1 htag.2 (hg V u (.part True.intro hu.2))

theorem Sound.ofChildren {k : Field} {tag : Tag} (hs : S.Sound d t h s) (hf : asks t f = true)
    (htag : tag ∈ plainTags ∧ tag ≠ .identifier) :
    S.Gives d pre (do return Node.of tag [] [(k, .many (← Convert.children s f))])
      (Fact.simple h s) :=
  (hs.children hf).bind fun _ => .pure fun _ _ hus =>
    .node htag.1 htag.2 (.many (Composed.held True.intro hus.2) .nil)

theorem Sound.ofTwo {f' k k' : Field} {tag : Tag} (hs : S.Sound d t h s) (hf : needs t f = true)
    (hf' : needs t f' = true) (htag : tag ∈ plainTags ∧ tag ≠ .identifier) :
    S.Gives d pre (do
      let a ← Convert.child s f
      return Node.of tag [] [(k, .one a), (k', .one (← Convert.child s f'))])
      (Fact.simple h s) :=
  (hs.child hf).bind fun _ => (hs.child hf').bind fun _ => .pure fun _ _ hab =>
    .node htag.1 htag.2 (.one (.part True.intro hab.1.2) (.one (.part True.intro hab.2) .nil))

theorem Sound.heritage (hs : S.Sound d t h s) (hid : needs t .id = true)
    (hps : asks t .typeParameters = true) : S.Gives d pre (do
      let e ← Convert.child s .id
      return Target.heritage e (← Convert.child? s .typeParameters)) (Fact.simple h s) := by
  refine (hs.child hid).bind fun e => (hs.child? hps).bind fun x => .pure ?_
  rintro V - ⟨⟨-, he⟩, hx⟩
  exact .node (by decide) (by decide)
    (.one (.part True.intro he) (.maybe (Composed.held? True.intro hx) .nil))

theorem gives_leaf {tag : Tag} (htag : tag ∈ plainTags ∧ tag ≠ .identifier) :
    S.Gives d pre (Pure.pure (Node.leaf tag) : Pass Node) (Fact.simple h s) :=
  .pure fun _ _ _ => .node htag.1 htag.2 .nil

theorem gives_literal (tag : Tag) (htag : tag ∈ plainTags) (value : Option Attr) :
    S.Gives d pre (Pure.pure (Target.literalType (literalNode h tag value)) : Pass Node)
      (Fact.simple h s) :=
  .pure fun _ _ _ => .node (by decide) (by decide) (.one (.node htag .nil) .nil)

/-- The value of a whole chain. -/
theorem Sound.wholeChain (hs : S.Sound d t h s) (ht : t ∈ links) : S.Gives d pre (do
      let link ← Convert.chainStep h s
      return closeChain link.1 link.2) (Fact.simple h s) :=
  (hs.chainStep ht).bind fun _ => .pure fun _ _ hx => simple_closeChain hx.2

/-- **What the rule of a construct makes.** -/
theorem Sound.convertNode (hs : S.Sound d t h s) (hspeaks : S.Speaks (asPart h s)) :
    S.Gives d pre (convertNode h s) (Fact.made d h s) := by
  unfold Convert.convertNode
  rw [hs.tag]
  dsimp only
  split_ifs with htarget
  · exact hs.convertShared hspeaks htarget
  -- one case for each rule, in the order of `convertNode`
  split
  · exact gives_made (hs.wholeChain (by decide))
  · exact gives_made (hs.wholeChain (by decide))
  · exact gives_made hs.convertCast
  · exact gives_made (hs.heritage rfl rfl)
  · exact gives_made (hs.heritage rfl rfl)
  · exact hs.convertTypeAlias (by decide) rfl rfl rfl (by decide) fun _ _ _ => rfl
  · exact hs.convertTypeAlias (by decide) rfl rfl rfl (by decide) fun _ _ _ => rfl
  · exact S.declares.bind fun b => hs.convertTypeAlias (by decide) rfl rfl rfl (by decide)
      fun _ _ hb => hb.2.1
  · exact hs.convertOpaque
  · exact hs.convertInterface (by decide) ⟨rfl, rfl⟩ ⟨rfl, rfl⟩ fun _ _ _ => rfl
  · exact S.declares.bind fun b => hs.convertInterface (by decide) ⟨rfl, rfl⟩ ⟨rfl, rfl⟩
      fun _ _ hb => hb.2.1
  · exact hs.convertVariable
  · exact hs.orUnsupported hspeaks (.declaredFunction hs.is) hs.convertDeclaredFunction?
  · exact hs.convertClass
  · exact hs.convertModule
  · exact hs.orUnsupported hspeaks (.declaredExport hs.is) (gives_made? hs.convertExport?)
  · exact gives_made (hs.ofChild rfl (by decide) fun _ _ hu => .one hu .nil)
  · exact gives_made (hs.ofChild rfl (by decide) fun _ _ hu => .one hu .nil)
  · exact (hs.children rfl).bind fun us => .pure fun V _ hus =>
      .simple (.typeParameters hs.is hus.2)
  · exact gives_made (hs.ofChildren rfl (by decide))
  · exact gives_made hs.convertTypeParameter
  iterate 12 · exact gives_made (gives_leaf (by decide))
  iterate 4 · exact gives_made (gives_literal _ (by decide) _)
  · refine gives_made (hs.ofChild rfl (by decide) fun V u hu => .many ?_ .nil)
    simp only [List.forall_mem_cons, List.not_mem_nil, false_implies, implies_true, and_true]
    exact ⟨hu, .leaf (by decide), .leaf (by decide)⟩
  · exact gives_made (hs.ofChild rfl (by decide) fun _ _ hu => .one hu .nil)
  · exact gives_made (hs.ofChildren rfl (by decide))
  · exact gives_made (hs.ofChildren rfl (by decide))
  · exact gives_made (hs.ofChildren rfl (by decide))
  · exact ((hs.usable_child rfl).convertTypeof (fills_child s .argument)).bind fun u =>
      .pure fun V _ hu => .simple (.node (by decide) (by decide) (.one hu.2 .nil))
  · exact gives_made (hs.ofTwo rfl rfl (by decide))
  · exact hs.accessStep.bind fun x => .pure fun V _ hx => .simple (simple_closeAccess hx.2)
  · exact hs.orUnsupported hspeaks (.functionType hs.is)
      (gives_made? (Sound.convertFunction? (p := .mk default h s) hs))
  · exact gives_made hs.convertGeneric
  · exact gives_made (hs.ofTwo rfl rfl (by decide))
  · exact gives_made hs.convertObject
  · exact hs.orUnsupported hspeaks (.property hs.is) (gives_made? hs.convertProperty?)
  · exact gives_made hs.convertIndexer
  · exact hs.orUnsupported hspeaks (.call hs.is) (gives_made? hs.convertCall?)
  · exact gives_made hs.convertInterfaceType
  · -- only the constructs that have no rule are left
    refine hs.unsupported hspeaks fun _ _ _ => .dependent hs.tag ?_
    clear hs
    cases t <;> first | contradiction | decide

/-- Every answer of a construct is known, if its parts are ready. -/
theorem answers_asPart (hstems : Stems S.Source d h s) (hspeaks : S.Speaks (asPart h s))
    (hparts : ∀ f slot, (f, slot) ∈ s → ∀ c ∈ slot.toList, S.Ready (depthAt d h f) c) :
    S.Answers d (asPart h s) := by
  have hsound {t : Tag} (ht : h.tag? = some t) : S.Sound d t h s := ⟨ht, hstems, hparts⟩
  have hnode (pre : Fact) : S.Gives d pre (convertNode h s) (Fact.made d h s) := by
    cases ht : h.tag? with
    | some t => exact (hsound ht).convertNode hspeaks
    | none =>
      have heq : Convert.convertNode h s = Convert.unsupported h := by
        unfold Convert.convertNode
        rw [ht]
      rw [heq]
      refine (S.refuse hstems hspeaks fun _ _ _ => .unknown ht).imp fun v V _ _ hv => ?_
      obtain ⟨rfl, hv⟩ := hv
      exact .passed hv
  have hconvert (pre : Fact) :
      S.Gives d pre (attach h <$> convertNode h s) (Fact.convert (asPart h s)) := by
    refine (hnode pre).ran.map fun v V hV _ hv => ?_
    obtain ⟨⟨st, hd, rfl⟩, hmade⟩ := hv
    exact S.convert hstems hspeaks hV hd hmade
  have hchain (pre : Fact) : S.Gives d pre (if h.isAny links then chainStep h s
      else (·, none) <$> attach h <$> convertNode h s) (Fact.chain (asPart h s)) := by
    split_ifs with hlink
    · obtain ⟨t, hmem, ht⟩ := List.any_eq_true.mp hlink
      exact ((hsound (beq_iff_eq.mp ht)).chainStep hmem).imp fun x V hV _ hx =>
        S.chain hstems hlink hV hx.1 hx.2
    · exact (hconvert pre).map fun v V hV _ hv =>
        S.chain_of (p := asPart h s) hV (Bool.not_eq_true _ |>.mp hlink) hv
  have haccess (pre : Fact) : S.Gives d pre (if h.is .optionalIndexedAccessType then accessStep h s
      else (·, false) <$> attach h <$> convertNode h s) (Fact.access (asPart h s)) := by
    split_ifs with ht
    · refine (hsound (beq_iff_eq.mp ht)).accessStep.imp fun x V hV _ hx => ?_
      obtain ⟨x, o⟩ := x
      obtain ⟨a, b, rfl, ha, hb⟩ := hx
      exact S.access hstems ht hV ha hb
    · exact (hconvert pre).map fun v V hV _ hv =>
        S.access_of (p := asPart h s) hV (Bool.not_eq_true _ |>.mp ht) hv
  have hentity (pre : Fact) : S.Gives d pre (if h.is .qualifiedTypeIdentifier then entityStep h s
      else attach h <$> convertNode h s) (Fact.entity (asPart h s)) := by
    split_ifs with ht
    · refine (hsound (beq_iff_eq.mp ht)).entityStep.imp fun v V hV _ hv => ?_
      obtain ⟨a, b, rfl, ha, hb⟩ := hv
      exact S.entity hstems ht hV ha hb
    · exact (hconvert pre).imp fun v V hV _ hv =>
        S.entity_of (p := asPart h s) hV (Bool.not_eq_true _ |>.mp ht) hv
  exact ⟨hconvert, hchain, haccess, hentity⟩

end Constructs

/-! ### Source trees -/

/-- **All parts of a source tree are ready.** -/
theorem ready_annotate {t : Node} {d : Nat} (ht : S.Source d t) :
    S.Ready d (t.annotate outcome) := by
  induction t using Tree.induct generalizing d with
  | step n h s ih =>
    have hparts : ∀ f slot, (f, slot) ∈ Tree.annotateSlots outcome s → ∀ c ∈ slot.toList,
        S.Ready (depthAt d h f) c := by
      intro f slot hslot c hc
      rw [Tree.annotateSlots_eq_map] at hslot
      obtain ⟨⟨f', slot'⟩, hmem, heq⟩ := List.mem_map.mp hslot
      cases heq
      rw [Slot.toList_map] at hc
      obtain ⟨a, ha, rfl⟩ := List.mem_map.mp hc
      exact ih a (Slots.mem_toList.mpr ⟨_, hmem, ha⟩) (S.part ht hmem ha)
    exact .mk ⟨s, rfl, ht⟩ (fun hspeaks => answers_asPart ⟨s, rfl, ht⟩ hspeaks hparts) hparts

/-- **What is known of a converted tree**, if its root matters. -/
theorem gives_convertTree {t : Node} (ht : S.Source d t) (hspeaks : S.Speaks (t.annotate outcome)) :
    S.Gives d pre (convertTree t) (Fact.convert (t.annotate outcome)) :=
  (Usable.mk (ready_annotate ht) hspeaks).convertPart

end Survey

end Typeshift.Convert
