import Mathlib.Tactic.SplitIfs
import Typeshift.Proofs.Convert.Shape
import Typeshift.Proofs.Tree.WellFormed

/-! # Logics for the steps of a conversion

A statement about a conversion says something of every step: that it keeps an invariant of the
state, that two runs of it agree, that its result is known to be of some kind. A *logic* is a way of
saying such things that goes over from steps to what is made of them.

* `Fact`: what may be known, and stays known.
* `Logic`: what can be said of steps.
* `Survey`: a logic for the steps of conversions of some source trees, in which the answers of a
  part are known if it is known what its rule made. -/

namespace Typeshift.Convert

open Ambient (openers depthAt)

/-- Something that may be known, and then stays known. -/
structure Fact where
  At : View → Prop
  lasts : ∀ {V V' : View}, V.Le V' → At V → At V'

namespace Fact

/-- Nothing is known. -/
def none : Fact := ⟨fun _ => True, fun _ h => h⟩

/-- Both facts. -/
def and (P Q : Fact) : Fact where
  At V := P.At V ∧ Q.At V
  lasts hle h := ⟨P.lasts hle h.1, Q.lasts hle h.2⟩

/-- A fact about everything in a list. -/
def all {α : Type} (P : α → Fact) (as : List α) : Fact where
  At V := ∀ a ∈ as, (P a).At V
  lasts hle h a ha := (P a).lasts hle (h a ha)

/-- A fact about what is there. -/
def option {α : Type} (P : α → Fact) (x : Option α) : Fact where
  At V := ∀ a ∈ x, (P a).At V
  lasts hle h a ha := (P a).lasts hle (h a ha)

/-- A property that does not depend on what is known, and a fact. -/
def given (p : Prop) (P : Fact) : Fact where
  At V := p ∧ P.At V
  lasts hle h := ⟨h.1, P.lasts hle h.2⟩

def convert (c : Part) (v : Node) : Fact := ⟨fun V => V.convert c v, fun hle => hle.convert⟩

def chain (c : Part) (x : Node × Option Node) : Fact := ⟨fun V => V.chain c x, fun hle => hle.chain⟩

def access (c : Part) (x : Node × Bool) : Fact := ⟨fun V => V.access c x, fun hle => hle.access⟩

def entity (c : Part) (v : Node) : Fact := ⟨fun V => V.entity c v, fun hle => hle.entity⟩

def exported (c : Part) (v : Node) : Fact := ⟨fun V => V.exported c v, fun hle => hle.exported⟩

def body (c : Part) (v : Node) : Fact := ⟨fun V => V.body c v, fun hle => hle.body⟩

def program (cs : List Part) (vs : List Node) : Fact :=
  ⟨fun V => V.program cs vs, fun hle => hle.program⟩

def temporary (n : String) : Fact := ⟨fun V => V.temporary n, fun hle => hle.temporary⟩

def exports (n : String) : Fact := ⟨fun V => V.exports n, fun hle => hle.exports⟩

def refused (h : Head) : Fact := ⟨fun V => V.refused h, fun hle => hle.refused⟩

def held (s : Slots Outcome) (f : Field) (v : Node) : Fact :=
  ⟨fun V => Held V s f v, fun hle hv => hv.mono hle⟩

def composed (h : Head) (s : Slots Outcome) (F : Field → Prop) (v : Node) : Fact :=
  ⟨fun V => Composed V h s F v, fun hle hv => hv.mono hle⟩

def signature (h : Head) (s : Slots Outcome) (sig : Signature) : Fact :=
  ⟨fun V => SignatureOf V h s sig, fun hle hv => hv.mono hle⟩

def member (h : Head) (s : Slots Outcome) (v : Node) : Fact :=
  ⟨fun V => MemberOf V h s v, fun hle hv => hv.mono hle⟩

def simple (h : Head) (s : Slots Outcome) (v : Node) : Fact :=
  ⟨fun V => Simple V h s v, fun hle hv => hv.mono hle⟩

def made (d : Nat) (h : Head) (s : Slots Outcome) (v : Node) : Fact :=
  ⟨fun V => Made V d h s v, fun hle hv => hv.mono hle⟩

/-- One of the nodes that some parts become in a list of statements. -/
def becomes (cs : List Part) (v : Node) : Fact where
  At V := ∃ c ∈ cs, Listing V c v
  lasts hle := fun ⟨c, hc, hv⟩ => ⟨c, hc, hv.mono hle⟩

/-- The body of a function, with its temporaries. -/
def bodyOf (s : Slots Outcome) (v : Node) : Fact where
  At V := ∃ c, Fills s .body c ∧ V.body c v
  lasts hle := fun ⟨c, hc, hv⟩ => ⟨c, hc, hle.body hv⟩

def filled (t : Tag) (s : Slots Outcome) (f : Field) (slot : Slot Node) : Fact :=
  ⟨fun V => Filled V t s f slot, fun hle hv => hv.mono hle⟩

def ofExported (d : Nat) (h : Head) (s : Slots Outcome) (v : Node) : Fact :=
  ⟨fun V => Exported V d h s v, fun hle hv => hv.mono hle⟩

end Fact

/-! ### Steps -/

/-- **What can be said of steps** that run with a number of ambient contexts around, given a fact:
that they give results with a fact. -/
structure Logic where
  /-- What is known while a conversion runs. -/
  World : View → Prop
  Gives : ∀ {α : Type}, Nat → Fact → Pass α → (α → Fact) → Prop
  pure : ∀ {α : Type} {d : Nat} {pre : Fact} {a : α} {Q : α → Fact},
    (∀ V, World V → pre.At V → (Q a).At V) → Gives d pre (Pure.pure a) Q
  /-- What is known before a step, and what it gives, are known in the steps after it. -/
  bind : ∀ {α β : Type} {d : Nat} {pre : Fact} {p : Pass α} {f : α → Pass β} {Q : α → Fact}
    {R : β → Fact}, Gives d pre p Q → (∀ a, Gives d (pre.and (Q a)) (f a) R) →
    Gives d pre (p >>= f) R
  /-- What a step gives was given by a run of it. -/
  ran : ∀ {α : Type} {d : Nat} {pre : Fact} {p : Pass α} {Q : α → Fact}, Gives d pre p Q →
    Gives d pre p fun a => .given (∃ st : State, st.depth = d ∧ a = (p st).1) (Q a)
  declares : ∀ {d : Nat} {pre : Fact}, Gives d pre declares fun b => .given (b = (d == 0)) .none
  inAmbient : ∀ {α : Type} {d : Nat} {pre : Fact} {p : Pass α} {Q : α → Fact},
    (∀ pre, Gives (d + 1) pre p Q) → Gives d pre (inAmbient p) Q

namespace Logic.Gives

variable {L : Logic} {α β : Type} {d : Nat} {pre : Fact} {p : Pass α} {Q : α → Fact}

theorem pure {a : α} (h : ∀ V, L.World V → pre.At V → (Q a).At V) :
    L.Gives d pre (Pure.pure a) Q := L.pure h

theorem bind {f : α → Pass β} {R : β → Fact} (hp : L.Gives d pre p Q)
    (hf : ∀ a, L.Gives d (pre.and (Q a)) (f a) R) : L.Gives d pre (p >>= f) R := L.bind hp hf

theorem ran (hp : L.Gives d pre p Q) :
    L.Gives d pre p fun a => .given (∃ st : State, st.depth = d ∧ a = (p st).1) (Q a) := L.ran hp

theorem map {f : α → β} {R : β → Fact} (hp : L.Gives d pre p Q)
    (h : ∀ a V, L.World V → pre.At V → (Q a).At V → (R (f a)).At V) :
    L.Gives d pre (f <$> p) R := by
  rw [map_eq_pure_bind]
  exact hp.bind fun a => .pure fun V hV hpre => h a V hV hpre.1 hpre.2

theorem imp {R : α → Fact} (hp : L.Gives d pre p Q)
    (h : ∀ a V, L.World V → pre.At V → (Q a).At V → (R a).At V) : L.Gives d pre p R := by
  have hmap : L.Gives d pre (id <$> p) R := hp.map h
  rwa [id_map] at hmap

theorem mapM {f : α → Pass β} {R : β → Fact} : ∀ {as : List α} {pre : Fact},
    (∀ a ∈ as, ∀ pre : Fact, L.Gives d pre (f a) R) → L.Gives d pre (as.mapM f) (Fact.all R)
  | [], _, _ => by
    rw [List.mapM_nil]
    exact .pure fun _ _ _ => nofun
  | a :: as, _, h => by
    rw [List.mapM_cons]
    refine (h a List.mem_cons_self _).bind fun b => ?_
    refine (mapM fun c hc => h c (List.mem_cons_of_mem a hc)).bind fun bs => .pure ?_
    rintro V - ⟨⟨-, hb⟩, hbs⟩
    exact List.forall_mem_cons.mpr ⟨hb, hbs⟩

theorem slotMapM {f : α → Pass β} {R : β → Fact} {slot : Slot α}
    (h : ∀ a ∈ slot.toList, ∀ pre : Fact, L.Gives d pre (f a) R) :
    L.Gives d pre (slot.mapM f) fun slot => Fact.all R slot.toList := by
  cases slot with
  | one a =>
    refine (h a (by simp [Slot.toList]) _).bind fun b => .pure fun V _ hb => ?_
    exact List.forall_mem_singleton.mpr hb.2
  | maybe a =>
    cases a with
    | none => exact .pure fun _ _ _ => nofun
    | some a =>
      refine (h a (by simp [Slot.toList]) _).bind fun b => .pure fun V _ hb => ?_
      exact List.forall_mem_singleton.mpr hb.2
  | many as => exact (mapM h).bind fun bs => .pure fun V _ hbs => hbs.2
  | holes as =>
    refine (mapM (R := fun x => Fact.all R x.toList) fun a ha pre => ?_).bind fun bs =>
      .pure fun V _ hbs b hb => ?_
    · cases a with
      | none => exact .pure fun _ _ _ => nofun
      | some a =>
        refine (h a (by simpa [Slot.toList] using ha) pre).bind fun b => .pure fun V _ hb => ?_
        exact List.forall_mem_singleton.mpr hb.2
    · exact hbs.2 (some b) (by simpa [Slot.toList] using hb) b (by simp)

theorem forIn {f : α → Pass (ForInStep PUnit)}
    (hf : ∀ a (pre : Fact), L.Gives d pre (f a) fun _ => Fact.none) : ∀ (as : List α) {pre : Fact},
    L.Gives d pre (ForIn.forIn as PUnit.unit fun a _ => f a) fun _ => Fact.none
  | [], _ => .pure fun _ _ _ => True.intro
  | a :: as, _ => by
    rw [List.forIn_cons]
    refine (hf a _).bind fun x => ?_
    cases x with
    | done b => exact .pure fun _ _ _ => True.intro
    | yield b => exact forIn hf as

end Logic.Gives

/-! ### Source trees -/

/-- The constructs that are read by the construct around them, and have no rule. -/
def dependents : List Tag :=
  [.functionTypeParam, .variance, .declaredPredicate, .inferredPredicate,
    .objectTypeSpreadProperty, .objectTypeInternalSlot, .declareModuleExports]

/-- The dependent constructs that a field of a construct is made for. -/
def guests (t : Tag) (f : Field) : List Tag :=
  match t, f with
  | _, .variance => [.variance]
  | _, .predicate => [.declaredPredicate, .inferredPredicate]
  | _, .internalSlots => [.objectTypeInternalSlot]
  | .functionType, .params | .functionType, .rest | .functionType, .receiver => [.functionTypeParam]
  | .objectType, .properties => [.objectTypeSpreadProperty]
  | .program, .body | .blockStatement, .body => [.declareModuleExports]
  | .declareModule, .body => [.blockStatement]
  | _, _ => []

/-- The links of chains. -/
def links : List Tag := [.optionalMemberExpression, .optionalCallExpression]

/-- The declarations of a class or an interface, whose bodies cannot be split. -/
def unsplitTags : List Tag := [.interfaceDeclaration, .declareInterface, .declareClass]

/-- **Why a construct is passed through**: it is not known, it has no rule, or its rule gave
nothing in some run. -/
inductive Refused (h : Head) (s : Slots Outcome) : Prop where
  | unknown (ht : h.tag? = none)
  | dependent {t : Tag} (ht : h.tag? = some t) (hmem : t ∈ dependents)
  | declaredFunction (hh : h.is .declareFunction = true) (st : State)
    (hnone : (convertDeclaredFunction? s st).1 = none)
  | declaredExport (hh : h.is .declareExportDeclaration = true) (st : State)
    (hnone : (convertExport? h s st).1 = none)
  | functionType (hh : h.is .functionType = true) (st : State)
    (hnone : (convertFunction? (.mk default h s) st).1 = none)
  | property (hh : h.is .objectTypeProperty = true) (st : State)
    (hnone : (convertProperty? h s st).1 = none)
  | call (hh : h.is .objectTypeCallProperty = true) (st : State)
    (hnone : (convertCall? s st).1 = none)

/-- Convert the statements of a program. -/
def programBody (ps : List Part) : Pass (List Node) := do
  let (body, names) ← inScope (convertStatements ps)
  return declareInProgram names body

/-- **A logic for the conversions of some source trees.** What is known of the answers of a
construct is concluded from what its rule makes. -/
structure Survey extends Logic where
  /-- The source trees, with the number of ambient contexts around. -/
  Source : Nat → Node → Prop
  /-- Whether the answers of a part matter. -/
  Speaks : Part → Prop
  /-- Whether children that are required may be missing. -/
  lenient : Prop
  part : ∀ {d : Nat} {h : Head} {s : Slots Unit} {f : Field} {slot : Slot Node} {c : Node},
    Source d (.mk () h s) → (f, slot) ∈ s → c ∈ slot.toList → Source (depthAt d h f) c
  required : ∀ {d : Nat} {h : Head} {s : Slots Unit}, Source d (.mk () h s) →
    lenient ∨ HasRequired h s
  vacant : lenient → Speaks default ∧ ∀ V, World V → V.convert default default ∧
    V.chain default (default, none) ∧ V.access default (default, false) ∧ V.entity default default
  /-- Only guests of a field do not matter. -/
  speaks : ∀ {d : Nat} {h : Head} {s : Slots Outcome} {t : Tag} {f : Field} {slot : Slot Part}
    {c : Part}, Stems Source d h s → h.tag? = some t → (f, slot) ∈ s → c ∈ slot.toList →
    (∀ g ∈ guests t f, c.head.is g = false) → Speaks c
  speaks_statement : ∀ {d : Nat} {h : Head} {s : Slots Outcome} {slot : Slot Part} {c : Part},
    Stems Source d h s → h.tag? = some .blockStatement → Speaks (asPart h s) →
    s.get? .body = some slot → c ∈ slot.toList → Speaks c
  report : ∀ {d : Nat} {pre : Fact} {f : Finding} (h : Head) (args : List String),
    f ≠ .unsupportedNode → Gives d pre (report f h args) fun _ => .none
  /-- What is no property is left out of a body that cannot be split. -/
  drop : ∀ {d : Nat} {pre : Fact} {h : Head} {s : Slots Outcome} {c : Part}, Stems Source d h s →
    h.isAny unsplitTags = true → (s.child .body).head.is .objectType = true →
    c ∈ (s.child .body).slots.children .properties → c.head.is .objectTypeProperty = false →
    Gives d pre (Convert.report .unsupportedNode c.head [c.head.name]) fun _ => .none
  refuse : ∀ {d : Nat} {pre : Fact} {h : Head} {s : Slots Outcome}, Stems Source d h s →
    Speaks (asPart h s) → (∀ V, World V → pre.At V → Refused h s) →
    Gives d pre (unsupported h) fun v => .given (v = passed h) (.refused h)
  temporary : ∀ {d : Nat} {pre : Fact} {h : Head} {s : Slots Outcome}, Stems Source d h s →
    h.isAny links = true → Gives d pre freshTemporary .temporary
  exports : ∀ {d : Nat} {pre : Fact}, Gives d pre (freshName exportsBase) .exports
  body : ∀ {d : Nat} {pre : Fact} {p : Part},
    (∀ pre, Gives d pre (convertPart p) (.convert p)) → Gives d pre (functionBody p) (.body p)
  program : ∀ {d : Nat} {pre : Fact} {ps : List Part},
    (∀ pre, Gives d pre (convertStatements ps) (.all (.becomes ps))) →
    Gives d pre (programBody ps) (.program ps)
  convert : ∀ {d : Nat} {h : Head} {s : Slots Outcome} {V : View} {st : State},
    Stems Source d h s → Speaks (asPart h s) → World V → st.depth = d →
    Made V d h s (convertNode h s st).1 → V.convert (asPart h s) (attach h (convertNode h s st).1)
  chain : ∀ {d : Nat} {h : Head} {s : Slots Outcome} {V : View} {x : Node × Option Node},
    Stems Source d h s → h.isAny links = true → World V → Simple V h s x.1 →
    (∀ g ∈ x.2, Composed V h s anywhere g) → V.chain (asPart h s) x
  access : ∀ {d : Nat} {h : Head} {s : Slots Outcome} {V : View} {a b : Node} {o : Bool},
    Stems Source d h s → h.is .optionalIndexedAccessType = true → World V →
    Composed V h s anywhere a → Composed V h s anywhere b →
    V.access (asPart h s) (Target.indexedAccess a b, o)
  entity : ∀ {d : Nat} {h : Head} {s : Slots Outcome} {V : View} {a b : Node},
    Stems Source d h s → h.is .qualifiedTypeIdentifier = true → World V →
    Composed V h s anywhere a → Composed V h s anywhere b →
    V.entity (asPart h s) ((Target.member a b false).withSpan h.span)
  chain_of : ∀ {p : Part} {V : View} {v : Node}, World V → p.head.isAny links = false →
    V.convert p v → V.chain p (v, none)
  access_of : ∀ {p : Part} {V : View} {v : Node}, World V →
    p.head.is .optionalIndexedAccessType = false → V.convert p v → V.access p (v, false)
  entity_of : ∀ {p : Part} {V : View} {v : Node}, World V →
    p.head.is .qualifiedTypeIdentifier = false → V.convert p v → V.entity p v
  exported : ∀ {d : Nat} {h : Head} {s : Slots Outcome} {V : View} {st : State} {u : Node},
    Stems Source d h s → h.is .declareModuleExports = true → World V → st.depth = d →
    u ∈ (convertModuleExports h s st).1 → Exported V d h s u → V.exported (asPart h s) u

namespace Survey

variable {S : Survey}

/-- Every answer of a part is known. -/
structure Answers (S : Survey) (d : Nat) (p : Part) : Prop where
  convert : ∀ pre : Fact, S.Gives d pre p.note.convert (Fact.convert p)
  chain : ∀ pre : Fact, S.Gives d pre p.note.chain (Fact.chain p)
  access : ∀ pre : Fact, S.Gives d pre p.note.access (Fact.access p)
  entity : ∀ pre : Fact, S.Gives d pre p.note.entity (Fact.entity p)

/-- **A part that is ready**, at some depth: its answers are known, and so are those of all parts
below it, each at its depth. -/
inductive Ready (S : Survey) : Nat → Part → Prop where
  | vacant {d : Nat} (h : S.lenient) : Ready S d default
  | mk {d : Nat} {h : Head} {s : Slots Outcome} (stems : Stems S.Source d h s)
    (answers : S.Speaks (asPart h s) → S.Answers d (asPart h s))
    (parts : ∀ f slot, (f, slot) ∈ s → ∀ c ∈ slot.toList, Ready S (depthAt d h f) c) :
    Ready S d (asPart h s)

/-- A part that is ready, and whose answers matter. -/
structure Usable (S : Survey) (d : Nat) (p : Part) : Prop where
  ready : S.Ready d p
  speaks : S.Speaks p

/-- A part that is ready, and may be a guest. -/
structure Admitted (S : Survey) (d : Nat) (g : Tag) (p : Part) : Prop where
  ready : S.Ready d p
  speaks : p.head.is g = false → S.Speaks p

/-- A construct of the source with parts that are ready. -/
structure Sound (S : Survey) (d : Nat) (t : Tag) (h : Head) (s : Slots Outcome) : Prop where
  tag : h.tag? = some t
  stems : Stems S.Source d h s
  parts : ∀ f slot, (f, slot) ∈ s → ∀ c ∈ slot.toList, S.Ready (depthAt d h f) c

/-- Whether a construct asks what a field holds for its answers, where it stands itself. -/
def asks (t : Tag) (f : Field) : Bool := (guests t f).isEmpty && !openers.contains t

/-- Whether a field that is asked always holds something. -/
def needs (t : Tag) (f : Field) : Bool := asks t f && (t.fields .source).contains (.one f)

variable {d : Nat} {t : Tag} {h : Head} {s : Slots Outcome} {f : Field} {p c : Part} {pre : Fact}

theorem answers_default (hlenient : S.lenient) : S.Answers d default where
  convert _ := .pure fun V hV _ => ((S.vacant hlenient).2 V hV).1
  chain _ := .pure fun V hV _ => ((S.vacant hlenient).2 V hV).2.1
  access _ := .pure fun V hV _ => ((S.vacant hlenient).2 V hV).2.2.1
  entity _ := .pure fun V hV _ => ((S.vacant hlenient).2 V hV).2.2.2

theorem Usable.vacant (hlenient : S.lenient) : S.Usable d default :=
  ⟨.vacant hlenient, (S.vacant hlenient).1⟩

theorem Usable.answers (hp : S.Usable d p) : S.Answers d p := by
  obtain ⟨hready, hspeaks⟩ := hp
  cases hready with
  | vacant hlenient => exact answers_default hlenient
  | mk _ answers _ => exact answers hspeaks

theorem Usable.convertPart (hp : S.Usable d p) : S.Gives d pre (convertPart p) (Fact.convert p) :=
  hp.answers.convert pre

theorem Ready.sound (hp : S.Ready d p) (ht : p.head.is t = true) : S.Sound d t p.head p.slots := by
  cases hp with
  | vacant => exact absurd ht Bool.false_ne_true
  | mk stems _ parts => exact ⟨beq_iff_eq.mp ht, stems, parts⟩

theorem Ready.eq_asPart (hp : S.Ready d p) (ht : p.head.is t = true) :
    p = asPart p.head p.slots := by
  cases hp with
  | vacant => exact absurd ht Bool.false_ne_true
  | mk => rfl

theorem Usable.admitted (hp : S.Usable d p) (g : Tag) : S.Admitted d g p :=
  ⟨hp.ready, fun _ => hp.speaks⟩

theorem Admitted.usable {g : Tag} (hp : S.Admitted d g p) (hg : ¬p.head.is g = true) :
    S.Usable d p := ⟨hp.ready, hp.speaks (Bool.not_eq_true _ |>.mp hg)⟩

namespace Sound

theorem is (hs : S.Sound d t h s) : h.is t = true := beq_iff_eq.mpr hs.tag

theorem isAny (hs : S.Sound d t h s) {ts : List Tag} (ht : t ∈ ts) : h.isAny ts = true :=
  List.any_eq_true.mpr ⟨t, ht, hs.is⟩

/-- What a field holds stands where the construct stands, if that opens no context. -/
theorem ready (hs : S.Sound d t h s) (ht : openers.contains t = false) {slot : Slot Part}
    (hslot : (f, slot) ∈ s) (hc : c ∈ slot.toList) : S.Ready d c := by
  have hopen : t ∉ openers := by simpa using ht
  have hready := hs.parts f slot hslot c hc
  rwa [Ambient.depthAt_eq (Ambient.not_mem_of_tag? hs.tag hopen)] at hready

theorem usable (hs : S.Sound d t h s) (hf : asks t f = true) {slot : Slot Part}
    (hslot : (f, slot) ∈ s) (hc : c ∈ slot.toList) : S.Usable d c := by
  obtain ⟨hguests, hopen⟩ := Bool.and_eq_true_iff.mp hf
  refine ⟨hs.ready ((Bool.not_eq_true' _).mp hopen) hslot hc, ?_⟩
  refine S.speaks hs.stems hs.tag hslot hc ?_
  rw [List.isEmpty_iff.mp hguests]
  exact nofun

theorem admitted (hs : S.Sound d t h s) {g : Tag} (hg : guests t f = [g])
    (ht : openers.contains t = false) {slot : Slot Part} (hslot : (f, slot) ∈ s)
    (hc : c ∈ slot.toList) : S.Admitted d g c := by
  refine ⟨hs.ready ht hslot hc, fun hc' => S.speaks hs.stems hs.tag hslot hc ?_⟩
  rw [hg]
  exact List.forall_mem_singleton.mpr hc'

theorem usable_child? (hs : S.Sound d t h s) (hf : asks t f = true) :
    ∀ c ∈ s.child? f, S.Usable d c := by
  intro c hc
  obtain ⟨slot, hslot, hmem⟩ := Slots.child?_mem_slot hc
  exact hs.usable hf hslot hmem

theorem usable_children (hs : S.Sound d t h s) (hf : asks t f = true) :
    ∀ c ∈ s.children f, S.Usable d c := by
  intro c hc
  obtain ⟨slot, hslot, hmem⟩ := Slots.children_mem_slot hc
  exact hs.usable hf hslot hmem

/-- A child that is required is there. -/
theorem child_mem (hs : S.Sound d t h s) (hf : FieldSpec.one f ∈ t.fields .source) :
    S.lenient ∧ s.child f = default ∨ ∃ slot, (f, slot) ∈ s ∧ s.child f ∈ slot.toList := by
  unfold Slots.child
  cases hc : s.child? f with
  | some c => exact .inr (Slots.child?_mem_slot hc)
  | none =>
    obtain ⟨s₀, rfl, hsource⟩ := hs.stems
    refine (S.required hsource).imp (⟨·, rfl⟩) fun hrequired => ?_
    obtain ⟨c, hchild⟩ := Option.isSome_iff_exists.mp (hrequired t hs.tag _ hf rfl rfl)
    have hchild : s₀.child? f = some c := hchild
    rw [Slots.child?_annotateSlots, hchild] at hc
    cases hc

theorem usable_child (hs : S.Sound d t h s) (hf : needs t f = true) : S.Usable d (s.child f) := by
  obtain ⟨hasks, hspec⟩ := Bool.and_eq_true_iff.mp hf
  rcases hs.child_mem (by simpa using hspec) with ⟨hlenient, heq⟩ | ⟨slot, hslot, hmem⟩
  · rw [heq]
    exact .vacant hlenient
  · exact hs.usable hasks hslot hmem

theorem child (hs : S.Sound d t h s) (hf : needs t f = true) :
    S.Gives d pre (Convert.child s f) (Fact.held s f) :=
  (hs.usable_child hf).convertPart.imp fun _ _ _ _ hv => ⟨_, fills_child s f, hv⟩

theorem child? (hs : S.Sound d t h s) (hf : asks t f = true) :
    S.Gives d pre (Convert.child? s f) fun x => Fact.option (Fact.held s f) x := by
  unfold Convert.child? convertOption
  split
  · exact .pure fun _ _ _ => nofun
  · next c hc =>
    refine (hs.usable_child? hf c hc).convertPart.bind fun u => .pure fun V _ hu => ?_
    exact forall_mem_some ⟨c, fills_child? hc, hu.2⟩

theorem children (hs : S.Sound d t h s) (hf : asks t f = true) :
    S.Gives d pre (Convert.children s f) (Fact.all (Fact.held s f)) :=
  .mapM fun c hc _ => (hs.usable_children hf c hc).convertPart.imp fun _ _ _ _ hv =>
    ⟨c, fills_children hc, hv⟩

end Sound

end Survey

end Typeshift.Convert
