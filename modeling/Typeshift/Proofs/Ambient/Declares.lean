import Typeshift.Proofs.Ambient.Trait
import Typeshift.Proofs.Tree.Loaded
import Typeshift.Tree.Source

/-! # Where a declaration says that it is ambient

Outside of ambient contexts a declaration of the target says that it declares what is defined
elsewhere, and inside of them it does not repeat it. Every declaration that a conversion builds
comes from a node of the source, or declares the temporaries of a body. So it can be said of each
whether it says so: exactly if it comes from a node that declares, and that stands in no ambient
context.

* `Stands`: a node stands in a tree, inside of some contexts.
* `BuiltFrom`: what a node of the source becomes.
* `Accounts`: every declaration of a converted tree says that it is ambient if and only if it has
  to.
* `accounts_convert`: the ambient contexts are the bodies of declared modules, and declared default
  exports. -/

namespace Typeshift.Ambient

open Typeshift.Convert

/-! ### Places and origins -/

/-- **A node stands in a tree**, inside of some number of contexts that the fields on the way
open. -/
inductive Stands (opens : Head → Field → Bool) (a : Node) : Node → Nat → Prop where
  | here : Stands opens a a 0
  | within {h : Head} {s : Slots Unit} {f : Field} {slot : Slot Node} {c : Node} {d : Nat}
    (hslot : (f, slot) ∈ s) (hc : c ∈ slot.toList) (inner : Stands opens a c d) :
    Stands opens a (.mk () h s) (if opens h f then d + 1 else d)

/-- A part of a node stands where the field says. -/
theorem Stands.part {root t c : Node} {d : Nat} {f : Field} {slot : Slot Node}
    (ht : Stands encloses t root d) (hslot : (f, slot) ∈ t.slots) (hc : c ∈ slot.toList) :
    Stands encloses c root (depthAt d t.head f) := by
  induction ht with
  | here =>
    cases t
    exact .within hslot hc .here
  | @within h _ g _ _ d hslot' hc' _ ih =>
    have hswap : depthAt (if encloses h g then d + 1 else d) t.head f =
        if encloses h g then depthAt d t.head f + 1 else depthAt d t.head f := by
      unfold depthAt
      split_ifs <;> rfl
    rw [hswap]
    exact .within hslot' hc' ih

/-- **A node is built from a node of the source**: that becomes it in some state, up to its
comments, and gives it its span. -/
structure BuiltFrom (o u : Node) : Prop where
  result : ∃ st, ∃ v ∈ (convertStatements [o.annotate outcome] st).1, v.bare = u.bare
  span : ∀ span ∈ o.head.span, u.head.span = some span

theorem bare_attach (h : Head) (u : Node) : (Convert.attach h u).bare = u.bare := by
  simp [Convert.attach]

theorem BuiltFrom.attach {o u : Node} (hu : BuiltFrom o u) (h : Head) :
    BuiltFrom o (Convert.attach h u) := by
  obtain ⟨st, v, hv, hbare⟩ := hu.result
  refine ⟨⟨st, v, hv, hbare.trans (bare_attach h u).symm⟩, fun span hspan => ?_⟩
  have hkept := hu.span span hspan
  cases u
  show (_ <|> h.span) = some span
  rw [show _ = some span from hkept]
  rfl

theorem BuiltFrom.withComments {o u : Node} (hu : BuiltFrom o u) (c : Comments) :
    BuiltFrom o (u.withComments c) := by
  obtain ⟨st, v, hv, hbare⟩ := hu.result
  refine ⟨⟨st, v, hv, hbare.trans (u.bare_withComments c).symm⟩, fun span hspan => ?_⟩
  have hkept := hu.span span hspan
  cases u
  exact hkept

/-- **A declaration is accounted for**: it declares temporaries and does not say that it is ambient,
or it is built from a node of the source and says so exactly if that declares and stands in no
context. -/
inductive Accounted (opens : Head → Field → Bool) (root u : Node) : Prop where
  | temporaries (names : List String) (hu : u.bare = temporaryDeclaration names)
    (flag : u.head.flag .isDeclare = false)
  | source (o : Node) (d : Nat) (stands : Stands opens o root d) (built : BuiltFrom o u)
    (flag : u.head.flag .isDeclare = true ↔ o.head.isAny declareTags = true ∧ d = 0)

theorem Accounted.imp {opens : Head → Field → Bool} {root u v : Node} (hu : Accounted opens root u)
    (hbare : u.bare = v.bare) (hbuilt : ∀ o, BuiltFrom o u → BuiltFrom o v) :
    Accounted opens root v := by
  have hflag := Node.flag_eq_of_bare hbare .isDeclare
  rcases hu with ⟨names, hnames, hnone⟩ | ⟨o, d, hstands, ho, hiff⟩
  · exact .temporaries names (hbare.symm.trans hnames) (hflag.trans hnone)
  · exact .source o d hstands (hbuilt o ho) (by rwa [hflag])

/-- No declaration of a tree says that it is ambient. -/
def Unflagged (u : Node) : Prop :=
  Node.Each (fun a _ => a.head.isAny declarationTags = true → a.head.flag .isDeclare = false) u

/-- **Every declaration of a converted tree says that it is ambient if and only if it has to**, and
none in the body of a module does. -/
structure Accounts (opens : Head → Field → Bool) (t : Node) : Prop where
  declarations : ∀ {u o}, Occurs u t.convert.tree o → u.head.isAny declarationTags = true →
    Accounted opens t u
  modules : ∀ {m o}, Occurs m t.convert.tree o → m.head.is .tsModuleDeclaration = true →
    ∀ b ∈ m.slots.child? .body, Unflagged b

/-! ### Trees that are read -/

/-- **Every node of a tree that is read is one of the source.** -/
theorem isSource_of_load (v : Json) {t : Node} (h : Node.load v = .ok t) :
    t.Every fun h _ => IsSource h := by
  refine Node.load_induct (fun hkind hattrs _ => ?_) (fun htag _ hfilled => ?_) v h
  · refine .mk (fun t ht => ?_) nofun
    unfold Head.tag? at ht
    rw [hkind] at ht
    cases ht
  · refine .mk (fun t ht => ?_) (hfilled.forall_slotsOf _)
    cases ht
    have hin := List.find?_some htag
    rw [Bool.and_eq_true] at hin
    exact ⟨hin.2, hfilled.field_of_mem_attrsOf⟩

theorem isSource_head {t : Node} (ht : t.Every fun h _ => IsSource h) : IsSource t.head := by
  cases ht with
  | mk here _ => exact here

theorem isSource_part {t c : Node} (ht : t.Every fun h _ => IsSource h) {f : Field}
    {slot : Slot Node}
    (hslot : (f, slot) ∈ t.slots) (hc : c ∈ slot.toList) : c.Every fun h _ => IsSource h := by
  cases ht with
  | mk _ below => exact below c (Slots.mem_toList.mpr ⟨_, hslot, hc⟩)

/-! ### What is said of the nodes -/

theorem isAny_eq_false_of_plain {u : Node} (hu : Plain u) :
    u.head.isAny declarationTags = false := by
  cases h : u.head.isAny declarationTags with
  | false => rfl
  | true =>
    obtain ⟨t, ht, his⟩ := List.any_eq_true.mp h
    exact absurd ht (hu t (beq_iff_eq.mp his))

/-- What stands in an ambient context does not say so. -/
def unflagged : Trait where
  Source d t := 1 ≤ d ∧ t.Every fun h _ => IsSource h
  Ok u := u.head.isAny declarationTags = true → u.head.flag .isDeclare = false
  source ht := isSource_head ht.2
  part := by
    rintro d t f slot c ⟨hd, ht⟩ hslot hc
    refine ⟨?_, isSource_part ht hslot hc⟩
    unfold depthAt
    split_ifs <;> omega
  plain hu hany := by simp [isAny_eq_false_of_plain hu] at hany
  comments := by
    rintro ⟨⟩ c hu
    exact hu
  attach := by
    rintro ⟨⟩ h hu
    exact hu
  temporaries _ _ := rfl
  built := by
    rintro d t u ⟨hd, -⟩ hu -
    rw [hu.flag]
    simp [Nat.one_le_iff_ne_zero.mp hd]

/-- A declared module becomes a module whose body is converted inside of it. -/
theorem unflagged_body {t u : Node} (ht : t.Every fun h _ => IsSource h)
    (hmodule : t.head.is .declareModule = true) (st : State)
    (hu : u ∈ (convertStatements [t.annotate outcome] st).1) :
    ∀ b ∈ u.slots.child? .body, Unflagged b := by
  have hbody : unflagged.static.survey.Ready (st.depth + 1)
      ((t.annotate outcome).slots.child .body) := by
    cases hc : t.slots.child? .body with
    | none =>
      rw [Slots.child, Tree.child?_slots_annotate, hc]
      exact .vacant True.intro
    | some c =>
      rw [Tree.child_slots_annotate outcome hc]
      obtain ⟨slot, hslot, hmem⟩ := Slots.child?_mem_slot hc
      exact Survey.ready_annotate (S := unflagged.static.survey)
        ⟨Nat.le_add_left _ _, isSource_part ht hslot hmem⟩
  have hnot : (t.annotate outcome).head.is .declareModuleExports = false := by
    rw [Tree.head_annotate]
    unfold Head.is at hmodule ⊢
    rw [beq_iff_eq.mp hmodule]
    rfl
  have hrule : convertNode t.head (t.annotate outcome).slots =
      convertModule (t.annotate outcome).slots := by
    unfold convertNode
    rw [beq_iff_eq.mp hmodule]
    rfl
  rw [statements_of_not_exports hnot, convertPart, Tree.note_annotate] at hu
  obtain rfl : u = Convert.attach t.head (convertNode t.head (t.annotate outcome).slots st).1 :=
    List.mem_singleton.mp hu
  rw [hrule, Node.slots_eq_of_bare (bare_attach _ _).symm]
  rintro b ⟨⟩
  have hblock : unflagged.Good (Target.moduleBlock
      (convertStatements (moduleStatements (t.annotate outcome).slots)
        { st with depth := st.depth + 1 }).1) :=
    Trait.good_of (by decide) (.many (Trait.good_statements hbody) .nil)
  exact hblock.dress (not_mem_of_tag? rfl (by decide)) (by simp [atOrigin, moduleStatements])

/-- The body of a module says nowhere that it is ambient. -/
def moduleBodies : Trait where
  Source _ t := t.Every fun h _ => IsSource h
  Ok u := u.head.is .tsModuleDeclaration = true → ∀ b ∈ u.slots.child? .body, Unflagged b
  source ht := isSource_head ht
  part ht hslot hc := isSource_part ht hslot hc
  plain := by
    intro u hu his
    exact absurd (by decide) (hu _ (beq_iff_eq.mp his))
  comments := by
    rintro ⟨⟩ c hu
    exact hu
  attach := by
    rintro ⟨⟩ h hu
    exact hu
  temporaries _ := nofun
  built := by
    intro d t u ht hu his
    obtain ⟨st, hst, hresult⟩ := hu.result
    exact unflagged_body ht (hu.fromModule his) st hresult

/-- **Every declaration is accounted for.** -/
def accounted (root : Node) : Trait where
  Source d t := Stands encloses t root d ∧ t.Every fun h _ => IsSource h
  Ok u := u.head.isAny declarationTags = true → Accounted encloses root u
  source ht := isSource_head ht.2
  part ht hslot hc := ⟨ht.1.part hslot hc, isSource_part ht.2 hslot hc⟩
  plain hu hany := by simp [isAny_eq_false_of_plain hu] at hany
  comments := by
    intro u c hu hany
    have hbare := (u.bare_withComments c).symm
    rw [Node.isAny_eq_of_bare hbare] at hany
    exact (hu hany).imp hbare fun o ho => ho.withComments c
  attach := by
    intro u h hu hany
    have hbare := (bare_attach h u).symm
    rw [Node.isAny_eq_of_bare hbare] at hany
    exact (hu hany).imp hbare fun o ho => ho.attach h
  temporaries names _ := .temporaries names rfl rfl
  built := by
    rintro d t u ⟨hstands, -⟩ hu -
    obtain ⟨st, -, hresult⟩ := hu.result
    refine .source t d hstands ⟨⟨st, u, hresult, rfl⟩, fun span hspan => ?_⟩ ?_
    · rw [hu.span]
      exact hspan
    · rw [hu.flag]
      simp

/-- **`declare` appears exactly where it is needed.** A declaration of a converted tree says that it
is ambient if and only if it is built from a node that declares and that stands neither in the body
of a declared module nor in a declared default export. Nothing in the body of a module says so. -/
theorem accounts_convert {t : Node} (ht : t.Every fun h _ => IsSource h) : Accounts encloses t where
  declarations := fun {u o} hu => (accounted t).good_convert ⟨.here, ht⟩ u o hu
  modules := fun {m o} hm => moduleBodies.good_convert (t := t) ht m o hm

/-- `declare module m { declare module n { declare var a } declare var b }  declare var c`. -/
def nestedModules : Node :=
  let declared (name : String) : Node := .of .declareVariable [] [(.id, .one (Source.ident name))]
  let block (statements : List Node) : Node :=
    .of .blockStatement [] [(.directives, .many []), (.body, .many statements)]
  let moduleOf (name : String) (statements : List Node) : Node :=
    .of .declareModule [(.kind, .textOrNone none)]
      [(.id, .one (Source.ident name)), (.body, .one (block statements))]
  Source.program [moduleOf "m" [moduleOf "n" [declared "a"], declared "b"], declared "c"]

/-- The outer module and the variable after it say that they are ambient, and nothing else does. -/
theorem accounts_convert_nested : nestedModules.Every (fun h _ => IsSource h) ∧
    Accounts encloses nestedModules ∧
    ((nestedModules.convert.tree.preorder.filter (·.isAny declarationTags)).map
      fun h => (h.tag?, h.flag .isDeclare)) =
      [(some .tsModuleDeclaration, true), (some .tsModuleDeclaration, false),
        (some .variableDeclaration, false), (some .variableDeclaration, false),
        (some .variableDeclaration, true)] :=
  ⟨by decide, accounts_convert (by decide), by decide⟩

/-! ### The name of a module -/

/-- All of a declared module, its name as well as its body, and all of a declared default export. -/
def enclosesName (h : Head) (_ : Field) : Bool :=
  h.is .declareModule || h.is .declareExportDeclaration && h.flag .default

/-- A declared module that has `declare type A = string` in the place of its name. -/
def namedByAlias : Node :=
  .of .declareModule [(.kind, .textOrNone none)]
    [(.id, .one (Node.of .declareTypeAlias []
        [(.id, .one (Source.ident "A")), (.typeParameters, .maybe none),
          (.right, .one (Node.leaf .stringType))])),
      (.body, .one (Node.of .blockStatement [] [(.directives, .many []), (.body, .many [])]))]

/-- Only the module stands outside of what it encloses with its name. -/
theorem stands_namedByAlias {o : Node}
    (ho : Stands enclosesName o (Source.program [namedByAlias]) 0)
    (hdeclares : o.head.isAny declareTags = true) : o = namedByAlias := by
  generalize hd : 0 = d at ho
  cases ho with
  | here => cases hdeclares
  | @within h s f slot c d hslot hc inner =>
    obtain rfl : c = namedByAlias := List.mem_singleton.mp
      (show c ∈ Slots.toList (Source.program [namedByAlias]).slots from
        Slots.mem_toList.mpr ⟨_, hslot, hc⟩)
    cases inner with
    | here => rfl
    | within => cases hd

/-- **The name of a module is no ambient context**: what is declared there says that it is
ambient. -/
theorem not_accounts_enclosesName : (Source.program [namedByAlias]).Every (fun h _ => IsSource h) ∧
    ¬ Accounts enclosesName (Source.program [namedByAlias]) := by
  refine ⟨by decide, fun h => ?_⟩
  have halias : Head.ofTag .tsTypeAliasDeclaration [(.isDeclare, .flag true)] ∈
      (Source.program [namedByAlias]).convert.tree.preorder := .tail _ (.tail _ List.mem_cons_self)
  obtain ⟨u, o, hu, hhead⟩ := exists_occurs_of_mem_preorder halias
  have haccounted := h.declarations hu (by rw [hhead]; rfl)
  rcases haccounted with ⟨names, hnames, -⟩ | ⟨o, d, hstands, hbuilt, hflag⟩
  · have htag : u.head.tag? = some .variableDeclaration :=
      Node.tag?_eq_of_bare (t := temporaryDeclaration names) hnames.symm
    rw [hhead] at htag
    cases htag
  · rw [hhead] at hflag
    obtain ⟨hdeclares, rfl⟩ := hflag.mp rfl
    obtain rfl := stands_namedByAlias hstands hdeclares
    obtain ⟨st, v, hv, hbare⟩ := hbuilt.result
    obtain rfl : v = _ := List.mem_singleton.mp hv
    have htag := Node.tag?_eq_of_bare hbare
    rw [hhead] at htag
    cases htag

end Typeshift.Ambient
