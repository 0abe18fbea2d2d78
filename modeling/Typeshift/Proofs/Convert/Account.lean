import Typeshift.Proofs.Convert.Inherits
import Typeshift.Proofs.Convert.Rebuilt
import Typeshift.Proofs.Convert.Static

/-! # Accounts of a conversion

What a conversion makes is spread over its state and the trees it builds: a reported node stands in
one and its diagnostic in the other, an assignment here and the declaration of its target there. An
*account* keeps notes beside the state, says what must hold of both, and a condition on every node
that is built. The condition may only refer to what later steps do not take back, so that what was
said of a tree stays true while the conversion goes on: parts that are converted twice, or converted
and then dropped, make no difference.

* `Account`: notes, an invariant, and a condition that the elementary steps keep up.
* `Account.view`: what is known of the answers of parts, from the state and the notes.
* `Account.Fine`, `Account.Whole`: what is said of a built tree.
* `Account.convertTree`: the conversion of a source tree keeps the account. -/

namespace Typeshift.Convert

/-- The declarator of a temporary. -/
def temporaryDeclarator (name : String) : Node :=
  Target.declarator (Target.param name (some (Target.ascribe Target.any)) false) none

/-- A block has a list of statements, and an access has an object and a property. -/
structure Formed (t : Node) : Prop where
  block : t.head.is .blockStatement = true → ∃ cs, t.slots.get? .body = some (.many cs)
  access : t.head.is .memberExpression = true →
    (t.slots.child? .object).isSome = true ∧ (t.slots.child? .property).isSome = true

/-- A body made by declaring temporaries, and what was converted for it. -/
inductive Encloses (names : List String) : List Node → Body → Prop where
  | function {x : Node} (formed : Formed x) :
      Encloses names [x] (.function (declareInBody names x))
  | program (xs : List Node) : Encloses names xs (.program (declareInProgram names xs))

/-- The constructs whose nodes are not all alike: assignments and declarations of variables may be
made for temporaries, and exports as a whole are always made. -/
def watched : List Tag :=
  [.assignmentExpression, .variableDeclaration, .variableDeclarator, .tsExportAssignment]

/-- **An account of a conversion**, with notes of type `Γ`. -/
structure Account (Γ : Type) where
  /-- What holds of the state and the notes. -/
  Inv : State → Γ → Prop
  /-- How the state and the notes may change. -/
  Le : State → Γ → State → Γ → Prop
  /-- The source trees of the account. -/
  source : Node → Prop
  /-- The names that the source trees mention. -/
  mentioned : String → Prop
  /-- Whether source trees may have optional chains. -/
  chains : Prop
  /-- What is said of a node, given the nearest body around it. -/
  Ok : State → Γ → Node → Option Body → Prop
  refl : ∀ st g, Le st g st g
  trans : ∀ {st₁ g₁ st₂ g₂ st₃ g₃}, Le st₁ g₁ st₂ g₂ → Le st₂ g₂ st₃ g₃ → Le st₁ g₁ st₃ g₃
  lasts : ∀ {st st' : State} {g g' : Γ} {a o}, Le st g st' g' → Ok st g a o → Ok st' g' a o
  dress : ∀ {st : State} {g : Γ} {o} {a a' : Node}, a.bare = a'.bare → Ok st g a o → Ok st g a' o
  fits : ∀ {t}, source t → Fits .source t.head t.slots
  parts : ∀ {t}, source t → ∀ c ∈ t.slots.toList, source c
  name : ∀ {t n}, source t → t.head.identifier? = some n → mentioned n
  chain : ∀ {t}, source t →
    t.head.isAny [.optionalMemberExpression, .optionalCallExpression] = true → chains
  report : ∀ {st : State} {g : Γ} (d : Diagnostic), Inv st g →
    Inv { st with diagnostics := st.diagnostics ++ [d] } g ∧
      Le st g { st with diagnostics := st.diagnostics ++ [d] } g
  ambient : ∀ {st : State} {g : Γ} (d : Nat), Inv st g → Inv { st with depth := d } g
  ambient_le : ∀ {st st' : State} {g g' : Γ} (d e : Nat), Le { st with depth := d } g st' g' →
    Le st g { st' with depth := e } g'
  enter : ∀ {st : State} {g : Γ}, Inv st g → Inv { st with scopes := [] :: st.scopes } g
  /-- Leaving a body: its temporaries are declared in it. -/
  leave : ∀ {st st' : State} {g g' : Γ} {xs : List Node} {B : Body}, Inv st g → Inv st' g' →
    Le { st with scopes := [] :: st.scopes } g st' g' →
    Encloses (st'.scopes.headD []) xs B → (∀ x ∈ xs, Node.Each (Ok st' g') x) →
    ∃ g'', Inv { st' with scopes := st'.scopes.tail } g'' ∧
      Le st g { st' with scopes := st'.scopes.tail } g'' ∧
      (∀ a o, Ok st' g' a o → Ok { st' with scopes := st'.scopes.tail } g'' a (o.or (some B))) ∧
      Ok { st' with scopes := st'.scopes.tail } g''
        (temporaryDeclaration (st'.scopes.headD [])) (some B) ∧
      ∀ n ∈ st'.scopes.headD [],
        Ok { st' with scopes := st'.scopes.tail } g'' (temporaryDeclarator n) (some B)
  /-- A fresh temporary, which any value may be assigned to. -/
  temporary : ∀ {st : State} {g : Γ}, chains → Inv st g → ∃ g', Inv (freshTemporary st).2 g' ∧
    Le st g (freshTemporary st).2 g' ∧
    ∀ v, Ok (freshTemporary st).2 g' (Target.assign (Target.ident (freshTemporary st).1) v) none
  /-- A fresh name for what a module exports. -/
  exports : ∀ {st : State} {g : Γ}, Inv st g → ∃ g', Inv (freshName exportsBase st).2 g' ∧
    Le st g (freshName exportsBase st).2 g' ∧ ∀ o,
      (∀ ty b, Ok (freshName exportsBase st).2 g'
        (exportsDeclaration (freshName exportsBase st).1 ty b) o) ∧
      (∀ ty, Ok (freshName exportsBase st).2 g'
        (Target.declarator (Target.param (freshName exportsBase st).1 (some ty) false) none) o) ∧
      Ok (freshName exportsBase st).2 g'
        (Target.exportAssignment (Target.ident (freshName exportsBase st).1)) o
  /-- What is made of a construct of the source that is passed through. -/
  unsupported : ∀ {st : State} {g : Γ} {h : Head} {s : Slots Unit} (o : Option Body),
    source (.mk () h s) →
    Ok { st with diagnostics := st.diagnostics ++ [passedDiagnostic h] } g (passed h) o
  plain : ∀ {st : State} {g : Γ} {o : Option Body} (t : Tag) attrs s, t ∉ watched →
    Ok st g (.of t attrs s) o
  /-- A declarator of a name that the source mentions. -/
  declarator : ∀ {st : State} {g : Γ} {o : Option Body} {attrs} {s : Slots Unit},
    (∀ c n, s.child? .id = some c → c.head.identifier? = some n → mentioned n) →
    Ok st g (.of .variableDeclarator attrs s) o
  /-- What is made of an assignment or a declaration of the source. -/
  origin : ∀ {st : State} {g : Γ} {o : Option Body} {h : Head} {s : Slots Unit} st₀,
    source (.mk () h s) → h.isAny origins = true →
    Ok st g (convertNode h (Tree.annotateSlots outcome s) st₀).1 o

namespace Account

variable {Γ : Type} (A : Account Γ)

/-! ### Trees -/

/-- Every node of a tree is fine. -/
def Fine (st : State) (g : Γ) (t : Node) : Prop := Node.Each (A.Ok st g) t

/-- A node is fine inside of a body. -/
def FineIn (st : State) (g : Γ) (B : Body) (t : Node) : Prop :=
  Node.Each (fun a o => A.Ok st g a (o.or (some B))) t

/-- **A tree can stand anywhere**: it is formed, and is no identifier with a name of its own. -/
structure Upright (t : Node) : Prop where
  formed : Formed t
  named : ∀ n, t.head.identifier? = some n → A.mentioned n

/-- Every node of a tree is fine, and the tree can stand anywhere. -/
structure Whole (st : State) (g : Γ) (t : Node) : Prop where
  upright : A.Upright t
  fine : A.Fine st g t

/-- What is known of the answers of parts, from the state and the notes. -/
def view (st : State) (g : Γ) : View where
  convert _ v := A.Whole st g v
  chain _ x := A.Whole st g x.1 ∧ ∀ u ∈ x.2, A.Fine st g u
  access _ x := A.Fine st g x.1
  entity _ v := A.Fine st g v
  exported _ v := A.Fine st g v
  body _ v := A.FineIn st g (.function v) v
  program _ vs := ∀ v ∈ vs, A.FineIn st g (.program vs) v
  temporary n := ∀ v, A.Ok st g (Target.assign (Target.ident n) v) none
  exports n := ∀ o, (∀ ty b, A.Ok st g (exportsDeclaration n ty b) o) ∧
    (∀ ty, A.Ok st g (Target.declarator (Target.param n (some ty) false) none) o) ∧
    A.Ok st g (Target.exportAssignment (Target.ident n)) o
  refused h := ∀ o, A.Ok st g (passed h) o

variable {A}

section Trees

variable {st st' : State} {g g' : Γ} {t u v : Node} {us : List Node} {tag : Tag}
  {attrs : List (Field × Attr)} {s : Slots Unit} {d : Nat} {h : Head} {f : Field}

theorem Fine.imp (hu : A.Fine st g u) (hle : A.Le st g st' g') : A.Fine st' g' u :=
  Node.Each.imp hu fun _ _ ha => A.lasts hle ha

theorem Whole.imp (hu : A.Whole st g u) (hle : A.Le st g st' g') : A.Whole st' g' u :=
  ⟨hu.upright, hu.fine.imp hle⟩

/-- What was known stays known. -/
theorem view_le (hle : A.Le st g st' g') : View.Le (A.view st g) (A.view st' g') where
  convert hv := hv.imp hle
  chain hx := ⟨hx.1.imp hle, fun u hu => (hx.2 u hu).imp hle⟩
  access hx := Fine.imp hx hle
  entity hv := Fine.imp hv hle
  exported hv := Fine.imp hv hle
  body hv := Node.Each.imp hv fun _ _ ha => A.lasts hle ha
  program hvs v hv := (hvs v hv).imp fun _ _ ha => A.lasts hle ha
  temporary hn v := A.lasts hle (hn v)
  exports hn o := ⟨fun ty b => A.lasts hle ((hn o).1 ty b), fun ty => A.lasts hle ((hn o).2.1 ty),
    A.lasts hle (hn o).2.2⟩
  refused hh o := A.lasts hle (hh o)

/-- Fine nodes make a fine node, if it is not a watched one and has no body. -/
theorem fine_of (hb : tag.hasBody = false) (hw : tag ∉ watched) (hs : Holds (A.Fine st g) s) :
    A.Fine st g (.of tag attrs s) := Node.each_of hb (A.plain _ _ _ hw) hs

theorem Fine.dress (hu : A.Fine st g u) (hbare : u.bare = v.bare) : A.Fine st g v :=
  Node.Each.dress (P := A.Ok st g) (fun _ _ _ => A.dress) hbare hu

theorem Upright.dress (hu : A.Upright u) (hbare : u.bare = v.bare) : A.Upright v := by
  refine ⟨⟨fun hb => ?_, fun hm => ?_⟩, fun n hn => ?_⟩
  · rw [Node.slots_eq_of_bare hbare]
    exact hu.formed.block (Node.is_eq_of_bare hbare _ ▸ hb)
  · rw [Node.slots_eq_of_bare hbare]
    exact hu.formed.access (Node.is_eq_of_bare hbare _ ▸ hm)
  · exact hu.named n (Node.identifier?_eq_of_bare hbare ▸ hn)

/-- The constructs that have a form, or a name. -/
def shapedTags : List Tag := [.blockStatement, .memberExpression, .identifier]

theorem upright_of_tag (ht : ∀ tag ∈ u.head.tag?, tag ∉ shapedTags) : A.Upright u := by
  have hnot {tag : Tag} (htag : tag ∈ shapedTags) : u.head.is tag = false := by
    cases his : u.head.is tag with
    | false => rfl
    | true => exact absurd htag (ht tag (beq_iff_eq.mp his))
  refine ⟨⟨fun hb => ?_, fun hm => ?_⟩, fun n hn => ?_⟩
  · cases (hnot (by decide)).symm.trans hb
  · cases (hnot (by decide)).symm.trans hm
  · exact absurd (by decide) (ht _ (Head.tag?_of_identifier? hn))

theorem upright_of (ht : tag ∉ shapedTags) : A.Upright (.of tag attrs s) :=
  upright_of_tag (Ambient.not_mem_of_tag? rfl ht)

theorem upright_member (a b : Node) (isComputed : Bool) :
    A.Upright (Target.member a b isComputed) :=
  ⟨⟨nofun, fun _ => ⟨rfl, rfl⟩⟩, nofun⟩

/-- The object and the property of an access are fine. -/
theorem Whole.piece (hu : A.Whole st g u) (hm : u.head.is .memberExpression = true)
    (hf : f ∈ [Field.object, .property]) : A.Fine st g (u.slots.child f) := by
  have hpart {f : Field} (hf : f ≠ .body) (hsome : (u.slots.child? f).isSome = true) :
      A.Fine st g (u.slots.child f) := by
    obtain ⟨c, hc⟩ := Option.isSome_iff_exists.mp hsome
    obtain ⟨slot, hslot, hmem⟩ := Slots.child?_mem_slot hc
    unfold Slots.child
    rw [hc]
    exact Node.Each.child hu.fine hslot (.inl hf) hmem
  obtain ⟨ho, hp⟩ := hu.upright.formed.access hm
  rcases List.mem_pair.mp hf with rfl | rfl
  · exact hpart (by decide) ho
  · exact hpart (by decide) hp

/-- Fine answers make fine nodes. -/
theorem inherits : Inherits (A.view st g) (A.Fine st g) where
  convert hv := hv.fine
  exported hv := hv
  chain hx := ⟨hx.1.fine, hx.2⟩
  piece hx hm hk := hx.1.piece hm hk
  access hx := by
    unfold baseOf
    split_ifs
    · exact Fine.dress hx (by simp)
    · exact hx
  entity hv := hv
  taken hv hu := by
    obtain ⟨slot, hslot, hmem⟩ := Slots.children_mem_slot hu
    exact Node.Each.child hv.fine hslot (.inl (by decide)) hmem
  node {t _ _} ht hs := by
    have hplain : ∀ t ∈ builtTags, t.hasBody = false ∧ t ∉ watched := by decide
    exact fine_of (hplain t ht).1 (hplain t ht).2 hs
  member ha hb _ := fine_of rfl (by decide) (.one ha (.one hb .nil))
  cast he hty _ :=
    fine_of rfl (by decide) (.one (fine_of rfl (by decide) (.one he (.one hty .nil))) .nil)
  assign hn hv :=
    Node.each_of rfl (hn _) (Holds.one (fine_of rfl (by decide) (.none .nil)) (.one hv .nil))
  declarator {_ v} hv := by
    refine Node.each_of rfl (A.declarator fun c n hc => ?_) (Holds.one hv.fine (.none .nil))
    cases hc
    exact hv.upright.named n
  dress _ hbare hu := hu.dress hbare
  comments c hu := hu.dress (by simp)

end Trees

/-! ### Bodies -/

/-- Temporaries may be declared in a body, if their declarations are fine there. -/
theorem wraps {st : State} {g : Γ} {B : Body} {names : List String}
    (hdeclaration : A.Ok st g (temporaryDeclaration names) (some B))
    (hdeclarator : ∀ n ∈ names, A.Ok st g (temporaryDeclarator n) (some B)) :
    Wraps names (A.FineIn st g B) := by
  have hplain {tag : Tag} {attrs : List (Field × Attr)} {s : Slots Unit} (hb : tag.hasBody = false)
      (hw : tag ∉ watched) (hs : Holds (A.FineIn st g B) s) : A.FineIn st g B (.of tag attrs s) :=
    Node.each_of hb (A.plain _ _ _ hw) hs
  have hdress {u v : Node} (hbare : u.bare = v.bare) (hu : A.FineIn st g B u) : A.FineIn st g B v :=
    Node.Each.dress (P := fun a o => A.Ok st g a (o.or (some B))) (fun _ _ _ => A.dress) hbare hu
  refine ⟨⟨?_, fun c hu => hdress (by simp) hu⟩, fun {t _} ht hs => ?_, fun {u s} hb _ hs => ?_,
    fun {u} hb hu c hc => ?_⟩
  · refine Node.each_of rfl hdeclaration (Holds.many (fun c hc => ?_) .nil)
    obtain ⟨n, hn, rfl⟩ := List.mem_map.mp hc
    have hany : A.FineIn st g B Target.any := hplain rfl (by decide) .nil
    have hty : A.FineIn st g B (Target.ascribe Target.any) :=
      hplain rfl (by decide) (.one hany .nil)
    exact Node.each_of rfl (hdeclarator n hn)
      (Holds.one (hplain rfl (by decide) (.some hty .nil)) (.none .nil))
  · have hall : ∀ t ∈ [Tag.blockStatement, .returnStatement], t.hasBody = false ∧ t ∉ watched := by
      decide
    exact hplain (hall t ht).1 (hall t ht).2 hs
  · exact hdress (Node.bare_of (beq_iff_eq.mp hb) s) (hplain rfl (by decide) hs)
  · obtain ⟨e, he, hc⟩ := Slots.mem_toList.mp hc
    exact Node.Each.child hu he (.inr (by rw [beq_iff_eq.mp hb]; rfl)) hc

/-! ### Steps -/

/-- **A step that keeps the account**: it keeps the invariant and changes nothing but what may
change, and what it gives has a lasting property, given another one. -/
def Gives (A : Account Γ) {α : Type} (d : Nat) (pre : Fact) (p : Pass α) (post : α → Fact) : Prop :=
  ∀ st g, st.depth = d → A.Inv st g → pre.At (A.view st g) →
    ∃ g', (p st).2.depth = d ∧ A.Inv (p st).2 g' ∧ A.Le st g (p st).2 g' ∧
      (post (p st).1).At (A.view (p st).2 g')

/-- The logic of an account. -/
def logic (A : Account Γ) : Logic where
  World V := ∃ st g, V = A.view st g
  Gives := A.Gives
  pure hQ st g hd hinv hpre := ⟨g, hd, hinv, A.refl st g, hQ _ ⟨st, g, rfl⟩ hpre⟩
  bind {_ _ _ pre _ _ _ _} hp hf st g hd hinv hpre := by
    obtain ⟨g₁, hd₁, hinv₁, hle₁, ha⟩ := hp st g hd hinv hpre
    obtain ⟨g₂, hd₂, hinv₂, hle₂, hb⟩ := hf _ _ g₁ hd₁ hinv₁ ⟨pre.lasts (view_le hle₁) hpre, ha⟩
    exact ⟨g₂, hd₂, hinv₂, A.trans hle₁ hle₂, hb⟩
  ran hp st g hd hinv hpre := by
    obtain ⟨g', hd', hinv', hle, ha⟩ := hp st g hd hinv hpre
    exact ⟨g', hd', hinv', hle, ⟨st, hd, rfl⟩, ha⟩
  declares st g hd hinv _ := ⟨g, hd, hinv, A.refl st g, by rw [← hd]; rfl, True.intro⟩
  inAmbient {_ d _ p Q} hp st g hd hinv _ := by
    obtain ⟨g', hd', hinv', hle, ha⟩ := hp .none { st with depth := st.depth + 1 } g
      (congrArg (· + 1) hd) (A.ambient _ hinv) True.intro
    refine ⟨g', congrArg (· - 1) hd', A.ambient _ hinv', A.ambient_le _ _ hle, (Q _).lasts ?_ ha⟩
    exact view_le (A.ambient_le (p { st with depth := st.depth + 1 }).2.depth _ (A.refl _ g'))

section Steps

variable {d : Nat} {pre : Fact} {p : Part} {ps : List Part}

theorem gives_report (f : Finding) (h : Head) (args : List String) :
    A.Gives d pre (Convert.report f h args) fun _ => .none := by
  intro st g hd hinv _
  obtain ⟨hinv', hle⟩ := A.report (.ofFinding f h.span args) hinv
  exact ⟨g, hd, hinv', hle, True.intro⟩

/-- A function body is fine. -/
theorem gives_functionBody (hp : ∀ pre, A.Gives d pre (convertPart p) (.convert p)) :
    A.Gives d pre (functionBody p) (.body p) := by
  intro st g hd hinv _
  obtain ⟨g', hd', hinv', hle, hx⟩ :=
    hp .none { st with scopes := [] :: st.scopes } g hd (A.enter hinv) True.intro
  obtain ⟨g'', hinv'', hle', hmove, hdeclaration, hdeclarator⟩ := A.leave hinv hinv' hle
    (.function hx.upright.formed) (List.forall_mem_singleton.mpr hx.fine)
  refine ⟨g'', hd', hinv'', hle', (wraps hdeclaration hdeclarator).declareInBody ?_⟩
  exact Node.Each.imp hx.fine hmove

theorem fine_becomes {st : State} {g : Γ} {v : Node}
    (hv : (Fact.becomes ps v).At (A.view st g)) : A.Fine st g v := by
  obtain ⟨c, -, hv | hv⟩ := hv
  · exact hv.fine
  · exact hv

/-- The statements of a program are fine. -/
theorem gives_programBody
    (hp : ∀ pre, A.Gives d pre (convertStatements ps) (.all (.becomes ps))) :
    A.Gives d pre (programBody ps) (.program ps) := by
  intro st g hd hinv _
  obtain ⟨g', hd', hinv', hle, hbecomes⟩ :=
    hp .none { st with scopes := [] :: st.scopes } g hd (A.enter hinv) True.intro
  have hxs := fun x hx => fine_becomes (hbecomes x hx)
  obtain ⟨g'', hinv'', hle', hmove, hdeclaration, hdeclarator⟩ :=
    A.leave hinv hinv' hle (.program _) hxs
  refine ⟨g'', hd', hinv'', hle', (wraps hdeclaration hdeclarator).declareInProgram ?_⟩
  exact fun x hx => Node.Each.imp (hxs x hx) hmove

end Steps

/-! ### What the rules make -/

section Made

variable {st st' st₀ : State} {g : Γ} {d : Nat} {h : Head} {s : Slots Outcome} {t : Tag} {f : Field}
  {v : Node}

/-- **What declares nothing** can stand anywhere. -/
theorem upright_simple (hv : Simple (A.view st g) h s v) : A.Upright v := by
  induction hv with
  | node htag hname _ =>
    have hplain : ∀ t ∈ plainTags, t ≠ .identifier → t ∉ shapedTags := by decide
    exact upright_of (hplain _ htag hname)
  | member _ _ isComputed => exact upright_member _ _ isComputed
  | cast => exact upright_of (by decide)
  | dress _ _ hbare ih => exact ih.dress hbare
  | wrap _ _ ih => exact ih.dress (by simp)
  | type _ _ hv | typeBelow _ _ _ hv =>
    obtain ⟨c, -, hv⟩ := hv
    exact hv.upright
  | intersect _ ih =>
    unfold Convert.intersect
    split
    · exact ih _ List.mem_cons_self
    · exact upright_of (by decide)
  | _ => exact upright_of (by decide)

theorem whole_simple (hv : Simple (A.view st g) h s v) : A.Whole st g v :=
  ⟨upright_simple hv, inherits.simple hv⟩

/-- A block of the source has a list of statements, and an access its object and its property. -/
theorem upright_shared (hstems : Stems (fun _ => A.source) d h s) (ht : h.tag? = some t)
    (st : State) : A.Upright (convertShared t h s st).1 := by
  obtain ⟨s₀, rfl, hsource⟩ := hstems
  have hfits : Fits .source h s₀ := A.fits hsource
  have hannotated {f : Field} {slot : Slot Node} (hslot : s₀.get? f = some slot) :
      (Tree.annotateSlots outcome s₀).get? f = some (slot.map (Tree.annotate outcome)) := by
    rw [Slots.annotateSlots_eq_mapTrees, Slots.get?_mapTrees, hslot]
    rfl
  refine ⟨⟨fun hb => ?_, fun hm => ?_⟩, fun n hn => ?_⟩
  · cases of_decide_eq_true hb
    have hspec : FieldSpec.many .body ∈ Tag.blockStatement.fields .source := by decide
    obtain ⟨cs, hcs⟩ := hfits.many ht hspec rfl
    obtain ⟨st', hget⟩ := get?_convertShared (.inl ⟨rfl, rfl⟩) st
    rw [convertSlot_eq (hannotated (f := .body) hcs) rfl rfl] at hget
    exact ⟨_, hget⟩
  · cases of_decide_eq_true hm
    have hchild {f : Field} (hspec : FieldSpec.one f ∈ Tag.memberExpression.fields .source) :
        ((Tree.annotateSlots outcome s₀).child? f).isSome = true := by
      rw [Slots.child?_annotateSlots, Option.isSome_map]
      exact hfits.hasRequired _ ht _ hspec rfl rfl
    exact ⟨child?_convertShared h (.inl rfl) (hchild (by decide)) st,
      child?_convertShared h (.inr rfl) (hchild (by decide)) st⟩
  · by_cases hi : t = .identifier
    · subst hi
      exact A.name hsource ((identifier?_convertShared ht st).symm.trans hn)
    · have hnone :
          (convertShared t h (Tree.annotateSlots outcome s₀) st).1.head.identifier? = none :=
        if_neg fun his => hi (Option.some.inj (beq_iff_eq.mp his))
      cases hnone.symm.trans hn

/-- What a field of a construct of both vocabularies holds is fine where it stands. -/
theorem fine_filled {slot : Slot Node} (hslot : Filled (A.view st g) t s f slot) {c : Node}
    (hc : c ∈ slot.toList) :
    Node.Each (fun a o => A.Ok st g a (o.or (bodyAt (some t) f slot c))) c := by
  cases hslot with
  | empty => cases hc
  | parts hbody hus =>
    have hnone : bodyAt (some t) f slot c = none := by
      by_cases hf : f = .body
      · obtain ⟨hprogram, hscope⟩ := hbody hf
        rw [hasScope_eq] at hscope
        simp [bodyAt, hf, hscope, hprogram]
      · exact bodyAt_of_ne hf _ _
    obtain ⟨k, -, hk⟩ := hus c hc
    rw [hnone]
    exact Node.Each.imp hk.fine fun a o ha => by rwa [Option.or_none]
  | bodies ht hf hus =>
    subst hf
    have hfunction : (some t).any Tag.isFunction = true := by
      rw [hasScope_eq] at ht
      exact ht
    have hbody : bodyAt (some t) .body slot c = some (.function c) := by
      simp [bodyAt, hfunction]
    obtain ⟨k, -, hk⟩ := hus c hc
    rw [hbody]
    exact hk
  | statements ht hf _ hus =>
    subst ht hf
    exact hus c hc

/-- **A construct of both vocabularies is fine**, if one of the source becomes it. -/
theorem fine_shared (hstems : Stems (fun _ => A.source) d h s) (ht : h.tag? = some t)
    (hu : (convertNode h s st₀).1 = (convertShared t h s st).1)
    (hslots : ∀ e ∈ (convertShared t h s st).1.slots, Filled (A.view st' g) t s e.1 e.2) :
    A.Fine st' g (convertShared t h s st).1 := by
  refine Node.each_mk ?_ fun f slot hslot c hc => fine_filled (hslots (f, slot) hslot) hc
  by_cases hd : t = .variableDeclarator
  · subst hd
    refine A.declarator fun c n hc hn => ?_
    obtain ⟨slot, hslot, hmem⟩ := Slots.child?_mem_slot hc
    obtain ⟨k, -, hk⟩ := (hslots _ hslot).held (show Field.id ≠ .body by decide) c hmem
    exact hk.upright.named n hn
  by_cases hw : t ∈ watched
  · obtain ⟨s₀, rfl, hsource⟩ := hstems
    have horigins : ∀ t ∈ watched, t ≠ .variableDeclarator → t ∈ origins := by decide
    have hok : A.Ok st' g (convertNode h (Tree.annotateSlots outcome s₀) st₀).1 none :=
      A.origin st₀ hsource (isAny_of_tag ht (horigins t hw hd))
    rwa [hu] at hok
  · exact A.plain _ _ _ hw

/-- **What is made of a construct of the source** is fine, and can stand anywhere. -/
theorem whole_made (hstems : Stems (fun _ => A.source) d h s)
    (hmade : Made (A.view st' g) d h s (convertNode h s st₀).1) :
    A.Whole st' g (attach h (convertNode h s st₀).1) := by
  have hbare (u : Node) : u.bare = (attach h u).bare := by simp [attach]
  suffices hwhole : A.Whole st' g (convertNode h s st₀).1 from
    ⟨hwhole.upright.dress (hbare _), hwhole.fine.dress (hbare _)⟩
  generalize hu : (convertNode h s st₀).1 = u at hmade ⊢
  cases inherits.outline hmade with
  | simple hsimple hfine => exact ⟨upright_simple hsimple, hfine⟩
  | @declaration tag t attrs slots hrule ht _ hslots =>
    have hrules : ∀ r ∈ declarationRules, r.1 ∉ shapedTags ∧ r.1.hasBody = false ∧
        (r.1 ∈ watched → r.2 ∈ origins) := by decide
    obtain ⟨hshaped, hbody, horigin⟩ := hrules _ hrule
    refine ⟨upright_of hshaped, Node.each_of hbody ?_ hslots⟩
    by_cases hw : tag ∈ watched
    · obtain ⟨s₀, rfl, hsource⟩ := hstems
      rw [← hu]
      exact A.origin st₀ hsource (isAny_of_tag (beq_iff_eq.mp ht) (horigin hw))
    · exact A.plain _ _ _ hw
  | passed hh => exact ⟨upright_of_tag nofun, Node.each_mk (hh none) nofun⟩
  | shared ht _ st hslots =>
    exact ⟨upright_shared hstems (beq_iff_eq.mp ht) st,
      fine_shared hstems (beq_iff_eq.mp ht) hu hslots⟩

/-- What stands for what a module exports is fine. -/
theorem fine_exported (hv : Exported (A.view st g) d h s v) : A.Fine st g v := by
  cases hv with
  | @constant name ty hname hty =>
    obtain ⟨hdeclaration, hdeclarator, -⟩ := hname none
    have hparam : A.Fine st g (Target.param name (some (Target.ascribe ty)) false) :=
      inherits.param (inherits.ascribe (inherits.held hty)) name false
    have hone : A.Fine st g
        (Target.declarator (Target.param name (some (Target.ascribe ty)) false) none) :=
      Node.each_of rfl (hdeclarator _) (Holds.one hparam (.none .nil))
    have hconstant : A.Fine st g (exportsDeclaration name (Target.ascribe ty) (d == 0)) :=
      Node.each_of rfl (hdeclaration _ _) (Holds.many (List.forall_mem_singleton.mpr hone) .nil)
    exact hconstant.dress (by simp [atOrigin])
  | @assignment name hname =>
    have hassignment : A.Fine st g (Target.exportAssignment (Target.ident name)) :=
      Node.each_of rfl (hname none).2.2 (Holds.one (inherits.ident name) .nil)
    exact hassignment.dress (by simp)

end Made

/-! ### Whole trees -/

/-- An account, said of what becomes of the source trees. -/
def survey (A : Account Γ) : Survey where
  toLogic := A.logic
  Source _ := A.source
  Speaks _ := True
  lenient := False
  part ht hslot hc := A.parts ht _ (Slots.mem_toList.mpr ⟨_, hslot, hc⟩)
  required ht := .inr (A.fits ht).hasRequired
  vacant := False.elim
  speaks _ _ _ _ _ := True.intro
  speaks_statement _ _ _ _ _ := True.intro
  report h args _ := gives_report _ h args
  drop _ _ _ _ _ := gives_report _ _ _
  refuse hstems _ _ st g hd hinv _ := by
    obtain ⟨s₀, -, hsource⟩ := hstems
    obtain ⟨hinv', hle⟩ := A.report (passedDiagnostic _) hinv
    exact ⟨g, hd, hinv', hle, rfl, fun o => A.unsupported o hsource⟩
  temporary hstems hlink st g hd hinv _ := by
    obtain ⟨s₀, -, hsource⟩ := hstems
    obtain ⟨g', hinv', hle, hassign⟩ := A.temporary (A.chain hsource hlink) hinv
    exact ⟨g', hd, hinv', hle, hassign⟩
  exports st g hd hinv _ := by
    obtain ⟨g', hinv', hle, hexports⟩ := A.exports hinv
    exact ⟨g', hd, hinv', hle, hexports⟩
  body := gives_functionBody
  program := gives_programBody
  convert hstems _ hV _ hmade := by
    obtain ⟨st, g, rfl⟩ := hV
    exact whole_made hstems hmade
  chain _ _ hV hx hg := by
    obtain ⟨st, g, rfl⟩ := hV
    exact ⟨whole_simple hx, fun u hu => inherits.composed (hg u hu)⟩
  access _ _ hV ha hb := by
    obtain ⟨st, g, rfl⟩ := hV
    exact fine_of rfl (by decide) (.one (inherits.composed ha) (.one (inherits.composed hb) .nil))
  entity _ _ hV ha hb := by
    obtain ⟨st, g, rfl⟩ := hV
    exact Fine.dress (inherits.member (inherits.composed ha) (inherits.composed hb) false) (by simp)
  chain_of hV _ hv := by
    obtain ⟨st, g, rfl⟩ := hV
    exact ⟨hv, nofun⟩
  access_of hV _ hv := by
    obtain ⟨st, g, rfl⟩ := hV
    exact hv.fine
  entity_of hV _ hv := by
    obtain ⟨st, g, rfl⟩ := hV
    exact hv.fine
  exported _ _ hV _ _ hmade := by
    obtain ⟨st, g, rfl⟩ := hV
    exact fine_exported hmade

/-- **The conversion of a source tree keeps the account**, and the converted tree is fine. -/
theorem convertTree (A : Account Γ) {t : Node} (ht : A.source t) (st : State) {g : Γ}
    (hinv : A.Inv st g) : ∃ g', A.Inv (Convert.convertTree t st).2 g' ∧
      A.Le st g (Convert.convertTree t st).2 g' ∧
      A.Whole (Convert.convertTree t st).2 g' (Convert.convertTree t st).1 := by
  have hgives : A.Gives st.depth .none (Convert.convertTree t)
    (Fact.convert (t.annotate outcome)) :=
    Survey.gives_convertTree (S := A.survey) ht True.intro
  obtain ⟨g', -, hkept⟩ := hgives st g rfl hinv True.intro
  exact ⟨g', hkept⟩

end Account

end Typeshift.Convert
