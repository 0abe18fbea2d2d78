import Mathlib.Data.List.TakeDrop
import Typeshift.Proofs.Convert.Inherits
import Typeshift.Proofs.Convert.Walk

/-! # Static properties of converted trees

Most properties of a converted tree do not depend on the state in which it was converted. What is
known of the answers of parts is then the same at all times, and the steps of a conversion only have
to keep the diagnostics as they should be.

* `Admits`, `Wraps`: properties that are kept when temporaries are declared.
* `Static`: what is said of the answers of parts, and why it holds of what the rules make.
* `Static.convertTree`: it holds of the answers of a source tree. -/

namespace Typeshift.Convert

/-! ### Declaring temporaries -/

/-- **A property of statements that is kept when temporaries are declared among them.** -/
structure Admits (names : List String) (G : Node → Prop) : Prop where
  declaration : G (temporaryDeclaration names)
  comments : ∀ {u : Node} (c : Comments), G u → G (u.withComments c)

/-- **A property that is kept when temporaries are declared**, in a body as well. -/
structure Wraps (names : List String) (G : Node → Prop) : Prop extends Admits names G where
  node : ∀ {t : Tag} {s : Slots Unit}, t ∈ [.blockStatement, .returnStatement] → Holds G s →
    G (.of t [] s)
  /-- What a block holds may be replaced. -/
  block : ∀ {u : Node} {s : Slots Unit}, u.head.is .blockStatement = true → G u → Holds G s →
    G (.mk () u.head s)
  parts : ∀ {u : Node}, u.head.is .blockStatement = true → G u → Holds G u.slots

section Declare

variable {G : Node → Prop} {names : List String} {u : Node} {us : List Node}

theorem Wraps.declareInBody (hG : Wraps names G) (hu : G u) : G (declareInBody names u) := by
  unfold Convert.declareInBody
  split_ifs with hnone hblock
  · exact hu
  · refine hG.block hblock hu fun c hc => ?_
    obtain ⟨e', he', hc⟩ := Slots.mem_toList.mp hc
    obtain ⟨e, he, rfl⟩ := List.mem_map.mp he'
    have hbelow : ∀ c ∈ e.2.toList, G c := fun c hc =>
      hG.parts hblock hu c (Slots.mem_toList.mpr ⟨e, he, hc⟩)
    split at hc
    · exact List.forall_mem_cons.mpr ⟨hG.declaration, hbelow⟩ c hc
    · exact hbelow c hc
  · have hreturn : G (Target.returnStatement (some u)) := hG.node (by decide) (.some hu .nil)
    refine hG.node (by decide) (.many nofun (.many ?_ .nil))
    exact List.forall_mem_cons.mpr ⟨hG.declaration, List.forall_mem_singleton.mpr hreturn⟩

theorem Admits.declareInProgram (hG : Admits names G) (hus : ∀ u ∈ us, G u) :
    ∀ u ∈ declareInProgram names us, G u := by
  unfold Convert.declareInProgram
  split_ifs
  · exact hus
  · have hparts : ∀ u ∈ (us.span (·.head.is .importDeclaration)).1 ++
        (us.span (·.head.is .importDeclaration)).2, G u := by
      rw [List.span_eq_takeWhile_dropWhile, List.takeWhile_append_dropWhile]
      exact hus
    dsimp only
    split <;> rename_i hspan <;> rw [hspan] at hparts
    · obtain ⟨hfirst, hrest⟩ := List.forall_mem_cons.mp hparts
      refine List.forall_mem_cons.mpr ⟨hG.comments _ hG.declaration, ?_⟩
      exact List.forall_mem_cons.mpr ⟨hG.comments _ hfirst, hrest⟩
    · obtain ⟨himports, hrest⟩ := List.forall_mem_append.mp hparts
      exact List.forall_mem_append.mpr
        ⟨himports, List.forall_mem_cons.mpr ⟨hG.declaration, hrest⟩⟩

end Declare

/-! ### Static properties -/

/-- What is promised of the answers of parts. -/
structure Promise where
  convert : Part → Node → Prop
  chain : Part → Node × Option Node → Prop
  access : Part → Node × Bool → Prop
  entity : Part → Node → Prop
  exported : Part → Node → Prop
  refused : Head → Prop

/-- What is known if promises are kept: bodies are converted, and their temporaries declared. -/
def Promise.view (P : Promise) : View where
  convert := P.convert
  chain := P.chain
  access := P.access
  entity := P.entity
  exported := P.exported
  body c v := ∃ u names, P.convert c u ∧ v = declareInBody names u
  program cs vs := ∃ us names,
    (∀ u ∈ us, ∃ c ∈ cs, P.convert c u ∨ P.exported c u) ∧ vs = declareInProgram names us
  temporary _ := True
  exports _ := True
  refused := P.refused

/-- One property is promised of all answers. -/
def Promise.ofAll (G : Node → Prop) (refused : Head → Prop) : Promise where
  convert _ v := G v
  chain _ x := G x.1 ∧ ∀ g ∈ x.2, G g
  access _ x := G x.1
  entity _ v := G v
  exported _ v := G v
  refused := refused

/-- What a field of a construct of both vocabularies holds has a property that is inherited, and
kept when temporaries are declared. -/
theorem Inherits.filled {P : Promise} {G : Node → Prop} (hG : Inherits P.view G)
    (hwraps : ∀ names, Wraps names G) {t : Tag} {s : Slots Outcome} {f : Field} {slot : Slot Node}
    (hslot : Filled P.view t s f slot) : ∀ u ∈ slot.toList, G u := by
  intro u hu
  cases hslot with
  | empty => cases hu
  | parts _ hus => exact hG.held (hus u hu)
  | bodies _ _ hus =>
    obtain ⟨c, -, v, names, hv, rfl⟩ := hus u hu
    exact (hwraps names).declareInBody (hG.convert hv)
  | statements _ _ _ hus =>
    obtain ⟨vs, names, hvs, rfl⟩ := hus
    refine (hwraps names).declareInProgram (fun v hv => ?_) u hu
    obtain ⟨c, -, hv | hv⟩ := hvs v hv
    · exact hG.convert hv
    · exact hG.exported hv

/-- The diagnostic of a node that is passed through. -/
def passedDiagnostic (h : Head) : Diagnostic := .ofFinding .unsupportedNode h.span [h.name]

/-- **A static property** of the conversions of some source trees. -/
structure Static extends Promise where
  /-- What the diagnostics should be. -/
  Clear : List Diagnostic → Prop
  Source : Nat → Node → Prop
  Speaks : Part → Prop
  lenient : Prop
  part : ∀ {d : Nat} {h : Head} {s : Slots Unit} {f : Field} {slot : Slot Node} {c : Node},
    Source d (.mk () h s) → (f, slot) ∈ s → c ∈ slot.toList → Source (Ambient.depthAt d h f) c
  required : ∀ {d : Nat} {h : Head} {s : Slots Unit}, Source d (.mk () h s) →
    lenient ∨ HasRequired h s
  vacant : lenient → Speaks default ∧ convert default default ∧ chain default (default, none) ∧
    access default (default, false) ∧ entity default default
  speaks : ∀ {d : Nat} {h : Head} {s : Slots Outcome} {t : Tag} {f : Field} {slot : Slot Part}
    {c : Part}, Stems Source d h s → h.tag? = some t → (f, slot) ∈ s → c ∈ slot.toList →
    (∀ g ∈ guests t f, c.head.is g = false) → Speaks c
  speaks_statement : ∀ {d : Nat} {h : Head} {s : Slots Outcome} {slot : Slot Part} {c : Part},
    Stems Source d h s → h.tag? = some .blockStatement → Speaks (asPart h s) →
    s.get? .body = some slot → c ∈ slot.toList → Speaks c
  report : ∀ {ds : List Diagnostic} {f : Finding} (h : Head) (args : List String),
    f ≠ .unsupportedNode → Clear ds → Clear (ds ++ [.ofFinding f h.span args])
  drop : ∀ {d : Nat} {h : Head} {s : Slots Outcome} {c : Part} {ds : List Diagnostic},
    Stems Source d h s → h.isAny unsplitTags = true → (s.child .body).head.is .objectType = true →
    c ∈ (s.child .body).slots.children .properties → c.head.is .objectTypeProperty = false →
    Clear ds → Clear (ds ++ [passedDiagnostic c.head])
  refuse : ∀ {d : Nat} {h : Head} {s : Slots Outcome} {ds : List Diagnostic}, Stems Source d h s →
    Speaks (asPart h s) → Refused h s → Clear ds → Clear (ds ++ [passedDiagnostic h]) ∧ refused h
  converts : ∀ {d : Nat} {h : Head} {s : Slots Outcome} {st : State}, Stems Source d h s →
    Speaks (asPart h s) → st.depth = d → Made toPromise.view d h s (convertNode h s st).1 →
    convert (asPart h s) (attach h (convertNode h s st).1)
  chains : ∀ {d : Nat} {h : Head} {s : Slots Outcome} {x : Node × Option Node},
    Stems Source d h s → h.isAny links = true → Simple toPromise.view h s x.1 →
    (∀ g ∈ x.2, Composed toPromise.view h s anywhere g) → chain (asPart h s) x
  accesses : ∀ {d : Nat} {h : Head} {s : Slots Outcome} {a b : Node} {o : Bool},
    Stems Source d h s → h.is .optionalIndexedAccessType = true →
    Composed toPromise.view h s anywhere a → Composed toPromise.view h s anywhere b →
    access (asPart h s) (Target.indexedAccess a b, o)
  entities : ∀ {d : Nat} {h : Head} {s : Slots Outcome} {a b : Node},
    Stems Source d h s → h.is .qualifiedTypeIdentifier = true →
    Composed toPromise.view h s anywhere a → Composed toPromise.view h s anywhere b →
    entity (asPart h s) ((Target.member a b false).withSpan h.span)
  chain_of : ∀ {p : Part} {v : Node}, p.head.isAny links = false → convert p v → chain p (v, none)
  access_of : ∀ {p : Part} {v : Node}, p.head.is .optionalIndexedAccessType = false →
    convert p v → access p (v, false)
  entity_of : ∀ {p : Part} {v : Node}, p.head.is .qualifiedTypeIdentifier = false →
    convert p v → entity p v
  exports : ∀ {d : Nat} {h : Head} {s : Slots Outcome} {st : State} {u : Node},
    Stems Source d h s → h.is .declareModuleExports = true → st.depth = d →
    u ∈ (convertModuleExports h s st).1 → Exported toPromise.view d h s u → exported (asPart h s) u

namespace Static

variable (S : Static)

/-- A step keeps the diagnostics as they should be and the number of ambient contexts, and gives a
result with a fact. -/
def Gives {α : Type} (d : Nat) (pre : Fact) (p : Pass α) (post : α → Fact) : Prop :=
  pre.At S.toPromise.view → ∀ st, S.Clear st.diagnostics → st.depth = d →
    S.Clear (p st).2.diagnostics ∧ (p st).2.depth = d ∧ (post (p st).1).At S.toPromise.view

/-- The logic in which nothing more becomes known. -/
def logic : Logic where
  World V := V = S.toPromise.view
  Gives := S.Gives
  pure h hpre st hclear hd := ⟨hclear, hd, h _ rfl hpre⟩
  bind hp hf hpre st hclear hd := by
    obtain ⟨hclear, hd, ha⟩ := hp hpre st hclear hd
    exact hf _ ⟨hpre, ha⟩ _ hclear hd
  ran hp hpre st hclear hd := by
    obtain ⟨hclear', hd', ha⟩ := hp hpre st hclear hd
    exact ⟨hclear', hd', ⟨st, hd, rfl⟩, ha⟩
  declares _ st hclear hd := ⟨hclear, hd, by rw [← hd]; rfl, True.intro⟩
  inAmbient hp _ st hclear hd := by
    obtain ⟨hclear, hd, ha⟩ :=
      hp .none True.intro { st with depth := st.depth + 1 } hclear (congrArg (· + 1) hd)
    exact ⟨hclear, congrArg (· - 1) hd, ha⟩

variable {S}

theorem gives_report {d : Nat} {pre : Fact} {f : Finding} {h : Head} {args : List String}
    (hclear : ∀ ds, S.Clear ds → S.Clear (ds ++ [.ofFinding f h.span args])) :
    S.Gives d pre (Convert.report f h args) fun _ => Fact.none :=
  fun _ _ hst hd => ⟨hclear _ hst, hd, True.intro⟩

/-- A step in a scope of its own. -/
theorem gives_inScope {α : Type} {d : Nat} {pre : Fact} {p : Pass α} {Q : α → Fact}
    (hp : S.Gives d pre p Q) : S.Gives d pre (inScope p) fun x => Q x.1 :=
  fun hpre st hclear hd => hp hpre { st with scopes := [] :: st.scopes } hclear hd

/-- **The logic of a static property**, for conversions of the source trees. -/
def survey (S : Static) : Survey where
  toLogic := S.logic
  Source := S.Source
  Speaks := S.Speaks
  lenient := S.lenient
  part := S.part
  required := S.required
  vacant h := ⟨(S.vacant h).1, fun V hV => hV ▸ (S.vacant h).2⟩
  speaks := S.speaks
  speaks_statement := S.speaks_statement
  report h args hf := gives_report fun _ => S.report h args hf
  drop hstems hh hbody hc hproperty :=
    gives_report fun _ => S.drop hstems hh hbody hc hproperty
  refuse hstems hspeaks hrefused hpre st hclear hd := by
    obtain ⟨hclear', hpassed⟩ := S.refuse hstems hspeaks (hrefused _ rfl hpre) hclear
    exact ⟨hclear', hd, rfl, hpassed⟩
  temporary _ _ _ st hclear hd := ⟨hclear, hd, True.intro⟩
  exports _ st hclear hd := ⟨hclear, hd, True.intro⟩
  body hp _ st hclear hd := by
    obtain ⟨hclear, hd, hconvert⟩ := gives_inScope (hp .none) True.intro st hclear hd
    exact ⟨hclear, hd, _, _, hconvert, rfl⟩
  program hp _ st hclear hd := by
    obtain ⟨hclear, hd, hus⟩ := gives_inScope (hp .none) True.intro st hclear hd
    exact ⟨hclear, hd, _, _, hus, rfl⟩
  convert hstems hspeaks hV hd hmade := by
    subst hV
    exact S.converts hstems hspeaks hd hmade
  chain hstems hh hV hx hg := by
    subst hV
    exact S.chains hstems hh hx hg
  access hstems hh hV ha hb := by
    subst hV
    exact S.accesses hstems hh ha hb
  entity hstems hh hV ha hb := by
    subst hV
    exact S.entities hstems hh ha hb
  chain_of hV hh hv := by
    subst hV
    exact S.chain_of hh hv
  access_of hV hh hv := by
    subst hV
    exact S.access_of hh hv
  entity_of hV hh hv := by
    subst hV
    exact S.entity_of hh hv
  exported hstems hh hV hd hu hmade := by
    subst hV
    exact S.exports hstems hh hd hu hmade

/-- **What is said holds of a converted tree**, from every state in which the diagnostics are as
they should be. -/
theorem convertTree {t : Node} {d : Nat} (st : State) (ht : S.Source d t)
    (hspeaks : S.Speaks (t.annotate outcome)) (hclear : S.Clear st.diagnostics)
    (hd : st.depth = d) :
    S.Clear (Convert.convertTree t st).2.diagnostics ∧
      S.convert (t.annotate outcome) (Convert.convertTree t st).1 := by
  have hgives : S.Gives d .none (Convert.convertTree t) (Fact.convert (t.annotate outcome)) :=
    Survey.gives_convertTree (S := S.survey) ht hspeaks
  obtain ⟨hclear', -, hconvert⟩ := hgives True.intro st hclear hd
  exact ⟨hclear', hconvert⟩

end Static

end Typeshift.Convert
