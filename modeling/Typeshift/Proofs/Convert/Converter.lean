import Typeshift.Proofs.Convert.Keeps
import Typeshift.Tree.Source

/-! # Converting one tree after the other

A converter goes from tree to tree with one state. It carries over the names that are in use, and
nothing else: the scopes and ambient contexts that a conversion enters it leaves again, and what it
makes and reports depends on the names alone.

* `Nested`: a step leaves the scopes and ambient contexts it enters.
* `Alike`: states that differ in earlier diagnostics only.
* `Reachable`: the states of a converter between two trees.
* `convertTree_of_reachable`: what a converter carries from one tree to the next. -/

namespace Typeshift

/-! ### Names in use -/

/-- With more candidates, the first ones are the same. -/
theorem Names.candidates_append {s s' : Names} (h : s.size ≤ s'.size) (base : String) :
    ∃ more, s'.candidates base = s.candidates base ++ more := by
  obtain ⟨k, hk⟩ := Nat.exists_eq_add_of_le h
  refine ⟨(List.range' (2 + (s.size + 1)) k).map fun i => base ++ Nat.repr i, ?_⟩
  have hsize : s'.size + 1 = (s.size + 1) + k := by omega
  unfold Names.candidates
  rw [hsize, ← List.map_append, List.range'_append_1]

/-- **A fresh name depends on the names in use only**, not on how they are listed. -/
theorem Names.freshName_congr {s s' : Names} (h : ∀ n, s.contains n = s'.contains n)
    (base : String) : s.freshName base = s'.freshName base := by
  wlog hsize : s.size ≤ s'.size generalizing s s'
  · exact (this (fun n => (h n).symm) (by omega)).symm
  obtain ⟨more, hmore⟩ := Names.candidates_append hsize base
  obtain ⟨n, hn, hfree⟩ := Names.exists_free_candidate s base
  have hsome : ((s.candidates base).find? fun n => !s.contains n).isSome = true :=
    List.find?_isSome.mpr ⟨n, hn, by rw [hfree]; rfl⟩
  unfold Names.freshName
  simp only [← h, hmore, List.find?_append, Option.or_of_isSome hsome]

namespace Convert

/-! ### Scopes and ambient contexts -/

/-- The scopes and ambient contexts around a step are those after it; the innermost scope may have
more temporaries. -/
structure Nested (st st' : State) : Prop where
  depth : st'.depth = st.depth
  scopes : ∃ new, st'.scopes = st.scopes.modifyHead (· ++ new)

theorem Nested.refl (st : State) : Nested st st :=
  ⟨rfl, [], by cases st.scopes <;> simp⟩

/-- **A conversion leaves what it enters**, also where a construct is passed through. -/
theorem stable_nested : Stable Nested where
  refl := .refl
  trans := by
    rintro a b c ⟨hdepth, new, hnew⟩ ⟨hdepth', new', hnew'⟩
    refine ⟨hdepth'.trans hdepth, new ++ new', ?_⟩
    rw [hnew', hnew]
    cases a.scopes <;> simp
  report st _ := ⟨rfl, (Nested.refl st).scopes⟩
  freshName st _ := ⟨rfl, (Nested.refl st).scopes⟩
  temporary _ name := ⟨rfl, [name], rfl⟩
  scope := by
    rintro st st' ⟨hdepth, new, hnew⟩
    have houter : st'.scopes.tail = st.scopes := by
      rw [hnew]
      rfl
    rw [houter]
    exact ⟨hdepth, (Nested.refl st).scopes⟩
  ambient := by
    rintro st st' ⟨hdepth, hscopes⟩
    exact ⟨congrArg (· - 1) hdepth, hscopes⟩

/-! ### Runs side by side -/

/-- States with the same names in use, contexts and scopes; beside the diagnostics `ds₁` and `ds₂`
from before, they have the same ones. -/
structure Alike (ds₁ ds₂ : List Diagnostic) (st₁ st₂ : State) : Prop where
  names : ∀ n, st₁.names.contains n = st₂.names.contains n
  depth : st₁.depth = st₂.depth
  scopes : st₁.scopes = st₂.scopes
  diagnostics : ∃ new, st₁.diagnostics = ds₁ ++ new ∧ st₂.diagnostics = ds₂ ++ new

/-- From alike states a step gives the same result, and leads to alike states. -/
def Agrees (ds₁ ds₂ : List Diagnostic) ⦃α : Type⦄ (p : Pass α) : Prop :=
  ∀ st₁ st₂, Alike ds₁ ds₂ st₁ st₂ →
    (p st₁).1 = (p st₂).1 ∧ Alike ds₁ ds₂ (p st₁).2 (p st₂).2

section Agrees

variable {ds₁ ds₂ : List Diagnostic}

theorem agrees_freshName (base : String) : Agrees ds₁ ds₂ (freshName base) := by
  intro st₁ st₂ h
  have hname := Names.freshName_congr h.names base
  refine ⟨hname, fun n => ?_, h.depth, h.scopes, h.diagnostics⟩
  show (st₁.names.fresh base).2.contains n = (st₂.names.fresh base).2.contains n
  rw [Names.contains_fresh_snd, Names.contains_fresh_snd, h.names, hname]

theorem agrees_freshTemporary : Agrees ds₁ ds₂ freshTemporary := by
  intro st₁ st₂ h
  obtain ⟨hname, h'⟩ := agrees_freshName temporaryBase st₁ st₂ h
  refine ⟨hname, h'.names, h'.depth, ?_, h'.diagnostics⟩
  show st₁.scopes.modifyHead (· ++ [(freshName temporaryBase st₁).1]) =
    st₂.scopes.modifyHead (· ++ [(freshName temporaryBase st₂).1])
  rw [h.scopes, hname]

/-- **What a conversion makes depends on the names in use**, and on the contexts and scopes around
it; earlier diagnostics do not matter. -/
theorem closed_agrees (ds₁ ds₂ : List Diagnostic) : Closed (Agrees ds₁ ds₂) where
  pure _ _ _ h := ⟨rfl, h⟩
  bind {_ _ p f} hp hf st₁ st₂ h := by
    obtain ⟨ha, h'⟩ := hp st₁ st₂ h
    have hrest := hf (p st₁).1 (p st₁).2 (p st₂).2 h'
    show (f (p st₁).1 (p st₁).2).1 = (f (p st₂).1 (p st₂).2).1 ∧
      Alike ds₁ ds₂ (f (p st₁).1 (p st₁).2).2 (f (p st₂).1 (p st₂).2).2
    rwa [← ha]
  report f k args st₁ st₂ h := by
    obtain ⟨new, hnew₁, hnew₂⟩ := h.diagnostics
    refine ⟨rfl, h.names, h.depth, h.scopes, new ++ [Diagnostic.ofFinding f k.span args], ?_, ?_⟩
    · rw [← List.append_assoc, ← hnew₁]
      rfl
    · rw [← List.append_assoc, ← hnew₂]
      rfl
  freshName := agrees_freshName
  freshTemporary := agrees_freshTemporary
  declares st₁ st₂ h := ⟨congrArg (· == 0) h.depth, h⟩
  inScope {_ p} hp st₁ st₂ h := by
    obtain ⟨ha, h'⟩ := hp { st₁ with scopes := [] :: st₁.scopes }
      { st₂ with scopes := [] :: st₂.scopes }
      ⟨h.names, h.depth, congrArg ([] :: ·) h.scopes, h.diagnostics⟩
    exact ⟨Prod.ext ha (congrArg (·.headD []) h'.scopes), h'.names, h'.depth,
      congrArg List.tail h'.scopes, h'.diagnostics⟩
  inAmbient {_ p} hp st₁ st₂ h := by
    obtain ⟨ha, h'⟩ := hp { st₁ with depth := st₁.depth + 1 } { st₂ with depth := st₂.depth + 1 }
      ⟨h.names, congrArg (· + 1) h.depth, h.scopes, h.diagnostics⟩
    exact ⟨ha, h'.names, congrArg (· - 1) h'.depth, h'.scopes, h'.diagnostics⟩

end Agrees

/-! ### Converters -/

/-- **The states of a converter between two trees**: it starts with no names in use or with those of
a tree, and converts one tree after the other. -/
inductive Reachable : State → Prop where
  | new : Reachable (.start .empty)
  | forTree (t : Node) : Reachable (.start t.names)
  | convert {st : State} (earlier : Reachable st) (t : Node) : Reachable (convertTree t st).2

/-- Between two trees no context and no scope is around. -/
theorem Reachable.outside {st : State} (hst : Reachable st) : st.depth = 0 ∧ st.scopes = [] := by
  induction hst with
  | new => exact ⟨rfl, rfl⟩
  | forTree => exact ⟨rfl, rfl⟩
  | @convert st _ t ih =>
    obtain ⟨hdepth, new, hnew⟩ := (stable_nested.closed.obeys_outcome t).convert st
    rw [ih.2] at hnew
    exact ⟨hdepth.trans ih.1, hnew⟩

/-- **A converter carries nothing but names from one tree to the next.** Between two trees it is in
no ambient context and no scope, and the conversion of any tree, wherever it stands, leaves the
contexts and scopes around it. What becomes of a tree, and what is reported, is as from a new
converter with the same names in use; earlier diagnostics stay in front, and names stay in use. -/
theorem convertTree_of_reachable {st : State} (hst : Reachable st) (t : Node) :
    (st.depth = 0 ∧ st.scopes = []) ∧
    ((convertTree t st).2.depth = 0 ∧ (convertTree t st).2.scopes = []) ∧
    (∀ inside : State, (convertTree t inside).2.depth = inside.depth ∧
      ∃ new, (convertTree t inside).2.scopes = inside.scopes.modifyHead (· ++ new)) ∧
    (∀ names : Names, (∀ n, st.names.contains n = names.contains n) →
      (convertTree t st).1 = (convertTree t (.start names)).1 ∧
      (convertTree t st).2.diagnostics =
        st.diagnostics ++ (convertTree t (.start names)).2.diagnostics ∧
      ∀ n, (convertTree t st).2.names.contains n =
        (convertTree t (.start names)).2.names.contains n) ∧
    st.names.Within (convertTree t st).2.names := by
  obtain ⟨hdepth, hscopes⟩ := hst.outside
  refine ⟨⟨hdepth, hscopes⟩, (hst.convert t).outside, fun inside => ?_, fun names hnames => ?_, ?_⟩
  · obtain ⟨hdepth, hscopes⟩ := (stable_nested.closed.obeys_outcome t).convert inside
    exact ⟨hdepth, hscopes⟩
  · have hstart : Alike st.diagnostics [] st (.start names) :=
      ⟨hnames, hdepth, hscopes, [], (List.append_nil _).symm, rfl⟩
    obtain ⟨htree, hend⟩ :=
      ((closed_agrees st.diagnostics []).obeys_outcome t).convert st (.start names) hstart
    obtain ⟨new, hnew, hnew'⟩ := hend.diagnostics
    refine ⟨htree, hnew.trans ?_, hend.names⟩
    rw [show (convertTree t (.start names)).2.diagnostics = new from hnew']
  · exact (closed_grows.obeys_outcome t).convert st

/-- A program with a chain, `f()?.b;`. -/
def guardedCall : Node :=
  Source.program
    [Source.statement (Source.optionalMember (Source.call (Source.ident "f") []) "b" true)]

/-- A module with a declaration that is passed through, and that chain in a function. -/
def failingModule : Node :=
  let failing := Node.of .declareFunction [] [(.id, .one (Source.ident "g"))]
  let chain := Source.function "h" []
    [Source.statement (Source.optionalMember (Source.call (Source.ident "f") []) "b" true)]
  Source.program [Node.of .declareModule [(.kind, .textOrNone none)]
    [(.id, .one (Source.stringLiteral "m")), (.body, .one (Source.block [failing, chain]))]]

/-- After the module, which takes the first temporary and is reported, the chain gets the second
one. -/
theorem convertTree_of_reachable_guardedCall :
    let st := (convertTree failingModule (.start .empty)).2
    (st.depth = 0 ∧ st.scopes = []) ∧ st.diagnostics.length = 1 ∧
      (convertTree guardedCall st).2.diagnostics.length = 1 ∧
      "_a2" ∈ (convertTree guardedCall (.start (.ofList ["_a"]))).1.mentions ∧
      (convertTree guardedCall st).1 = (convertTree guardedCall (.start (.ofList ["_a"]))).1 := by
  intro st
  have hnames : st.names = .ofList ["_a"] := congrArg Names.mk (by decide +kernel)
  obtain ⟨houtside, -, -, hfresh, -⟩ :=
    convertTree_of_reachable (.convert .new failingModule) guardedCall
  obtain ⟨htree, -, -⟩ := hfresh (.ofList ["_a"]) fun n => by rw [← hnames]
  exact ⟨houtside, by decide +kernel, by decide +kernel, by decide +kernel, htree⟩

end Convert

end Typeshift
