import Mathlib.Data.Char
import Mathlib.Data.List.Lex
import Mathlib.Data.Prod.Lex
import Typeshift.Disk.Memory
import Typeshift.Proofs.Batch.Run

/-! # The plan of a run

The inputs are looked for before any file is converted, and looking changes nothing. They are
sorted, and each is there once, so the jobs of a plan differ.

* `Path.le_iff`, `Path.same_iff`: the order of paths is a linear order of what they say.
* `pairwise_mergeSame`: sorted paths, each taken once, are strictly sorted.
* `planOf`: the plan of a run. `nodup_planOf`: its jobs differ.
* `runBatch_eq`: a run makes its plan and runs it. -/

namespace Typeshift

namespace Disk

/-- What a component says, in the order of components. -/
def Component.key : Component → ℕ ×ₗ List Char
  | .name s => toLex (3, s.toList)
  | c => toLex (c.rank, [])

theorem Component.key_inj {a b : Component} : a.key = b.key ↔ a = b := by
  cases a <;> cases b <;> simp [key, rank, String.toList_inj]

theorem Component.before_iff {a b : Component} : a.before b = true ↔ a.key < b.key := by
  have hlt (s t : String) : s < t ↔ s.toList < t.toList := Iff.rfl
  cases a <;> cases b <;> simp [before, key, rank, Prod.Lex.toLex_lt_toLex, hlt]

namespace Path

variable {p q : Path}

/-- What a path says, in the order of paths. -/
def key (p : Path) : List (ℕ ×ₗ List Char) := p.components.map Component.key

theorem same_iff : p.same q = true ↔ p.key = q.key := by
  have hinj : Function.Injective Component.key := fun _ _ => Component.key_inj.mp
  unfold same key
  rw [decide_eq_true_eq]
  exact (List.map_injective_iff.mpr hinj).eq_iff.symm

/-- **The order of paths** is that of what they say. -/
theorem le_iff : p.le q = true ↔ p.key ≤ q.key := by
  unfold le key
  rw [← not_lt]
  generalize p.components = as
  generalize q.components = bs
  induction as generalizing bs with
  | nil => simp [leComponents]
  | cons a as ih =>
    cases bs with
    | nil => simp [leComponents]
    | cons b bs =>
      rw [leComponents, List.map_cons, List.map_cons, List.cons_lt_cons_iff, Component.key_inj]
      split
      · next heq => simp [heq, ih]
      · next hne =>
        have hkey : a.key ≠ b.key := fun heq => hne (Component.key_inj.mp heq)
        rw [Component.before_iff, lt_iff_le_and_ne, ← not_lt]
        simp [hkey, Ne.symm hne]

end Path

end Disk

namespace Command

open Typeshift.Disk

/-! ### Sorted inputs -/

theorem mergeSame_subset (ps : List Path) : mergeSame ps ⊆ ps := by
  induction ps with
  | nil => exact List.Subset.refl _
  | cons p ps ih =>
    rw [mergeSame]
    split
    · simp
    · next q qs heq =>
      rw [heq, List.cons_subset] at ih
      split
      · exact List.cons_subset_cons _ ih.2
      · exact List.cons_subset_cons _ (List.cons_subset.mpr ih)

/-- **Sorted paths, each taken once**, are strictly sorted. -/
theorem pairwise_mergeSame {ps : List Path} (h : ps.Pairwise fun p q => p.key ≤ q.key) :
    (mergeSame ps).Pairwise fun p q => p.key < q.key := by
  induction ps with
  | nil => exact .nil
  | cons p ps ih =>
    obtain ⟨hp, hps⟩ := List.pairwise_cons.mp h
    have hrest := ih hps
    have hsubset := mergeSame_subset ps
    rw [mergeSame]
    split
    · exact List.pairwise_singleton _ _
    · next q qs heq =>
      rw [heq] at hrest hsubset
      obtain ⟨hq, hqs⟩ := List.pairwise_cons.mp hrest
      have hle := hp q (hsubset List.mem_cons_self)
      split
      · next hsame =>
        rw [Path.same_iff] at hsame
        exact List.pairwise_cons.mpr ⟨fun r hr => hsame ▸ hq r hr, hqs⟩
      · next hsame =>
        have hlt : p.key < q.key := lt_of_le_of_ne hle fun heq => hsame (Path.same_iff.mpr heq)
        refine List.pairwise_cons.mpr ⟨fun r hr => ?_, hrest⟩
        rcases List.mem_cons.mp hr with rfl | hr
        · exact hlt
        · exact hlt.trans (hq r hr)

/-! ### Looking changes nothing -/

section Looking

variable {σ ε ε' α β : Type}

/-- A step that may fail and changes nothing. -/
def Looks (x : ExceptT ε (StateM σ) α) : Prop := ∀ s, (x.run s).2 = s

theorem looks_pure (a : α) : Looks (pure a : ExceptT ε (StateM σ) α) := fun _ => rfl

theorem looks_throw (e : ε) : Looks (throw e : ExceptT ε (StateM σ) α) := fun _ => rfl

theorem Looks.bind {x : ExceptT ε (StateM σ) α} {f : α → ExceptT ε (StateM σ) β} (hx : Looks x)
    (hf : ∀ a, Looks (f a)) : Looks (x >>= f) := by
  intro s
  have hs := hx s
  rw [run_bind]
  rcases hrun : x.run s with ⟨_ | a, s'⟩ <;> rw [hrun] at hs
  · exact hs
  · obtain rfl : s' = s := hs
    exact hf a _

theorem Looks.mapM {f : α → ExceptT ε (StateM σ) β} (hf : ∀ a, Looks (f a)) (as : List α) :
    Looks (as.mapM f) := by
  induction as with
  | nil => exact looks_pure _
  | cons a as ih =>
    rw [List.mapM_cons]
    exact (hf a).bind fun _ => ih.bind fun _ => looks_pure _

end Looking

theorem looks_expand (pattern : String) : Looks (expand FileSystem.disk pattern) := by
  unfold expand
  split
  · exact looks_throw _
  · exact Looks.bind (fun _ => rfl) fun _ => looks_pure _

theorem looks_filesOf (input : String) : Looks (filesOf FileSystem.disk input) := by
  unfold filesOf
  split
  · exact looks_expand input
  · refine Looks.bind (fun _ => rfl) fun _ => ?_
    split
    · exact Looks.bind (fun _ => rfl) fun _ => looks_pure _
    · exact looks_pure _

/-- **Looking for the inputs** changes nothing. -/
theorem looks_collect (inputs : List String) : Looks (collect FileSystem.disk inputs) :=
  (Looks.mapM looks_filesOf inputs).bind fun _ => looks_pure _

/-! ### Plans -/

/-- **The plan of a run**, or why there is none. -/
def planOf (a : Arguments) (fs : FileSystem) : Except RunError Plan :=
  match ((collect FileSystem.disk a.inputs).run fs).1 with
  | .error e => .error (.pattern e)
  | .ok [] => .error (.noInputs a.inputs)
  | .ok files =>
    .ok (Plan.make (Destination.choose FileSystem.disk a.output files.length fs).1 a.rename
      a.format files)

variable {a : Arguments} {fs : FileSystem} {plan : Plan}

theorem exists_of_collect {inputs : List String} {files : List Path}
    (h : ((collect FileSystem.disk inputs).run fs).1 = .ok files) :
    ∃ found : List Path, files = mergeSame (found.mergeSort Path.le) := by
  unfold collect at h
  rw [run_bind] at h
  rcases hfound : (inputs.mapM (filesOf FileSystem.disk)).run fs with ⟨_ | found, fs'⟩ <;>
    rw [hfound] at h
  · cases h
  · exact ⟨found.flatten, (Except.ok.inj h).symm⟩

theorem pairwise_mergeSort (found : List Path) :
    (found.mergeSort Path.le).Pairwise fun p q => p.key ≤ q.key := by
  refine (List.pairwise_mergeSort ?_ ?_ found).imp fun h => Path.le_iff.mp h
  · intro p q r hpq hqr
    exact Path.le_iff.mpr ((Path.le_iff.mp hpq).trans (Path.le_iff.mp hqr))
  · intro p q
    rw [Bool.or_eq_true, Path.le_iff, Path.le_iff]
    exact le_total _ _

theorem choose_snd (output : Option Path) (count : Nat) (fs : FileSystem) :
    (Destination.choose FileSystem.disk output count fs).2 = fs := by
  cases output with
  | none => rfl
  | some p =>
    have hread : Destination.choose FileSystem.disk (some p) count fs =
        (if count = 1 && !fs.isDirectory p && !p.endsWithSeparator then pure (.file p)
          else pure (.directory p) : StateM FileSystem Destination) fs := rfl
    rw [hread]
    split <;> rfl

/-- A file is named for a single input only. -/
theorem count_of_choose {output : Option Path} {count : Nat} {p : Path}
    (h : (Destination.choose FileSystem.disk output count fs).1 = .file p) : count = 1 := by
  unfold Destination.choose at h
  cases output with
  | none => cases h
  | some q =>
    by_contra hcount
    have hdirectory : (Destination.choose FileSystem.disk (some q) count fs).1 = .directory q := by
      unfold Destination.choose
      simp [hcount]
      rfl
    cases h.symm.trans hdirectory

/-- The plan of inputs that are named in order. -/
theorem planOf_eq (found : List (List Path))
    (h : ((a.inputs.mapM (filesOf FileSystem.disk)).run fs).1 = .ok found)
    (hsorted : found.flatten.Pairwise fun p q => p.le q = true) :
    planOf a fs = match mergeSame found.flatten with
      | [] => .error (.noInputs a.inputs)
      | files => .ok (Plan.make
          (Destination.choose FileSystem.disk a.output files.length fs).1
          a.rename a.format files) := by
  have hcollect :
      ((collect FileSystem.disk a.inputs).run fs).1 = .ok (mergeSame found.flatten) := by
    unfold collect
    rw [run_bind]
    rcases hrun : (a.inputs.mapM (filesOf FileSystem.disk)).run fs with ⟨r, fs'⟩
    rw [hrun] at h
    obtain rfl : r = .ok found := h
    exact congrArg (fun files => Except.ok (mergeSame files)) (List.mergeSort_of_pairwise hsorted)
  unfold planOf
  rw [hcollect]
  cases mergeSame found.flatten <;> rfl

/-- The inputs of a run, strictly sorted. -/
theorem exists_of_planOf (h : planOf a fs = .ok plan) : ∃ files d,
    plan = Plan.make d a.rename a.format files ∧ (files.Pairwise fun p q => p.key < q.key) ∧
      (∀ p, d = .file p → files.length = 1) := by
  unfold planOf at h
  split at h
  · cases h
  · cases h
  · next files _ hfiles =>
    cases h
    obtain ⟨found, hfound⟩ := exists_of_collect hfiles
    exact ⟨files, _, rfl, hfound ▸ pairwise_mergeSame (pairwise_mergeSort found),
      fun _ => count_of_choose⟩

/-- **The jobs of a plan differ.** -/
theorem nodup_planOf (h : planOf a fs = .ok plan) : plan.Nodup := by
  obtain ⟨files, d, rfl, hsorted, -⟩ := exists_of_planOf h
  refine List.Nodup.map (fun p q hjobs => congrArg Job.input hjobs) ?_
  refine hsorted.imp fun {p q} hlt heq => ?_
  rw [heq] at hlt
  exact lt_irrefl _ hlt

/-- **A run makes its plan and runs it.** -/
theorem runBatch_eq (a : Arguments) (fs : FileSystem) :
    (runBatch FileSystem.disk a).run fs = match planOf a fs with
      | .error e => (.error e, fs)
      | .ok plan =>
        (.ok (plan.run FileSystem.disk a.compileOptions a.rules fs).1,
          (plan.run FileSystem.disk a.compileOptions a.rules fs).2) := by
  have hlooks := looks_collect a.inputs fs
  unfold runBatch planOf
  rw [run_bind, run_adapt]
  rcases hcollect : (collect FileSystem.disk a.inputs).run fs with ⟨e | files, fs'⟩
  all_goals
    rw [hcollect] at hlooks
    obtain rfl : fs' = fs := hlooks
  · rfl
  · cases files with
    | nil => rfl
    | cons file files =>
      dsimp only [Except.mapError]
      rw [if_neg (List.cons_ne_nil file files)]
      have hchoose := choose_snd a.output (file :: files).length fs'
      have hlift {α : Type} (x : StateM FileSystem α) :
          (ExceptT.lift x : ExceptT RunError (StateM FileSystem) α).run fs' =
            (.ok (x fs').1, (x fs').2) := rfl
      have hbind {α β : Type} (x : StateM FileSystem α) (f : α → StateM FileSystem β) :
          (x >>= f) fs' = f (x fs').1 (x fs').2 := rfl
      rw [hlift, hbind, hchoose]

end Command

end Typeshift
