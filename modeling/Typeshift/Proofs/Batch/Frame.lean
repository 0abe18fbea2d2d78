import Typeshift.Proofs.Batch.Directories
import Typeshift.Proofs.Batch.Outputs

/-! # What a batch leaves alone

A step writes its output and makes the directories on its way; nothing else changes. If no output
lies on the way of an input, and no two outputs lead to one place, all inputs read as before, and
what is reported and what is in each place afterwards does not depend on the order of the steps.

* `Plan.Writes`: the jobs that write their outputs.
* `Plan.moves_runJob`: a step changes the way of its output only.
* `Plan.Apart`: outputs that keep away from the inputs and from each other. `Plan.Apart.read_eq`:
  then the inputs read as before.
* `Plan.Stage`: the directories of all outputs, made by the first step that writes.
* `Plan.Progress.step`, `Plan.Progress.outcomes`: the outcomes of one step and of all of them, and
  the state after them. -/

namespace Typeshift

open Typeshift.Disk

namespace Command

variable {fs fs' : FileSystem} {p : Path} {W : List String → Prop}

/-! ### Making the directory of an output -/

theorem createParent_apply (p : Path) (fs : FileSystem) :
    (createParent FileSystem.disk p).run fs =
      match p.parent? with
      | none => (.ok (), fs)
      | some dir =>
        if dir.text = "" then (.ok (), fs)
        else ((FileSystem.createDirectories dir fs).1.mapError (.createDirectory dir),
          (FileSystem.createDirectories dir fs).2) := by
  unfold createParent
  cases p.parent? with
  | none => rfl
  | some dir =>
    dsimp only
    split <;> rfl

theorem moves_createParent (p : Path) (fs : FileSystem) :
    fs.Moves (· ∈ p.way fs.workingDirectory) ((createParent FileSystem.disk p).run fs).2 := by
  rw [createParent_apply]
  cases hparent : p.parent? with
  | none => exact .refl _ _
  | some dir =>
    dsimp only
    split
    · exact .refl _ _
    · exact (FileSystem.moves_createDirectories dir fs).mono fun _ hv =>
        Path.mem_way_of_parent? hparent hv

theorem createParent_of_provides (h : fs.Provides p) :
    (createParent FileSystem.disk p).run fs = (.ok (), fs) := by
  rw [createParent_apply]
  cases hparent : p.parent? with
  | none => rfl
  | some dir =>
    dsimp only
    split
    · rfl
    · next htext =>
      rw [FileSystem.createDirectories_of_isDirectory (h dir hparent htext)]
      rfl

theorem provides_of_createParent (h : ((createParent FileSystem.disk p).run fs).1 = .ok ()) :
    ((createParent FileSystem.disk p).run fs).2.Provides p := by
  rw [createParent_apply] at h ⊢
  intro dir hparent htext
  rw [hparent] at h ⊢
  dsimp only at h ⊢
  rw [if_neg htext] at h ⊢
  exact (FileSystem.isDirectory_of_createDirectories (mapError_eq_ok.mp h)).resolve_left htext

theorem provides_mono (hmoves : FileSystem.Moves W fs fs') (h : fs.Provides p) :
    fs'.Provides p := by
  intro dir hparent htext
  obtain ⟨q, hresolve, hq⟩ := FileSystem.isDirectory_iff.mp (h dir hparent htext)
  refine FileSystem.isDirectory_iff.mpr ⟨q, ?_, hmoves.directory hq⟩
  unfold FileSystem.resolve at hresolve ⊢
  obtain ⟨⟨⟩, hcheck, hfollow⟩ := bind_eq_ok.mp hresolve
  rw [hcheck, FileSystem.start_eq hmoves.workingDirectory]
  exact FileSystem.follow_mono (fun _ => hmoves.directory) hfollow

/-! ### The steps that write -/

section Steps

variable {options : CompileOptions} {rules : Registry} {plan : Plan} {job other : Job}
  {compiled : CompileOutput}

theorem run_of_translate_error {e : FileError}
    (h : job.translate options rules (fs.read job.input) = .error e) :
    (job.run FileSystem.disk options rules).run fs = (.error e, fs) := by
  have hread : FileSystem.disk.read job.input fs = (fs.read job.input, fs) := rfl
  rw [Job.run_apply, hread]
  dsimp only
  rw [h]

theorem run_of_translate_ok (h : job.translate options rules (fs.read job.input) = .ok compiled) :
    (job.run FileSystem.disk options rules).run fs =
      (job.store FileSystem.disk compiled).run fs := by
  have hread : FileSystem.disk.read job.input fs = (fs.read job.input, fs) := rfl
  rw [Job.run_apply, hread]
  dsimp only
  rw [h]

theorem exists_read_of_translate {bytes? : Except DiskError ByteArray}
    (h : job.translate options rules bytes? = .ok compiled) : ∃ bytes, bytes? = .ok bytes := by
  cases bytes? with
  | error e => cases h
  | ok bytes => exact ⟨bytes, rfl⟩

theorem moves_store (job : Job) (compiled : CompileOutput) (fs : FileSystem) :
    fs.Moves (· ∈ job.output.way fs.workingDirectory)
      ((job.store FileSystem.disk compiled).run fs).2 := by
  have hparent := moves_createParent job.output fs
  rw [Job.store_apply]
  rcases hrun : (createParent FileSystem.disk job.output).run fs with ⟨_ | _, fs'⟩
  all_goals rw [hrun] at hparent
  · exact hparent
  · refine hparent.trans ((FileSystem.moves_write job.output _ fs').mono fun v hv => ?_)
    rw [hv, hparent.workingDirectory]
    exact FileSystem.mem_way_foldl

/-- A job that writes its output: no other job has it, and what is read can be converted. -/
def Plan.Writes (plan : Plan) (options : CompileOptions) (rules : Registry) (fs : FileSystem)
    (job : Job) : Prop :=
  plan.isAlone job = true ∧
    ∃ compiled, job.translate options rules (fs.read job.input) = .ok compiled

theorem runJob_of_writes (halone : plan.isAlone job = true)
    (h : job.translate options rules (fs.read job.input) = .ok compiled) :
    plan.runJob FileSystem.disk options rules job fs =
      (job.store FileSystem.disk compiled).run fs := by
  unfold Plan.runJob
  rw [List.isEmpty_iff.mp halone]
  exact run_of_translate_ok h

/-- **What becomes of a job**: its input as one file system has it, its output put into another. -/
def Plan.outcomeAt (plan : Plan) (options : CompileOptions) (rules : Registry)
    (fs fs₁ : FileSystem) (job : Job) : Except FileError FileReport :=
  match plan.rivals job with
  | [] => do
    let compiled ← job.translate options rules (fs.read job.input)
    ((fs₁.effect job.output compiled.code.toUTF8).mapError (.write job.output)).map
      fun _ => job.report compiled
  | others => .error (.sharedOutput job.output others)

/-- What a job puts into which place. -/
def Plan.wrote (plan : Plan) (options : CompileOptions) (rules : Registry)
    (fs fs₁ : FileSystem) (job : Job) : Option (List String × Disk.Face) :=
  match plan.rivals job with
  | [] => (job.translate options rules (fs.read job.input)).toOption.bind fun compiled =>
    (fs₁.effect job.output compiled.code.toUTF8).toOption
  | _ => none

theorem runJob_of_not_writes (h : ¬ plan.Writes options rules fs job) (fs₁ : FileSystem) :
    plan.runJob FileSystem.disk options rules job fs =
        (plan.outcomeAt options rules fs fs₁ job, fs) ∧
      plan.wrote options rules fs fs₁ job = none := by
  unfold Plan.runJob Plan.outcomeAt Plan.wrote
  cases hrivals : plan.rivals job with
  | nil =>
    cases htranslate : job.translate options rules (fs.read job.input) with
    | error e => exact ⟨run_of_translate_error htranslate, rfl⟩
    | ok compiled => exact absurd ⟨List.isEmpty_iff.mpr hrivals, compiled, htranslate⟩ h
  | cons => exact ⟨rfl, rfl⟩

theorem outcomeAt_of_writes (halone : plan.isAlone job = true)
    (h : job.translate options rules (fs.read job.input) = .ok compiled) (fs₁ : FileSystem) :
    plan.outcomeAt options rules fs fs₁ job =
        ((fs₁.effect job.output compiled.code.toUTF8).mapError (.write job.output)).map
          (fun _ => job.report compiled) ∧
      plan.wrote options rules fs fs₁ job =
        (fs₁.effect job.output compiled.code.toUTF8).toOption := by
  unfold Plan.outcomeAt Plan.wrote
  rw [List.isEmpty_iff.mp halone, h]
  exact ⟨rfl, rfl⟩

/-- The places on the ways of the outputs that are written. -/
def Plan.Touches (plan : Plan) (options : CompileOptions) (rules : Registry) (fs : FileSystem)
    (v : List String) : Prop :=
  ∃ job ∈ plan, plan.Writes options rules fs job ∧ v ∈ job.output.way fs.workingDirectory

/-- **A step** changes the way of its output only, and only if it writes. -/
theorem Plan.moves_runJob (plan : Plan) (job : Job) (fs : FileSystem) :
    fs.Moves (fun v => plan.Writes options rules fs job ∧ v ∈ job.output.way fs.workingDirectory)
      (plan.runJob FileSystem.disk options rules job fs).2 := by
  by_cases h : plan.Writes options rules fs job
  · obtain ⟨halone, compiled, htranslate⟩ := h
    rw [runJob_of_writes halone htranslate]
    exact (moves_store job compiled fs).mono fun _ hv => ⟨⟨halone, compiled, htranslate⟩, hv⟩
  · rw [(runJob_of_not_writes h fs).1]
    exact .refl _ _

end Steps

/-! ### Outputs that keep away -/

namespace Plan

variable {options : CompileOptions} {rules : Registry} {plan : Plan} {fs₁ s : FileSystem}
  {done : List Job} {job : Job}

/-- **The outputs that are written keep away** from the inputs and from each other. -/
structure Apart (options : CompileOptions) (rules : Registry) (plan : Plan) (fs : FileSystem) :
    Prop where
  workingDirectory : fs.view fs.workingDirectory = some .directory
  /-- Only directories that are there are both on the way of an input and on that of an output. -/
  inputs : ∀ job ∈ plan, ∀ v ∈ job.input.way fs.workingDirectory,
    plan.Touches options rules fs v → fs.view v = some .directory
  /-- No two outputs lead to one place. -/
  outputs : ∀ job ∈ plan, ∀ other ∈ plan, plan.Writes options rules fs job →
    plan.Writes options rules fs other →
      job.output.place fs.workingDirectory = other.output.place fs.workingDirectory → job = other
  /-- The directories that outputs go into are there or can be made. -/
  directories : ∀ job ∈ plan, plan.Writes options rules fs job →
    ((createParent FileSystem.disk job.output).run fs).1 = .ok ()

/-- **The directories of all outputs**, made by any step that writes and is the first one. -/
structure Stage (options : CompileOptions) (rules : Registry) (plan : Plan)
    (fs fs₁ : FileSystem) : Prop where
  moves : fs.Moves (plan.Touches options rules fs) fs₁
  made : ∀ job ∈ plan, plan.Writes options rules fs job →
    (createParent FileSystem.disk job.output).run fs = (.ok (), fs₁)
  provides : ∀ job ∈ plan, plan.Writes options rules fs job → fs₁.Provides job.output
  ready : ∀ job ∈ plan, plan.Writes options rules fs job → fs₁.Ready job.output

/-- The state after the directories and the outputs of some jobs are made. -/
structure Written (options : CompileOptions) (rules : Registry) (plan : Plan)
    (fs fs₁ : FileSystem) (done : List Job) (s : FileSystem) : Prop where
  moves : fs₁.Moves (plan.Touches options rules fs) s
  kept : ∀ v, (∀ job ∈ done, ∀ new, plan.wrote options rules fs fs₁ job ≠ some (v, new)) →
    s.view v = fs₁.view v
  put : ∀ job ∈ done, ∀ v new, plan.wrote options rules fs fs₁ job = some (v, new) →
    s.view v = some new

/-- The state after some jobs: as at the start until the first one writes. -/
structure Progress (options : CompileOptions) (rules : Registry) (plan : Plan)
    (fs fs₁ : FileSystem) (done : List Job) (s : FileSystem) : Prop where
  idle : (∀ job ∈ done, ¬ plan.Writes options rules fs job) → s = fs
  busy : (∃ job ∈ done, plan.Writes options rules fs job) →
    plan.Written options rules fs fs₁ done s

/-- A job that puts something somewhere is one that writes, and it puts it where its output is. -/
theorem writes_of_wrote {v : List String} {new : Disk.Face}
    (h : plan.wrote options rules fs fs₁ job = some (v, new)) :
    plan.Writes options rules fs job ∧ v = job.output.place fs₁.workingDirectory := by
  by_cases hwrites : plan.Writes options rules fs job
  · refine ⟨hwrites, ?_⟩
    obtain ⟨halone, compiled, htranslate⟩ := hwrites
    rw [(outcomeAt_of_writes halone htranslate fs₁).2] at h
    cases heffect : fs₁.effect job.output compiled.code.toUTF8 with
    | error e => rw [heffect] at h; cases h
    | ok e =>
      rw [heffect] at h
      cases h
      obtain ⟨_, -, -, hplace, -⟩ := FileSystem.write_of_effect_ok heffect
      exact hplace
  · rw [(runJob_of_not_writes hwrites fs₁).2] at h
    cases h

theorem Written.cons_of_not_writes (h : plan.Written options rules fs fs₁ done s)
    (hwrites : ¬ plan.Writes options rules fs job) :
    plan.Written options rules fs fs₁ (job :: done) s := by
  have hnone := (runJob_of_not_writes hwrites fs₁).2
  refine ⟨h.moves, fun v hv => h.kept v fun j hj => hv j (List.mem_cons_of_mem _ hj), ?_⟩
  intro j hj v new hnew
  rcases List.mem_cons.mp hj with rfl | hj
  · rw [hnone] at hnew
    cases hnew
  · exact h.put j hj v new hnew

/-- **Inputs read as before**, after any change on the ways of the outputs. -/
theorem Apart.read_eq (hapart : plan.Apart options rules fs)
    (hmoves : fs.Moves (plan.Touches options rules fs) s) (hjob : job ∈ plan) :
    s.read job.input = fs.read job.input :=
  (FileSystem.read_congr hmoves.workingDirectory.symm fun v hv =>
    (hmoves.view_eq fun htouches => hapart.inputs job hjob v hv htouches).symm).symm

variable (hstage : plan.Stage options rules fs fs₁)
include hstage

theorem Progress.moves (h : plan.Progress options rules fs fs₁ done s) :
    fs.Moves (plan.Touches options rules fs) s := by
  by_cases hbusy : ∃ job ∈ done, plan.Writes options rules fs job
  · exact hstage.moves.trans (h.busy hbusy).moves
  · rw [h.idle fun job hjob hwrites => hbusy ⟨job, hjob, hwrites⟩]
    exact .refl _ _

/-- When a job is to write, its directory is there or is made. -/
theorem Progress.createParent (h : plan.Progress options rules fs fs₁ done s) (hjob : job ∈ plan)
    (hwrites : plan.Writes options rules fs job) :
    ∃ s₁, (createParent FileSystem.disk job.output).run s = (.ok (), s₁) ∧
      plan.Written options rules fs fs₁ done s₁ := by
  by_cases hbusy : ∃ job ∈ done, plan.Writes options rules fs job
  · have hwritten := h.busy hbusy
    exact ⟨s, createParent_of_provides (provides_mono hwritten.moves
      (hstage.provides job hjob hwrites)), hwritten⟩
  · have hidle : ∀ job ∈ done, ¬ plan.Writes options rules fs job := fun job hjob hwrites =>
      hbusy ⟨job, hjob, hwrites⟩
    rw [h.idle hidle]
    refine ⟨fs₁, hstage.made job hjob hwrites, .refl _ _, fun _ _ => rfl, ?_⟩
    intro j hj v new hnew
    exact absurd (writes_of_wrote hnew).1 (hidle j hj)

/-- **A write** does the same after any other writes. -/
theorem Written.write (hapart : plan.Apart options rules fs)
    (h : plan.Written options rules fs fs₁ done s) (hdone : done ⊆ plan)
    (hjob : job ∈ plan) (hnew : job ∉ done) {compiled : CompileOutput}
    (halone : plan.isAlone job = true)
    (htranslate : job.translate options rules (fs.read job.input) = .ok compiled) :
    (FileSystem.disk.write job.output compiled.code s).1 =
        (fs₁.effect job.output compiled.code.toUTF8).map (fun _ => ()) ∧
      plan.Written options rules fs fs₁ (job :: done)
        (FileSystem.disk.write job.output compiled.code s).2 := by
  have hwrites : plan.Writes options rules fs job := ⟨halone, compiled, htranslate⟩
  have hdir := hstage.moves.workingDirectory
  have hwrote := (outcomeAt_of_writes halone htranslate fs₁).2
  -- no other output leads to the place
  have hother : ∀ j ∈ done, ∀ new, plan.wrote options rules fs fs₁ j ≠
      some (job.output.place fs₁.workingDirectory, new) := by
    intro j hj new hput
    obtain ⟨hwritesj, hplace⟩ := writes_of_wrote hput
    rw [hdir] at hplace
    obtain rfl := hapart.outputs job hjob j (hdone hj) hwrites hwritesj hplace
    exact hnew hj
  have heffect := FileSystem.effect_eq (hstage.ready job hjob hwrites) h.moves
    compiled.code.toUTF8 (h.kept _ hother)
  have hmoves : s.Moves (plan.Touches options rules fs)
      (FileSystem.disk.write job.output compiled.code s).2 := by
    refine (FileSystem.moves_write job.output compiled.code.toUTF8 s).mono fun v hv => ?_
    rw [hv, h.moves.workingDirectory, hdir]
    exact ⟨job, hjob, hwrites, FileSystem.mem_way_foldl⟩
  have hrun : FileSystem.disk.write job.output compiled.code s =
    FileSystem.change (·.write job.output compiled.code.toUTF8) s := rfl
  rw [hrun] at hmoves ⊢
  cases hat : fs₁.effect job.output compiled.code.toUTF8 with
  | error e =>
    rw [hat] at heffect hwrote
    rw [FileSystem.change_of_error (FileSystem.write_of_effect_error heffect)]
    refine ⟨rfl, h.moves, fun v hv => h.kept v fun j hj => hv j (List.mem_cons_of_mem _ hj), ?_⟩
    intro j hj v new hput
    rcases List.mem_cons.mp hj with rfl | hj
    · rw [hwrote] at hput
      cases hput
    · exact h.put j hj v new hput
  | ok e =>
    obtain ⟨q, new⟩ := e
    rw [hat] at heffect hwrote
    obtain ⟨s', hwrite, -, hq, -, hview⟩ := FileSystem.write_of_effect_ok heffect
    rw [h.moves.workingDirectory] at hq
    rw [FileSystem.change_of_ok hwrite] at hmoves ⊢
    refine ⟨rfl, h.moves.trans hmoves, fun v hv => ?_, fun j hj v face hput => ?_⟩
    · have hne : v ≠ q := by
        rintro rfl
        exact hv job List.mem_cons_self new hwrote
      rw [hview, if_neg hne]
      exact h.kept v fun j hj => hv j (List.mem_cons_of_mem _ hj)
    · rcases List.mem_cons.mp hj with rfl | hj
      · rw [hwrote] at hput
        cases hput
        rw [hview, if_pos rfl]
      · have hne : v ≠ q := by
          rintro rfl
          exact hother j hj face (hq ▸ hput)
        rw [hview, if_neg hne]
        exact h.put j hj v face hput

/-- **One step**: what becomes of the job does not depend on the jobs before it. -/
theorem Progress.step (hapart : plan.Apart options rules fs)
    (h : plan.Progress options rules fs fs₁ done s) (hdone : done ⊆ plan) (hjob : job ∈ plan)
    (hnew : job ∉ done) :
    (plan.runJob FileSystem.disk options rules job s).1 =
        plan.outcomeAt options rules fs fs₁ job ∧
      plan.Progress options rules fs fs₁ (job :: done)
        (plan.runJob FileSystem.disk options rules job s).2 := by
  have hread := hapart.read_eq (h.moves hstage) hjob
  by_cases hwrites : plan.Writes options rules fs job
  · obtain ⟨halone, compiled, htranslate⟩ := hwrites
    have hwrites : plan.Writes options rules fs job := ⟨halone, compiled, htranslate⟩
    obtain ⟨s₁, hparent, hwritten⟩ := h.createParent hstage hjob hwrites
    obtain ⟨hwrite, hwritten⟩ := hwritten.write hstage hapart hdone hjob hnew halone htranslate
    rw [runJob_of_writes halone (hread.symm ▸ htranslate), Job.store_apply, hparent]
    dsimp only
    refine ⟨?_, fun hidle => absurd hwrites (hidle job List.mem_cons_self), fun _ => hwritten⟩
    rw [hwrite, (outcomeAt_of_writes halone htranslate fs₁).1]
    cases fs₁.effect job.output compiled.code.toUTF8 <;> rfl
  · have hwrites' : ¬ plan.Writes options rules s job := fun ⟨halone, compiled, htranslate⟩ =>
      hwrites ⟨halone, compiled, hread ▸ htranslate⟩
    have hsame : plan.outcomeAt options rules s fs₁ job =
        plan.outcomeAt options rules fs fs₁ job := by
      unfold outcomeAt
      rw [hread]
    rw [(runJob_of_not_writes hwrites' fs₁).1]
    refine ⟨hsame, fun hidle => h.idle fun j hj => hidle j (List.mem_cons_of_mem _ hj), ?_⟩
    rintro ⟨j, hj, hj'⟩
    rcases List.mem_cons.mp hj with rfl | hj
    · exact absurd hj' hwrites
    · exact (h.busy ⟨j, hj, hj'⟩).cons_of_not_writes hwrites

/-- **All steps**, by induction on the order: each job has the outcome that it has alone. -/
theorem Progress.outcomes (hapart : plan.Apart options rules fs) {order : List Job}
    (h : plan.Progress options rules fs fs₁ done s) (hdone : done ⊆ plan) (horder : order ⊆ plan)
    (hnodup : (done.reverse ++ order).Nodup) :
    (plan.outcomes FileSystem.disk options rules order s).1 =
        order.map (fun job => (job, plan.outcomeAt options rules fs fs₁ job)) ∧
      plan.Progress options rules fs fs₁ (order.reverse ++ done)
        (plan.outcomes FileSystem.disk options rules order s).2 := by
  induction order generalizing done s with
  | nil => exact ⟨rfl, h⟩
  | cons job jobs ih =>
    have hjob := horder List.mem_cons_self
    have hnew : job ∉ done := by
      intro hmem
      exact (List.disjoint_of_nodup_append hnodup) (List.mem_reverse.mpr hmem) List.mem_cons_self
    obtain ⟨hout, hstep⟩ := h.step hstage hapart hdone hjob hnew
    obtain ⟨houts, hrest⟩ := ih hstep
      (List.cons_subset.mpr ⟨hjob, hdone⟩) (fun j hj => horder (List.mem_cons_of_mem _ hj))
      (by simpa using hnodup)
    have hcons : plan.outcomes FileSystem.disk options rules (job :: jobs) s =
        ((job, (plan.runJob FileSystem.disk options rules job s).1) ::
            (plan.outcomes FileSystem.disk options rules jobs
              (plan.runJob FileSystem.disk options rules job s).2).1,
          (plan.outcomes FileSystem.disk options rules jobs
            (plan.runJob FileSystem.disk options rules job s).2).2) := by
      unfold Plan.outcomes
      rw [List.mapM_cons]
      rfl
    rw [hcons, hout, houts]
    exact ⟨rfl, by simpa using hrest⟩

end Plan

end Command

end Typeshift
