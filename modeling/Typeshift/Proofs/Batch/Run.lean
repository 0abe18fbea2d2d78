import Mathlib.Data.List.Perm.Basic
import Typeshift.Command.Batch
import Typeshift.Proofs.Ensures
import Typeshift.Proofs.Lookup

/-! # Processing the files of a batch

The files of a plan may be processed in any order: a step reads an input, compiles it and writes its
output. The report lists the files in the order of the plan, whatever the order of the steps is.

* `Job.translate`, `Job.store`: what a step does with the bytes it reads, and with the text it
  makes.
* `Plan.runIn`: the files of a plan, processed in an order. `Plan.run_eq_runIn`: the order of the
  plan is one of them.
* `Job.Settled`: what is known of the outcome of a file, whatever is on the disk.
* `Plan.exists_outcome`: every file has such an outcome, and the report holds them all in order. -/

namespace Typeshift.Command

open Typeshift.Disk

/-! ### Steps that may fail -/

section Steps

variable {ε ε' α β σ : Type}

theorem run_bind (x : ExceptT ε (StateM σ) α) (f : α → ExceptT ε (StateM σ) β) (s : σ) :
    (x >>= f).run s = match x.run s with
      | (.ok a, s') => (f a).run s'
      | (.error e, s') => (.error e, s') := by
  show (ExceptT.bindCont f (x.run s).1) (x.run s).2 = _
  rcases x.run s with ⟨_ | a, s'⟩ <;> rfl

theorem run_adapt (f : ε → ε') (x : ExceptT ε (StateM σ) α) (s : σ) :
    (x.adapt f).run s = ((x.run s).1.mapError f, (x.run s).2) := rfl

end Steps

variable {σ : Type} (disk : Disk (StateM σ)) (options : CompileOptions) (rules : Registry)

/-! ### One file -/

namespace Job

/-- What a job makes of the bytes of its input. -/
def translate (job : Job) (bytes : Except DiskError ByteArray) :
    Except FileError CompileOutput := do
  let source ← (bytes >>= decode).mapError (.read job.input)
  (compile options rules source).mapError (.convert job.input)

/-- The report of a job whose output is written. -/
def report (job : Job) (compiled : CompileOutput) : FileReport :=
  ⟨job.input, job.output, compiled.diagnostics.map (·.withFile job.input.text), compiled.hoisted⟩

/-- Write the output of a job. -/
def store (job : Job) (compiled : CompileOutput) : ExceptT FileError (StateM σ) FileReport := do
  createParent disk job.output
  ExceptT.mk do return (← disk.write job.output compiled.code).mapError (.write job.output)
  return job.report compiled

/-- **One step**: what is read decides alone whether anything is written, and what. -/
theorem run_apply (job : Job) (s : σ) :
    (job.run disk options rules).run s =
      match job.translate options rules (disk.read job.input s).1 with
      | .error e => (.error e, (disk.read job.input s).2)
      | .ok compiled => (job.store disk compiled).run (disk.read job.input s).2 := by
  have hread : (readText disk job.input).run s =
      ((disk.read job.input s).1 >>= decode, (disk.read job.input s).2) := rfl
  unfold run translate
  rw [run_bind, run_adapt, hread]
  rcases (disk.read job.input s).1 >>= decode with e | source
  · rfl
  · show ((ExceptT.mk (pure ((compile options rules source).mapError (.convert job.input)))) >>=
      job.store disk).run _ =
        match (compile options rules source).mapError (.convert job.input) with
        | .error e => (.error e, (disk.read job.input s).2)
        | .ok compiled => (job.store disk compiled).run (disk.read job.input s).2
    rw [run_bind]
    rcases compile options rules source with e | compiled <;> rfl

theorem store_apply (job : Job) (compiled : CompileOutput) (s : σ) :
    (job.store disk compiled).run s =
      match (createParent disk job.output).run s with
      | (.error e, s') => (.error e, s')
      | (.ok _, s') =>
        (((disk.write job.output compiled.code s').1.mapError (.write job.output)).map
            fun _ => job.report compiled,
          (disk.write job.output compiled.code s').2) := by
  unfold store
  rw [run_bind]
  rcases (createParent disk job.output).run s with ⟨_ | _, s'⟩
  · rfl
  · show ((ExceptT.mk do
        return (← disk.write job.output compiled.code).mapError (.write job.output) :
        ExceptT FileError (StateM σ) Unit) >>= fun _ => pure (job.report compiled)).run s' = _
    have hwrite : ((ExceptT.mk do
        return (← disk.write job.output compiled.code).mapError (.write job.output) :
        ExceptT FileError (StateM σ) Unit)).run s' =
          ((disk.write job.output compiled.code s').1.mapError (.write job.output),
            (disk.write job.output compiled.code s').2) := rfl
    rw [run_bind, hwrite]
    dsimp only
    rcases (disk.write job.output compiled.code s').1 with _ | _ <;> rfl

end Job

/-! ### Outcomes -/

/-- Whether an error says that an output is shared. -/
def FileError.isShared : FileError → Bool
  | .sharedOutput _ _ => true
  | _ => false

namespace Job

variable {disk options rules}

theorem isShared_of_translate {job : Job} {bytes : Except DiskError ByteArray} {e : FileError}
    (h : job.translate options rules bytes = .error e) : e.isShared = false := by
  unfold translate at h
  rcases hsource : bytes >>= decode with _ | source
  all_goals rw [hsource] at h
  · cases h
    rfl
  · have h : (compile options rules source).mapError (.convert job.input) = .error e := h
    rcases hcompile : compile options rules source with _ | compiled
    all_goals rw [hcompile] at h; cases h
    rfl

theorem isShared_of_createParent {p : Path} {s : σ} {e : FileError}
    (h : ((createParent disk p).run s).1 = .error e) : e.isShared = false := by
  unfold createParent at h
  split at h
  · cases h
  · next dir _ =>
    split_ifs at h
    · cases h
    · have h : (disk.createDirectories dir s).1.mapError (.createDirectory dir) = .error e := h
      rcases hdir : (disk.createDirectories dir s).1 with _ | _
      all_goals rw [hdir] at h; cases h
      rfl

/-- What is known of the outcome of a job, whatever is on the disk. -/
structure Settled (plan : Plan) (job : Job) (outcome : Except FileError FileReport) : Prop where
  shared : plan.rivals job ≠ [] → outcome = .error (.sharedOutput job.output (plan.rivals job))
  alone : plan.rivals job = [] → ∀ e, outcome = .error e → e.isShared = false
  converted : ∀ file, outcome = .ok file → file.input = job.input ∧ file.output = job.output

theorem settled_run (plan : Plan) {job : Job} (h : plan.rivals job = []) (s : σ) :
    Settled plan job ((job.run disk options rules).run s).1 := by
  rw [run_apply]
  rcases htranslate : job.translate options rules (disk.read job.input s).1 with e | compiled
  · exact ⟨absurd h, fun _ _ he => Except.error.inj he ▸ isShared_of_translate htranslate, nofun⟩
  · dsimp only
    generalize (disk.read job.input s).2 = s
    rw [store_apply]
    rcases hparent : (createParent disk job.output).run s with ⟨e | _, s'⟩
    · have he : e.isShared = false :=
        isShared_of_createParent (s := s) (congrArg Prod.fst hparent)
      exact ⟨absurd h, fun _ _ heq => Except.error.inj heq ▸ he, nofun⟩
    · dsimp only
      rcases (disk.write job.output compiled.code s').1 with e | _
      · exact ⟨absurd h, fun _ _ he => Except.error.inj he ▸ rfl, nofun⟩
      · exact ⟨absurd h, nofun, fun _ hfile => Except.ok.inj hfile ▸ ⟨rfl, rfl⟩⟩

theorem settled_runJob (plan : Plan) (job : Job) (s : σ) :
    Settled plan job (plan.runJob disk options rules job s).1 := by
  unfold Plan.runJob
  cases h : plan.rivals job with
  | nil => exact settled_run plan h s
  | cons other others =>
    refine ⟨fun _ => ?_, fun halone => ?_, nofun⟩
    · rw [h]
      rfl
    · rw [h] at halone
      cases halone

end Job

/-! ### Any order -/

namespace Plan

/-- Process files of a plan in an order, and keep what becomes of each. -/
def outcomes (plan : Plan) (order : List Job) :
    StateM σ (List (Job × Except FileError FileReport)) :=
  order.mapM fun job => return (job, ← plan.runJob disk options rules job)

/-- The report on a plan, given what became of its files. -/
def reportOf (plan : Plan) (outcomes : List (Job × Except FileError FileReport)) : BatchReport :=
  plan.foldl (fun report job =>
    ((outcomes.lookup job).map (report.add job.input)).getD report) .empty

/-- **The files of a plan, processed in an order.** The report lists them as the plan does. -/
def runIn (plan : Plan) (order : List Job) : StateM σ BatchReport :=
  return plan.reportOf (← plan.outcomes disk options rules order)

/-- The error of a job, as the report lists it. -/
def failure? (job : Job) : Except FileError FileReport → Option FileFailure
  | .ok _ => none
  | .error e => some ⟨job.input, e⟩

/-- The report on some files, given what became of each. -/
def reportWith (outcome : Job → Except FileError FileReport) (jobs : List Job) : BatchReport :=
  ⟨jobs.filterMap fun job => (outcome job).toOption,
    jobs.filterMap fun job => failure? job (outcome job)⟩

theorem foldl_add (outcome : Job → Except FileError FileReport) (jobs : List Job)
    (report : BatchReport) :
    jobs.foldl (fun report job => report.add job.input (outcome job)) report =
      ⟨report.converted ++ (reportWith outcome jobs).converted,
        report.failed ++ (reportWith outcome jobs).failed⟩ := by
  induction jobs generalizing report with
  | nil => simp [reportWith]
  | cons job jobs ih =>
    rw [List.foldl_cons, ih]
    cases h : outcome job <;> simp [reportWith, failure?, BatchReport.add, h, Except.toOption]

theorem outcomes_spec (plan : Plan) (order : List Job) (s : σ) :
    (plan.outcomes disk options rules order s).1.map Prod.fst = order ∧
      ∀ e ∈ (plan.outcomes disk options rules order s).1, e.1.Settled plan e.2 := by
  have hsteps : Ensures (fun _ => True) (plan.outcomes disk options rules order)
      (List.Forall₂ (fun job e => job = e.1 ∧ e.1.Settled plan e.2) order) := by
    refine Ensures.mapM fun job _ s _ => ⟨trivial, rfl, ?_⟩
    exact Job.settled_runJob plan job s
  have hall := (hsteps s trivial).2
  refine ⟨?_, fun e he => ?_⟩
  · have hjobs := List.forall₂_map_right_iff.mpr (hall.imp fun _ _ he => he.1)
    rw [List.forall₂_eq_eq_eq] at hjobs
    exact hjobs.symm
  · obtain ⟨job, -, -, hsettled⟩ := exists_of_forall₂_left (R := flip _) hall.flip he
    exact hsettled

theorem reportOf_eq (plan : Plan) {outcomes : List (Job × Except FileError FileReport)}
    {outcome : Job → Except FileError FileReport}
    (h : ∀ job ∈ plan, outcomes.lookup job = some (outcome job)) :
    plan.reportOf outcomes = reportWith outcome plan := by
  have hfold := List.foldl_ext (fun report job =>
    ((outcomes.lookup job).map (BatchReport.add report job.input)).getD report)
    (fun report job => report.add job.input (outcome job)) .empty (l := plan)
    fun report job hjob => by
      rw [h job hjob]
      rfl
  exact hfold.trans (foldl_add outcome plan .empty)

/-- **Every file of the plan has an outcome of its own**, and the report holds them all. -/
theorem exists_outcome (plan : Plan) {order : List Job} (h : ∀ job ∈ plan, job ∈ order) (s : σ) :
    ∃ outcome : Job → Except FileError FileReport,
      (plan.runIn disk options rules order s).1 = reportWith outcome plan ∧
        (∀ job ∈ plan, (job, outcome job) ∈ (plan.outcomes disk options rules order s).1) ∧
        ∀ job ∈ plan, job.Settled plan (outcome job) := by
  obtain ⟨hjobs, hsettled⟩ := outcomes_spec disk options rules plan order s
  generalize hrun : plan.outcomes disk options rules order s = run at hjobs hsettled
  obtain ⟨outcomes, s'⟩ := run
  have hlookup : ∀ job ∈ plan, ∃ o, outcomes.lookup job = some o := fun job hjob =>
    exists_lookup_of_mem (hjobs ▸ h job hjob)
  have : Nonempty (Except FileError FileReport) := ⟨.error (.sharedOutput default [])⟩
  choose! outcome houtcome using hlookup
  have hmem : ∀ job ∈ plan, (job, outcome job) ∈ outcomes := fun job hjob =>
    mem_of_lookup (houtcome job hjob)
  refine ⟨outcome, ?_, hmem, fun job hjob => hsettled _ (hmem job hjob)⟩
  show plan.reportOf (plan.outcomes disk options rules order s).1 = _
  rw [hrun]
  exact reportOf_eq plan houtcome

theorem foldlM_runJob (plan : Plan) (jobs : List Job) (report : BatchReport) (s : σ) :
    (jobs.foldlM (fun report job => do
        return report.add job.input (← plan.runJob disk options rules job)) report : StateM σ _) s =
      ((plan.outcomes disk options rules jobs s).1.foldl
          (fun report e => report.add e.1.input e.2) report,
        (plan.outcomes disk options rules jobs s).2) := by
  induction jobs generalizing report s with
  | nil => rfl
  | cons job jobs ih =>
    unfold outcomes
    rw [List.foldlM_cons, List.mapM_cons]
    exact ih _ _

/-- **A plan is run in its own order.** -/
theorem run_eq_runIn {plan : Plan} (h : plan.Nodup) (s : σ) :
    plan.run disk options rules s = plan.runIn disk options rules plan s := by
  have hjobs := (outcomes_spec disk options rules plan plan s).1
  have hrun : plan.run disk options rules s = _ :=
    foldlM_runJob disk options rules plan plan .empty s
  show _ = (plan.reportOf (plan.outcomes disk options rules plan s).1,
    (plan.outcomes disk options rules plan s).2)
  rw [hrun]
  generalize (plan.outcomes disk options rules plan s).1 = outcomes at hjobs
  refine congrArg (·, _) ?_
  unfold reportOf
  rw [← hjobs, List.foldl_map]
  refine List.foldl_ext _ _ _ fun report e he => ?_
  rw [lookup_of_nodup (hjobs ▸ h) (show (e.1, e.2) ∈ outcomes from he)]
  rfl

end Plan

end Typeshift.Command
