import Typeshift.Disk.Memory
import Typeshift.Proofs.Batch.Run

/-! # Outputs that inputs share

Inputs whose outputs would be one path all fail, and that path is not written. Every other file goes
its own way. What is written is noted beside the disk; the notes change nothing else.

* `Disk.noting`: a disk that notes the paths it is asked to write.
* `Notes`: a step on such a disk does what it does without the notes, and notes some of given paths.
* `Collides`: an input that shares its output.
* `runIn_accounts`: what the report says, and what is written, for every order of the files. -/

namespace Typeshift

open Typeshift.Disk

variable {σ α β : Type}

/-! ### Notes beside a disk -/

/-- A disk that notes the paths it is asked to write. -/
def Disk.noting (disk : Disk (StateM σ)) : Disk (StateM (σ × List Path)) where
  isDirectory p := fun (s, noted) => ((disk.isDirectory p s).1, (disk.isDirectory p s).2, noted)
  filesBelow p := fun (s, noted) => ((disk.filesBelow p s).1, (disk.filesBelow p s).2, noted)
  read p := fun (s, noted) => ((disk.read p s).1, (disk.read p s).2, noted)
  createDirectories p := fun (s, noted) =>
    ((disk.createDirectories p s).1, (disk.createDirectories p s).2, noted)
  write p text := fun (s, noted) =>
    ((disk.write p text s).1, (disk.write p text s).2, noted ++ [p])

/-- A step with notes does what the other one does without, and notes some of the given paths. -/
def Notes (p : StateM (σ × List Path) α) (q : StateM σ α) (paths : List Path) : Prop :=
  ∀ s noted, ∃ more, more.Sublist paths ∧ p (s, noted) = ((q s).1, (q s).2, noted ++ more)

theorem notes_pure (a : α) : Notes (σ := σ) (pure a) (pure a) [] :=
  fun _ noted => ⟨[], List.nil_sublist _, by rw [List.append_nil]; rfl⟩

theorem Notes.bind {p : StateM (σ × List Path) α} {q : StateM σ α} {paths paths' : List Path}
    {f : α → StateM (σ × List Path) β} {g : α → StateM σ β} (h : Notes p q paths)
    (hf : ∀ a, Notes (f a) (g a) paths') : Notes (p >>= f) (q >>= g) (paths ++ paths') := by
  intro s noted
  obtain ⟨more, hmore, hp⟩ := h s noted
  obtain ⟨more', hmore', hf⟩ := hf (q s).1 (q s).2 (noted ++ more)
  refine ⟨more ++ more', hmore.append hmore', ?_⟩
  show f (p (s, noted)).1 (p (s, noted)).2 = _
  rw [hp, ← List.append_assoc]
  exact hf

namespace Command

variable (disk : Disk (StateM σ)) (options : CompileOptions) (rules : Registry)

theorem createParent_noting (p : Path) (s : σ) (noted : List Path) :
    (createParent disk.noting p).run (s, noted) =
      (((createParent disk p).run s).1, ((createParent disk p).run s).2, noted) := by
  unfold createParent
  split
  · rfl
  · split_ifs <;> rfl

theorem notes_run (job : Job) :
    Notes (job.run disk.noting options rules).run (job.run disk options rules).run
      [job.output] := by
  intro s noted
  have hread : disk.noting.read job.input (s, noted) =
    ((disk.read job.input s).1, (disk.read job.input s).2, noted) := rfl
  rw [Job.run_apply, Job.run_apply, hread]
  dsimp only
  rcases job.translate options rules (disk.read job.input s).1 with e | compiled
  · exact ⟨[], List.nil_sublist _, by rw [List.append_nil]⟩
  · dsimp only
    rw [Job.store_apply, Job.store_apply, createParent_noting]
    rcases (createParent disk job.output).run (disk.read job.input s).2 with ⟨_ | _, s'⟩
    · exact ⟨[], List.nil_sublist _, by rw [List.append_nil]⟩
    · exact ⟨_, List.Sublist.refl _, rfl⟩

/-- What is converted is written. -/
theorem mem_noted_of_run {job : Job} {s : σ} {noted : List Path} {file : FileReport}
    (h : ((job.run disk.noting options rules).run (s, noted)).1 = .ok file) :
    file.output ∈ ((job.run disk.noting options rules).run (s, noted)).2.2 := by
  rw [Job.run_apply] at h ⊢
  rcases htranslate : job.translate options rules (disk.noting.read job.input (s, noted)).1
    with e | compiled <;> rw [htranslate] at h
  · cases h
  · dsimp only at h ⊢
    rw [Job.store_apply] at h ⊢
    rcases hparent : (createParent disk.noting job.output).run
      (disk.noting.read job.input (s, noted)).2 with ⟨e | _, t⟩ <;> rw [hparent] at h
    · cases h
    · have hnoted : (disk.noting.write job.output compiled.code t).2.2 = t.2 ++ [job.output] := rfl
      dsimp only at h ⊢
      rw [hnoted]
      rcases hwrite : (disk.noting.write job.output compiled.code t).1 with e | _ <;>
        rw [hwrite] at h <;> cases h
      exact List.mem_append_right _ List.mem_cons_self

namespace Plan

/-- Whether no other file has the output of a job. -/
def isAlone (plan : Plan) (job : Job) : Bool := (plan.rivals job).isEmpty

theorem notes_runJob (plan : Plan) (job : Job) :
    Notes (plan.runJob disk.noting options rules job) (plan.runJob disk options rules job)
      (if plan.isAlone job then [job.output] else []) := by
  unfold runJob isAlone
  cases plan.rivals job with
  | nil => exact notes_run disk options rules job
  | cons other others => exact notes_pure _

theorem notes_outcomes (plan : Plan) (order : List Job) :
    Notes (plan.outcomes disk.noting options rules order)
      (plan.outcomes disk options rules order)
      ((order.filter plan.isAlone).map Job.output) := by
  unfold outcomes
  induction order with
  | nil => exact notes_pure _
  | cons job jobs ih =>
    rw [List.mapM_cons, List.mapM_cons]
    have hjob := notes_runJob disk options rules plan job
    have hall := (hjob.bind fun o => notes_pure (job, o)).bind fun e =>
      ih.bind fun es => notes_pure (e :: es)
    have hpaths : (if plan.isAlone job then [job.output] else []) ++ [] ++
        ((jobs.filter plan.isAlone).map Job.output ++ []) =
          ((job :: jobs).filter plan.isAlone).map Job.output := by
      rw [List.append_nil, List.append_nil, List.filter_cons]
      split <;> rfl
    exact hpaths ▸ hall

/-- What is converted is written, in any order. -/
theorem mem_noted_of_outcomes (plan : Plan) (order : List Job) (s : σ) (noted : List Path) :
    ∀ e ∈ (plan.outcomes disk.noting options rules order (s, noted)).1, ∀ file, e.2 = .ok file →
      file.output ∈ (plan.outcomes disk.noting options rules order (s, noted)).2.2 := by
  induction order generalizing s noted with
  | nil => rintro _ ⟨⟩
  | cons job jobs ih =>
    obtain ⟨s', noted', hstep⟩ : ∃ s' noted',
      (plan.runJob disk.noting options rules job (s, noted)).2 = (s', noted') := ⟨_, _, rfl⟩
    have hcons : plan.outcomes disk.noting options rules (job :: jobs) (s, noted) =
        ((job, (plan.runJob disk.noting options rules job (s, noted)).1) ::
            (plan.outcomes disk.noting options rules jobs (s', noted')).1,
          (plan.outcomes disk.noting options rules jobs (s', noted')).2) := by
      rw [← hstep, outcomes, List.mapM_cons]
      rfl
    rw [hcons]
    intro e he file hfile
    rcases List.mem_cons.mp he with rfl | he
    · -- the step noted the path, and the others only add to the notes
      have hmem : file.output ∈ noted' := by
        have hrun : file.output ∈ (plan.runJob disk.noting options rules job (s, noted)).2.2 := by
          unfold runJob at hfile ⊢
          cases hrivals : plan.rivals job with
          | nil =>
            rw [hrivals] at hfile
            exact mem_noted_of_run disk options rules hfile
          | cons other others =>
            rw [hrivals] at hfile
            cases hfile
        rwa [hstep] at hrun
      obtain ⟨more, -, hmore⟩ := notes_outcomes disk options rules plan jobs s' noted'
      rw [hmore]
      exact List.mem_append_left _ hmem
    · exact ih s' noted' e he file hfile

theorem notes_runIn (plan : Plan) (order : List Job) :
    Notes (plan.runIn disk.noting options rules order) (plan.runIn disk options rules order)
      ((order.filter plan.isAlone).map Job.output) := by
  have h := (notes_outcomes disk options rules plan order).bind fun outcomes =>
    notes_pure (plan.reportOf outcomes)
  rwa [List.append_nil] at h

end Plan

/-! ### Collisions -/

/-- Another input has the same output. -/
def Collides (output : Path → Path) (inputs : List Path) (input : Path) : Prop :=
  ∃ other ∈ inputs, other.same input = false ∧ (output other).same (output input) = true

theorem same_comm (p q : Path) : p.same q = q.same p := by
  simp only [Path.same, eq_comm]

section Collisions

variable {d : Destination} {rename : Bool} {format : Format} {inputs : List Path} {input : Path}

theorem rivals_make :
    (Plan.make d rename format inputs).rivals ⟨input, d.outputOf rename format input⟩ =
      inputs.filter fun other =>
        (d.outputOf rename format other).same (d.outputOf rename format input) &&
          !other.same input := by
  simp [Plan.rivals, Plan.make, List.filter_map, Function.comp_def]

theorem isAlone_make :
    (Plan.make d rename format inputs).isAlone ⟨input, d.outputOf rename format input⟩ = true ↔
      ¬ Collides (d.outputOf rename format) inputs input := by
  rw [Plan.isAlone, rivals_make, List.isEmpty_iff, List.filter_eq_nil_iff]
  simp only [Collides, Bool.and_eq_true, Bool.not_eq_true']
  constructor
  · rintro h ⟨other, hother, hne, hsame⟩
    exact h other hother ⟨hsame, hne⟩
  · rintro h other hother ⟨hsame, hne⟩
    exact h ⟨other, hother, hne, hsame⟩

theorem mem_make {job : Job} : job ∈ Plan.make d rename format inputs ↔
    job.input ∈ inputs ∧ job.output = d.outputOf rename format job.input := by
  obtain ⟨input, output⟩ := job
  simp only [Plan.make, List.mem_map, Job.mk.injEq]
  constructor
  · rintro ⟨_, hinput, rfl, rfl⟩
    exact ⟨hinput, rfl⟩
  · rintro ⟨hinput, rfl⟩
    exact ⟨input, hinput, rfl, rfl⟩

theorem map_input_make : (Plan.make d rename format inputs).map Job.input = inputs := by
  rw [Plan.make, List.map_map]
  exact List.map_id inputs

theorem nodup_make (hdistinct : inputs.Pairwise fun p q => p.same q = false) :
    (Plan.make d rename format inputs).Nodup := by
  refine List.pairwise_map.mpr (hdistinct.imp fun {p q} h heq => ?_)
  obtain rfl : p = q := congrArg Job.input heq
  simp [Path.same] at h

/-- The outputs that are not shared are different paths. -/
theorem pairwise_alone (hdistinct : inputs.Pairwise fun p q => p.same q = false) {order : List Job}
    (horder : order.Perm (Plan.make d rename format inputs)) :
    ((order.filter (Plan.make d rename format inputs).isAlone).map Job.output).Pairwise
      fun p q => p.same q = false := by
  rw [List.pairwise_map]
  refine ((horder.filter _).pairwise_iff fun {a b} h => same_comm _ _ ▸ h).mpr ?_
  have hjobs : (Plan.make d rename format inputs).Pairwise fun a b =>
      a.input.same b.input = false := by
    rwa [← List.pairwise_map (f := Job.input) (R := fun p q => p.same q = false), map_input_make]
  refine (List.Pairwise.filter _ hjobs).imp_of_mem fun {a b} ha hb hab => ?_
  obtain ⟨hmem, halone⟩ := List.mem_filter.mp hb
  obtain ⟨-, hout⟩ := mem_make.mp hmem
  obtain ⟨ha, hout'⟩ := mem_make.mp (List.mem_of_mem_filter ‹a ∈ _›)
  have hb : b = ⟨b.input, d.outputOf rename format b.input⟩ := by rw [← hout]
  rw [hb] at halone
  rw [hout, hout']
  by_contra hsame
  exact isAlone_make.mp halone ⟨a.input, ha, hab, by simpa using hsame⟩

end Collisions

/-! ### Reports -/

/-- Every input is in one of the two lists of a report, once and in order. -/
structure BatchReport.Accounts (r : BatchReport) (inputs : List Path) : Prop where
  all : (r.converted.map FileReport.input ++ r.failed.map FileFailure.input).Perm inputs
  converted : (r.converted.map FileReport.input).Sublist inputs
  failed : (r.failed.map FileFailure.input).Sublist inputs
  succeeded : r.succeeded = true ↔ ∀ input ∈ inputs, input ∉ r.failed.map FileFailure.input

/-- A report, and the paths that were written, keep outputs apart. -/
structure KeepsApart (output : Path → Path) (inputs : List Path) (r : BatchReport)
    (written : List Path) : Prop where
  /-- The inputs that fail because they share an output, with what the error says. -/
  shared : ∀ input ∈ inputs, (∃ p others, ⟨input, .sharedOutput p others⟩ ∈ r.failed) ↔
    Collides output inputs input
  named : ∀ input ∈ inputs, ∀ p others, ⟨input, .sharedOutput p others⟩ ∈ r.failed →
    p = output input ∧ others = inputs.filter fun other =>
      (output other).same (output input) && !other.same input
  /-- No path is written twice. -/
  once : written.Pairwise fun p q => p.same q = false
  /-- Only outputs of inputs are written, and none that is shared. -/
  owned : ∀ p ∈ written, ∃ input ∈ inputs, p = output input
  spared : ∀ input ∈ inputs, Collides output inputs input → ∀ p ∈ written,
    p.same (output input) = false
  /-- What is reported as converted is written. -/
  converted : ∀ file ∈ r.converted, file.output = output file.input ∧ file.output ∈ written

section Reports

variable {disk options rules} {plan : Plan} {outcome : Job → Except FileError FileReport}

theorem mem_converted {file : FileReport} :
    file ∈ (Plan.reportWith outcome plan).converted ↔ ∃ job ∈ plan, outcome job = .ok file := by
  simp only [Plan.reportWith, List.mem_filterMap]
  refine exists_congr fun job => and_congr_right fun _ => ?_
  cases outcome job <;> simp [Except.toOption]

theorem mem_failed {failure : FileFailure} :
    failure ∈ (Plan.reportWith outcome plan).failed ↔
      ∃ job ∈ plan, outcome job = .error failure.error ∧ failure.input = job.input := by
  simp only [Plan.reportWith, List.mem_filterMap]
  refine exists_congr fun job => and_congr_right fun _ => ?_
  obtain ⟨input, e⟩ := failure
  cases outcome job <;> simp [Plan.failure?, and_comm, eq_comm]

theorem converted_inputs {jobs : List Job} (h : ∀ job ∈ jobs, job.Settled plan (outcome job)) :
    (Plan.reportWith outcome jobs).converted.map FileReport.input =
      (jobs.filter fun job => (outcome job).isOk).map Job.input := by
  induction jobs with
  | nil => rfl
  | cons job jobs ih =>
    have ih := ih fun job hjob => h job (List.mem_cons_of_mem _ hjob)
    have hjob := (h job List.mem_cons_self).converted
    simp only [Plan.reportWith, List.filterMap_cons, List.filter_cons] at ih ⊢
    cases ho : outcome job with
    | error e => simpa [Except.toOption, Except.isOk, Except.toBool] using ih
    | ok file =>
      simpa [Except.toOption, Except.isOk, Except.toBool, (hjob file ho).1] using ih

theorem failed_inputs (jobs : List Job) :
    (Plan.reportWith outcome jobs).failed.map FileFailure.input =
      (jobs.filter fun job => !(outcome job).isOk).map Job.input := by
  induction jobs with
  | nil => rfl
  | cons job jobs ih =>
    simp only [Plan.reportWith, List.filterMap_cons, List.filter_cons] at ih ⊢
    cases ho : outcome job with
    | error e => simpa [Plan.failure?, Except.isOk, Except.toBool] using ih
    | ok file => simpa [Plan.failure?, Except.isOk, Except.toBool] using ih

/-- A report on settled outcomes accounts for all files. -/
theorem accounts_reportWith (h : ∀ job ∈ plan, job.Settled plan (outcome job)) :
    (Plan.reportWith outcome plan).Accounts (plan.map Job.input) where
  all := by
    rw [converted_inputs h, failed_inputs, ← List.map_append]
    exact (List.filter_append_perm _ plan).map Job.input
  converted := by
    rw [converted_inputs h]
    exact List.filter_sublist.map Job.input
  failed := by
    rw [failed_inputs]
    exact List.filter_sublist.map Job.input
  succeeded := by
    rw [BatchReport.succeeded, List.isEmpty_iff]
    constructor
    · intro hnone
      simp [hnone]
    · intro hnone
      refine List.eq_nil_iff_forall_not_mem.mpr fun failure hfailure => ?_
      obtain ⟨job, hjob, -, hinput⟩ := mem_failed.mp hfailure
      refine hnone job.input (List.mem_map_of_mem hjob) ?_
      exact hinput ▸ List.mem_map_of_mem hfailure

variable {d : Destination} {rename : Bool} {format : Format} {inputs : List Path}

/-- The failures because of a shared output, with what they name. -/
theorem sharedOutput_mem_failed
    (hsettled : ∀ job ∈ Plan.make d rename format inputs,
      job.Settled (Plan.make d rename format inputs) (outcome job))
    {input p : Path} {others : List Path} :
    ⟨input, .sharedOutput p others⟩ ∈
        (Plan.reportWith outcome (Plan.make d rename format inputs)).failed ↔
      input ∈ inputs ∧ Collides (d.outputOf rename format) inputs input ∧
        p = d.outputOf rename format input ∧
        others = inputs.filter fun other =>
          (d.outputOf rename format other).same (d.outputOf rename format input) &&
            !other.same input := by
  rw [mem_failed]
  constructor
  · rintro ⟨⟨_, output⟩, hjob, hshared, hinput⟩
    obtain rfl : input = _ := hinput
    obtain ⟨hinput, houtput⟩ := mem_make.mp hjob
    obtain rfl : output = d.outputOf rename format input := houtput
    have hrivals : (Plan.make d rename format inputs).rivals _ ≠ [] := fun halone =>
      nomatch (hsettled _ hjob).alone halone _ hshared
    have hboth := hshared.symm.trans ((hsettled _ hjob).shared hrivals)
    rw [rivals_make, Except.error.injEq, FileError.sharedOutput.injEq] at hboth
    refine ⟨hinput, ?_, hboth⟩
    by_contra hcollides
    exact hrivals (List.isEmpty_iff.mp (isAlone_make.mpr hcollides))
  · rintro ⟨hinput, hcollides, rfl, rfl⟩
    have hjob : ⟨input, d.outputOf rename format input⟩ ∈ Plan.make d rename format inputs :=
      mem_make.mpr ⟨hinput, rfl⟩
    refine ⟨_, hjob, ?_, rfl⟩
    rw [(hsettled _ hjob).shared fun halone =>
      isAlone_make.mp (List.isEmpty_iff.mpr halone) hcollides, rivals_make]

/-- A report on settled outcomes keeps outputs apart, if what was written came from files that do
not share their outputs. -/
theorem keepsApart_reportWith (hdistinct : inputs.Pairwise fun p q => p.same q = false)
    {order : List Job} (horder : order.Perm (Plan.make d rename format inputs))
    (hsettled : ∀ job ∈ Plan.make d rename format inputs,
      job.Settled (Plan.make d rename format inputs) (outcome job))
    {written : List Path} (hwritten : written.Sublist
      ((order.filter (Plan.make d rename format inputs).isAlone).map Job.output))
    (hall : ∀ file ∈ (Plan.reportWith outcome (Plan.make d rename format inputs)).converted,
      file.output ∈ written) :
    KeepsApart (d.outputOf rename format) inputs
      (Plan.reportWith outcome (Plan.make d rename format inputs)) written := by
  have howned : ∀ p ∈ written, ∃ input ∈ inputs, p = d.outputOf rename format input ∧
      ¬ Collides (d.outputOf rename format) inputs input := by
    intro p hp
    obtain ⟨⟨input, output⟩, hjob, rfl⟩ := List.mem_map.mp (hwritten.subset hp)
    obtain ⟨hjob, halone⟩ := List.mem_filter.mp hjob
    obtain ⟨hinput, houtput⟩ := mem_make.mp (horder.subset hjob)
    obtain rfl : output = d.outputOf rename format input := houtput
    exact ⟨input, hinput, rfl, isAlone_make.mp halone⟩
  refine ⟨fun input hinput => ?_, fun input _ p others h => ?_,
    (pairwise_alone hdistinct horder).sublist hwritten, fun p hp => ?_, ?_, fun file hfile => ?_⟩
  · simp only [sharedOutput_mem_failed hsettled]
    exact ⟨fun ⟨_, _, _, h, _⟩ => h, fun h => ⟨_, _, hinput, h, rfl, rfl⟩⟩
  · exact ((sharedOutput_mem_failed hsettled).mp h).2.2
  · obtain ⟨input, hinput, heq, -⟩ := howned p hp
    exact ⟨input, hinput, heq⟩
  · -- a path that is written comes from an input that collides with none
    intro input hinput hcollides p hp
    obtain ⟨writer, hwriter, rfl, halone⟩ := howned p hp
    by_contra hsame
    rw [Bool.not_eq_false] at hsame
    cases hinputs : input.same writer with
    | false => exact halone ⟨input, hinput, hinputs, same_comm _ _ ▸ hsame⟩
    | true =>
      obtain ⟨other, hother, hne, hout⟩ := hcollides
      refine halone ⟨other, hother, ?_, ?_⟩
      all_goals simp_all [Path.same]
  · obtain ⟨job, hjob, hok⟩ := mem_converted.mp hfile
    obtain ⟨hinput, houtput⟩ := (hsettled job hjob).converted file hok
    exact ⟨by rw [houtput, hinput, (mem_make.mp hjob).2], hall file hfile⟩

end Reports

/-- **Outputs are kept apart and all files are accounted for**, in whatever order the files are
processed. The order of the plan is one of them. -/
theorem runIn_accounts (d : Destination) (rename : Bool) (format : Format) {inputs : List Path}
    (hdistinct : inputs.Pairwise fun p q => p.same q = false) {order : List Job}
    (horder : order.Perm (Plan.make d rename format inputs)) (s : σ) :
    ∃ report s' written,
      (Plan.make d rename format inputs).runIn disk.noting options rules order (s, []) =
          (report, s', written) ∧
        (Plan.make d rename format inputs).runIn disk options rules order s = (report, s') ∧
        (order = Plan.make d rename format inputs →
          (Plan.make d rename format inputs).run disk options rules s = (report, s')) ∧
        KeepsApart (d.outputOf rename format) inputs report written ∧ report.Accounts inputs := by
  obtain ⟨outcome, hreport, hmem, hsettled⟩ := Plan.exists_outcome disk.noting
    options rules (Plan.make d rename format inputs)
    (fun _ hjob => horder.symm.subset hjob) (s, [])
  obtain ⟨written, hwritten, hnotes⟩ := Plan.notes_runIn disk options rules
    (Plan.make d rename format inputs) order s []
  have hreport' : ((Plan.make d rename format inputs).runIn disk options rules order s).1 =
      Plan.reportWith outcome (Plan.make d rename format inputs) := by
    rw [← hreport, hnotes]
  refine ⟨_, _, written, hnotes, rfl, ?_, ?_, ?_⟩
  · rintro rfl
    exact Plan.run_eq_runIn disk options rules (nodup_make hdistinct) s
  · rw [hreport']
    refine keepsApart_reportWith hdistinct horder hsettled hwritten fun file hfile => ?_
    obtain ⟨job, hjob, hok⟩ := mem_converted.mp hfile
    have hnoted := Plan.mem_noted_of_outcomes disk options rules _ order s [] _ (hmem job hjob)
      file hok
    have hnotes' : ((Plan.make d rename format inputs).outcomes disk.noting options rules order
        (s, [])).2.2 = written := congrArg (·.2.2) hnotes
    rwa [hnotes'] at hnoted
  · rw [hreport']
    have haccounts := accounts_reportWith hsettled
    rwa [map_input_make] at haccounts

/-- The tree of an empty program. -/
def emptyProgram : String := "\x7b\"type\":\"Program\",\"body\":[]\x7d"

/-- A file system with an empty program at each of some places. -/
def programsAt (places : List (List String)) : FileSystem :=
  places.foldl (fun fs names => fs.putHere names (.file emptyProgram.toUTF8)) .initial

/-- Three programs, two of them with one name. -/
def namesakes : List Path := [⟨"x/a.json"⟩, ⟨"y/a.json"⟩, ⟨"y/b.json"⟩]

/-- A file system with these programs. -/
def namesakesDisk : FileSystem := programsAt [["x", "a.json"], ["y", "a.json"], ["y", "b.json"]]

/-- The three go into one directory, the last one first: it is written, and the other two fail. -/
theorem runIn_accounts_same_name :
    let plan := Plan.make (.directory ⟨"out"⟩) false .typescript namesakes
    let output := (Destination.directory ⟨"out"⟩).outputOf false .typescript
    (namesakes.Pairwise fun p q => p.same q = false) ∧ plan.reverse.Perm plan ∧
      Collides output namesakes ⟨"x/a.json"⟩ ∧ ¬ Collides output namesakes ⟨"y/b.json"⟩ ∧
      ∃ report fs written,
        plan.runIn FileSystem.disk.noting .standard .builtin plan.reverse (namesakesDisk, []) =
            (report, fs, written) ∧
          plan.runIn FileSystem.disk .standard .builtin plan.reverse namesakesDisk =
            (report, fs) ∧
          (plan.reverse = plan →
            plan.run FileSystem.disk .standard .builtin namesakesDisk = (report, fs)) ∧
          KeepsApart output namesakes report written ∧ report.Accounts namesakes ∧
          written = [⟨"out/b.ts"⟩] ∧ report.converted.map FileReport.input = [⟨"y/b.json"⟩] ∧
          report.failed.map FileFailure.input = [⟨"x/a.json"⟩, ⟨"y/a.json"⟩] := by
  intro plan output
  have hdistinct : namesakes.Pairwise fun p q => p.same q = false := by decide
  have hshared : (output ⟨"y/a.json"⟩).same (output ⟨"x/a.json"⟩) = true := by decide +kernel
  have halone : plan.isAlone ⟨⟨"y/b.json"⟩, output ⟨"y/b.json"⟩⟩ = true := by decide +kernel
  have hrun : ∀ run, plan.runIn FileSystem.disk.noting .standard .builtin plan.reverse
      (namesakesDisk, []) = run → run.2.2 = [⟨"out/b.ts"⟩] ∧
        run.1.converted.map FileReport.input = [⟨"y/b.json"⟩] ∧
        run.1.failed.map FileFailure.input = [⟨"x/a.json"⟩, ⟨"y/a.json"⟩] := by
    rintro _ rfl
    exact ⟨by decide +kernel, by decide +kernel, by decide +kernel⟩
  obtain ⟨report, fs, written, hnoted, hplain, hplan, hapart, haccounts⟩ :=
    runIn_accounts FileSystem.disk .standard .builtin (.directory ⟨"out"⟩) false .typescript
      hdistinct (List.reverse_perm plan) namesakesDisk
  exact ⟨hdistinct, List.reverse_perm plan,
    ⟨⟨"y/a.json"⟩, by decide, by decide, hshared⟩, isAlone_make.mp halone,
    report, fs, written, hnoted, hplain, hplan, hapart, haccounts, hrun _ hnoted⟩

end Command

end Typeshift
