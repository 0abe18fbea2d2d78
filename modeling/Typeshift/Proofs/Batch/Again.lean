import Typeshift.Proofs.Batch.Akin
import Typeshift.Proofs.Batch.AnyOrder

/-! # Running a batch again

The outputs that go next to their inputs have names that no scan of a directory takes. So a batch on
directories leaves the file system alike for scans: it finds the same inputs again, reads the same
in them, and can write the same outputs.

* `hidden_outputName`: the name of an output hides it from scans.
* `collect_akin`: alike file systems have the same inputs.
* `akin_runJob`, `toOption_runJob`: a job leaves the file system alike, and alike file systems give
  it the same report, or none. `outline_foldlM`: so it is for the jobs of a plan.
* `runBatch_again`: after any runs, a batch on directories finds the same inputs and converts the
  same files. -/

namespace Typeshift.Command

open Typeshift.Disk FileSystem

variable {a : Arguments} {fs fs' : FileSystem} {options : CompileOptions} {rules : Registry}
  {plan : Plan} {job : Job} {rename : Bool} {format : Format}

/-- **The name of an output** hides it from scans. -/
theorem hidden_outputName (input : Path) (rename : Bool) (format : Format) :
    Hidden isScanned (outputName input rename format) :=
  ⟨fun p => isScanned_outputOf (d := .directory p) nofun input, fun _ h => isScanned_outputName h⟩

/-! ### Looking for inputs -/

/-- Inputs that name directories. An input with a wildcard is a pattern and names none. -/
def NamesDirectories (fs : FileSystem) (inputs : List String) : Prop :=
  ∀ input ∈ inputs, isPattern input = false ∧ fs.isDirectory ⟨input⟩ = true

/-- The files that a scan of a directory takes. -/
def scan (fs : FileSystem) (input : String) : List Path :=
  (fs.filesBelow ⟨input⟩).filter isScanned

theorem filesOf_directory {input : String} (hpattern : isPattern input = false)
    (hdir : fs.isDirectory ⟨input⟩ = true) :
    (filesOf FileSystem.disk input).run fs = (.ok (scan fs input), fs) := by
  unfold filesOf
  rw [hpattern]
  show ((if fs.isDirectory ⟨input⟩ = true then _ else _ :
    ExceptT InvalidPattern (StateM FileSystem) (List Path)).run fs) = _
  rw [if_pos hdir]
  rfl

theorem mapM_filesOf {inputs : List String} (h : NamesDirectories fs inputs) :
    (inputs.mapM (filesOf FileSystem.disk)).run fs = (.ok (inputs.map (scan fs)), fs) := by
  induction inputs with
  | nil => rfl
  | cons input inputs ih =>
    obtain ⟨⟨hpattern, hdir⟩, hinputs⟩ := List.forall_mem_cons.mp h
    rw [List.mapM_cons, run_bind, filesOf_directory hpattern hdir]
    dsimp only
    rw [run_bind, ih hinputs]
    rfl

/-- **The inputs of a batch on directories** are what a scan takes. -/
theorem collect_directories {inputs : List String} (h : NamesDirectories fs inputs) :
    (collect FileSystem.disk inputs).run fs =
      (.ok (mergeSame ((inputs.map (scan fs)).flatten.mergeSort Path.le)), fs) := by
  unfold collect
  rw [run_bind, mapM_filesOf h]
  rfl

theorem isScanned_of_collect {inputs : List String} {files : List Path}
    (hinputs : NamesDirectories fs inputs)
    (h : ((collect FileSystem.disk inputs).run fs).1 = .ok files) :
    ∀ p ∈ files, isScanned p = true := by
  rw [collect_directories hinputs] at h
  cases h
  intro p hp
  obtain ⟨found, hfound, hp⟩ :=
    List.mem_flatten.mp (List.mem_mergeSort.mp (mergeSame_subset _ hp))
  obtain ⟨input, -, rfl⟩ := List.mem_map.mp hfound
  exact (List.mem_filter.mp hp).2

theorem NamesDirectories.akin {inputs : List String} (hinputs : NamesDirectories fs inputs)
    (h : Akin isScanned fs fs') : NamesDirectories fs' inputs := fun input hinput =>
  ⟨(hinputs input hinput).1, (h.isDirectory _).trans (hinputs input hinput).2⟩

/-- **Alike file systems have the same inputs.** -/
theorem collect_akin (h : Akin isScanned fs fs') {inputs : List String}
    (hinputs : NamesDirectories fs inputs) :
    ((collect FileSystem.disk inputs).run fs').1 = ((collect FileSystem.disk inputs).run fs).1 := by
  have hscan : inputs.map (scan fs') = inputs.map (scan fs) :=
    List.map_congr_left fun input hinput => h.filesBelow (hinputs input hinput).2
  rw [collect_directories hinputs, collect_directories (hinputs.akin h), hscan]

/-! ### One job -/

/-- A job of a plan whose outputs go next to their inputs, all of which a scan has found. -/
structure Job.Scanned (rename : Bool) (format : Format) (job : Job) : Prop where
  input : isScanned job.input = true
  output : job.output = Destination.nextToInput.outputOf rename format job.input

/-- What a job that writes does: it makes no directory. -/
theorem runJob_of_provides {compiled : CompileOutput} (halone : plan.isAlone job = true)
    (htranslate : job.translate options rules (fs.read job.input) = .ok compiled)
    (hprovides : fs.Provides job.output) :
    plan.runJob FileSystem.disk options rules job fs =
      match fs.write job.output compiled.code.toUTF8 with
      | .ok s => (.ok (job.report compiled), s)
      | .error e => (.error (.write job.output e), fs) := by
  rw [runJob_of_writes halone htranslate, Job.store_apply, createParent_of_provides hprovides]
  show (((change (·.write job.output compiled.code.toUTF8) fs).1.mapError _).map _,
    (change (·.write job.output compiled.code.toUTF8) fs).2) = _
  cases hwrite : fs.write job.output compiled.code.toUTF8 with
  | error e => rw [change_of_error hwrite]; rfl
  | ok s => rw [change_of_ok hwrite]; rfl

/-- The directory of an output is there, if the job writes it. -/
theorem Job.Scanned.provides {compiled : CompileOutput} (hjob : job.Scanned rename format)
    (h : job.translate options rules (fs.read job.input) = .ok compiled) :
    (∃ init, job.output.EndsInName init (outputName job.input rename format).toList) ∧
      fs.Provides job.output := by
  obtain ⟨bytes, hread⟩ := exists_read_of_translate h
  obtain ⟨init, hends, hprovides⟩ := provides_nextToInput rename format hread
  rw [hjob.output]
  exact ⟨⟨init, hends⟩, hprovides⟩

/-- **A job** leaves the file system alike for scans. -/
theorem akin_runJob (hjob : job.Scanned rename format) (plan : Plan) (options : CompileOptions)
    (rules : Registry) (fs : FileSystem) :
    Akin isScanned fs (plan.runJob FileSystem.disk options rules job fs).2 := by
  by_cases hwrites : plan.Writes options rules fs job
  · obtain ⟨halone, compiled, htranslate⟩ := hwrites
    obtain ⟨⟨init, hends⟩, hprovides⟩ := hjob.provides htranslate
    rw [runJob_of_provides halone htranslate hprovides]
    have hname := hends.newName?
    rw [String.ofList_toList] at hname
    cases hwrite : fs.write job.output compiled.code.toUTF8 with
    | error e => exact .refl _ _
    | ok s => exact akin_write hname (hidden_outputName _ _ _) hwrite
  · rw [(runJob_of_not_writes hwrites fs).1]
    exact .refl _ _

theorem toOption_of_not_writes (h : ¬ plan.Writes options rules fs job) :
    (plan.runJob FileSystem.disk options rules job fs).1.toOption = none := by
  rw [(runJob_of_not_writes h fs).1]
  unfold Plan.outcomeAt
  cases hrivals : plan.rivals job with
  | cons => rfl
  | nil =>
    cases htranslate : job.translate options rules (fs.read job.input) with
    | error e => rfl
    | ok compiled => exact absurd ⟨List.isEmpty_iff.mpr hrivals, compiled, htranslate⟩ h

theorem translate_akin {compiled : CompileOutput} (h : Akin isScanned fs fs')
    (hjob : job.Scanned rename format)
    (htranslate : job.translate options rules (fs.read job.input) = .ok compiled) :
    job.translate options rules (fs'.read job.input) = .ok compiled := by
  obtain ⟨bytes, hread⟩ := exists_read_of_translate htranslate
  rw [h.read hjob.input hread]
  rwa [hread] at htranslate

theorem ok_runJob_akin (h : Akin isScanned fs fs') (hjob : job.Scanned rename format)
    {file : FileReport} (hfile : (plan.runJob FileSystem.disk options rules job fs).1 = .ok file) :
    (plan.runJob FileSystem.disk options rules job fs').1 = .ok file := by
  by_cases hwrites : plan.Writes options rules fs job
  · obtain ⟨halone, compiled, htranslate⟩ := hwrites
    have htranslate' := translate_akin h hjob htranslate
    rw [runJob_of_provides halone htranslate (hjob.provides htranslate).2] at hfile
    rw [runJob_of_provides halone htranslate' (hjob.provides htranslate').2]
    cases hwrite : fs.write job.output compiled.code.toUTF8 with
    | error e => rw [hwrite] at hfile; cases hfile
    | ok s =>
      rw [hwrite] at hfile
      obtain ⟨s', hwrite'⟩ := h.write hwrite
      rw [hwrite']
      exact hfile
  · have hnone := toOption_of_not_writes hwrites
    rw [hfile] at hnone
    cases hnone

/-- **Alike file systems** give a job the same report, or none. -/
theorem toOption_runJob (h : Akin isScanned fs fs') (hjob : job.Scanned rename format) :
    (plan.runJob FileSystem.disk options rules job fs').1.toOption =
      (plan.runJob FileSystem.disk options rules job fs).1.toOption := by
  cases hrun : (plan.runJob FileSystem.disk options rules job fs).1 with
  | ok file => rw [ok_runJob_akin h hjob hrun]
  | error e =>
    cases hrun' : (plan.runJob FileSystem.disk options rules job fs').1 with
    | error e' => rfl
    | ok file => rw [ok_runJob_akin h.symm hjob hrun'] at hrun; cases hrun

/-! ### The jobs of a plan -/

/-- What a report says without the errors: the files that were converted, and the inputs of those
that were not. -/
def BatchReport.outline (r : BatchReport) : List FileReport × List Path :=
  (r.converted, r.failed.map FileFailure.input)

theorem outline_add {r r' : BatchReport} (hr : r'.outline = r.outline) (input : Path)
    {x x' : Except FileError FileReport} (hx : x'.toOption = x.toOption) :
    (r'.add input x').outline = (r.add input x).outline := by
  obtain ⟨hconverted, hfailed⟩ := Prod.ext_iff.mp hr
  cases x with
  | ok file =>
    cases x' with
    | error e => cases hx
    | ok file' =>
      cases hx
      exact Prod.ext (congrArg (· ++ [file]) hconverted) hfailed
  | error e =>
    cases x' with
    | ok file' => cases hx
    | error e' =>
      refine Prod.ext hconverted ?_
      simpa [BatchReport.add, BatchReport.outline] using hfailed

/-- **The jobs of a plan** leave the file system alike for scans, and alike file systems give them
the same outline. -/
theorem outline_foldlM (h : Akin isScanned fs fs') {jobs : List Job}
    (hjobs : ∀ job ∈ jobs, job.Scanned rename format) {r r' : BatchReport}
    (hr : r'.outline = r.outline) :
    let run (r : BatchReport) : StateM FileSystem BatchReport := jobs.foldlM (fun report job => do
      return report.add job.input (← plan.runJob FileSystem.disk options rules job)) r
    Akin isScanned fs (run r fs).2 ∧ (run r' fs').1.outline = (run r fs).1.outline := by
  induction jobs generalizing fs fs' r r' with
  | nil => exact ⟨.refl _ _, hr⟩
  | cons job jobs ih =>
    obtain ⟨hjob, hjobs⟩ := List.forall_mem_cons.mp hjobs
    have hfs := akin_runJob hjob plan options rules fs
    have hfs' := akin_runJob hjob plan options rules fs'
    obtain ⟨hakin, houtline⟩ := ih ((hfs.symm.trans h).trans hfs') hjobs
      (outline_add hr job.input (toOption_runJob h hjob))
    exact ⟨hfs.trans hakin, houtline⟩

theorem outline_run (h : Akin isScanned fs fs')
    (hplan : ∀ job ∈ plan, job.Scanned rename format) (options : CompileOptions)
    (rules : Registry) :
    Akin isScanned fs (plan.run FileSystem.disk options rules fs).2 ∧
      (plan.run FileSystem.disk options rules fs').1.outline =
        (plan.run FileSystem.disk options rules fs).1.outline :=
  outline_foldlM h hplan rfl

/-! ### Runs -/

/-- A batch on directories whose outputs go next to the inputs. -/
structure InPlace (fs : FileSystem) (a : Arguments) : Prop where
  output : a.output = none
  inputs : NamesDirectories fs a.inputs

namespace InPlace

theorem akin (ha : InPlace fs a) (h : Akin isScanned fs fs') : InPlace fs' a :=
  ⟨ha.output, ha.inputs.akin h⟩

theorem planOf_akin (ha : InPlace fs a) (h : Akin isScanned fs fs') :
    planOf a fs' = planOf a fs := by
  unfold planOf
  rw [collect_akin h ha.inputs, ha.output]
  rfl

theorem scanned (ha : InPlace fs a) (hplan : planOf a fs = .ok plan) :
    ∀ job ∈ plan, job.Scanned a.rename a.format := by
  unfold planOf at hplan
  rw [ha.output] at hplan
  split at hplan
  · cases hplan
  · cases hplan
  · next files _ hfiles =>
    cases hplan
    intro job hjob
    obtain ⟨hinput, hjob⟩ := mem_make.mp hjob
    exact ⟨isScanned_of_collect ha.inputs hfiles _ hinput, hjob⟩

/-- **A run** leaves the file system alike for scans, and alike file systems give it the same
outline. -/
theorem outline_runBatch (ha : InPlace fs a) (h : Akin isScanned fs fs') :
    Akin isScanned fs ((runBatch FileSystem.disk a).run fs).2 ∧
      ((runBatch FileSystem.disk a).run fs').1.map BatchReport.outline =
        ((runBatch FileSystem.disk a).run fs).1.map BatchReport.outline := by
  rw [runBatch_eq, runBatch_eq, ha.planOf_akin h]
  cases hplan : planOf a fs with
  | error e => exact ⟨.refl _ _, rfl⟩
  | ok plan =>
    obtain ⟨hakin, houtline⟩ := outline_run h (ha.scanned hplan) a.compileOptions a.rules
    exact ⟨hakin, congrArg Except.ok houtline⟩

end InPlace

/-- What runs leave behind, one after the other. -/
def afterRuns (runs : List Arguments) (fs : FileSystem) : FileSystem :=
  runs.foldl (fun fs a => ((runBatch FileSystem.disk a).run fs).2) fs

theorem akin_afterRuns {runs : List Arguments} (h : ∀ a ∈ runs, InPlace fs a) :
    Akin isScanned fs (afterRuns runs fs) := by
  induction runs generalizing fs with
  | nil => exact .refl _ _
  | cons a runs ih =>
    obtain ⟨ha, hruns⟩ := List.forall_mem_cons.mp h
    have hakin := (ha.outline_runBatch (.refl _ _)).1
    exact hakin.trans (ih fun b hb => (hruns b hb).akin hakin)

/-- **Running a batch on directories again** is like running it for the first time, if outputs go
next to their inputs. No output is ever taken by a scan. After any number of such runs, of the same
batch or of others, with any formats and endings, the batch finds the inputs that it found at first,
in the same order, and reports the same files as converted and the same inputs as failed. -/
theorem runBatch_again {a : Arguments} {fs : FileSystem} (ha : InPlace fs a)
    {earlier : List Arguments} (hearlier : ∀ b ∈ earlier, InPlace fs b) :
    (∀ input, isScanned (Destination.nextToInput.outputOf a.rename a.format input) = false) ∧
      ((collect FileSystem.disk a.inputs).run (afterRuns earlier fs)).1 =
        ((collect FileSystem.disk a.inputs).run fs).1 ∧
      ((runBatch FileSystem.disk a).run (afterRuns earlier fs)).1.map BatchReport.outline =
        ((runBatch FileSystem.disk a).run fs).1.map BatchReport.outline :=
  ⟨isScanned_outputOf nofun, collect_akin (akin_afterRuns hearlier) ha.inputs,
    (ha.outline_runBatch (akin_afterRuns hearlier)).2⟩

/-- A directory, given as input, with trees as outputs. -/
def treesOfLibrary : Arguments :=
  { Arguments.none with inputs := ["lib"], format := .json }

/-- A directory with a tree in it, the file of a project and a file that is named like an output. -/
def library : FileSystem :=
  programsAt [["lib", "a.flow.json"], ["lib", "package.json"], ["lib", "sub", "b.ts.json"]]

/-- A directory that is converted three times. -/
theorem runBatch_again_library :
    InPlace library treesOfLibrary ∧
      ((collect FileSystem.disk treesOfLibrary.inputs).run
        (afterRuns [treesOfLibrary, { treesOfLibrary with format := .typescript }] library)).1 =
          .ok [⟨"lib/a.flow.json"⟩] := by
  have hplace : InPlace library treesOfLibrary :=
    ⟨rfl, List.forall_mem_singleton.mpr ⟨by decide, by decide +kernel⟩⟩
  have hfound : ((collect FileSystem.disk treesOfLibrary.inputs).run library).1.toOption =
      some [⟨"lib/a.flow.json"⟩] := by decide +kernel
  have hearlier : ∀ a ∈ [treesOfLibrary, { treesOfLibrary with format := .typescript }],
      InPlace library a :=
    List.forall_mem_cons.mpr ⟨hplace, List.forall_mem_singleton.mpr ⟨rfl, hplace.inputs⟩⟩
  obtain ⟨-, hcollect, -⟩ := runBatch_again hplace hearlier
  exact ⟨hplace, hcollect.trans (ok_of_toOption hfound)⟩

end Typeshift.Command
