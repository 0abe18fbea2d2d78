import Typeshift.Proofs.Batch.Frame
import Typeshift.Proofs.Batch.Planned

/-! # Batches in any order

If the outputs that are written keep away from the inputs and from each other, a batch keeps its
inputs, and neither its report nor what is in each place afterwards depends on the order of its
files. No file is kept from being an output because it is an input, so this is not so for every
batch: a file of the batch may be overwritten by the output of another one.

* `exists_stage`: the directories of the outputs are made by the first file that is written.
* `Plan.runIn_of_perm`: two orders.
* `runBatch_keeps_inputs`: a run, in any order. `not_keeps_inputs`: an output that is an input.
* `isScanned_outputOf`: a scan of a directory leaves out all outputs. -/

namespace Typeshift.Command

open Typeshift.Disk

variable {options : CompileOptions} {rules : Registry} {plan : Plan} {fs fs₁ s t : FileSystem}
  {job : Job} {p q : Path} {d : Destination} {rename : Bool} {format : Format}
  {inputs : List Path}

/-! ### The directories of the outputs -/

theorem createParent_congr (h : p.parent? = q.parent?) :
    (createParent FileSystem.disk p).run fs = (createParent FileSystem.disk q).run fs := by
  rw [createParent_apply, createParent_apply, h]

theorem exists_read_of_writes (h : plan.Writes options rules fs job) :
    ∃ bytes, fs.read job.input = .ok bytes := by
  obtain ⟨-, compiled, htranslate⟩ := h
  exact exists_read_of_translate htranslate

/-- **The directories of all outputs** are those that the first output needs, unless the output is a
file that is named. -/
theorem exists_stage (hapart : (Plan.make d rename format inputs).Apart options rules fs)
    (hd : ∀ p, d ≠ .file p) :
    ∃ fs₁, (Plan.make d rename format inputs).Stage options rules fs fs₁ := by
  cases d with
  | file p => exact absurd rfl (hd p)
  | nextToInput =>
    have hprovides : ∀ job ∈ Plan.make .nextToInput rename format inputs,
        (Plan.make .nextToInput rename format inputs).Writes options rules fs job →
          fs.Provides job.output ∧ fs.Ready job.output := by
      intro job hjob hwrites
      obtain ⟨bytes, hread⟩ := exists_read_of_writes hwrites
      obtain ⟨init, hends, hprovides⟩ := provides_nextToInput rename format hread
      rw [(mem_make.mp hjob).2]
      exact ⟨hprovides, FileSystem.ready_of_provides hends hapart.workingDirectory hprovides⟩
    exact ⟨fs, .refl _ _,
      fun job hjob hwrites => createParent_of_provides (hprovides job hjob hwrites).1,
      fun job hjob hwrites => (hprovides job hjob hwrites).1,
      fun job hjob hwrites => (hprovides job hjob hwrites).2⟩
  | directory p =>
    by_cases hany : ∃ job ∈ Plan.make (.directory p) rename format inputs,
      (Plan.make (.directory p) rename format inputs).Writes options rules fs job
    · obtain ⟨first, hfirst, hwrites⟩ := hany
      have houtput : ∀ job ∈ Plan.make (.directory p) rename format inputs,
          job.output = p.push (outputName job.input rename format) := fun job hjob =>
        (mem_make.mp hjob).2
      have hparent : ∀ job ∈ Plan.make (.directory p) rename format inputs,
          job.output.parent? = first.output.parent? := by
        intro job hjob
        rw [houtput job hjob, houtput first hfirst, parent?_push, parent?_push]
      have hok := hapart.directories first hfirst hwrites
      have hmoves : fs.Moves ((Plan.make (.directory p) rename format inputs).Touches options
          rules fs) ((createParent FileSystem.disk first.output).run fs).2 :=
        (moves_createParent first.output fs).mono fun v hv => ⟨first, hfirst, hwrites, hv⟩
      have hprovides : ∀ job ∈ Plan.make (.directory p) rename format inputs,
          ((createParent FileSystem.disk first.output).run fs).2.Provides job.output := by
        intro job hjob
        have h := provides_of_createParent hok
        unfold FileSystem.Provides at h ⊢
        rwa [hparent job hjob]
      refine ⟨_, hmoves, fun job hjob _ => ?_, fun job hjob _ => hprovides job hjob,
        fun job hjob _ => ?_⟩
      · rw [createParent_congr (hparent job hjob)]
        exact Prod.ext hok rfl
      · have hwd : ((createParent FileSystem.disk first.output).run fs).2.view
            ((createParent FileSystem.disk first.output).run fs).2.workingDirectory =
              some .directory := by
          rw [hmoves.workingDirectory]
          exact hmoves.directory hapart.workingDirectory
        have hends : job.output.EndsInName p.before (outputName job.input rename format).toList :=
          houtput job hjob ▸ endsInName_push p job.input rename format
        exact FileSystem.ready_of_provides hends hwd (hprovides job hjob)
    · have hnone : ∀ job ∈ Plan.make (.directory p) rename format inputs,
          ¬ (Plan.make (.directory p) rename format inputs).Writes options rules fs job :=
        fun job hjob hwrites => hany ⟨job, hjob, hwrites⟩
      exact ⟨fs, .refl _ _, fun job hjob hwrites => absurd hwrites (hnone job hjob),
        fun job hjob hwrites => absurd hwrites (hnone job hjob),
        fun job hjob hwrites => absurd hwrites (hnone job hjob)⟩

namespace Plan

/-! ### Two orders -/

variable {done done' : List Job}

theorem Written.view_eq (h : plan.Written options rules fs fs₁ done s)
    (h' : plan.Written options rules fs fs₁ done' t) (hsame : ∀ job, job ∈ done ↔ job ∈ done')
    (v : List String) : s.view v = t.view v := by
  by_cases hput : ∃ job ∈ done, ∃ new, plan.wrote options rules fs fs₁ job = some (v, new)
  · obtain ⟨job, hjob, new, hnew⟩ := hput
    rw [h.put job hjob v new hnew, h'.put job ((hsame job).mp hjob) v new hnew]
  · have hnone : ∀ job ∈ done, ∀ new, plan.wrote options rules fs fs₁ job ≠ some (v, new) :=
      fun job hjob new hnew => hput ⟨job, hjob, new, hnew⟩
    rw [h.kept v hnone, h'.kept v fun job hjob => hnone job ((hsame job).mpr hjob)]

/-- The same jobs, in whatever order, lead to the same view of every place. -/
theorem Progress.view_eq (h : plan.Progress options rules fs fs₁ done s)
    (h' : plan.Progress options rules fs fs₁ done' t) (hsame : ∀ job, job ∈ done ↔ job ∈ done')
    (v : List String) : s.view v = t.view v := by
  by_cases hbusy : ∃ job ∈ done, plan.Writes options rules fs job
  · obtain ⟨job, hjob, hwrites⟩ := hbusy
    exact (h.busy ⟨job, hjob, hwrites⟩).view_eq
      (h'.busy ⟨job, (hsame job).mp hjob, hwrites⟩) hsame v
  · have hidle : ∀ job ∈ done, ¬ plan.Writes options rules fs job := fun job hjob hwrites =>
      hbusy ⟨job, hjob, hwrites⟩
    rw [h.idle hidle, h'.idle fun job hjob => hidle job ((hsame job).mpr hjob)]

theorem lookup_map {α : Type} (f : Job → α) {jobs : List Job} (h : job ∈ jobs) :
    (jobs.map fun job => (job, f job)).lookup job = some (f job) := by
  induction jobs with
  | nil => cases h
  | cons j jobs ih =>
    rw [List.map_cons, List.lookup_cons]
    by_cases heq : job = j
    · simp [heq]
    · have hne : (job == j) = false := beq_false_of_ne heq
      rw [hne]
      exact ih ((List.mem_cons.mp h).resolve_left heq)

/-- **A plan in any order**: the report, and how far the state has come. -/
theorem runIn_of_perm (hapart : plan.Apart options rules fs)
    (hstage : plan.Stage options rules fs fs₁) (hnodup : plan.Nodup) {order : List Job}
    (horder : order.Perm plan) :
    (plan.runIn FileSystem.disk options rules order fs).1 =
        reportWith (plan.outcomeAt options rules fs fs₁) plan ∧
      plan.Progress options rules fs fs₁ order.reverse
        (plan.runIn FileSystem.disk options rules order fs).2 := by
  have hstart : plan.Progress options rules fs fs₁ [] fs :=
    ⟨fun _ => rfl, fun ⟨_, hjob, _⟩ => absurd hjob List.not_mem_nil⟩
  obtain ⟨houtcomes, hprogress⟩ := hstart.outcomes hstage hapart (List.nil_subset _)
    horder.subset (by simpa using horder.nodup_iff.mpr hnodup)
  rw [List.append_nil] at hprogress
  refine ⟨?_, hprogress⟩
  show plan.reportOf (plan.outcomes FileSystem.disk options rules order fs).1 = _
  rw [houtcomes]
  exact reportOf_eq plan fun job hjob => lookup_map _ (horder.symm.subset hjob)

end Plan

/-! ### Runs -/

variable {a : Arguments}

/-- A plan in any order, against the order of the plan. -/
theorem runIn_eq_of_perm (hplan : planOf a fs = .ok plan)
    (hapart : plan.Apart options rules fs) {order : List Job} (horder : order.Perm plan) :
    (plan.runIn FileSystem.disk options rules order fs).1 =
        (plan.runIn FileSystem.disk options rules plan fs).1 ∧
      (∀ v, (plan.runIn FileSystem.disk options rules order fs).2.view v =
        (plan.runIn FileSystem.disk options rules plan fs).2.view v) ∧
      ∀ job ∈ plan, (plan.runIn FileSystem.disk options rules order fs).2.read job.input =
        fs.read job.input := by
  have hnodup := nodup_planOf hplan
  obtain ⟨files, d, rfl, -, hfile⟩ := exists_of_planOf hplan
  by_cases hd : ∃ p, d = .file p
  · -- an output that is named is the only one
    obtain ⟨p, rfl⟩ := hd
    obtain ⟨file, rfl⟩ := List.length_eq_one_iff.mp (hfile p rfl)
    obtain rfl := List.perm_singleton.mp horder
    refine ⟨rfl, fun _ => rfl, fun job hjob => hapart.read_eq ?_ hjob⟩
    exact (Plan.moves_runJob _ _ fs).mono fun v ⟨hwrites, hv⟩ =>
      ⟨_, List.mem_cons_self, hwrites, hv⟩
  · obtain ⟨fs₁, hstage⟩ := exists_stage hapart fun p hp => hd ⟨p, hp⟩
    obtain ⟨hreport, hprogress⟩ := Plan.runIn_of_perm hapart hstage hnodup horder
    obtain ⟨hreport', hprogress'⟩ := Plan.runIn_of_perm hapart hstage hnodup (List.Perm.refl _)
    refine ⟨hreport.trans hreport'.symm, hprogress.view_eq hprogress' fun job => ?_,
      fun job hjob => hapart.read_eq (hprogress.moves hstage) hjob⟩
    rw [List.mem_reverse, List.mem_reverse, horder.mem_iff]

/-- **A batch keeps its inputs**, and neither its report nor what is in each place afterwards
depends on the order in which its files are processed, if the outputs that are written keep away
from the inputs and from each other. -/
theorem runBatch_keeps_inputs (a : Arguments) {fs : FileSystem} {plan : Plan}
    (hplan : planOf a fs = .ok plan) (hapart : plan.Apart a.compileOptions a.rules fs)
    {order : List Job} (horder : order.Perm plan) :
    ∃ report s t,
      (runBatch FileSystem.disk a).run fs = (.ok report, s) ∧
        plan.runIn FileSystem.disk a.compileOptions a.rules order fs = (report, t) ∧
        (∀ v, t.view v = s.view v) ∧
        ∀ job ∈ plan, s.read job.input = fs.read job.input ∧
          t.read job.input = fs.read job.input := by
  obtain ⟨hreport, hview, hread⟩ := runIn_eq_of_perm hplan hapart horder
  obtain ⟨-, -, hread'⟩ := runIn_eq_of_perm hplan hapart (List.Perm.refl plan)
  rw [runBatch_eq, hplan]
  dsimp only
  rw [Plan.run_eq_runIn FileSystem.disk a.compileOptions a.rules (nodup_planOf hplan)]
  refine ⟨_, _, (plan.runIn FileSystem.disk a.compileOptions a.rules order fs).2, rfl,
    Prod.ext hreport rfl, hview, fun job hjob => ⟨hread' job hjob, hread job hjob⟩⟩

/-! ### Two batches -/

theorem ok_of_toOption {ε α : Type} {x : Except ε α} {a : α} (h : x.toOption = some a) :
    x = .ok a := by
  cases x with
  | error e => cases h
  | ok b => exact congrArg Except.ok (Option.some.inj h)

/-- Two inputs in different directories, with their outputs in a directory that is missing. -/
def intoMissing : Arguments :=
  { Arguments.none with inputs := ["a.json", "sub/b.json"], output := some ⟨"out/ts"⟩ }

/-- The plan for them. -/
def intoMissingPlan : Plan :=
  [⟨⟨"a.json"⟩, ⟨"out/ts/a.ts"⟩⟩, ⟨⟨"sub/b.json"⟩, ⟨"out/ts/b.ts"⟩⟩]

/-- The two inputs, the second one first. -/
theorem runBatch_keeps_inputs_intoMissing :
    planOf intoMissing (programsAt [["a.json"], ["sub", "b.json"]]) = .ok intoMissingPlan ∧
      intoMissingPlan.Apart intoMissing.compileOptions intoMissing.rules
        (programsAt [["a.json"], ["sub", "b.json"]]) ∧
      intoMissingPlan.reverse.Perm intoMissingPlan ∧
      ∃ report s t,
        (runBatch FileSystem.disk intoMissing).run (programsAt [["a.json"], ["sub", "b.json"]]) =
            (.ok report, s) ∧
          intoMissingPlan.runIn FileSystem.disk intoMissing.compileOptions intoMissing.rules
              intoMissingPlan.reverse (programsAt [["a.json"], ["sub", "b.json"]]) = (report, t) ∧
          (∀ v, t.view v = s.view v) ∧
          ∀ job ∈ intoMissingPlan,
            s.read job.input = (programsAt [["a.json"], ["sub", "b.json"]]).read job.input ∧
              t.read job.input = (programsAt [["a.json"], ["sub", "b.json"]]).read job.input := by
  have hplan : planOf intoMissing (programsAt [["a.json"], ["sub", "b.json"]]) =
      .ok intoMissingPlan := by
    rw [planOf_eq [[⟨"a.json"⟩], [⟨"sub/b.json"⟩]]
      (ok_of_toOption (by decide +kernel)) (by decide +kernel)]
    exact ok_of_toOption (by decide +kernel)
  have hways : ∀ job ∈ intoMissingPlan, ∀ v ∈ job.input.way FileSystem.initial.workingDirectory,
      ∀ other ∈ intoMissingPlan, v ∈ other.output.way FileSystem.initial.workingDirectory →
        ((programsAt [["a.json"], ["sub", "b.json"]]).passes v).toOption = some () := by
    decide +kernel
  have hplaces : ∀ job ∈ intoMissingPlan, ∀ other ∈ intoMissingPlan,
      job.output.place FileSystem.initial.workingDirectory =
        other.output.place FileSystem.initial.workingDirectory → job = other := by decide +kernel
  have hmade : ∀ job ∈ intoMissingPlan, ((createParent FileSystem.disk job.output).run
      (programsAt [["a.json"], ["sub", "b.json"]])).1.toOption = some () := by decide +kernel
  have hapart : intoMissingPlan.Apart intoMissing.compileOptions intoMissing.rules
      (programsAt [["a.json"], ["sub", "b.json"]]) := by
    refine ⟨rfl, ?_, fun job hjob other hother _ _ => hplaces job hjob other hother,
      fun job hjob _ => ok_of_toOption (hmade job hjob)⟩
    rintro job hjob v hv ⟨other, hother, -, hv'⟩
    exact FileSystem.passes_eq_ok.mp (ok_of_toOption (hways job hjob v hv other hother hv'))
  exact ⟨hplan, hapart, List.reverse_perm _,
    runBatch_keeps_inputs intoMissing hplan hapart (List.reverse_perm _)⟩

/-- Three inputs, the second of which is the output of the first. -/
def ontoInput : Arguments :=
  { Arguments.none with inputs := ["a.json", "a.ts", "a.ts.json"] }

/-- The plan for them: the outputs of the other two collide. -/
def ontoInputPlan : Plan :=
  [⟨⟨"a.json"⟩, ⟨"a.ts"⟩⟩, ⟨⟨"a.ts"⟩, ⟨"a.ts.ts"⟩⟩, ⟨⟨"a.ts.json"⟩, ⟨"a.ts.ts"⟩⟩]

/-- **An output may be an input**, which is overwritten then. -/
theorem not_keeps_inputs : ¬ ∀ (a : Arguments) (fs : FileSystem) (plan : Plan),
    planOf a fs = .ok plan → ∀ order : List Job, order.Perm plan → ∀ job ∈ plan,
      (plan.runIn FileSystem.disk a.compileOptions a.rules order fs).2.read job.input =
        fs.read job.input := by
  intro h
  have hplan : planOf ontoInput (programsAt [["a.json"], ["a.ts"], ["a.ts.json"]]) =
      .ok ontoInputPlan := by
    rw [planOf_eq [[⟨"a.json"⟩], [⟨"a.ts"⟩], [⟨"a.ts.json"⟩]]
      (ok_of_toOption (by decide +kernel)) (by decide +kernel)]
    exact ok_of_toOption (by decide +kernel)
  have hread := h _ _ _ hplan ontoInputPlan (List.Perm.refl _) ⟨⟨"a.ts"⟩, ⟨"a.ts.ts"⟩⟩ (by decide)
  have hsize := congrArg (fun r => r.toOption.map ByteArray.size) hread
  exact absurd hsize (by decide +kernel)

/-! ### Scans -/

theorem endsWith_iff {s t : String} : s.endsWith t = true ↔ t.toList <:+ s.toList := by
  rw [String.endsWith_eq_endsWith_toSlice, String.Slice.endsWith_string_iff, String.copy_toSlice]

/-- A file that is named like an output is left out of a scan. -/
theorem isScanned_outputName {p input : Path}
    (h : p.fileName? = some (outputName input rename format)) : isScanned p = false := by
  have hends (e : String) : (outputName input rename format).endsWith e = true ↔
      e.toList <:+ (stem (input.fileName?.getD "")).toList ++ (ending rename format).toList := by
    rw [endsWith_iff, outputName, String.toList_append]
  unfold isScanned
  rw [h]
  cases format with
  | typescript =>
    have hjson : (outputName input rename .typescript).endsWith ".json" = false := by
      rw [Bool.eq_false_iff, Ne, hends]
      rintro ⟨before, heq⟩
      have hlast := congrArg List.getLast? heq
      rw [List.getLast?_append, List.getLast?_append] at hlast
      cases rename with
      | false => exact absurd (Option.some.inj hlast : 'n' = 's') (by decide)
      | true => exact absurd (Option.some.inj hlast : 'n' = 'x') (by decide)
    simp [hjson]
  | json =>
    cases rename with
    | false => simp [(hends ".ts.json").mpr (List.suffix_append _ _)]
    | true => simp [(hends ".tsx.json").mpr (List.suffix_append _ _)]

/-- **A scan leaves out all outputs**, wherever they go. -/
theorem isScanned_outputOf (hd : ∀ p, d ≠ .file p) (input : Path) :
    isScanned (d.outputOf rename format input) = false := by
  have hpush (p : Path) : isScanned (p.push (outputName input rename format)) = false := by
    have hname := (endsInName_push p input rename format).fileName?
    rw [String.ofList_toList] at hname
    exact isScanned_outputName hname
  cases d with
  | file p => exact absurd rfl (hd p)
  | directory p => exact hpush p
  | nextToInput =>
    show isScanned (input.withFileName _) = false
    unfold Path.withFileName
    split <;> exact hpush _

end Typeshift.Command
