import Typeshift.Command.Inputs
import Typeshift.Command.Plan

/-! # Batches

The files of a batch are converted one by one. A file that fails does not stop the others.

* `Job.run`: convert one file.
* `runBatch`: convert all files that the arguments name. -/

namespace Typeshift.Command

open Typeshift.Disk

/-- Why a file was not converted. -/
inductive FileError where
  | sharedOutput (output : Path) (others : List Path)
  | read (p : Path) (e : DiskError)
  | convert (p : Path) (e : CompileError)
  | createDirectory (p : Path) (e : DiskError)
  | write (p : Path) (e : DiskError)

/-- The wording of an error with its causes, outermost first. -/
def FileError.message : FileError → String
  | .sharedOutput output others =>
    "output " ++ output.text ++ " is also the output of " ++
      ", ".intercalate (others.map Path.text)
  | .read p e => "failed to read " ++ p.text ++ ": " ++ e.message
  | .convert p e => "failed to convert " ++ p.text ++ ": " ++ e.message
  | .createDirectory p e => "failed to create " ++ p.text ++ ": " ++ e.message
  | .write p e => "failed to write " ++ p.text ++ ": " ++ e.message

/-- A converted file. -/
structure FileReport where
  input : Path
  output : Path
  diagnostics : List Diagnostic
  /-- The names of the hoisted types. -/
  hoisted : List String

/-- A file that was not converted. -/
structure FileFailure where
  input : Path
  error : FileError

/-- What became of the files of a batch, in their order. -/
structure BatchReport where
  converted : List FileReport
  failed : List FileFailure

namespace BatchReport

/-- Nothing done so far. -/
def empty : BatchReport := ⟨[], []⟩

/-- Whether no file failed. -/
def succeeded (r : BatchReport) : Bool := r.failed.isEmpty

/-- The report with one more file. -/
def add (r : BatchReport) (input : Path) : Except FileError FileReport → BatchReport
  | .ok file => { r with converted := r.converted ++ [file] }
  | .error e => { r with failed := r.failed ++ [⟨input, e⟩] }

end BatchReport

/-- Make the directory that a file is to be in, if the path names one. -/
def createParent {m : Type → Type} [Monad m] (disk : Disk m) (p : Path) :
    ExceptT FileError m Unit := do
  match p.parent? with
  | none => return
  | some dir =>
    if dir.text = "" then return
    else ExceptT.mk do return (← disk.createDirectories dir).mapError (.createDirectory dir)

/-- The text of a file. -/
def readText {m : Type → Type} [Monad m] (disk : Disk m) (p : Path) :
    ExceptT DiskError m String := do
  ExceptT.mk do return (← disk.read p) >>= decode

/-- **Convert one file.** -/
def Job.run {m : Type → Type} [Monad m] (disk : Disk m) (options : CompileOptions)
    (rules : Registry) (job : Job) : ExceptT FileError m FileReport := do
  let source ← (readText disk job.input).adapt (.read job.input)
  let compiled ← ExceptT.mk
    (pure ((compile options rules source).mapError (.convert job.input)))
  createParent disk job.output
  ExceptT.mk do return (← disk.write job.output compiled.code).mapError (.write job.output)
  return ⟨job.input, job.output, compiled.diagnostics.map (·.withFile job.input.text),
    compiled.hoisted⟩

/-- Convert one file of a plan, if no other one has the same output. -/
def Plan.runJob {m : Type → Type} [Monad m] (disk : Disk m) (options : CompileOptions)
    (rules : Registry) (plan : Plan) (job : Job) : m (Except FileError FileReport) :=
  match plan.rivals job with
  | [] => (job.run disk options rules).run
  | others => pure (.error (.sharedOutput job.output others))

/-- Convert the files of a plan. -/
def Plan.run {m : Type → Type} [Monad m] (disk : Disk m) (options : CompileOptions)
    (rules : Registry) (plan : Plan) : m BatchReport :=
  plan.foldlM (fun report job => do
    return report.add job.input (← plan.runJob disk options rules job)) .empty

/-- Why a run failed as a whole. -/
inductive RunError where
  | pattern (e : InvalidPattern)
  | noInputs (inputs : List String)
  | readStdin (e : DiskError)
  | convertStdin (e : CompileError)
  | write (p : Path) (e : DiskError)

/-- The wording of an error with its causes, outermost first. -/
def RunError.message : RunError → String
  | .pattern e => e.message
  | .noInputs inputs => "no input files matched: " ++ ", ".intercalate inputs
  | .readStdin e => "failed to read stdin: " ++ e.message
  | .convertStdin e => "failed to convert stdin: " ++ e.message
  | .write p e => "failed to write " ++ p.text ++ ": " ++ e.message

/-- **Convert all files that the arguments name.** -/
def runBatch {m : Type → Type} [Monad m] (disk : Disk m) (a : Arguments) :
    ExceptT RunError m BatchReport := do
  let files ← (collect disk a.inputs).adapt .pattern
  if files = [] then throw (.noInputs a.inputs)
  ExceptT.lift do
    let destination ← Destination.choose disk a.output files.length
    (Plan.make destination a.rename a.format files).run disk a.compileOptions a.rules

end Typeshift.Command
