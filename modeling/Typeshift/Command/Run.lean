import Typeshift.Command.Batch
import Typeshift.Diagnostic.Report

/-! # Runs of the command

Converted files go to the disk, or for the standard input to the standard output. Diagnostics and
failures go to the standard error.

* `runStdin`: convert the standard input.
* `execute`: a whole run, with what it prints and the code it ends with. -/

namespace Typeshift.Command

open Typeshift.Disk

/-- What came of the standard input. -/
structure StdinReport where
  /-- What goes to the standard output. -/
  out : String
  diagnostics : List Diagnostic

/-- **Convert the standard input.** -/
def runStdin {m : Type → Type} [Monad m] (disk : Disk m) (a : Arguments) (stdin : ByteArray) :
    ExceptT RunError m StdinReport := do
  let source ← ExceptT.mk (pure ((decode stdin).mapError .readStdin))
  let compiled ← ExceptT.mk
    (pure ((compile a.compileOptions a.rules source).mapError .convertStdin))
  match a.output with
  | none => return ⟨compiled.code, compiled.diagnostics⟩
  | some p =>
    ExceptT.mk do return (← disk.write p compiled.code).mapError (.write p)
    return ⟨"", compiled.diagnostics⟩

/-- What a run prints, and the code it ends with. -/
structure Outcome where
  exit : UInt32
  stdout : String
  stderr : String
  deriving DecidableEq, Repr

namespace Outcome

/-- All files were converted. -/
def success : UInt32 := 0

/-- Some files failed, the others were written. -/
def filesFailed : UInt32 := 1

/-- Nothing was converted. -/
def fatal : UInt32 := 2

end Outcome

/-- The name of the command and its version. -/
def versionText : String := "flowts 0.1.0\n"

/-- What the command is for, and how it is called. -/
def helpText : String :=
  "Convert Flow-annotated Babel ASTs into TypeScript\n\n" ++ usageLine ++ "\n"

/-- What a run prints that stops before its work. -/
def Stop.outcome : Stop → Outcome
  | .help => ⟨Outcome.success, helpText, ""⟩
  | .version => ⟨Outcome.success, versionText, ""⟩
  | .usage e => ⟨Outcome.fatal, "",
      "error: " ++ e.message ++ "\n\n" ++ usageLine ++ "\n\nFor more information, try '--help'.\n"⟩

/-- Diagnostics as they are shown, nothing if there are none or none are wanted. -/
def showDiagnostics (palette : Palette) (a : Arguments) (ds : List Diagnostic) : String :=
  if a.quiet || ds.isEmpty then "" else palette.render ds ++ "\n"

/-- What is shown of a batch: first the diagnostics, then the failures. -/
def BatchReport.display (palette : Palette) (a : Arguments) (r : BatchReport) : String :=
  String.join (r.converted.map fun f => showDiagnostics palette a f.diagnostics) ++
    String.join (r.failed.map fun f => palette.failure f.input.text f.error.message ++ "\n")

/-- What a run prints that failed as a whole. -/
def RunError.outcome (e : RunError) : Outcome := ⟨Outcome.fatal, "", "error: " ++ e.message ++ "\n"⟩

/-- **A whole run.** The standard input is read only if it is an input. -/
def execute {m : Type → Type} [Monad m] (disk : Disk m) (palette : Palette)
    (stdin : m ByteArray) (args : List String) : m Outcome := do
  match Arguments.parse args with
  | .error stop => return stop.outcome
  | .ok a =>
    if a.readsStdin then
      match ← (runStdin disk a (← stdin)).run with
      | .error e => return e.outcome
      | .ok r => return ⟨Outcome.success, r.out, showDiagnostics palette a r.diagnostics⟩
    else
      match ← (runBatch disk a).run with
      | .error e => return e.outcome
      | .ok r =>
        return ⟨if r.succeeded then Outcome.success else Outcome.filesFailed, "",
          r.display palette a⟩

end Typeshift.Command
