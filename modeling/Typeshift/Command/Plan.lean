import Typeshift.Command.Arguments
import Typeshift.Disk.Basic

/-! # Plans

A plan says for each input where its output goes: next to it, into a directory, or into a file that
is named. Inputs whose outputs would be the same path cannot all be written, so none of them is.

* `outputName`: the name of an output.
* `Destination.outputOf`: the path of an output.
* `Plan.rivals`: the other inputs with the same output. -/

namespace Typeshift.Command

open Typeshift.Disk

/-- A text without an ending, if it has that ending. -/
def stripEnding? (ending : String) (s : String) : Option String :=
  if ending.toList.isSuffixOf s.toList then
    some (String.ofList (s.toList.take (s.toList.length - ending.toList.length)))
  else none

/-- The name of a file without the endings of a tree. -/
def stem (name : String) : String :=
  ((stripEnding? ".flow.json" name).or (stripEnding? ".json" name)).getD name

/-- The ending of an output. -/
def ending (rename : Bool) (format : Format) : String :=
  (if rename then ".tsx" else ".ts") ++ match format with
    | .typescript => ""
    | .json => ".json"

/-- **The name of an output.** The endings of a tree are replaced, other ones stay. -/
def outputName (input : Path) (rename : Bool) (format : Format) : String :=
  stem (input.fileName?.getD "") ++ ending rename format

/-- Where outputs go. -/
inductive Destination where
  | nextToInput
  | directory (p : Path)
  | file (p : Path)
  deriving DecidableEq, Repr

namespace Destination

/-- Where the outputs of so many inputs go. A path names a file only for a single input, and only
if it is not a directory and does not look like one. -/
def choose {m : Type → Type} [Monad m] (disk : Disk m) (output : Option Path) (count : Nat) :
    m Destination := do
  match output with
  | none => return .nextToInput
  | some p =>
    if count = 1 && !(← disk.isDirectory p) && !p.endsWithSeparator then return .file p
    else return .directory p

/-- **The path of an output.** -/
def outputOf (d : Destination) (rename : Bool) (format : Format) (input : Path) : Path :=
  match d with
  | .file p => p
  | .directory p => p.push (outputName input rename format)
  | .nextToInput => input.withFileName (outputName input rename format)

end Destination

/-- An input and its output. -/
structure Job where
  input : Path
  output : Path
  deriving DecidableEq, Repr

/-- The inputs of a run and their outputs. -/
abbrev Plan := List Job

namespace Plan

/-- The plan for some inputs. -/
def make (d : Destination) (rename : Bool) (format : Format) (inputs : List Path) : Plan :=
  inputs.map fun input => ⟨input, d.outputOf rename format input⟩

/-- **The other inputs with the same output.** -/
def rivals (plan : Plan) (job : Job) : List Path :=
  (plan.filter fun other => other.output.same job.output && !other.input.same job.input).map
    Job.input

end Plan

end Typeshift.Command
