import Typeshift.Disk.Basic
import Typeshift.Glob.Match

/-! # Inputs

An input is a file, a directory, which stands for the trees below it, or a pattern, which stands for
the files it matches. A file need not be there. The files of all inputs are sorted, and each is
taken once.

* `isScanned`: the files that a directory stands for.
* `collect`: the files of a list of inputs. -/

namespace Typeshift.Command

open Typeshift.Disk

/-- Whether an input is a pattern. -/
def isPattern (s : String) : Bool := s.toList.any fun c => "*?[\x7b".toList.contains c

/-- Whether a component of a path is free of wildcards. -/
def isPlain : Component → Bool
  | .name s => !isPattern s
  | _ => true

/-- The working directory. -/
def workingDirectory : Path := ⟨"."⟩

/-- The directory that a pattern is looked for in: its first components, up to a wildcard. -/
def patternRoot (pattern : String) : Path :=
  let root := Path.ofComponents ((Path.components ⟨pattern⟩).takeWhile isPlain)
  if root.text = "" || root.text = pattern then workingDirectory else root

/-- A path as a pattern sees it: without the working directory, if the pattern does not name it. -/
def candidate (pattern : String) (p : Path) : String :=
  if (patternRoot pattern).same workingDirectory && !pattern.startsWith "./" then
    match p.components with
    | .current :: rest => (Path.ofComponents rest).text
    | _ => p.text
  else p.text

/-- Files of a project that hold no trees. -/
def projectFiles : List String :=
  ["package.json", "package-lock.json", "tsconfig.json", "jsconfig.json"]

/-- **Whether a file is taken when a directory is scanned.** Trees that the command itself wrote are
not. -/
def isScanned (p : Path) : Bool :=
  match p.fileName? with
  | none => false
  | some name => name.endsWith ".json" && !name.endsWith ".ts.json" && !name.endsWith ".tsx.json" &&
      !projectFiles.contains name

/-- What is wrong with a pattern. -/
structure InvalidPattern where
  pattern : String
  cause : Glob.PatternError
  deriving DecidableEq, Repr

namespace InvalidPattern

/-- That a pattern is wrong. -/
def summary (e : InvalidPattern) : String := "invalid glob pattern '" ++ e.pattern ++ "'"

/-- That a pattern is wrong, and what is. -/
def message (e : InvalidPattern) : String :=
  e.summary ++ ": error parsing glob '" ++ e.pattern ++ "': " ++ e.cause.message

end InvalidPattern

/-- The files that a pattern matches. -/
def expand {m : Type → Type} [Monad m] (disk : Disk m) (pattern : String) :
    ExceptT InvalidPattern m (List Path) :=
  match Glob.parse pattern with
  | .error e => throw ⟨pattern, e⟩
  | .ok tokens => do
    let files ← disk.filesBelow (patternRoot pattern)
    return files.filter fun p => Glob.isMatch tokens (candidate pattern p)

/-- The files of an input. -/
def filesOf {m : Type → Type} [Monad m] (disk : Disk m) (input : String) :
    ExceptT InvalidPattern m (List Path) := do
  if isPattern input then expand disk input
  else if ← disk.isDirectory ⟨input⟩ then
    return (← disk.filesBelow ⟨input⟩).filter isScanned
  else return [⟨input⟩]

/-- Neighbours that are the same path, taken once: the first of them stays. -/
def mergeSame : List Path → List Path
  | [] => []
  | p :: ps =>
    match mergeSame ps with
    | [] => [p]
    | q :: qs => if p.same q then p :: qs else p :: q :: qs

/-- **The files of a list of inputs**, sorted, each once. -/
def collect {m : Type → Type} [Monad m] (disk : Disk m) (inputs : List String) :
    ExceptT InvalidPattern m (List Path) := do
  let files ← inputs.mapM (filesOf disk)
  return mergeSame (files.flatten.mergeSort Path.le)

end Typeshift.Command
