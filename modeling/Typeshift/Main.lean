import Typeshift.Command.Run

/-! # The command

Runs the command on the disk of the machine. -/

namespace Typeshift.Machine

open Typeshift.Disk

/-- The cause of an error of the machine. -/
def cause (e : IO.Error) : DiskError :=
  match e with
  | .noFileOrDirectory _ _ _ => .notFound
  | .alreadyExists _ _ _ => .alreadyExists
  | .inappropriateType _ code _ => if code = 20 then .notADirectory else .isADirectory
  | .permissionDenied _ _ _ => .other "Permission denied (os error 13)"
  | .invalidArgument _ 36 _ => .nameTooLong
  | .resourceExhausted _ 28 _ => .noSpace
  | e => .other e.toString

/-- Run an action on a path and keep its error. -/
def attempt {α : Type} (p : Path) (act : IO α) : IO (Except DiskError α) := do
  if p.hasNull then return .error .nullInName
  try return .ok (← act) catch e => return .error (cause e)

/-- The files at or below a path. What cannot be read is left out. -/
partial def walk (p : Path) : IO (List Path) := do
  if p.hasNull then return []
  try
    let place := (← IO.currentDir) / p.text
    match (← place.metadata).type with
    | .file => return [p]
    | .dir =>
      let below ← (← place.readDir).toList.mapM fun entry => walk (p.push entry.fileName)
      return below.flatten
    | _ => return []
  catch _ => return []

/-- The disk of the machine. -/
def disk : Disk IO where
  isDirectory p := do
    if p.text = "" || p.hasNull then return false
    ((← IO.currentDir) / p.text).isDir
  filesBelow := walk
  read p := attempt p (IO.FS.readBinFile p.text)
  createDirectories p := attempt p (IO.FS.createDirAll p.text)
  write p text := attempt p (IO.FS.writeFile p.text text)

end Typeshift.Machine

/-- Run the command with its arguments. -/
def main (args : List String) : IO UInt32 := do
  let palette : Typeshift.Palette := ⟨← (← IO.getStderr).isTty⟩
  let outcome ← Typeshift.Command.execute Typeshift.Machine.disk palette
    (do (← IO.getStdin).readBinToEnd) args
  IO.print outcome.stdout
  IO.eprint outcome.stderr
  return outcome.exit
