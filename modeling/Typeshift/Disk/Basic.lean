import Typeshift.Disk.Path

/-! # Disks

What the program does with files, as a record of operations. They may run on the disk of a machine
or on a file system that is a value.

* `Disk`: the operations.
* `DiskError.message`: the wording of what can go wrong. -/

namespace Typeshift.Disk

/-- Why an operation failed. -/
inductive DiskError where
  | notFound
  | alreadyExists
  | notADirectory
  | isADirectory
  | nameTooLong
  /-- The device has no room for what is written. -/
  | noSpace
  /-- The path holds the null character, which no name may. -/
  | nullInName
  /-- What was read is not text. -/
  | notText
  | other (details : String)
  deriving DecidableEq, Repr

/-- The wording of an error. -/
def DiskError.message : DiskError → String
  | .notFound => "No such file or directory (os error 2)"
  | .alreadyExists => "File exists (os error 17)"
  | .notADirectory => "Not a directory (os error 20)"
  | .isADirectory => "Is a directory (os error 21)"
  | .nameTooLong => "File name too long (os error 36)"
  | .noSpace => "No space left on device (os error 28)"
  | .nullInName => "file name contained an unexpected NUL byte"
  | .notText => "stream did not contain valid UTF-8"
  | .other details => details

/-- The text of some bytes. -/
def decode (bytes : ByteArray) : Except DiskError String :=
  match String.fromUTF8? bytes with
  | some s => .ok s
  | none => .error .notText

end Typeshift.Disk

namespace Typeshift

/-- The operations of a disk. Links have no operation of their own: on the disk of a machine every
operation follows them, the search for files included, and a file system that is a value has
none. -/
structure Disk (m : Type → Type) where
  /-- Whether a path names a directory. -/
  isDirectory : Disk.Path → m Bool
  /-- The files at or below a path, in any order. -/
  filesBelow : Disk.Path → m (List Disk.Path)
  /-- The contents of a file. -/
  read : Disk.Path → m (Except Disk.DiskError ByteArray)
  /-- Make a directory and those around it, as far as they are missing. -/
  createDirectories : Disk.Path → m (Except Disk.DiskError Unit)
  /-- Set the contents of a file. -/
  write : Disk.Path → String → m (Except Disk.DiskError Unit)

end Typeshift
