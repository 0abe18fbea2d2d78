import Typeshift.Disk.Basic
import Typeshift.Disk.Entry

/-! # File systems as values

A file system is a tree of entries with a working directory in it. A path is followed name by name:
every place on the way must be a directory, and no name and no path may be too long.

* `FileSystem.resolve`: where a path leads.
* `FileSystem.disk`: the operations of a disk on a file system. -/

namespace Typeshift.Disk

/-- Why bytes cannot be written to a device, if they cannot. -/
def Device.check (d : Device) (bytes : ByteArray) : Except DiskError Unit :=
  match d with
  | .null => .ok ()
  | .full => if bytes.isEmpty then .ok () else .error .noSpace

/-- A tree of entries, with the place of the working directory. -/
structure FileSystem where
  root : Entry
  workingDirectory : List String

namespace FileSystem

/-- An empty working directory, and a directory of devices. -/
def initial : FileSystem where
  root := .directory
    [("dev", .directory [("null", .device .null), ("full", .device .full)]),
      ("tmp", .directory [("work", .directory [])])]
  workingDirectory := ["tmp", "work"]

instance : Inhabited FileSystem := ⟨initial⟩

/-- The entry at a place, given by the names that lead to it from the root. -/
def entry? (fs : FileSystem) (place : List String) : Option Entry := fs.root.get? place

/-- Put an entry at a place. -/
def put (fs : FileSystem) (place : List String) (x : Entry) : FileSystem :=
  { fs with root := Entry.put x place fs.root }

/-- Put an entry below the working directory. -/
def putHere (fs : FileSystem) (names : List String) (x : Entry) : FileSystem :=
  fs.put (fs.workingDirectory ++ names) x

/-- Make a directory below the working directory, unless something is there. -/
def ensureHere (fs : FileSystem) (names : List String) : FileSystem :=
  if (fs.entry? (fs.workingDirectory ++ names)).isSome then fs
  else fs.putHere names (.directory [])

/-- The files below the working directory. -/
def filesHere (fs : FileSystem) : List (List String × ByteArray) :=
  ((fs.entry? fs.workingDirectory).map Entry.files).getD []

/-! ### Following paths -/

/-- The number of bytes that a name may have. -/
def maxNameSize : Nat := 255

/-- The number of bytes that a path may have. -/
def maxPathSize : Nat := 4095

/-- What is wrong with a name, if something is. -/
def checkName (name : String) : Except DiskError Unit :=
  if name.utf8ByteSize ≤ maxNameSize then .ok () else .error .nameTooLong

/-- What is wrong with the text of a path, if something is. -/
def checkPath (p : Path) : Except DiskError Unit :=
  if p.hasNull then .error .nullInName
  else if p.text = "" then .error .notFound
  else if p.text.utf8ByteSize ≤ maxPathSize then .ok ()
  else .error .nameTooLong

/-- Why a place cannot be passed through, if it cannot. -/
def passes (fs : FileSystem) (place : List String) : Except DiskError Unit :=
  match fs.entry? place with
  | none => .error .notFound
  | some (.directory _) => .ok ()
  | some _ => .error .notADirectory

/-- Follow pieces of a path from a place. Every place on the way must be a directory. The root is
its own parent. -/
def follow (fs : FileSystem) (place : List String) :
    List (List Char) → Except DiskError (List String)
  | [] => .ok place
  | piece :: rest => do
    fs.passes place
    match Component.ofPiece? piece with
    | some (.name s) =>
      checkName s
      fs.follow (place ++ [s]) rest
    | some .parent => fs.follow place.dropLast rest
    | _ => fs.follow place rest

/-- The place that a path starts at. -/
def start (fs : FileSystem) (p : Path) : List String :=
  if p.isAbsolute then [] else fs.workingDirectory

/-- **Where a path leads.** -/
def resolve (fs : FileSystem) (p : Path) : Except DiskError (List String) := do
  checkPath p
  fs.follow (fs.start p) p.pieces

/-- Where the directory of a new entry is, and the name of the entry; no name if the path can only
name a directory that is there. -/
def resolveNew (fs : FileSystem) (p : Path) : Except DiskError (List String × Option String) := do
  checkPath p
  let pieces := (p.pieces.reverse.dropWhile List.isEmpty).reverse
  let place ← fs.follow (fs.start p) pieces.dropLast
  fs.passes place
  match pieces.getLast?.bind Component.ofPiece? with
  | some (.name s) => return (place, some s)
  | _ => return (place, none)

/-! ### Operations -/

/-- Whether a path names a directory. -/
def isDirectory (fs : FileSystem) (p : Path) : Bool :=
  match (fs.resolve p).toOption.bind fs.entry? with
  | some (.directory _) => true
  | _ => false

/-- The contents of a file. -/
def read (fs : FileSystem) (p : Path) : Except DiskError ByteArray := do
  match fs.entry? (← fs.resolve p) with
  | none => .error .notFound
  | some (.directory _) => .error .isADirectory
  | some (.file bytes) => .ok bytes
  | some (.device _) => .ok ByteArray.empty

/-- The files at or below a path. -/
def filesBelow (fs : FileSystem) (p : Path) : List Path :=
  match (fs.resolve p).toOption.bind fs.entry? with
  | none => []
  | some e => e.files.map fun f => f.1.foldl Path.push p

/-- Set the contents of a file. -/
def write (fs : FileSystem) (p : Path) (bytes : ByteArray) : Except DiskError FileSystem := do
  let (dir, name) ← fs.resolveNew p
  match name with
  | none => .error .isADirectory
  | some name =>
    if p.endsWithSeparator then .error .isADirectory
    checkName name
    match fs.entry? (dir ++ [name]) with
    | some (.directory _) => .error .isADirectory
    | some (.device d) =>
      d.check bytes
      return fs
    | _ => return fs.put (dir ++ [name]) (.file bytes)

/-- Make a directory. -/
def createDirectory (fs : FileSystem) (p : Path) : Except DiskError FileSystem := do
  let (dir, name) ← fs.resolveNew p
  match name with
  | none => .error .alreadyExists
  | some name =>
    checkName name
    if (fs.entry? (dir ++ [name])).isSome then .error .alreadyExists
    else return fs.put (dir ++ [name]) (.directory [])

/-- Run an operation that may change a file system. One that fails changes nothing. -/
def change (f : FileSystem → Except DiskError FileSystem) :
    StateM FileSystem (Except DiskError Unit) :=
  fun fs => match f fs with
    | .ok fs => (.ok (), fs)
    | .error e => (.error e, fs)

/-- Make the first of some directories, each of which is the parent of the one before. Only if its
parent is missing is that made too; it stays if the directory itself cannot be made. -/
def createChain : List Path → StateM FileSystem (Except DiskError Unit)
  | [] => return .ok ()
  | p :: parents => do
    if p.text = "" then return .ok ()
    match ← change (·.createDirectory p) with
    | .ok () => return .ok ()
    | .error .notFound =>
      match ← createChain parents with
      | .ok () => if (← get).isDirectory p then return .ok () else change (·.createDirectory p)
      | .error e => return .error e
    | .error e => if (← get).isDirectory p then return .ok () else return .error e

/-- Make a directory and those around it, as far as they are missing. -/
def createDirectories (p : Path) : StateM FileSystem (Except DiskError Unit) :=
  createChain p.ancestors

/-- **The operations of a disk on a file system.** -/
def disk : Disk (StateM FileSystem) where
  isDirectory p := return (← get).isDirectory p
  filesBelow p := return (← get).filesBelow p
  read p := return (← get).read p
  createDirectories := createDirectories
  write p text := change fun fs => fs.write p text.toUTF8

end FileSystem

end Typeshift.Disk
