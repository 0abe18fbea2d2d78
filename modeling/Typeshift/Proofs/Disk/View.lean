import Mathlib.Data.List.DropRight
import Typeshift.Disk.Memory
import Typeshift.Proofs.Tree.Loaded

/-! # What an operation sees of a file system

An operation on a path sees the places on its way, and of each of them only whether there is a
directory, a file or a device, and what is in the file. An operation that changes a file system puts
a new directory or a file at one place on its way, where no directory was.

* `Face`, `FileSystem.view`: what is seen of a place. `FileSystem.view_put`: what is seen after an
  entry is put.
* `Path.way`: the places on the way of a path, free of what is there.
* `FileSystem.follow_congr`, `FileSystem.follow_mono`: where pieces lead, in two file systems.
* `FileSystem.read_congr`: what is read depends on the way only. -/

namespace Typeshift.Disk

/-- What an entry is, without what lies below it. -/
inductive Face where
  | directory
  | file (contents : ByteArray)
  | device (d : Device)

namespace Entry

/-- What an entry is. -/
def face : Entry → Face
  | .directory _ => .directory
  | .file contents => .file contents
  | .device d => .device d

theorem child?_eq_none {e : Entry} (h : e.face ≠ .directory) (name : String) :
    e.child? name = none := by
  cases e with
  | directory => exact absurd rfl h
  | file => rfl
  | device => rfl

theorem face_eq_directory {e : Entry} : e.face = .directory ↔ ∃ es, e = .directory es := by
  cases e <;> simp [face]

/-- **An entry that is put** into a directory, with nothing below it and in the place of no
directory, is seen in its place, and changes no other one. -/
theorem face_put {x : Entry} (hx : ∀ name, x.child? name = none) {q : List String} (hq : q ≠ [])
    {e : Entry} (hparent : (e.get? q.dropLast).map face = some .directory)
    (hold : ∀ y, e.get? q = some y → y.face ≠ .directory) (v : List String) :
    ((put x q e).get? v).map face = if v = q then some x.face else (e.get? v).map face := by
  induction q generalizing e v with
  | nil => exact absurd rfl hq
  | cons name rest ih =>
    have hdirectory : ∃ es, e = .directory es := by
      cases rest with
      | nil => exact face_eq_directory.mp (Option.some.inj hparent)
      | cons r rs =>
        cases e with
        | directory es => exact ⟨es, rfl⟩
        | file => cases hparent
        | device => cases hparent
    obtain ⟨es, rfl⟩ := hdirectory
    cases v with
    | nil => rfl
    | cons o os =>
      by_cases ho : o = name
      · subst ho
        simp only [put, get?, child?, lookup_insertName, Option.bind_some]
        cases rest with
        | nil =>
          cases os with
          | nil => simp [put, get?]
          | cons a as =>
            have hold : (es.lookup o).bind (get? (a :: as)) = none := by
              cases hlookup : es.lookup o with
              | none => rfl
              | some y =>
                have hy := hold y (by simp [get?, child?, hlookup])
                simp [get?, child?_eq_none hy]
            rw [hold]
            simp [put, get?, hx]
        | cons r rs =>
          rw [List.dropLast_cons_of_ne_nil (List.cons_ne_nil r rs)] at hparent
          cases hlookup : es.lookup o with
          | none => simp [get?, child?, hlookup] at hparent
          | some y =>
            simp only [get?, child?, hlookup, Option.bind_some] at hparent hold
            simp only [Option.getD_some, Option.bind_some, List.cons.injEq, true_and]
            exact ih (List.cons_ne_nil r rs) hparent hold os
      · simp [put, get?, child?, lookup_insertName_of_ne _ ho, ho]

end Entry

namespace FileSystem

variable {fs fs' : FileSystem}

/-- What is seen of a place. -/
def view (fs : FileSystem) (place : List String) : Option Face := (fs.entry? place).map Entry.face

theorem view_put {x : Entry} (hx : ∀ name, x.child? name = none) {q : List String} (hq : q ≠ [])
    (hparent : fs.view q.dropLast = some .directory) (hold : fs.view q ≠ some .directory)
    (v : List String) : (fs.put q x).view v = if v = q then some x.face else fs.view v :=
  Entry.face_put hx hq hparent
    (fun y hy heq => hold (by unfold view entry?; rw [hy, Option.map_some, heq])) v

/-! ### Ways -/

/-- The place after a piece of a path. -/
def advance (place : List String) (piece : List Char) : List String :=
  match Component.ofPiece? piece with
  | some (.name s) => place ++ [s]
  | some .parent => place.dropLast
  | _ => place

/-- The places on the way of some pieces, the last one included. -/
def way (place : List String) : List (List Char) → List (List String)
  | [] => [place]
  | piece :: rest => place :: way (advance place piece) rest

/-- What is wrong with a piece that is a name, if something is. -/
def checkPiece (piece : List Char) : Except DiskError Unit :=
  match Component.ofPiece? piece with
  | some (.name s) => checkName s
  | _ => .ok ()

section Follow

variable {place q v : List String} {piece : List Char} {pieces more : List (List Char)}

theorem passes_eq (fs : FileSystem) (place : List String) :
    fs.passes place = match fs.view place with
      | none => .error .notFound
      | some .directory => .ok ()
      | some _ => .error .notADirectory := by
  unfold passes view
  cases fs.entry? place with
  | none => rfl
  | some e => cases e <;> rfl

theorem passes_eq_ok : fs.passes place = .ok () ↔ fs.view place = some .directory := by
  rw [passes_eq]
  cases fs.view place with
  | none => simp
  | some f => cases f <;> simp

theorem follow_cons : fs.follow place (piece :: pieces) = (do
    fs.passes place
    checkPiece piece
    fs.follow (advance place piece) pieces) := by
  rw [follow]
  unfold checkPiece advance
  cases Component.ofPiece? piece with
  | none => rfl
  | some c => cases c <;> rfl

theorem follow_append : fs.follow place (pieces ++ more) =
    fs.follow place pieces >>= fun q => fs.follow q more := by
  induction pieces generalizing place with
  | nil => rfl
  | cons piece pieces ih =>
    rw [List.cons_append, follow_cons, follow_cons]
    simp only [ih, bind_assoc]

theorem follow_congr (h : ∀ v ∈ way place pieces, fs.view v = fs'.view v) :
    fs.follow place pieces = fs'.follow place pieces := by
  induction pieces generalizing place with
  | nil => rfl
  | cons piece pieces ih =>
    unfold way at h
    rw [follow_cons, follow_cons, ih fun v hv => h v (List.mem_cons_of_mem _ hv), passes_eq,
      passes_eq, h place List.mem_cons_self]

theorem mem_way_append (h : v ∈ way place pieces) : v ∈ way place (pieces ++ more) := by
  induction pieces generalizing place with
  | nil =>
    obtain rfl := List.mem_singleton.mp h
    cases more <;> exact List.mem_cons_self
  | cons piece pieces ih =>
    rcases List.mem_cons.mp h with rfl | h
    · exact List.mem_cons_self
    · exact List.mem_cons_of_mem _ (ih h)

theorem mem_way_foldl : pieces.foldl advance place ∈ way place pieces := by
  induction pieces generalizing place with
  | nil => exact List.mem_cons_self
  | cons piece pieces ih => exact List.mem_cons_of_mem _ ih

/-- Pieces lead to the end of their way. -/
theorem eq_foldl_of_follow (h : fs.follow place pieces = .ok q) :
    q = pieces.foldl advance place := by
  induction pieces generalizing place with
  | nil =>
    cases h
    rfl
  | cons piece pieces ih =>
    rw [follow_cons] at h
    obtain ⟨_, -, h⟩ := bind_eq_ok.mp h
    obtain ⟨_, -, h⟩ := bind_eq_ok.mp h
    exact ih h

theorem follow_mono (hkeep : ∀ v, fs.view v = some .directory → fs'.view v = some .directory)
    (h : fs.follow place pieces = .ok q) : fs'.follow place pieces = .ok q := by
  induction pieces generalizing place with
  | nil => exact h
  | cons piece pieces ih =>
    rw [follow_cons] at h ⊢
    obtain ⟨_, hpass, h⟩ := bind_eq_ok.mp h
    rw [passes_eq_ok.mpr (hkeep _ (passes_eq_ok.mp hpass))]
    obtain ⟨_, hcheck, h⟩ := bind_eq_ok.mp h
    rw [hcheck]
    exact ih h

end Follow

end FileSystem

/-- The places on the way of a path, from a working directory. -/
def Path.way (p : Path) (workingDirectory : List String) : List (List String) :=
  FileSystem.way (if p.isAbsolute then [] else workingDirectory) p.pieces

/-- The place at the end of the way. -/
def Path.place (p : Path) (workingDirectory : List String) : List String :=
  p.pieces.foldl FileSystem.advance (if p.isAbsolute then [] else workingDirectory)

namespace FileSystem

variable {fs fs' : FileSystem} {p : Path}

theorem resolve_congr (hdir : fs.workingDirectory = fs'.workingDirectory)
    (h : ∀ v ∈ p.way fs.workingDirectory, fs.view v = fs'.view v) :
    fs.resolve p = fs'.resolve p := by
  unfold resolve start
  rw [← hdir, follow_congr h]

theorem mem_way_of_resolve {q : List String} (h : fs.resolve p = .ok q) :
    q ∈ p.way fs.workingDirectory := by
  unfold resolve at h
  obtain ⟨_, -, h⟩ := bind_eq_ok.mp h
  rw [eq_foldl_of_follow h]
  exact mem_way_foldl

/-- What is read at a place. -/
def contents (fs : FileSystem) (place : List String) : Except DiskError ByteArray :=
  match fs.view place with
  | none => .error .notFound
  | some .directory => .error .isADirectory
  | some (.file bytes) => .ok bytes
  | some (.device _) => .ok ByteArray.empty

theorem read_eq (fs : FileSystem) (p : Path) : fs.read p = fs.resolve p >>= fs.contents := by
  unfold read contents view
  refine bind_congr fun q => ?_
  cases fs.entry? q with
  | none => rfl
  | some e => cases e <;> rfl

/-- **What is read depends on the way only.** -/
theorem read_congr (hdir : fs.workingDirectory = fs'.workingDirectory)
    (h : ∀ v ∈ p.way fs.workingDirectory, fs.view v = fs'.view v) : fs.read p = fs'.read p := by
  rw [read_eq, read_eq, ← resolve_congr hdir h]
  cases hresolve : fs.resolve p with
  | error e => rfl
  | ok q =>
    show fs.contents q = fs'.contents q
    unfold contents
    rw [h q (mem_way_of_resolve hresolve)]

end FileSystem

end Typeshift.Disk
