import Typeshift.Proofs.Disk.Parents

/-! # What an operation changes in a file system

An operation on a path changes places on its way only, and never one where a directory is. So a
directory that is there stays there, and an operation that needs no more than the directories on its
way does the same before and after any other operation.

* `FileSystem.Moves`: a change at some places, none of them a directory.
* `FileSystem.moves_createDirectories`, `FileSystem.isDirectory_of_createDirectories`: making the
  directories on a way. `FileSystem.createDirectories_of_isDirectory`: nothing is made twice.
* `FileSystem.effect`: what a write puts into which place. `FileSystem.moves_write`: it changes that
  place only.
* `FileSystem.effect_eq`: if the directory of the file is there, a write does the same after any
  change elsewhere. -/

namespace Typeshift.Disk

namespace Path

variable {p : Path}

/-- The pieces of a path without empty ones at the end. -/
def spelled (p : Path) : List (List Char) := (p.pieces.reverse.dropWhile List.isEmpty).reverse

/-- The name of an entry that may be made at a path. -/
def newName? (p : Path) : Option String :=
  match p.spelled.getLast?.bind Component.ofPiece? with
  | some (.name s) => some s
  | _ => none

theorem exists_spelled (p : Path) : ∃ more, p.pieces = p.spelled ++ more ∧
    ∀ piece ∈ more, Component.ofPiece? piece = none := by
  unfold spelled
  refine ⟨(p.pieces.reverse.takeWhile List.isEmpty).reverse, ?_, ?_⟩
  · rw [← List.reverse_append, List.takeWhile_append_dropWhile, List.reverse_reverse]
  · intro piece hpiece
    have hempty := List.mem_takeWhile_imp (List.mem_reverse.mp hpiece)
    obtain rfl := List.isEmpty_iff.mp hempty
    rfl

theorem exists_of_newName? {s : String} (h : p.newName? = some s) :
    ∃ piece, p.spelled = p.spelled.dropLast ++ [piece] ∧
      Component.ofPiece? piece = some (.name s) := by
  unfold newName? at h
  split at h
  · next name hname =>
    cases h
    obtain ⟨piece, hlast, hpiece⟩ := Option.bind_eq_some_iff.mp hname
    refine ⟨piece, ?_, hpiece⟩
    obtain ⟨init, hinit⟩ := List.getLast?_eq_some_iff.mp hlast
    rw [hinit, List.dropLast_concat]
  · cases h

end Path

namespace FileSystem

variable {fs fs' fs'' : FileSystem} {p : Path} {W W' : List String → Prop}

/-! ### Changes -/

/-- **A change at some places**, none of which a directory was. -/
structure Moves (W : List String → Prop) (fs fs' : FileSystem) : Prop where
  workingDirectory : fs'.workingDirectory = fs.workingDirectory
  view : ∀ v, fs'.view v ≠ fs.view v → W v ∧ fs.view v ≠ some .directory

namespace Moves

theorem refl (W : List String → Prop) (fs : FileSystem) : Moves W fs fs :=
  ⟨rfl, fun _ hv => absurd rfl hv⟩

theorem directory (h : Moves W fs fs') {v : List String} (hv : fs.view v = some .directory) :
    fs'.view v = some .directory := by
  by_contra hne
  exact (h.view v fun heq => hne (heq.trans hv)).2 hv

theorem trans (h : Moves W fs fs') (h' : Moves W fs' fs'') : Moves W fs fs'' := by
  refine ⟨h'.workingDirectory.trans h.workingDirectory, fun v hv => ?_⟩
  by_cases heq : fs'.view v = fs.view v
  · obtain ⟨hw, hne⟩ := h'.view v (heq ▸ hv)
    exact ⟨hw, heq ▸ hne⟩
  · exact h.view v heq

theorem mono (h : Moves W fs fs') (hW : ∀ v, W v → W' v) : Moves W' fs fs' :=
  ⟨h.workingDirectory, fun v hv => ⟨hW v (h.view v hv).1, (h.view v hv).2⟩⟩

/-- What a change leaves alone on a way looks as before. -/
theorem view_eq (h : Moves W fs fs') {v : List String}
    (hv : W v → fs.view v = some .directory) : fs'.view v = fs.view v := by
  by_contra hne
  obtain ⟨hw, hdir⟩ := h.view v hne
  exact hdir (hv hw)

theorem put {x : Entry} (hx : ∀ name, x.child? name = none) {q : List String} (hq : q ≠ [])
    (hparent : fs.view q.dropLast = some .directory) (hold : fs.view q ≠ some .directory)
    (hw : W q) : Moves W fs (fs.put q x) := by
  refine ⟨rfl, fun v hv => ?_⟩
  rw [view_put hx hq hparent hold] at hv
  split_ifs at hv with heq
  · exact heq ▸ ⟨hw, hold⟩
  · exact absurd rfl hv

end Moves

/-! ### Following pieces to the last one -/

section Follow

variable {place q : List String} {pieces more : List (List Char)} {piece : List Char} {s : String}

theorem follow_name (h : Component.ofPiece? piece = some (.name s)) :
    fs.follow place [piece] = (do
      fs.passes place
      checkName s
      return place ++ [s]) := by
  rw [follow_cons]
  unfold checkPiece advance follow
  rw [h]
  rfl

theorem advance_of_none (h : Component.ofPiece? piece = none) : advance place piece = place := by
  unfold advance
  rw [h]

theorem follow_of_none (hmore : ∀ piece ∈ more, Component.ofPiece? piece = none)
    (hq : fs.view q = some .directory) : fs.follow q more = .ok q := by
  induction more with
  | nil => rfl
  | cons piece more ih =>
    have hnone := hmore piece List.mem_cons_self
    rw [follow_cons, passes_eq_ok.mpr hq, advance_of_none hnone,
      ih fun p hp => hmore p (List.mem_cons_of_mem _ hp)]
    unfold checkPiece
    rw [hnone]
    rfl

theorem foldl_advance_of_none (hmore : ∀ piece ∈ more, Component.ofPiece? piece = none) :
    more.foldl advance place = place := by
  induction more with
  | nil => rfl
  | cons piece more ih =>
    rw [List.foldl_cons, advance_of_none (hmore piece List.mem_cons_self),
      ih fun p hp => hmore p (List.mem_cons_of_mem _ hp)]

/-- Pieces at the end that do not count lead nowhere else. -/
theorem follow_of_append (hmore : ∀ piece ∈ more, Component.ofPiece? piece = none)
    (h : fs.follow place (pieces ++ more) = .ok q) : fs.follow place pieces = .ok q := by
  rw [follow_append] at h
  obtain ⟨r, hr, h⟩ := bind_eq_ok.mp h
  rw [hr, eq_foldl_of_follow h, foldl_advance_of_none hmore]

end Follow

theorem isDirectory_iff :
    fs.isDirectory p = true ↔ ∃ q, fs.resolve p = .ok q ∧ fs.view q = some .directory := by
  unfold isDirectory view
  cases fs.resolve p with
  | error e => simp [Except.toOption]
  | ok q =>
    simp only [Except.toOption, Option.bind_some, Except.ok.injEq, exists_eq_left']
    cases fs.entry? q with
    | none => simp
    | some e => cases e <;> simp [Entry.face]

/-- Where a new entry goes, and its name. -/
theorem resolveNew_eq (fs : FileSystem) (p : Path) : fs.resolveNew p = (do
    checkPath p
    let dir ← fs.follow (fs.start p) p.spelled.dropLast
    fs.passes dir
    return (dir, p.newName?)) := by
  unfold resolveNew Path.newName? Path.spelled
  refine bind_congr fun _ => bind_congr fun dir => bind_congr fun _ => ?_
  cases (p.pieces.reverse.dropWhile List.isEmpty).reverse.getLast?.bind Component.ofPiece? with
  | none => rfl
  | some c => cases c <;> rfl

theorem resolveNew_eq_ok {dir : List String} {name? : Option String} :
    fs.resolveNew p = .ok (dir, name?) ↔ checkPath p = .ok () ∧
      fs.follow (fs.start p) p.spelled.dropLast = .ok dir ∧ fs.view dir = some .directory ∧
        p.newName? = name? := by
  constructor
  · intro h
    rw [resolveNew_eq] at h
    obtain ⟨⟨⟩, hcheck, h⟩ := bind_eq_ok.mp h
    obtain ⟨_, hfollow, h⟩ := bind_eq_ok.mp h
    obtain ⟨⟨⟩, hpasses, h⟩ := bind_eq_ok.mp h
    cases h
    exact ⟨hcheck, hfollow, passes_eq_ok.mp hpasses, rfl⟩
  · rintro ⟨hcheck, hfollow, hdir, rfl⟩
    rw [resolveNew_eq, hcheck, hfollow]
    show (fs.passes dir >>= fun _ => _) = _
    rw [passes_eq_ok.mpr hdir]
    rfl

/-- The place of a new entry. -/
structure NewAt (fs : FileSystem) (p : Path) (dir : List String) (s : String) : Prop where
  check : checkPath p = .ok ()
  follow : fs.follow (fs.start p) p.spelled.dropLast = .ok dir
  directory : fs.view dir = some .directory
  name : p.newName? = some s

namespace NewAt

variable {dir : List String} {s : String} (h : fs.NewAt p dir s)
include h

theorem place_eq : dir ++ [s] = p.place fs.workingDirectory := by
  obtain ⟨piece, hspelled, hpiece⟩ := Path.exists_of_newName? h.name
  obtain ⟨more, hmore, htrivial⟩ := p.exists_spelled
  have hdir : dir = p.spelled.dropLast.foldl advance (fs.start p) := eq_foldl_of_follow h.follow
  show _ = p.pieces.foldl advance (fs.start p)
  rw [hmore, List.foldl_append, foldl_advance_of_none htrivial, hspelled, List.foldl_append,
    ← hdir, List.foldl_cons, List.foldl_nil, advance, hpiece]

theorem mem_way : dir ++ [s] ∈ p.way fs.workingDirectory := by
  rw [h.place_eq]
  exact mem_way_foldl

theorem resolve_eq (hcheck : checkName s = .ok ()) (hnew : fs.view (dir ++ [s]) = some .directory) :
    fs.resolve p = .ok (dir ++ [s]) := by
  obtain ⟨piece, hspelled, hpiece⟩ := Path.exists_of_newName? h.name
  obtain ⟨more, hmore, htrivial⟩ := p.exists_spelled
  unfold resolve
  rw [h.check, hmore, follow_append, hspelled, follow_append, h.follow]
  show (fs.follow dir [piece] >>= fun q => fs.follow q more) = _
  rw [follow_name hpiece, passes_eq_ok.mpr h.directory, hcheck]
  exact follow_of_none htrivial hnew

end NewAt

theorem createDirectory_eq_ok (h : fs.createDirectory p = .ok fs') :
    ∃ dir s, fs.NewAt p dir s ∧ checkName s = .ok () ∧ fs.view (dir ++ [s]) = none ∧
      fs' = fs.put (dir ++ [s]) (.directory []) := by
  unfold createDirectory at h
  obtain ⟨⟨dir, name?⟩, hnew, h⟩ := bind_eq_ok.mp h
  obtain ⟨hpath, hfollow, hdir, hname⟩ := resolveNew_eq_ok.mp hnew
  cases name? with
  | none => cases h
  | some s =>
    obtain ⟨_, hcheck, h⟩ := bind_eq_ok.mp h
    split at h
    · cases h
    · next hsome =>
      cases h
      have hnone : fs.entry? (dir ++ [s]) = none := by simpa using hsome
      refine ⟨dir, s, ⟨hpath, hfollow, hdir, hname⟩, hcheck, ?_, rfl⟩
      unfold view
      rw [hnone]
      rfl

theorem moves_createDirectory (h : fs.createDirectory p = .ok fs') :
    Moves (· ∈ p.way fs.workingDirectory) fs fs' ∧ fs'.isDirectory p = true := by
  obtain ⟨dir, s, hnew, hcheck, hnone, rfl⟩ := createDirectory_eq_ok h
  have hbare : ∀ name, (Entry.directory []).child? name = none := fun name => rfl
  have hq : dir ++ [s] ≠ [] := by simp
  have hparent : fs.view (dir ++ [s]).dropLast = some .directory := by
    rw [List.dropLast_concat]
    exact hnew.directory
  have hold : fs.view (dir ++ [s]) ≠ some .directory := by simp [hnone]
  have hmoves : Moves (· ∈ p.way fs.workingDirectory) fs (fs.put (dir ++ [s]) (.directory [])) :=
    .put hbare hq hparent hold hnew.mem_way
  refine ⟨hmoves, isDirectory_iff.mpr ⟨dir ++ [s], ?_, ?_⟩⟩
  all_goals
    have hview : (fs.put (dir ++ [s]) (.directory [])).view (dir ++ [s]) = some .directory := by
      rw [view_put hbare hq hparent hold, if_pos rfl]
      rfl
  · exact NewAt.resolve_eq ⟨hnew.check, follow_mono (fun _ => hmoves.directory) hnew.follow,
      hmoves.directory hnew.directory, hnew.name⟩ hcheck hview
  · exact hview

/-! ### Making directories -/

theorem createDirectory_of_isDirectory (h : fs.isDirectory p = true) :
    fs.createDirectory p = .error .alreadyExists := by
  obtain ⟨q, hresolve, hq⟩ := isDirectory_iff.mp h
  unfold resolve at hresolve
  obtain ⟨⟨⟩, hcheck, hfollow⟩ := bind_eq_ok.mp hresolve
  obtain ⟨more, hmore, htrivial⟩ := p.exists_spelled
  rw [hmore] at hfollow
  have hfollow := follow_of_append htrivial hfollow
  unfold createDirectory
  cases hspelled : p.spelled using List.reverseRecOn with
  | nil =>
    rw [hspelled] at hfollow
    have hname : p.newName? = none := by
      unfold Path.newName?
      rw [hspelled]
      rfl
    have hnew : fs.resolveNew p = .ok (q, none) :=
      resolveNew_eq_ok.mpr ⟨hcheck, hspelled ▸ hfollow, hq, hname⟩
    rw [hnew]
    rfl
  | append_singleton init last =>
    rw [hspelled, follow_append] at hfollow
    obtain ⟨dir, hdir, hlast⟩ := bind_eq_ok.mp hfollow
    rw [follow_cons] at hlast
    obtain ⟨⟨⟩, hpasses, hlast⟩ := bind_eq_ok.mp hlast
    obtain ⟨⟨⟩, hpiece, hlast⟩ := bind_eq_ok.mp hlast
    cases hlast
    have hdirs : fs.follow (fs.start p) p.spelled.dropLast = .ok dir := by
      rwa [hspelled, List.dropLast_concat]
    have hnew : fs.resolveNew p = .ok (dir, p.newName?) :=
      resolveNew_eq_ok.mpr ⟨hcheck, hdirs, passes_eq_ok.mp hpasses, rfl⟩
    rw [hnew]
    cases hname : p.newName? with
    | none => rfl
    | some s =>
      obtain ⟨piece, hconcat, hof⟩ := Path.exists_of_newName? hname
      obtain rfl : last = piece := by
        rw [hspelled, List.dropLast_concat] at hconcat
        simpa using hconcat
      unfold checkPiece at hpiece
      unfold advance at hq
      rw [hof] at hpiece hq
      have hsome : (fs.entry? (dir ++ [s])).isSome = true := by
        unfold view at hq
        cases hentry : fs.entry? (dir ++ [s]) with
        | none => simp [hentry] at hq
        | some e => rfl
      show (checkName s >>= fun _ => _) = _
      rw [show checkName s = .ok () from hpiece, if_pos hsome]
      rfl

theorem change_of_ok {f : FileSystem → Except DiskError FileSystem} (h : f fs = .ok fs') :
    change f fs = (.ok (), fs') := by
  unfold change
  rw [h]

theorem change_of_error {f : FileSystem → Except DiskError FileSystem} {e : DiskError}
    (h : f fs = .error e) : change f fs = (.error e, fs) := by
  unfold change
  rw [h]

theorem createChain_cons (p : Path) (parents : List Path) (fs : FileSystem) :
    createChain (p :: parents) fs =
      if p.text = "" then (.ok (), fs) else
      match fs.createDirectory p with
      | .ok fs' => (.ok (), fs')
      | .error .notFound =>
        match createChain parents fs with
        | (.ok (), fs') =>
          if fs'.isDirectory p then (.ok (), fs') else change (·.createDirectory p) fs'
        | (.error e, fs') => (.error e, fs')
      | .error e => if fs.isDirectory p then (.ok (), fs) else (.error e, fs) := by
  have hbind {α β : Type} (x : StateM FileSystem α) (f : α → StateM FileSystem β) :
      (x >>= f) fs = f (x fs).1 (x fs).2 := rfl
  have hif (fs : FileSystem) (x : StateM FileSystem (Except DiskError Unit)) :
      (if fs.isDirectory p then pure (.ok ()) else x) fs =
        if fs.isDirectory p then (.ok (), fs) else x fs := by split <;> rfl
  rw [createChain]
  split
  · rfl
  cases hcreate : fs.createDirectory p with
  | ok fs' =>
    rw [hbind, change_of_ok hcreate]
    rfl
  | error e =>
    rw [hbind, change_of_error hcreate]
    cases e with
    | notFound =>
      dsimp only
      rw [hbind]
      rcases createChain parents fs with ⟨_ | ⟨⟨⟩⟩, fs'⟩
      · rfl
      · exact hif fs' _
    | _ => exact hif fs _

/-- **Making directories** changes their ways only. -/
theorem moves_createChain (ps : List Path) (fs : FileSystem) :
    Moves (fun v => ∃ p ∈ ps, v ∈ p.way fs.workingDirectory) fs (createChain ps fs).2 := by
  induction ps with
  | nil => exact .refl _ _
  | cons p parents ih =>
    have hparents : Moves (fun v => ∃ q ∈ p :: parents, v ∈ q.way fs.workingDirectory) fs
        (createChain parents fs).2 :=
      ih.mono fun v ⟨q, hq, hv⟩ => ⟨q, List.mem_cons_of_mem _ hq, hv⟩
    have hself {fs₁ fs₂ : FileSystem} (hdir : fs₁.workingDirectory = fs.workingDirectory)
        (h : fs₁.createDirectory p = .ok fs₂) :
        Moves (fun v => ∃ q ∈ p :: parents, v ∈ q.way fs.workingDirectory) fs₁ fs₂ :=
      (moves_createDirectory h).1.mono fun v hv => ⟨p, List.mem_cons_self, hdir ▸ hv⟩
    rw [createChain_cons]
    split
    · exact .refl _ _
    split
    · next h => exact hself rfl h
    · split
      · next fs' heq =>
        rw [heq] at hparents
        split
        · exact hparents
        · unfold change
          split
          · next h => exact hparents.trans (hself hparents.workingDirectory h)
          · exact hparents
      · next heq =>
        rw [heq] at hparents
        exact hparents
    · split <;> exact .refl _ _

theorem isDirectory_of_createChain {parents : List Path}
    (h : (createChain (p :: parents) fs).1 = .ok ()) :
    p.text = "" ∨ (createChain (p :: parents) fs).2.isDirectory p = true := by
  by_cases htext : p.text = ""
  · exact .inl htext
  right
  rw [createChain_cons, if_neg htext] at h ⊢
  cases hcreate : fs.createDirectory p with
  | ok fs' => exact (moves_createDirectory hcreate).2
  | error e =>
    rw [hcreate] at h
    cases e with
    | notFound =>
      dsimp only at h ⊢
      rcases hchain : createChain parents fs with ⟨_ | ⟨⟨⟩⟩, fs'⟩
      · rw [hchain] at h
        cases h
      rw [hchain] at h
      dsimp only at h ⊢
      by_cases hdir : fs'.isDirectory p = true
      · rwa [if_pos hdir]
      rw [if_neg hdir] at h ⊢
      cases hagain : fs'.createDirectory p with
      | ok fs'' =>
        rw [change_of_ok hagain]
        exact (moves_createDirectory hagain).2
      | error e =>
        rw [change_of_error hagain] at h
        cases h
    | _ =>
      dsimp only at h ⊢
      by_cases hdir : fs.isDirectory p = true
      · rwa [if_pos hdir]
      · rw [if_neg hdir] at h
        cases h

theorem createChain_of_isDirectory {parents : List Path} (h : fs.isDirectory p = true) :
    createChain (p :: parents) fs = (.ok (), fs) := by
  rw [createChain_cons, createDirectory_of_isDirectory h]
  simp [h]

theorem exists_ancestors (p : Path) : ∃ parents, p.ancestors = p :: parents := by
  unfold Path.ancestors
  obtain ⟨first, rest, hpieces⟩ := p.exists_pieces
  rw [hpieces, List.length_cons, Path.ancestors.go]
  split
  · exact ⟨[], rfl⟩
  · exact ⟨_, rfl⟩

theorem moves_createDirectories (p : Path) (fs : FileSystem) :
    Moves (· ∈ p.way fs.workingDirectory) fs (createDirectories p fs).2 :=
  (moves_createChain p.ancestors fs).mono fun _ ⟨_, hq, hv⟩ => Path.mem_way_of_mem_ancestors hq hv

theorem isDirectory_of_createDirectories (h : (createDirectories p fs).1 = .ok ()) :
    p.text = "" ∨ (createDirectories p fs).2.isDirectory p = true := by
  obtain ⟨parents, hparents⟩ := exists_ancestors p
  unfold createDirectories at h ⊢
  rw [hparents] at h ⊢
  exact isDirectory_of_createChain h

/-- Directories that are there are not made again. -/
theorem createDirectories_of_isDirectory (h : fs.isDirectory p = true) :
    createDirectories p fs = (.ok (), fs) := by
  obtain ⟨parents, hparents⟩ := exists_ancestors p
  unfold createDirectories
  rw [hparents]
  exact createChain_of_isDirectory h

/-! ### Writing files -/

/-- The place of a file that is to be written. -/
def target (fs : FileSystem) (p : Path) : Except DiskError (List String) := do
  let (dir, name?) ← fs.resolveNew p
  match name? with
  | none => .error .isADirectory
  | some name =>
    if p.endsWithSeparator then .error .isADirectory
    checkName name
    return dir ++ [name]

/-- Put a file in a place. -/
def overwrite (fs : FileSystem) (q : List String) (bytes : ByteArray) :
    Except DiskError FileSystem :=
  match fs.view q with
  | some .directory => .error .isADirectory
  | some (.device d) => do
    d.check bytes
    return fs
  | _ => return fs.put q (.file bytes)

theorem write_eq (fs : FileSystem) (p : Path) (bytes : ByteArray) :
    fs.write p bytes = fs.target p >>= fun q => fs.overwrite q bytes := by
  unfold write target
  rw [bind_assoc]
  refine bind_congr fun ⟨dir, name?⟩ => ?_
  cases name? with
  | none => rfl
  | some name =>
    dsimp only
    split
    · rfl
    · simp only [bind_assoc, pure_bind]
      refine bind_congr fun _ => ?_
      unfold overwrite view
      cases fs.entry? (dir ++ [name]) with
      | none => rfl
      | some e => cases e <;> rfl

/-- What a place holds after it is written, given what it held before. -/
def replaced (old : Option Face) (bytes : ByteArray) : Except DiskError Face :=
  match old with
  | some .directory => .error .isADirectory
  | some (.device d) => do
    d.check bytes
    return .device d
  | _ => .ok (.file bytes)

/-- **What a write does**: a place, and what it holds afterwards. -/
def effect (fs : FileSystem) (p : Path) (bytes : ByteArray) :
    Except DiskError (List String × Face) := do
  let q ← fs.target p
  let new ← replaced (fs.view q) bytes
  return (q, new)

theorem exists_newAt_of_target {q : List String} (h : fs.target p = .ok q) :
    ∃ dir s, fs.NewAt p dir s ∧ q = dir ++ [s] := by
  unfold target at h
  obtain ⟨⟨dir, name?⟩, hnew, h⟩ := bind_eq_ok.mp h
  obtain ⟨hcheck, hfollow, hdir, hname⟩ := resolveNew_eq_ok.mp hnew
  cases name? with
  | none => cases h
  | some s =>
    dsimp only at h
    split at h
    · cases h
    · obtain ⟨_, -, h⟩ := bind_eq_ok.mp h
      cases h
      exact ⟨dir, s, ⟨hcheck, hfollow, hdir, hname⟩, rfl⟩

theorem write_of_effect_error {bytes : ByteArray} {e : DiskError}
    (h : fs.effect p bytes = .error e) : fs.write p bytes = .error e := by
  rw [write_eq]
  unfold effect at h
  cases htarget : fs.target p with
  | error e' =>
    rw [htarget] at h
    cases h
    rfl
  | ok q =>
    rw [htarget] at h
    have h : (replaced (fs.view q) bytes >>= fun new => pure (q, new)) = .error e := h
    show fs.overwrite q bytes = .error e
    unfold overwrite
    unfold replaced at h
    cases hview : fs.view q with
    | none => simp [hview] at h
    | some f =>
      rw [hview] at h
      cases f with
      | directory => cases h; rfl
      | file => cases h
      | device d =>
        dsimp only at h ⊢
        cases hcheck : d.check bytes with
        | error e' => rw [hcheck] at h; cases h; rfl
        | ok _ => rw [hcheck] at h; cases h

theorem write_of_effect_ok {bytes : ByteArray} {q : List String} {new : Face}
    (h : fs.effect p bytes = .ok (q, new)) : ∃ fs', fs.write p bytes = .ok fs' ∧
      fs'.workingDirectory = fs.workingDirectory ∧ q = p.place fs.workingDirectory ∧
        fs.view q ≠ some .directory ∧ ∀ v, fs'.view v = if v = q then some new else fs.view v := by
  unfold effect at h
  obtain ⟨_, htarget, h⟩ := bind_eq_ok.mp h
  obtain ⟨_, hnew, h⟩ := bind_eq_ok.mp h
  cases h
  obtain ⟨dir, s, hat, rfl⟩ := exists_newAt_of_target htarget
  have hput (hold : fs.view (dir ++ [s]) ≠ some .directory) (v : List String) :
      (fs.put (dir ++ [s]) (.file bytes)).view v =
        if v = dir ++ [s] then some (.file bytes) else fs.view v :=
    view_put (fun _ => rfl) (by simp) (by rw [List.dropLast_concat]; exact hat.directory) hold v
  rw [write_eq, htarget]
  show ∃ fs', fs.overwrite (dir ++ [s]) bytes = .ok fs' ∧ _
  unfold overwrite
  unfold replaced at hnew
  cases hview : fs.view (dir ++ [s]) with
  | none =>
    rw [hview] at hnew
    cases hnew
    exact ⟨_, rfl, rfl, hat.place_eq, by simp, hput (by simp [hview])⟩
  | some f =>
    rw [hview] at hnew
    cases f with
    | directory => cases hnew
    | file =>
      cases hnew
      exact ⟨_, rfl, rfl, hat.place_eq, by simp, hput (by simp [hview])⟩
    | device d =>
      obtain ⟨⟨⟩, hcheck, hnew⟩ := bind_eq_ok.mp hnew
      cases hnew
      dsimp only
      rw [hcheck]
      refine ⟨fs, rfl, rfl, hat.place_eq, by simp, fun v => ?_⟩
      split
      · next heq => rw [heq, hview]
      · rfl

/-- **A write** changes the place of its path only. -/
theorem moves_write (p : Path) (bytes : ByteArray) (fs : FileSystem) :
    Moves (· = p.place fs.workingDirectory) fs (change (·.write p bytes) fs).2 := by
  cases heffect : fs.effect p bytes with
  | error e =>
    rw [change_of_error (write_of_effect_error heffect)]
    exact .refl _ _
  | ok e =>
    obtain ⟨q, new⟩ := e
    obtain ⟨fs', hwrite, hdir, rfl, hold, hview⟩ := write_of_effect_ok heffect
    rw [change_of_ok hwrite]
    refine ⟨hdir, fun v hv => ?_⟩
    rw [hview] at hv
    split_ifs at hv with heq
    · exact ⟨heq, heq ▸ hold⟩
    · exact absurd rfl hv

/-! ### Writing into a directory that is there -/

/-- The directory of a new entry is there. -/
def Ready (fs : FileSystem) (p : Path) : Prop :=
  ∃ dir, fs.follow (fs.start p) p.spelled.dropLast = .ok dir ∧ fs.view dir = some .directory

theorem start_eq (h : fs'.workingDirectory = fs.workingDirectory) (p : Path) :
    fs'.start p = fs.start p := by
  unfold start
  rw [h]

/-- **If the directory is there**, no change elsewhere changes what a write does. -/
theorem effect_eq (h : fs.Ready p) (hmoves : Moves W fs fs') (bytes : ByteArray)
    (hview : fs'.view (p.place fs.workingDirectory) = fs.view (p.place fs.workingDirectory)) :
    fs'.effect p bytes = fs.effect p bytes := by
  obtain ⟨dir, hfollow, hdir⟩ := h
  have htarget : fs'.target p = fs.target p := by
    unfold target
    rw [resolveNew_eq, resolveNew_eq, start_eq hmoves.workingDirectory, hfollow,
      follow_mono (fun _ => hmoves.directory) hfollow]
    show ((checkPath p >>= fun _ => fs'.passes dir >>= _) >>= _) =
      ((checkPath p >>= fun _ => fs.passes dir >>= _) >>= _)
    rw [passes_eq_ok.mpr hdir, passes_eq_ok.mpr (hmoves.directory hdir)]
  unfold effect
  rw [htarget]
  cases hq : fs.target p with
  | error e => rfl
  | ok q =>
    obtain ⟨dir, s, hat, rfl⟩ := exists_newAt_of_target hq
    show (replaced (fs'.view (dir ++ [s])) bytes >>= _) =
      (replaced (fs.view (dir ++ [s])) bytes >>= _)
    rw [hat.place_eq, hview]

end FileSystem

end Typeshift.Disk
