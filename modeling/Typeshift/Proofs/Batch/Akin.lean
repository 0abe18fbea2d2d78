import Typeshift.Proofs.Batch.Directories
import Typeshift.Proofs.Disk.Operations

/-! # File systems that differ in hidden files only

A file is *hidden* by its name if some test on paths never takes it. File systems are alike for the
test if they have the same directories and devices and differ only in hidden files: in whether they
are there and in what they hold.

* `Entry.kept`: the files at and below an entry that the test takes; `Entry.kept_put`: a hidden file
  that is put somewhere does not change them.
* `Akin`: two file systems are alike; `Akin.symm`, `Akin.trans`.
* `Akin.isDirectory`, `Akin.filesBelow`, `Akin.read`, `Akin.write`: what operations make of alike
  file systems.
* `akin_write`: writing a hidden file. -/

namespace Typeshift.Disk

variable {keep : Path → Bool}

/-! ### The files that are kept -/

/-- A name that hides a file from a test, wherever the file is. -/
structure Hidden (keep : Path → Bool) (s : String) : Prop where
  push : ∀ p : Path, keep (p.push s) = false
  named : ∀ p : Path, p.fileName? = some s → keep p = false

namespace Entry

/-- The files at and below an entry that a test takes, as paths below one. -/
def kept (keep : Path → Bool) (p : Path) (e : Entry) : List Path :=
  (e.files.map fun f => f.1.foldl Path.push p).filter keep

theorem kept_directory (p : Path) (es : List (String × Entry)) :
    kept keep p (.directory es) = es.flatMap fun e => kept keep (p.push e.1) e.2 := by
  show ((filesOfAll es).map _).filter keep = _
  induction es with
  | nil => rfl
  | cons e es ih =>
    obtain ⟨name, e⟩ := e
    rw [filesOfAll, List.map_append, List.filter_append, ih, List.flatMap_cons, List.map_map]
    rfl

/-- An entry under a name gives what the one before gave. -/
theorem flatMap_insertName {α : Type} {g : String × Entry → List α} {name : String} {x : Entry}
    {es : List (String × Entry)}
    (h : g (name, x) = ((es.lookup name).map fun y => g (name, y)).getD []) :
    (insertName name x es).flatMap g = es.flatMap g := by
  induction es with
  | nil => simpa [insertName] using h
  | cons e es ih =>
    obtain ⟨k, y⟩ := e
    by_cases hk : k = name
    · subst hk
      rw [List.lookup_cons_self] at h
      simp [insertName, h]
    · have hne : (name == k) = false := beq_false_of_ne (Ne.symm hk)
      rw [List.lookup_cons, hne] at h
      simp [insertName, hk, ih h]

end Entry

/-- What is at a place is missing or a file. -/
def Face.Open (f : Option Face) : Prop := f ≠ some .directory ∧ ∀ d, f ≠ some (.device d)

namespace Entry

theorem kept_of_open {s : String} (hs : Hidden keep s) (p : Path) {e : Entry}
    (h : Face.Open (some e.face)) : kept keep (p.push s) e = [] := by
  cases e with
  | directory es => exact absurd rfl h.1
  | device d => exact absurd rfl (h.2 d)
  | file bytes => exact List.filter_eq_nil_iff.mpr (by simp [files, hs.push p])

/-- **A hidden file that is put somewhere** in the place of nothing or of a file changes none of the
files that are kept. -/
theorem kept_put {s : String} (hs : Hidden keep s) (bytes : ByteArray) {dir : List String}
    {e : Entry} (hdir : (e.get? dir).map face = some .directory)
    (hold : Face.Open ((e.get? (dir ++ [s])).map face)) (p : Path) :
    kept keep p (put (.file bytes) (dir ++ [s]) e) = kept keep p e := by
  induction dir generalizing e p with
  | nil =>
    obtain ⟨es, rfl⟩ := face_eq_directory.mp (Option.some.inj hdir)
    rw [List.nil_append, put, kept_directory, kept_directory]
    refine flatMap_insertName ?_
    rw [put, kept_of_open hs p (by constructor <;> simp [face])]
    cases hlookup : es.lookup s with
    | none => rfl
    | some y =>
      have hold : Face.Open (some y.face) := by
        simpa [get?, child?, hlookup] using hold
      exact (kept_of_open hs p hold).symm
  | cons name dir ih =>
    cases e with
    | file => cases hdir
    | device => cases hdir
    | directory es =>
      cases hlookup : es.lookup name with
      | none => simp [get?, child?, hlookup] at hdir
      | some y =>
        simp only [List.cons_append, get?, child?, hlookup, Option.bind_some] at hdir hold
        rw [List.cons_append, put, kept_directory, kept_directory]
        refine flatMap_insertName ?_
        rw [hlookup]
        exact ih hdir hold _

/-- So it is for what is below a directory. -/
theorem kept_get?_put {s : String} (hs : Hidden keep s) (bytes : ByteArray) {dir v : List String}
    {e : Entry} (hdir : (e.get? dir).map face = some .directory)
    (hold : Face.Open ((e.get? (dir ++ [s])).map face))
    (hv : (e.get? v).map face = some .directory) (p : Path) :
    ((put (.file bytes) (dir ++ [s]) e).get? v).map (kept keep p) =
      (e.get? v).map (kept keep p) := by
  induction v generalizing e dir with
  | nil => exact congrArg some (kept_put hs bytes hdir hold p)
  | cons o os ih =>
    cases e with
    | file => cases hv
    | device => cases hv
    | directory es =>
      cases hlookup : es.lookup o with
      | none => simp [get?, child?, hlookup] at hv
      | some y =>
        rw [get?, child?, hlookup, Option.bind_some] at hv
        cases dir with
        | nil =>
          by_cases ho : o = s
          · subst ho
            have hold : Face.Open (some y.face) := by simpa [get?, child?, hlookup] using hold
            have hnone := child?_eq_none (e := y) fun h => hold.1 (congrArg some h)
            cases os with
            | nil => exact absurd hv hold.1
            | cons a as => rw [get?, hnone] at hv; cases hv
          · simp [put, get?, child?, lookup_insertName_of_ne _ ho]
        | cons name dir =>
          by_cases ho : o = name
          · subst ho
            simp only [List.cons_append, get?, child?, hlookup, Option.bind_some] at hdir hold
            simp only [List.cons_append, put, get?, child?, lookup_insertName, Option.bind_some,
              hlookup, Option.getD_some]
            exact ih hdir hold hv
          · simp [put, get?, child?, lookup_insertName_of_ne _ ho]

end Entry

/-! ### Alike file systems -/

namespace FileSystem

variable {fs fs' fs'' : FileSystem} {p : Path} {bytes : ByteArray} {s : String}

theorem overwrite_of_open {q : List String} (h : Face.Open (fs.view q)) :
    fs.overwrite q bytes = .ok (fs.put q (.file bytes)) := by
  unfold overwrite
  cases hview : fs.view q with
  | none => rfl
  | some f =>
    cases f with
    | directory => exact absurd hview h.1
    | file => rfl
    | device d => exact absurd hview (h.2 d)

theorem overwrite_device {q : List String} {d : Device} (hview : fs.view q = some (.device d))
    (hcheck : d.check bytes = .ok ()) : fs.overwrite q bytes = .ok fs := by
  unfold overwrite
  rw [hview]
  dsimp only
  rw [hcheck]
  rfl

/-- What can be overwritten: nothing or a file, or a device, which stays. -/
theorem overwrite_cases {q : List String} (h : fs.overwrite q bytes = .ok fs') :
    Face.Open (fs.view q) ∧ fs' = fs.put q (.file bytes) ∨
      ∃ d, fs.view q = some (.device d) ∧ d.check bytes = .ok () ∧ fs' = fs := by
  unfold overwrite at h
  cases hview : fs.view q with
  | none =>
    rw [hview] at h
    cases h
    exact .inl ⟨by constructor <;> simp, rfl⟩
  | some f =>
    rw [hview] at h
    cases f with
    | directory => cases h
    | file =>
      cases h
      exact .inl ⟨by constructor <;> simp, rfl⟩
    | device d =>
      obtain ⟨⟨⟩, hcheck, h⟩ := bind_eq_ok.mp h
      cases h
      exact .inr ⟨d, rfl, hcheck, rfl⟩

/-- A place whose name hides what is there. -/
def HiddenAt (keep : Path → Bool) (v : List String) : Prop :=
  ∃ dir s, v = dir ++ [s] ∧ Hidden keep s

/-- **Two file systems differ in hidden files only.** -/
structure Akin (keep : Path → Bool) (fs fs' : FileSystem) : Prop where
  workingDirectory : fs'.workingDirectory = fs.workingDirectory
  view : ∀ v, fs'.view v ≠ fs.view v →
    HiddenAt keep v ∧ Face.Open (fs.view v) ∧ Face.Open (fs'.view v)
  kept : ∀ v p, fs.view v = some .directory →
    (fs'.entry? v).map (Entry.kept keep p) = (fs.entry? v).map (Entry.kept keep p)

namespace Akin

theorem refl (keep : Path → Bool) (fs : FileSystem) : Akin keep fs fs :=
  ⟨rfl, fun _ h => absurd rfl h, fun _ _ _ => rfl⟩

theorem directory (h : Akin keep fs fs') {v : List String} (hv : fs.view v = some .directory) :
    fs'.view v = some .directory := by
  by_contra hne
  exact (h.view v fun heq => hne (heq.trans hv)).2.1.1 hv

theorem symm (h : Akin keep fs fs') : Akin keep fs' fs := by
  have hview (v : List String) (hne : fs.view v ≠ fs'.view v) :
      HiddenAt keep v ∧ Face.Open (fs'.view v) ∧ Face.Open (fs.view v) := by
    obtain ⟨hhidden, hold, hnew⟩ := h.view v (Ne.symm hne)
    exact ⟨hhidden, hnew, hold⟩
  refine ⟨h.workingDirectory.symm, hview, fun v p hv => (h.kept v p ?_).symm⟩
  by_contra hne
  exact (hview v fun heq => hne (heq.trans hv)).2.1.1 hv

theorem trans (h : Akin keep fs fs') (h' : Akin keep fs' fs'') : Akin keep fs fs'' := by
  refine ⟨h'.workingDirectory.trans h.workingDirectory, fun v hv => ?_, fun v p hv =>
    (h'.kept v p (h.directory hv)).trans (h.kept v p hv)⟩
  by_cases heq : fs'.view v = fs.view v
  · rw [← heq] at hv ⊢
    exact h'.view v hv
  · obtain ⟨hhidden, hold, hnew⟩ := h.view v heq
    refine ⟨hhidden, hold, ?_⟩
    by_cases heq' : fs''.view v = fs'.view v
    · exact heq' ▸ hnew
    · exact (h'.view v heq').2.2

/-- What is at a place that hides nothing is the same. -/
theorem view_eq (h : Akin keep fs fs') {v : List String} (hv : ¬ HiddenAt keep v) :
    fs'.view v = fs.view v := by
  by_contra hne
  exact hv (h.view v hne).1

theorem follow (h : Akin keep fs fs') {place q : List String} {pieces : List (List Char)}
    (hq : fs.follow place pieces = .ok q) : fs'.follow place pieces = .ok q :=
  follow_mono (fun _ => h.directory) hq

theorem resolve (h : Akin keep fs fs') {q : List String} (hq : fs.resolve p = .ok q) :
    fs'.resolve p = .ok q := by
  obtain ⟨⟨⟩, hcheck, hfollow⟩ := bind_eq_ok.mp hq
  unfold FileSystem.resolve
  rw [hcheck, start_eq h.workingDirectory]
  exact h.follow hfollow

theorem isDirectory_of (h : Akin keep fs fs') (hp : fs.isDirectory p = true) :
    fs'.isDirectory p = true := by
  obtain ⟨q, hresolve, hq⟩ := isDirectory_iff.mp hp
  exact isDirectory_iff.mpr ⟨q, h.resolve hresolve, h.directory hq⟩

/-- **They have the same directories.** -/
theorem isDirectory (h : Akin keep fs fs') (p : Path) : fs'.isDirectory p = fs.isDirectory p :=
  Bool.eq_iff_iff.mpr ⟨h.symm.isDirectory_of, h.isDirectory_of⟩

/-- **A test takes the same files** below each directory. -/
theorem filesBelow (h : Akin keep fs fs') (hp : fs.isDirectory p = true) :
    (fs'.filesBelow p).filter keep = (fs.filesBelow p).filter keep := by
  obtain ⟨q, hresolve, hq⟩ := isDirectory_iff.mp hp
  have hkept (fs : FileSystem) (hresolve : fs.resolve p = .ok q) :
      (fs.filesBelow p).filter keep = ((fs.entry? q).map (Entry.kept keep p)).getD [] := by
    have hentry : (fs.resolve p).toOption.bind fs.entry? = fs.entry? q := by
      rw [hresolve]
      rfl
    unfold FileSystem.filesBelow
    rw [hentry]
    cases fs.entry? q <;> rfl
  rw [hkept fs hresolve, hkept fs' (h.resolve hresolve), h.kept q p hq]

/-- **A file that the test takes** reads the same. -/
theorem read (h : Akin keep fs fs') (hp : keep p = true) (hread : fs.read p = .ok bytes) :
    fs'.read p = .ok bytes := by
  obtain ⟨init, piece, hends, -⟩ := exists_of_read hread
  rw [read_eq] at hread ⊢
  obtain ⟨q, hresolve, hcontents⟩ := bind_eq_ok.mp hread
  rw [h.resolve hresolve]
  have hplace : ∃ dir, q = dir ++ [String.ofList piece] := by
    obtain ⟨⟨⟩, -, hfollow⟩ := bind_eq_ok.mp hresolve
    refine ⟨init.foldl advance (fs.start p), ?_⟩
    rw [eq_foldl_of_follow hfollow, hends.pieces, List.foldl_append, List.foldl_cons,
      List.foldl_nil, advance, hends.isName]
  have hview : fs'.view q = fs.view q := by
    refine h.view_eq ?_
    rintro ⟨dir, s, hdir, hs⟩
    obtain ⟨dir', hplace⟩ := hplace
    obtain ⟨-, rfl⟩ := List.append_inj' (hplace.symm.trans hdir) rfl |>.imp_right
      List.singleton_inj.mp
    exact absurd (hs.named p hends.fileName?) (by simp [hp])
  show fs'.contents q = .ok bytes
  unfold contents at hcontents ⊢
  rwa [hview]

theorem target (h : Akin keep fs fs') {q : List String} (hq : fs.target p = .ok q) :
    fs'.target p = .ok q := by
  unfold FileSystem.target at hq ⊢
  obtain ⟨⟨dir, name?⟩, hnew, hname⟩ := bind_eq_ok.mp hq
  obtain ⟨hcheck, hfollow, hdir, hspelled⟩ := resolveNew_eq_ok.mp hnew
  have hnew' : fs'.resolveNew p = .ok (dir, name?) :=
    resolveNew_eq_ok.mpr
      ⟨hcheck, (start_eq h.workingDirectory p).symm ▸ h.follow hfollow, h.directory hdir, hspelled⟩
  rw [hnew']
  exact hname

/-- **What can be written** to one can be written to the other. -/
theorem write (h : Akin keep fs fs') {t : FileSystem} (hwrite : fs.write p bytes = .ok t) :
    ∃ t', fs'.write p bytes = .ok t' := by
  rw [write_eq] at hwrite ⊢
  obtain ⟨q, htarget, hwrite⟩ := bind_eq_ok.mp hwrite
  rw [h.target htarget]
  show ∃ t', fs'.overwrite q bytes = .ok t'
  by_cases heq : fs'.view q = fs.view q
  · rcases overwrite_cases hwrite with ⟨hopen, -⟩ | ⟨d, hview, hcheck, -⟩
    · exact ⟨_, overwrite_of_open (heq ▸ hopen)⟩
    · exact ⟨fs', overwrite_device (heq.trans hview) hcheck⟩
  · exact ⟨_, overwrite_of_open (h.view q heq).2.2⟩

end Akin

/-- **Writing a hidden file** changes hidden files only. -/
theorem akin_write (hname : p.newName? = some s) (hs : Hidden keep s)
    (h : fs.write p bytes = .ok fs') : Akin keep fs fs' := by
  rw [write_eq] at h
  obtain ⟨q, htarget, hwrite⟩ := bind_eq_ok.mp h
  obtain ⟨dir, s', hat, rfl⟩ := exists_newAt_of_target htarget
  obtain rfl : s' = s := Option.some.inj (hat.name.symm.trans hname)
  have hput (hopen : Face.Open (fs.view (dir ++ [s']))) :
      Akin keep fs (fs.put (dir ++ [s']) (.file bytes)) := by
    refine ⟨rfl, fun v hv => ?_, fun v p hv => ?_⟩
    · have hparent : fs.view (dir ++ [s']).dropLast = some .directory := by
        rw [List.dropLast_concat]
        exact hat.directory
      rw [view_put (x := .file bytes) (fun _ => rfl) (by simp) hparent hopen.1] at hv ⊢
      split_ifs at hv ⊢ with heq
      · subst heq
        exact ⟨⟨dir, s', rfl, hs⟩, hopen, by constructor <;> simp [Entry.face]⟩
      · exact absurd rfl hv
    · exact Entry.kept_get?_put hs bytes hat.directory hopen hv p
  rcases overwrite_cases hwrite with ⟨hopen, rfl⟩ | ⟨d, -, -, rfl⟩
  · exact hput hopen
  · exact .refl keep fs'

end FileSystem

end Typeshift.Disk
