import Typeshift.Command.Batch
import Typeshift.Proofs.Disk.Operations

/-! # The directories of outputs

The output of an input that can be read, next to it, goes into a directory that is there; and the
outputs that go into one directory have the same parent.

* `Path.EndsInName`: a path that ends in a name, after pieces.
* `FileSystem.Provides`: the directory of an output is there. `FileSystem.ready_of_provides`: then
  the output can be written there.
* `Command.provides_nextToInput`: it is there next to an input that can be read.
* `Command.parent?_push`: the parent of the outputs that go into one directory. -/

namespace Typeshift

namespace Disk

/-! ### Names at the end -/

namespace Path

variable {p : Path} {init : List (List Char)} {piece : List Char} {name s : String}

/-- A path that ends in a name, after some pieces. -/
structure EndsInName (p : Path) (init : List (List Char)) (piece : List Char) : Prop where
  pieces : p.pieces = init ++ [piece]
  isName : Component.ofPiece? piece = some (.name (String.ofList piece))

theorem ofPiece?_eq_name (h : piece.getLast?.isSome) (hdot : piece.getLast? ≠ some '.') :
    Component.ofPiece? piece = some (.name (String.ofList piece)) := by
  unfold Component.ofPiece?
  rw [if_neg, if_neg]
  · rintro rfl
    exact hdot rfl
  · rw [Bool.or_eq_true, decide_eq_true_eq, decide_eq_true_eq]
    rintro (rfl | rfl)
    · cases h
    · exact hdot rfl

theorem name_of_ofPiece? (h : Component.ofPiece? piece = some (.name s)) :
    s = String.ofList piece := by
  unfold Component.ofPiece? at h
  split_ifs at h
  · cases h
  · exact (Component.name.inj (Option.some.inj h)).symm

theorem EndsInName.fileName? (h : p.EndsInName init piece) :
    p.fileName? = some (String.ofList piece) := by
  have hlast : p.components.getLast? = some (.name (String.ofList piece)) := by
    unfold components
    rw [h.pieces]
    cases init with
    | nil =>
      have hne : piece ≠ [] ∧ piece ≠ ['.'] := by
        constructor <;> (rintro rfl; have := h.isName; cases this)
      simp [firstComponent, hne.1, hne.2, h.isName]
    | cons first rest => simp [List.filterMap_append, h.isName]
  unfold Path.fileName?
  rw [hlast]

theorem EndsInName.spelled (h : p.EndsInName init piece) : p.spelled = init ++ [piece] := by
  have hne : piece.isEmpty = false := by
    cases piece with
    | nil => cases h.isName
    | cons => rfl
  unfold Path.spelled
  rw [h.pieces, List.reverse_append, List.reverse_singleton, List.singleton_append,
    List.dropWhile_cons_of_neg (by simp [hne])]
  simp

theorem EndsInName.newName? (h : p.EndsInName init piece) :
    p.newName? = some (String.ofList piece) := by
  unfold Path.newName?
  rw [h.spelled, List.getLast?_concat, Option.bind_some, h.isName]

theorem not_mem_of_fileName? (h : p.fileName? = some s) : '/' ∉ s.toList := by
  have hmem : Component.name s ∈ p.components := by
    unfold Path.fileName? at h
    split at h
    · next name hname =>
      cases h
      exact List.mem_of_getLast? hname
    · cases h
  have hpiece : ∃ piece ∈ p.pieces, Component.ofPiece? piece = some (.name s) := by
    unfold components at hmem
    obtain ⟨first, rest, hpieces⟩ := p.exists_pieces
    rw [hpieces] at hmem ⊢
    rcases List.mem_append.mp hmem with hmem | hmem
    · refine ⟨first, List.mem_cons_self, ?_⟩
      unfold firstComponent at hmem
      split_ifs at hmem <;> simp_all
    · obtain ⟨piece, hpiece, hof⟩ := List.mem_filterMap.mp hmem
      exact ⟨piece, List.mem_cons_of_mem _ hpiece, hof⟩
  obtain ⟨piece, hpiece, hof⟩ := hpiece
  rw [name_of_ofPiece? hof, String.toList_ofList]
  exact not_mem_of_mem_pieces hpiece

theorem ofPiece?_getLast_trimPieces (pieces : List (List Char)) :
    ∀ piece ∈ (trimPieces pieces).getLast?, Component.ofPiece? piece ≠ none := by
  intro piece hpiece
  have hne : trimPieces pieces ≠ [] := by
    intro hnil
    rw [hnil] at hpiece
    cases hpiece
  have hlast := List.rdropWhile_last_not
    (fun piece => (Component.ofPiece? piece).isNone) pieces hne
  rw [List.getLast?_eq_some_getLast hne] at hpiece
  cases hpiece
  simpa [trimPieces, List.rdropWhile] using hlast

theorem getLast?_pieces_of_endsWithSeparator (h : p.endsWithSeparator = true) :
    ∃ before, before ≠ [] ∧ p.pieces = before ++ [[]] := by
  obtain ⟨cs, hcs⟩ := endsWithSeparator_iff.mp h
  refine ⟨Text.splitOn '/' cs, Text.splitOn_ne_nil _ _, ?_⟩
  unfold pieces
  rw [hcs, Text.splitOn_append]
  rfl

theorem text_ofPieces_ne {first : List Char} {rest : List (List Char)}
    (h : ∀ piece ∈ first :: rest, '/' ∉ piece) : (ofPieces (first :: rest)).text ≠ "" := by
  intro htext
  have hempty : (ofPieces (first :: rest)).pieces = [[]] := by
    unfold pieces
    rw [htext]
    rfl
  rw [pieces_ofPieces h] at hempty
  split_ifs at hempty with hroot
  · cases hempty
  · exact hroot (by simpa using hempty)

/-- The directory before a name is spelled as the parent that it is. -/
theorem parentOf_before (h : ∀ piece ∈ init, '/' ∉ piece) :
    parentOf (parentOf init).before = parentOf init := by
  cases init with
  | nil => rfl
  | cons first rest =>
    have hfree : ∀ piece ∈ first :: trimPieces rest, '/' ∉ piece := fun piece hpiece =>
      h piece ((List.cons_prefix_cons.mpr ⟨rfl, trimPieces_isPrefixOf rest⟩).subset hpiece)
    have hpieces := pieces_ofPieces hfree
    have hparent : parentOf (first :: rest) = ofPieces (first :: trimPieces rest) := rfl
    rw [hparent]
    by_cases hroot : first = [] ∧ trimPieces rest = []
    · rw [hroot.1, hroot.2]
      rfl
    rw [if_neg hroot] at hpieces
    have hends : (ofPieces (first :: trimPieces rest)).endsWithSeparator = false := by
      rw [Bool.eq_false_iff]
      intro hends
      obtain ⟨before, hne, hbefore⟩ := getLast?_pieces_of_endsWithSeparator hends
      rw [hpieces] at hbefore
      cases before with
      | nil => exact hne rfl
      | cons b bs =>
        have hlast : [] ∈ (trimPieces rest).getLast? := by
          rw [(List.cons.inj hbefore).2]
          simp
        exact ofPiece?_getLast_trimPieces rest [] hlast rfl
    have hbefore : (ofPieces (first :: trimPieces rest)).before = first :: trimPieces rest := by
      unfold before
      rw [if_neg (text_ofPieces_ne hfree), hends, hpieces]
      rfl
    rw [hbefore]
    show ofPieces (first :: trimPieces (trimPieces rest)) = _
    rw [trimPieces_trimPieces]

/-! ### The parent of a path that ends in a name -/

section Parent

variable {first : List Char} {rest : List (List Char)}

theorem isAbsolute_parentOf (hp : p.pieces = first :: rest ++ [piece]) :
    (parentOf (first :: rest)).isAbsolute = p.isAbsolute := by
  rw [Bool.eq_iff_iff, parentOf, isAbsolute_ofPieces (not_mem_of_mem_trimPieces ⟨_, hp.symm⟩),
    isAbsolute_iff, hp]
  simp

/-- The text of the parent is a part of that of the path. -/
theorem text_parentOf_isPrefixOf (hp : p.pieces = first :: rest ++ [piece]) :
    (parentOf (first :: rest)).text.toList <+: p.text.toList := by
  obtain ⟨junk, hjunk, -⟩ := exists_trimPieces rest
  have htext : p.text.toList = Text.joinWith '/'
    (first :: trimPieces rest ++ (junk ++ [piece])) := by
    rw [← List.append_assoc, List.cons_append, ← hjunk, ← hp]
    exact (Text.joinWith_splitOn '/' _).symm
  rw [Text.joinWith_append (List.cons_ne_nil _ _) (by simp)] at htext
  rw [htext]
  show (ofPieces (first :: trimPieces rest)).text.toList <+: _
  unfold ofPieces
  split
  · next heq =>
    rw [heq]
    exact ⟨_, rfl⟩
  · rw [String.toList_ofList]
    exact List.prefix_append _ _

end Parent

end Path

/-! ### Directories that are there -/

namespace FileSystem

variable {fs : FileSystem} {p : Path} {init more : List (List Char)} {piece : List Char}
  {place q : List String} {bytes : ByteArray}

/-- The directory of a path is there, as far as the path names one. -/
def Provides (fs : FileSystem) (p : Path) : Prop :=
  ∀ dir ∈ p.parent?, dir.text ≠ "" → fs.isDirectory dir = true

theorem checkPath_eq_ok : checkPath p = .ok () ↔
    p.hasNull = false ∧ p.text ≠ "" ∧ p.text.utf8ByteSize ≤ maxPathSize := by
  unfold checkPath
  split_ifs <;> simp_all

theorem checkPath_parentOf (hp : p.pieces = init ++ [piece]) (hne : init ≠ [])
    (h : checkPath p = .ok ()) : checkPath (Path.parentOf init) = .ok () := by
  obtain ⟨first, rest, rfl⟩ := List.exists_cons_of_ne_nil hne
  obtain ⟨hnull, -, hsize⟩ := checkPath_eq_ok.mp h
  obtain ⟨more, hmore⟩ := Path.text_parentOf_isPrefixOf hp
  refine checkPath_eq_ok.mpr ⟨?_, ?_, ?_⟩
  · unfold Path.hasNull at hnull ⊢
    rw [← hmore, List.contains_append, Bool.or_eq_false_iff] at hnull
    exact hnull.1
  · exact Path.text_ofPieces_ne (Path.not_mem_of_mem_trimPieces ⟨_, hp.symm⟩)
  · have htext : p.text = (Path.parentOf (first :: rest)).text ++ String.ofList more := by
      rw [← String.toList_inj, String.toList_append, String.toList_ofList, hmore]
    rw [htext, String.utf8ByteSize_append] at hsize
    omega

/-- Pieces at the end that do not count make no difference. -/
theorem follow_append_iff (hmore : ∀ piece ∈ more, Component.ofPiece? piece = none)
    (hq : fs.view q = some .directory) :
    fs.follow place (init ++ more) = .ok q ↔ fs.follow place init = .ok q := by
  refine ⟨follow_of_append hmore, fun h => ?_⟩
  rw [follow_append, h]
  exact follow_of_none hmore hq

/-- The parent of a path leads where the pieces before the last one lead. -/
theorem follow_parentOf (hp : p.pieces = init ++ [piece]) (hne : init ≠ [])
    (hq : fs.view q = some .directory) :
    fs.follow (fs.start (Path.parentOf init)) (Path.parentOf init).pieces = .ok q ↔
      fs.follow (fs.start p) init = .ok q := by
  obtain ⟨first, rest, rfl⟩ := List.exists_cons_of_ne_nil hne
  have hstart : fs.start (Path.parentOf (first :: rest)) = fs.start p := by
    unfold start
    rw [Path.isAbsolute_parentOf hp]
  have hfree := Path.not_mem_of_mem_trimPieces ⟨_, hp.symm⟩
  obtain ⟨junk, hjunk, htrivial⟩ := Path.exists_trimPieces rest
  rw [hstart, Path.parentOf, Path.pieces_ofPieces hfree]
  split
  · next hroot =>
    -- nothing counts in the root
    obtain ⟨rfl, hrest⟩ := hroot
    rw [hrest, List.nil_append] at hjunk
    rw [← List.nil_append [[], []], ← List.nil_append ([] :: rest),
      follow_append_iff (by simp [Component.ofPiece?]) hq, follow_append_iff ?_ hq]
    rintro piece hpiece
    rcases List.mem_cons.mp hpiece with rfl | hpiece
    · rfl
    · exact htrivial piece (hjunk ▸ hpiece)
  · rw [← follow_append_iff htrivial hq, List.cons_append, ← hjunk]

/-- **If the directory of a path is there**, an entry can be put into it. -/
theorem ready_of_provides (hends : p.EndsInName init piece)
    (hwd : fs.view fs.workingDirectory = some .directory) (h : fs.Provides p) : fs.Ready p := by
  unfold Ready
  rw [hends.spelled, List.dropLast_concat]
  by_cases hinit : init = []
  · subst hinit
    have habsolute : p.isAbsolute = false := by
      rw [Bool.eq_false_iff, Ne, Path.isAbsolute_iff, hends.pieces]
      simp
    refine ⟨fs.workingDirectory, ?_, hwd⟩
    simp [start, habsolute, follow]
  · have hparent := Path.parent?_of_pieces hends.pieces (by rw [hends.isName]; simp)
    have hdir := h _ hparent ?_
    · obtain ⟨q, hresolve, hq⟩ := isDirectory_iff.mp hdir
      obtain ⟨_, -, hfollow⟩ := bind_eq_ok.mp hresolve
      exact ⟨q, (follow_parentOf hends.pieces hinit hq).mp hfollow, hq⟩
    · obtain ⟨first, rest, rfl⟩ := List.exists_cons_of_ne_nil hinit
      exact Path.text_ofPieces_ne (Path.not_mem_of_mem_trimPieces ⟨_, hends.pieces.symm⟩)

/-- The directory of a directory is one. -/
theorem view_dropLast (h : fs.view q = some .directory) :
    fs.view q.dropLast = some .directory := by
  have hget (e : Entry) (h : (e.get? q).map Entry.face = some .directory) :
      (e.get? q.dropLast).map Entry.face = some .directory := by
    clear * - h
    induction q generalizing e with
    | nil => exact h
    | cons name rest ih =>
      cases rest with
      | nil => cases e <;> simp_all [Entry.get?, Entry.child?, Entry.face]
      | cons r rs =>
        rw [List.dropLast_cons_of_ne_nil (List.cons_ne_nil r rs)]
        rw [Entry.get?] at h ⊢
        cases hchild : e.child? name with
        | none => simp [hchild] at h
        | some y =>
          rw [hchild, Option.bind_some] at h
          exact ih y h
  exact hget fs.root h

/-- **What can be read** ends in a name, and its directory is there. -/
theorem exists_of_read (h : fs.read p = .ok bytes) : ∃ init piece,
    p.EndsInName init piece ∧ fs.Provides p := by
  rw [read_eq] at h
  obtain ⟨q, hresolve, hq⟩ := bind_eq_ok.mp h
  obtain ⟨⟨⟩, hcheck, hfollow⟩ := bind_eq_ok.mp hresolve
  have hq : fs.view q ≠ some .directory := by
    intro hdir
    unfold contents at hq
    rw [hdir] at hq
    cases hq
  cases hpieces : p.pieces using List.reverseRecOn with
  | nil =>
    obtain ⟨first, rest, hcons⟩ := p.exists_pieces
    rw [hcons] at hpieces
    cases hpieces
  | append_singleton init piece =>
    rw [hpieces, follow_append] at hfollow
    obtain ⟨dir, hdir, hlast⟩ := bind_eq_ok.mp hfollow
    rw [follow_cons] at hlast
    obtain ⟨⟨⟩, hpasses, hlast⟩ := bind_eq_ok.mp hlast
    obtain ⟨⟨⟩, -, hlast⟩ := bind_eq_ok.mp hlast
    have hview := passes_eq_ok.mp hpasses
    have hname : ∃ s, Component.ofPiece? piece = some (.name s) := by
      obtain rfl : advance dir piece = q := Except.ok.inj hlast
      unfold advance at hq
      cases hof : Component.ofPiece? piece with
      | none => rw [hof] at hq; exact absurd hview hq
      | some c =>
        rw [hof] at hq
        cases c with
        | name s => exact ⟨s, rfl⟩
        | parent => exact absurd (view_dropLast hview) hq
        | _ => exact absurd hview hq
    obtain ⟨s, hs⟩ := hname
    have hends : p.EndsInName init piece := ⟨hpieces, by rw [hs, Path.name_of_ofPiece? hs]⟩
    refine ⟨init, piece, hends, ?_⟩
    unfold Provides
    rw [Path.parent?_of_pieces hpieces (by rw [hs]; simp)]
    rintro _ ⟨⟩ htext
    have hinit : init ≠ [] := by
      rintro rfl
      exact htext rfl
    refine isDirectory_iff.mpr ⟨dir, ?_, hview⟩
    unfold resolve
    rw [checkPath_parentOf hpieces hinit hcheck]
    exact (follow_parentOf hpieces hinit hview).mpr hdir

end FileSystem

end Disk

namespace Command

open Typeshift.Disk

variable {name : String} {rename : Bool} {format : Format} {input p : Path} {fs : FileSystem}
  {bytes : ByteArray}

/-! ### Outputs -/

theorem subset_of_stripEnding? {ending s t : String} (h : stripEnding? ending s = some t) :
    t.toList ⊆ s.toList := by
  unfold stripEnding? at h
  split_ifs at h
  cases h
  rw [String.toList_ofList]
  exact List.take_subset _ _

theorem subset_stem (name : String) : (stem name).toList ⊆ name.toList := by
  unfold stem
  cases hflow : stripEnding? ".flow.json" name with
  | some t => exact subset_of_stripEnding? hflow
  | none =>
    cases hjson : stripEnding? ".json" name with
    | some t => exact subset_of_stripEnding? hjson
    | none => exact List.Subset.refl _

/-- The name of an output can be a name. -/
theorem outputName_isName (input : Path) (rename : Bool) (format : Format) :
    '/' ∉ (outputName input rename format).toList ∧
      Component.ofPiece? (outputName input rename format).toList =
        some (.name (outputName input rename format)) := by
  have hending : '/' ∉ (ending rename format).toList ∧
      ∃ c, (ending rename format).toList.getLast? = some c ∧ c ≠ '.' := by
    cases rename <;> cases format <;> exact ⟨by decide, _, rfl, by decide⟩
  obtain ⟨hfree, c, hc, hdot⟩ := hending
  have hlast : (outputName input rename format).toList.getLast? = some c := by
    rw [outputName, String.toList_append, List.getLast?_append, hc, Option.some_or]
  refine ⟨?_, ?_⟩
  · rw [outputName, String.toList_append, List.mem_append, not_or]
    refine ⟨fun hmem => ?_, hfree⟩
    have hmem := subset_stem _ hmem
    cases hname : input.fileName? with
    | none => simp [hname] at hmem
    | some s =>
      rw [hname] at hmem
      exact Path.not_mem_of_fileName? hname hmem
  · rw [Path.ofPiece?_eq_name (by simp [hlast]) (by simp [hlast, hdot]), String.ofList_toList]

/-- An output goes below a path. -/
theorem endsInName_push (p input : Path) (rename : Bool) (format : Format) :
    (p.push (outputName input rename format)).EndsInName p.before
      (outputName input rename format).toList := by
  obtain ⟨hfree, hname⟩ := outputName_isName input rename format
  exact ⟨Path.pieces_push hfree, by rw [hname, String.ofList_toList]⟩

/-- **The outputs that go into one directory** have the same parent. -/
theorem parent?_push (p input : Path) (rename : Bool) (format : Format) :
    (p.push (outputName input rename format)).parent? = some (Path.parentOf p.before) := by
  have hends := endsInName_push p input rename format
  exact Path.parent?_of_pieces hends.pieces (by rw [hends.isName]; simp)

/-- **The directory of an output that goes next to its input** is there if the input can be read. -/
theorem provides_nextToInput (rename : Bool) (format : Format) (h : fs.read input = .ok bytes) :
    ∃ init, (Destination.nextToInput.outputOf rename format input).EndsInName init
        (outputName input rename format).toList ∧
      fs.Provides (Destination.nextToInput.outputOf rename format input) := by
  obtain ⟨init, piece, hends, hprovides⟩ := FileSystem.exists_of_read h
  have hparent : input.parent? = some (Path.parentOf init) :=
    Path.parent?_of_pieces hends.pieces (by rw [hends.isName]; simp)
  have houtput : Destination.nextToInput.outputOf rename format input =
      (Path.parentOf init).push (outputName input rename format) := by
    simp [Destination.outputOf, Path.withFileName, hends.fileName?, hparent]
  rw [houtput]
  refine ⟨_, endsInName_push _ _ _ _, ?_⟩
  unfold FileSystem.Provides at hprovides ⊢
  rwa [parent?_push, Path.parentOf_before, ← hparent]
  exact fun piece hpiece => Path.not_mem_of_mem_pieces
    (hends.pieces ▸ List.mem_append_left _ hpiece)

end Command

end Typeshift
