import Typeshift.Proofs.Disk.View

/-! # The pieces of a path and of its parents

A path is spelled by its pieces. Its parents are spelled by fewer of them, so they lie on its way;
and a name that is pushed adds one.

* `Path.pieces_ofPieces`: the pieces of a path that is put together from pieces.
* `Path.mem_way_of_parent?`, `Path.mem_way_of_mem_ancestors`: parents lie on the way.
* `Path.pieces_push`: a pushed name.
* `Path.parent?_of_pieces`: the parent of a path that ends in a name. -/

namespace Typeshift

namespace Text

variable {sep : Char} {cs ds : List Char} {pieces more : List (List Char)}

theorem splitOn_of_not_mem (h : sep ∉ cs) : splitOn sep cs = [cs] := by
  induction cs with
  | nil => rfl
  | cons c cs ih =>
    rw [List.mem_cons, not_or] at h
    rw [splitOn, if_neg (Ne.symm h.1), ih h.2]

theorem splitOn_append (cs ds : List Char) :
    splitOn sep (cs ++ sep :: ds) = splitOn sep cs ++ splitOn sep ds := by
  induction cs with
  | nil => simp [splitOn]
  | cons c cs ih =>
    simp only [List.cons_append, splitOn, ih]
    split
    · rfl
    · cases h : splitOn sep cs with
      | nil => exact absurd h (splitOn_ne_nil sep cs)
      | cons piece rest => rfl

theorem not_mem_of_mem_splitOn {piece : List Char} (h : piece ∈ splitOn sep cs) : sep ∉ piece := by
  induction cs generalizing piece with
  | nil =>
    obtain rfl := List.mem_singleton.mp h
    exact List.not_mem_nil
  | cons c cs ih =>
    rw [splitOn] at h
    split at h
    · rcases List.mem_cons.mp h with rfl | h
      · exact List.not_mem_nil
      · exact ih h
    · next hc =>
      split at h
      · obtain rfl := List.mem_singleton.mp h
        simpa using Ne.symm hc
      · next first rest hsplit =>
        rw [hsplit] at ih
        rcases List.mem_cons.mp h with rfl | h
        · rw [List.mem_cons, not_or]
          exact ⟨Ne.symm hc, ih List.mem_cons_self⟩
        · exact ih (List.mem_cons_of_mem _ h)

theorem joinWith_append (hp : pieces ≠ []) (hm : more ≠ []) :
    joinWith sep (pieces ++ more) = joinWith sep pieces ++ sep :: joinWith sep more := by
  induction pieces with
  | nil => exact absurd rfl hp
  | cons piece pieces ih =>
    cases pieces with
    | nil =>
      cases more with
      | nil => exact absurd rfl hm
      | cons m ms => rfl
    | cons q rest =>
      have hrest := ih (List.cons_ne_nil q rest)
      simp only [List.cons_append, joinWith, List.append_assoc] at hrest ⊢
      rw [hrest]

theorem splitOn_joinWith (hne : pieces ≠ []) (h : ∀ piece ∈ pieces, sep ∉ piece) :
    splitOn sep (joinWith sep pieces) = pieces := by
  induction pieces with
  | nil => exact absurd rfl hne
  | cons piece pieces ih =>
    have hpiece := splitOn_of_not_mem (h piece List.mem_cons_self)
    cases pieces with
    | nil => exact hpiece
    | cons q rest =>
      rw [joinWith, splitOn_append, hpiece,
        ih (List.cons_ne_nil q rest) fun p hp => h p (List.mem_cons_of_mem _ hp)]
      · rfl
      · exact fun hnil => absurd hnil (List.cons_ne_nil q rest)

end Text

namespace Disk

open FileSystem (advance)

namespace Path

variable {p q : Path} {first piece : List Char} {pieces rest more : List (List Char)}
  {v workingDirectory : List String} {s name : String}

theorem not_mem_of_mem_pieces (h : piece ∈ p.pieces) : '/' ∉ piece :=
  Text.not_mem_of_mem_splitOn h

theorem exists_pieces (p : Path) : ∃ first rest, p.pieces = first :: rest := by
  unfold pieces
  cases h : Text.splitOn '/' p.text.toList with
  | nil => exact absurd h (Text.splitOn_ne_nil _ _)
  | cons first rest => exact ⟨first, rest, rfl⟩

/-- A path is absolute if a separator comes first. -/
theorem isAbsolute_iff : p.isAbsolute = true ↔ ∃ more, more ≠ [] ∧ p.pieces = [] :: more := by
  unfold isAbsolute pieces
  cases p.text.toList with
  | nil => simp [Text.splitOn]
  | cons c cs =>
    rw [Text.splitOn]
    by_cases hc : c = '/'
    · simp [hc, Text.splitOn_ne_nil]
    · cases h : Text.splitOn '/' cs with
      | nil => exact absurd h (Text.splitOn_ne_nil _ _)
      | cons piece rest => simp [hc]

/-- The path `/`, and any other path that is put together from pieces. -/
theorem pieces_ofPieces (h : ∀ piece ∈ first :: rest, '/' ∉ piece) :
    (ofPieces (first :: rest)).pieces =
      if first = [] ∧ rest = [] then [[], []] else first :: rest := by
  have hjoin (hpieces : first :: rest ≠ [[]]) :
      (ofPieces (first :: rest)).pieces = first :: rest := by
    unfold ofPieces
    split
    · next heq => exact absurd heq hpieces
    · unfold pieces
      rw [String.toList_ofList, Text.splitOn_joinWith (List.cons_ne_nil _ _) h]
  split
  · next heq =>
    obtain ⟨rfl, rfl⟩ := heq
    rfl
  · next hne =>
    refine hjoin fun heq => hne ?_
    simpa using heq

theorem isAbsolute_ofPieces (h : ∀ piece ∈ first :: rest, '/' ∉ piece) :
    (ofPieces (first :: rest)).isAbsolute = true ↔ first = [] := by
  rw [isAbsolute_iff, pieces_ofPieces h]
  split
  · next heq => simp [heq.1]
  · next hne =>
    constructor
    · rintro ⟨more, -, heq⟩
      exact (List.cons.inj heq).1
    · rintro rfl
      exact ⟨rest, fun hrest => hne ⟨rfl, hrest⟩, rfl⟩

theorem trimPieces_isPrefixOf (pieces : List (List Char)) : trimPieces pieces <+: pieces :=
  List.rdropWhile_prefix _ pieces

/-- Pieces without those at the end that do not count, and those. -/
theorem exists_trimPieces (pieces : List (List Char)) : ∃ more, pieces = trimPieces pieces ++ more ∧
    ∀ piece ∈ more, Component.ofPiece? piece = none := by
  unfold trimPieces
  refine ⟨(pieces.reverse.takeWhile fun piece => (Component.ofPiece? piece).isNone).reverse, ?_, ?_⟩
  · rw [← List.reverse_append, List.takeWhile_append_dropWhile, List.reverse_reverse]
  · intro piece hpiece
    have h := List.mem_takeWhile_imp (List.mem_reverse.mp hpiece)
    simpa using h

theorem trimPieces_concat (h : Component.ofPiece? piece ≠ none) :
    trimPieces (pieces ++ [piece]) = pieces ++ [piece] := by
  unfold trimPieces
  rw [List.reverse_append, List.reverse_singleton, List.singleton_append,
    List.dropWhile_cons_of_neg (by simpa using h)]
  simp

theorem not_mem_of_mem_trimPieces (h : first :: rest <+: p.pieces) :
    ∀ piece ∈ first :: trimPieces rest, '/' ∉ piece := fun _ hpiece =>
  not_mem_of_mem_pieces
    (h.subset ((List.cons_prefix_cons.mpr ⟨rfl, trimPieces_isPrefixOf rest⟩).subset hpiece))

theorem trimPieces_trimPieces (pieces : List (List Char)) :
    trimPieces (trimPieces pieces) = trimPieces pieces :=
  List.rdropWhile_idempotent _ _

/-! ### Parents -/

/-- The directory that the pieces before the last one of a path lead to. -/
def parentOf : List (List Char) → Path
  | [] => ⟨""⟩
  | first :: rest => ofPieces (first :: trimPieces rest)

theorem exists_of_parent? (h : p.parent? = some q) : ∃ init, q = parentOf init ∧
    init <+: p.pieces ∧ init.length < p.pieces.length ∧ (init = [] → p.isAbsolute = false) := by
  obtain ⟨first, rest, hpieces⟩ := p.exists_pieces
  unfold parent? at h
  rw [hpieces] at h ⊢
  dsimp only at h
  split at h
  · -- the parent of a single name is the working directory
    split_ifs at h with hfirst
    cases h
    refine ⟨[], rfl, List.nil_prefix, by simp, fun _ => ?_⟩
    rw [Bool.eq_false_iff, Ne, isAbsolute_iff, hpieces]
    rintro ⟨more, -, heq⟩
    exact hfirst (List.cons.inj heq).1
  · next hne =>
    cases h
    have hprefix : (trimPieces rest).dropLast <+: rest :=
      ( List.dropLast_prefix _).trans (trimPieces_isPrefixOf rest)
    refine ⟨first :: (trimPieces rest).dropLast, rfl, List.cons_prefix_cons.mpr ⟨rfl, hprefix⟩,
      ?_, fun hnil => absurd hnil (List.cons_ne_nil _ _)⟩
    have hlength := (trimPieces_isPrefixOf rest).length_le
    have hpos := List.length_pos_iff.mpr hne
    simp only [List.length_cons, List.length_dropLast]
    omega

/-- **The way of the parent of a path** is a part of that of the path. -/
theorem mem_way_of_parent? (h : p.parent? = some q) (hv : v ∈ q.way workingDirectory) :
    v ∈ p.way workingDirectory := by
  obtain ⟨init, rfl, ⟨more, hmore⟩, hlength, hrelative⟩ := exists_of_parent? h
  cases init with
  | nil =>
    have hv : v = workingDirectory := by
      simpa [parentOf, way, FileSystem.way, pieces, isAbsolute, Text.splitOn, advance,
        Component.ofPiece?] using hv
    unfold way
    rw [hrelative rfl, hv]
    cases p.pieces <;> exact List.mem_cons_self
  | cons first rest =>
    have hfree := not_mem_of_mem_trimPieces ⟨more, hmore⟩
    have habsolute : p.isAbsolute = (parentOf (first :: rest)).isAbsolute := by
      rw [Bool.eq_iff_iff, parentOf, isAbsolute_ofPieces hfree, isAbsolute_iff, ← hmore]
      constructor
      · rintro ⟨_, -, heq⟩
        exact (List.cons.inj heq).1
      · rintro rfl
        refine ⟨rest ++ more, fun hnil => ?_, rfl⟩
        rw [← hmore, List.length_append, List.append_eq_nil_iff.mp hnil |>.2] at hlength
        exact absurd hlength (lt_irrefl _)
    obtain ⟨junk, hjunk, -⟩ := exists_trimPieces rest
    have hpieces : p.pieces = first :: trimPieces rest ++ (junk ++ more) := by
      rw [← hmore, List.cons_append, List.cons_append, ← List.append_assoc, ← hjunk]
    have hparent : parentOf (first :: rest) = ofPieces (first :: trimPieces rest) := rfl
    unfold way at hv ⊢
    rw [habsolute, hpieces]
    rw [hparent] at hv ⊢
    rw [pieces_ofPieces hfree] at hv
    by_cases hroot : first = [] ∧ trimPieces rest = []
    · rw [if_pos hroot, if_pos ((isAbsolute_ofPieces hfree).mpr hroot.1)] at hv
      rw [if_pos ((isAbsolute_ofPieces hfree).mpr hroot.1)]
      have hv : v = [] := by
        simpa [FileSystem.way, advance, Component.ofPiece?] using hv
      exact hv ▸ List.mem_cons_self
    · rw [if_neg hroot] at hv
      exact FileSystem.mem_way_append hv

theorem mem_way_of_mem_ancestors (h : q ∈ p.ancestors) (hv : v ∈ q.way workingDirectory) :
    v ∈ p.way workingDirectory := by
  have hgo : ∀ n p, q ∈ ancestors.go n p → v ∈ p.way workingDirectory := by
    intro n
    induction n with
    | zero =>
      intro p h
      obtain rfl := List.mem_singleton.mp h
      exact hv
    | succ n ih =>
      intro p h
      unfold ancestors.go at h
      split at h
      · obtain rfl := List.mem_singleton.mp h
        exact hv
      · next parent hparent =>
        rcases List.mem_cons.mp h with rfl | h
        · exact hv
        · exact mem_way_of_parent? hparent (ih parent h)
  exact hgo _ p h

/-! ### Names below a path -/

/-- The pieces of a path before a name that is pushed. -/
def before (p : Path) : List (List Char) :=
  if p.text = "" then []
  else if p.endsWithSeparator then p.pieces.dropLast
  else p.pieces

theorem endsWithSeparator_iff :
    p.endsWithSeparator = true ↔ ∃ cs, p.text.toList = cs ++ ['/'] := by
  unfold endsWithSeparator
  rw [beq_iff_eq, List.getLast?_eq_some_iff]

/-- **A name that is pushed** comes after the pieces of the path. -/
theorem pieces_push (hname : '/' ∉ name.toList) :
    (p.push name).pieces = p.before ++ [name.toList] := by
  have hhead : name.toList.head? ≠ some '/' := fun hhead =>
    hname (List.mem_of_mem_head? hhead)
  unfold push before
  rw [if_neg hhead]
  by_cases htext : p.text = ""
  · rw [if_pos (by simp [htext]), if_pos htext, htext]
    unfold pieces
    rw [String.empty_append, Text.splitOn_of_not_mem hname]
    rfl
  rw [if_neg htext]
  cases hends : p.endsWithSeparator with
  | true =>
    obtain ⟨cs, hcs⟩ := endsWithSeparator_iff.mp hends
    rw [if_pos (by simp), if_pos rfl]
    unfold pieces
    rw [String.toList_append, hcs, List.append_assoc, List.singleton_append, Text.splitOn_append,
      Text.splitOn_append, Text.splitOn_of_not_mem hname]
    simp [Text.splitOn]
  | false =>
    rw [if_neg (by simp [htext]), if_neg (by simp)]
    unfold pieces
    rw [String.toList_append, String.toList_append, List.append_assoc]
    show Text.splitOn '/' (p.text.toList ++ '/' :: name.toList) = _
    rw [Text.splitOn_append, Text.splitOn_of_not_mem hname]

/-- The parent of a path that ends in a name. -/
theorem parent?_of_pieces (hpieces : p.pieces = pieces ++ [piece])
    (hpiece : Component.ofPiece? piece ≠ none) : p.parent? = some (parentOf pieces) := by
  unfold parent?
  rw [hpieces]
  cases pieces with
  | nil =>
    have hne : piece ≠ [] := by
      rintro rfl
      exact hpiece rfl
    simp [trimPieces, hne, parentOf]
  | cons first rest =>
    dsimp only [List.cons_append]
    rw [trimPieces_concat hpiece]
    split
    · next heq => simp at heq
    · rw [List.dropLast_concat]
      rfl

end Path

end Disk

end Typeshift
