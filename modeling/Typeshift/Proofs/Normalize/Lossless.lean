import Typeshift.Normalize.Basic
import Typeshift.Proofs.Normalize.Marking
import Typeshift.Proofs.Normalize.Unfold
import Typeshift.Proofs.Tree.WellFormed

/-! # Normalization is lossless

A normalized program ends with the definitions of the hoisted types. Without these definitions, and
with the hoisted types put back, it is the program it was made from, but for the flags of optional
parts; and these are exactly the flags of the parts that may be omitted.

* `statements?`: the statements of a program or of the program in a file.
* `dropStatements`: the tree without its last statements.
* `normalize_lossless`: what normalization changes. -/

namespace Typeshift.Normalize

/-! ### The statements of a program -/

/-- The list that a slot holds. -/
def list? : Slot Node → Option (List Node)
  | .many xs => some xs
  | _ => none

/-- The node that a slot must hold. -/
def node? : Slot Node → Option Node
  | .one t => some t
  | _ => none

/-- The statements of a program. -/
def programBody? (t : Node) : Option (List Node) :=
  if t.head.is .program then (t.slots.get? .body).bind list? else none

/-- The statements of a program, or of the program in a file. -/
def statements? (t : Node) : Option (List Node) :=
  if t.head.is .file then ((t.slots.get? .program).bind node?).bind programBody?
  else programBody? t

/-- A change to the statements in the slot of a body. -/
def onBody (g : List Node → List Node) : Field × Slot Node → Field × Slot Node
  | (.body, .many body) => (.body, .many (g body))
  | entry => entry

/-- A change to the program in the slot of a file. -/
def onProgram (g : Node → Node) : Field × Slot Node → Field × Slot Node
  | (.program, .one p) => (.program, .one (g p))
  | entry => entry

/-- A program without its last statements. -/
def dropFromProgram (k : Nat) (t : Node) : Node :=
  .mk () t.head (t.slots.map (onBody fun body => body.take (body.length - k)))

/-- A program, or a file that holds one, without its last statements. -/
def dropStatements (k : Nat) (t : Node) : Node :=
  if t.head.is .file then .mk () t.head (t.slots.map (onProgram (dropFromProgram k)))
  else dropFromProgram k t

theorem appendToProgram_eq (xs : List Node) (t : Node) :
    appendToProgram xs t = .mk () t.head (t.slots.map (onBody (· ++ xs))) := by
  cases t; rfl

theorem appendStatements_eq (xs : List Node) (t : Node) :
    appendStatements xs t =
      if t.head.is .file then .mk () t.head (t.slots.map (onProgram (appendToProgram xs)))
      else appendToProgram xs t := rfl

theorem onBody_cases (e : Field × Slot Node) :
    (∃ body, e = (.body, .many body)) ∨ ∀ g, onBody g e = e := by
  unfold onBody
  split
  · next body => exact .inl ⟨body, rfl⟩
  · exact .inr fun _ => rfl

theorem onProgram_cases (e : Field × Slot Node) :
    (∃ p, e = (.program, .one p)) ∨ ∀ g, onProgram g e = e := by
  unfold onProgram
  split
  · next p => exact .inl ⟨p, rfl⟩
  · exact .inr fun _ => rfl

section Append

variable (xs : List Node)

theorem dropFromProgram_append (t : Node) :
    dropFromProgram xs.length (appendToProgram xs t) = t := by
  rw [appendToProgram_eq, dropFromProgram, Tree.head_mk, Tree.slots_mk, List.map_map]
  obtain ⟨_, h, s⟩ := t
  refine congrArg (Tree.mk () h) ((List.map_congr_left fun e _ => ?_).trans (List.map_id s))
  rcases onBody_cases e with ⟨body, rfl⟩ | he
  · simp [onBody]
  · simp [he]

theorem dropStatements_append (t : Node) :
    dropStatements xs.length (appendStatements xs t) = t := by
  rw [appendStatements_eq]
  unfold dropStatements
  by_cases hf : t.head.is .file = true
  · rw [if_pos hf, Tree.head_mk, if_pos hf, Tree.slots_mk, List.map_map]
    obtain ⟨_, h, s⟩ := t
    refine congrArg (Tree.mk () h) ((List.map_congr_left fun e _ => ?_).trans (List.map_id s))
    rcases onProgram_cases e with ⟨p, rfl⟩ | he
    · simp [onProgram, dropFromProgram_append]
    · simp [he]
  · rw [if_neg hf, appendToProgram_eq, Tree.head_mk, if_neg hf, ← appendToProgram_eq]
    exact dropFromProgram_append xs t

/-- What a field holds after a change to the slots that keeps their fields. -/
theorem get?_map {m : Field × Slot Node → Field × Slot Node} (hm : ∀ e, (m e).1 = e.1)
    (s : Slots Unit) (f : Field) :
    Slots.get? (s.map m) f = (s.get? f).map fun slot => (m (f, slot)).2 := by
  unfold Slots.get?
  induction s with
  | nil => rfl
  | cons e rest ih =>
    rw [List.map_cons, List.lookup_cons, List.lookup_cons, hm, ih]
    cases heq : f == e.1 with
    | false => rfl
    | true =>
      obtain ⟨k, slot⟩ := e
      cases beq_iff_eq.mp heq
      rfl

theorem fst_onBody (g : List Node → List Node) (e : Field × Slot Node) :
    (onBody g e).1 = e.1 := by
  rcases onBody_cases e with ⟨body, rfl⟩ | he
  · rfl
  · rw [he]

theorem fst_onProgram (g : Node → Node) (e : Field × Slot Node) : (onProgram g e).1 = e.1 := by
  rcases onProgram_cases e with ⟨p, rfl⟩ | he
  · rfl
  · rw [he]

theorem get?_map_onBody {s : Slots Unit} {body : List Node} (g : List Node → List Node)
    (h : s.get? .body = some (.many body)) :
    Slots.get? (s.map (onBody g)) .body = some (.many (g body)) := by
  rw [get?_map (fst_onBody g), h]
  rfl

theorem get?_map_onProgram {s : Slots Unit} {p : Node} (g : Node → Node)
    (h : s.get? .program = some (.one p)) :
    Slots.get? (s.map (onProgram g)) .program = some (.one (g p)) := by
  rw [get?_map (fst_onProgram g), h]
  rfl

omit xs in
theorem programBody?_eq_some {t : Node} {body : List Node} :
    programBody? t = some body ↔
      t.head.is .program = true ∧ t.slots.get? .body = some (.many body) := by
  unfold programBody?
  split_ifs with ht
  · rcases t.slots.get? .body with _ | _ | _ | _ | _ <;> simp [list?, ht]
  · simp [ht]

omit xs in
theorem statements?_eq_some {t : Node} {body : List Node} :
    statements? t = some body ↔ t.head.is .file = false ∧ programBody? t = some body ∨
      t.head.is .file = true ∧ ∃ p, t.slots.get? .program = some (.one p) ∧
        programBody? p = some body := by
  unfold statements?
  split_ifs with ht
  · rcases t.slots.get? .program with _ | _ | _ | _ | _ <;> simp [node?, ht]
  · simp [ht]

theorem programBody?_append {t : Node} {body : List Node} (h : programBody? t = some body) :
    programBody? (appendToProgram xs t) = some (body ++ xs) := by
  obtain ⟨ht, hb⟩ := programBody?_eq_some.mp h
  rw [appendToProgram_eq]
  exact programBody?_eq_some.mpr ⟨ht, get?_map_onBody (· ++ xs) hb⟩

theorem statements?_append {t : Node} {body : List Node} (h : statements? t = some body) :
    statements? (appendStatements xs t) = some (body ++ xs) := by
  rw [appendStatements_eq]
  rcases statements?_eq_some.mp h with ⟨hf, hb⟩ | ⟨hf, p, hp, hb⟩
  · have hh : (appendToProgram xs t).head = t.head := by rw [appendToProgram_eq, Tree.head_mk]
    rw [if_neg (by rw [hf]; exact Bool.false_ne_true)]
    exact statements?_eq_some.mpr (.inl ⟨by rw [hh, hf], programBody?_append xs hb⟩)
  · rw [if_pos hf]
    refine statements?_eq_some.mpr (.inr ⟨hf, appendToProgram xs p, ?_, programBody?_append xs hb⟩)
    exact get?_map_onProgram (appendToProgram xs) hp

end Append

/-! ### Passes keep the statements -/

theorem list?_map (f : Node → Node) (slot : Slot Node) :
    list? (slot.map f) = (list? slot).map (List.map f) := by
  cases slot <;> rfl

theorem node?_map (f : Node → Node) (slot : Slot Node) :
    node? (slot.map f) = (node? slot).map f := by
  cases slot <;> rfl

section Map

variable {t u : Node} {f : Node → Node}

theorem programBody?_mapTrees (ht : u.head.tag? = t.head.tag?)
    (hs : u.slots = t.slots.mapTrees f) : programBody? u = (programBody? t).map (List.map f) := by
  unfold programBody? Head.is
  rw [ht, hs, Slots.get?_mapTrees]
  split_ifs
  · cases t.slots.get? .body with
    | none => rfl
    | some slot => exact list?_map f slot
  · rfl

theorem statements?_mapTrees (ht : u.head.tag? = t.head.tag?) (hs : u.slots = t.slots.mapTrees f)
    (hf : ∀ p, programBody? (f p) = (programBody? p).map (List.map f)) :
    statements? u = (statements? t).map (List.map f) := by
  have hprogram := programBody?_mapTrees ht hs
  unfold statements? Head.is
  rw [ht, hs, Slots.get?_mapTrees, hprogram]
  split_ifs
  · cases t.slots.get? .program with
    | none => rfl
    | some slot =>
      simp only [Option.map_some, Option.bind_some, node?_map]
      cases node? slot with
      | none => rfl
      | some p => exact hf p
  · rfl

end Map

theorem statements?_clearOptional (t : Node) :
    statements? t.clearOptional = (statements? t).map (List.map Node.clearOptional) := by
  have hslots : ∀ u : Node, u.clearOptional.head.tag? = u.head.tag? ∧
      u.clearOptional.slots = u.slots.mapTrees Node.clearOptional := by
    rintro ⟨_, h, s⟩
    rw [Node.clearOptional_mk]
    exact ⟨rfl, rfl⟩
  exact statements?_mapTrees (hslots t).1 (hslots t).2 fun p =>
    programBody?_mapTrees (hslots p).1 (hslots p).2

section Unfold

variable {xs : List Hoisted} (hx : ∀ x ∈ xs, x.type.head.is .functionType = true)
include hx

/-- Unfolding a node that is no reference changes its parts only; others become function types. -/
theorem unfoldAliases_cases (t : Node) :
    (unfoldAliases xs t).head = t.head ∧
        (unfoldAliases xs t).slots = t.slots.mapTrees (unfoldAliases xs) ∨
      (unfoldAliases xs t).head.is .functionType = true := by
  rcases hu : unfoldAliases xs t with ⟨_, h, s⟩
  by_cases hf : h.is .functionType = true
  · exact .inr hf
  · obtain ⟨hh, hs⟩ := unfoldAliases_eq_mk hx (Bool.eq_false_iff.mpr hf) hu
    exact .inl ⟨hh.symm, hs.symm⟩

theorem programBody?_of_unfold {t : Node} {body : List Node}
    (h : programBody? (unfoldAliases xs t) = some body) : ∃ body', programBody? t = some body' := by
  rcases unfoldAliases_cases hx t with ⟨hh, hs⟩ | hf
  · rw [programBody?_mapTrees (congrArg Head.tag? hh) hs] at h
    obtain ⟨body', hb, -⟩ := Option.map_eq_some_iff.mp h
    exact ⟨body', hb⟩
  · have hp := (programBody?_eq_some.mp h).1
    simp only [Head.is, beq_iff_eq] at hf hp
    rw [hf] at hp
    cases hp

theorem statements?_of_unfold {t : Node} {body : List Node}
    (h : statements? (unfoldAliases xs t) = some body) : ∃ body', statements? t = some body' := by
  rcases unfoldAliases_cases hx t with ⟨hh, hs⟩ | hf
  · rcases statements?_eq_some.mp h with ⟨hfile, hb⟩ | ⟨hfile, p, hp, hb⟩ <;> rw [hh] at hfile
    · obtain ⟨body', hb'⟩ := programBody?_of_unfold hx hb
      exact ⟨body', statements?_eq_some.mpr (.inl ⟨hfile, hb'⟩)⟩
    · rw [hs, Slots.get?_mapTrees] at hp
      obtain ⟨slot, hslot, hmap⟩ := Option.map_eq_some_iff.mp hp
      cases slot <;> cases hmap
      next p' =>
      obtain ⟨body', hb'⟩ := programBody?_of_unfold hx hb
      exact ⟨body', statements?_eq_some.mpr (.inr ⟨hfile, p', hslot, hb'⟩)⟩
  · simp only [Head.is, beq_iff_eq] at hf
    rcases statements?_eq_some.mp h with ⟨-, hb⟩ | ⟨hfile, -⟩
    · have hp := (programBody?_eq_some.mp hb).1
      simp only [Head.is, beq_iff_eq, hf] at hp
      cases hp
    · simp only [Head.is, beq_iff_eq, hf] at hfile
      cases hfile

end Unfold

/-! ### Well-formed programs -/

theorem hasFlag_of_fits {h : Head} {s : Slots Unit} (hfits : Fits .source h s) : HasFlag h := by
  intro ht
  have hmem : ∀ t ∈ [Tag.functionTypeParam, .identifier, .classProperty, .classPrivateProperty],
      FieldSpec.flagOrNull .isOptional ∈ t.fields .source := by decide
  obtain ⟨t, hin, his⟩ := List.any_eq_true.mp ht
  have htag : h.tag? = some t := by simpa [Head.is] using his
  exact hfits.flag htag (hmem t hin) rfl

theorem programBody?_of_wellFormed {t : Node} (hw : t.WellFormed .source)
    (hp : t.head.is .program = true) : ∃ body, programBody? t = some body := by
  cases hw with
  | @mk h s here below =>
    have htag : h.tag? = some .program := by simpa [Head.is] using hp
    obtain ⟨body, hbody⟩ := here.many htag (show .many .body ∈ _ by decide) rfl
    exact ⟨body, programBody?_eq_some.mpr ⟨hp, hbody⟩⟩

theorem statements?_of_wellFormed {t : Node} (hw : t.WellFormed .source) (hb : hasBody t = true) :
    ∃ body, statements? t = some body := by
  unfold hasBody at hb
  rw [Bool.or_eq_true, Bool.and_eq_true] at hb
  rcases hb with hp | ⟨hf, hp⟩
  · obtain ⟨body, hbody⟩ := programBody?_of_wellFormed hw hp
    have hfile : t.head.is .file = false := by
      simp only [Head.is, beq_iff_eq] at hp
      simp [Head.is, hp]
    exact ⟨body, statements?_eq_some.mpr (.inl ⟨hfile, hbody⟩)⟩
  · cases hw with
    | @mk h s here below =>
      have htag : h.tag? = some .file := by simpa [Head.is] using hf
      obtain ⟨p, hget⟩ := here.one htag (show .one .program ∈ _ by decide) rfl rfl
      have hchild : s.child? .program = some p := by
        unfold Slots.child?
        rw [show s.get? .program = some (.one p) from hget]
      have hprogram : p.head.is .program = true := by
        rw [Tree.slots_mk, hchild] at hp
        exact hp
      obtain ⟨body, hbody⟩ :=
        programBody?_of_wellFormed (below p (Slots.child?_mem hchild)) hprogram
      exact ⟨body, statements?_eq_some.mpr (.inr ⟨hf, p, hget, hbody⟩)⟩

/-- A normalized program is a program with definitions appended: the hoisted types in the order of
a run, which unfold to the marked tree. -/
theorem normalize_eq {t : Node} (hw : t.WellFormed .source) (hb : hasBody t = true) :
    ∃ st core body, Supply t.mentions st ∧
      t.normalize = (appendStatements (st.hoisted.map Hoisted.definition) core,
        ⟨st.hoisted.map Hoisted.name, (markOptional t).count⟩) ∧
      hoist (markOptional t).node = (core, st.hoisted) ∧
      unfoldAliases st.hoisted core = (markOptional t).node ∧ statements? core = some body := by
  obtain ⟨st, hst, ⟨hsupply, -⟩, ⟨hunfold, -⟩, -⟩ := run_hoist (carries_unfolds
    (Node.mentions (markOptional t).node))
  rw [mentions_markOptional] at hsupply
  -- the statements survive both passes
  obtain ⟨body, hbody⟩ := statements?_of_wellFormed hw hb
  have hclear : statements? (markOptional t).node.clearOptional =
      some (body.map Node.clearOptional) := by
    rw [clearOptional_markOptional, statements?_clearOptional, hbody, Option.map_some]
  rw [statements?_clearOptional] at hclear
  obtain ⟨marked, hmarked, -⟩ := Option.map_eq_some_iff.mp hclear
  rw [← hunfold] at hmarked
  obtain ⟨core, hcore⟩ := statements?_of_unfold hsupply.function hmarked
  refine ⟨st, _, core, hsupply, ?_, Prod.ext rfl hst, hunfold, hcore⟩
  unfold Node.normalize
  rw [if_pos hb, ← hst]

/-- **Normalization is lossless.** The statements of the result are followed by one definition for
each hoisted type. The names of these types are new and distinct, and each type refers to types
before it only. Without the definitions, and with the types put back, the result is the tree it was
made from, but for the flags of optional parts; the flags are those of the tree and of the parts
that may be omitted, and the parts whose flag changed are counted. -/
theorem normalize_lossless {t : Node} (hw : t.WellFormed .source) (ha : t.Every IsAnnotated)
    (hb : hasBody t = true) :
    ∃ (aliases : List Hoisted) (body : List Node),
      t.normalize.2.hoisted = aliases.map Hoisted.name ∧
      (∀ x ∈ aliases, x.type.head.is .functionType = true) ∧
      statements? t.normalize.1 =
        some (body ++ aliases.map fun x => Source.typeAlias x.name x.type) ∧
      t.normalize.2.hoisted.Nodup ∧
      (∀ n ∈ t.normalize.2.hoisted, n ∉ t.mentions) ∧
      (∀ before x after, aliases = before ++ x :: after → ∀ n ∈ Node.mentions x.type,
        n ∈ t.normalize.2.hoisted → n ∈ before.map Hoisted.name) ∧
      (unfoldAliases aliases (dropStatements aliases.length t.normalize.1)).clearOptional =
        t.clearOptional ∧
      (unfoldAliases aliases (dropStatements aliases.length t.normalize.1)).preorder.map
          (·.flag .isOptional) =
        (sites t).map (fun x => x.1.flag .isOptional || x.2) ∧
      t.normalize.2.optionalized =
        (sites t).countP fun x => x.2 && !x.1.flag .isOptional := by
  have hmarks : t.Every fun h s => IsAnnotated h s ∧ HasFlag h :=
    Node.Every.imp₂ ha hw fun h s hA hfits => ⟨hA, hasFlag_of_fits hfits⟩
  obtain ⟨hflags, hcount⟩ := markOptional_exact hmarks
  obtain ⟨st, core, body, hsupply, hnorm, -, hunfold, hbody⟩ := normalize_eq hw hb
  have hdrop : dropStatements st.hoisted.length t.normalize.1 = core := by
    rw [hnorm]
    simpa using dropStatements_append (st.hoisted.map Hoisted.definition) core
  refine ⟨st.hoisted, body, ?_⟩
  rw [hdrop, hunfold, hnorm]
  refine ⟨rfl, hsupply.function, statements?_append _ hbody, hsupply.nodup, ?_, ?_,
    clearOptional_markOptional t, hflags, hcount⟩
  · intro n hn
    obtain ⟨x, hx, rfl⟩ := List.mem_map.mp hn
    exact hsupply.fresh x hx
  · intro before x after heq n hn hhoisted
    rcases hsupply.earlier before x after heq n hn with hT | hbefore
    · obtain ⟨y, hy, rfl⟩ := List.mem_map.mp hhoisted
      exact absurd hT (hsupply.fresh y hy)
    · exact hbefore

/-- `function f(x: ?A, g: (h: (?A) => B) => B) {}`: the inner function type is hoisted first. -/
def nestedCallback : Node :=
  let inner := Source.functionType
    [Source.functionParam none (Source.nullable (Source.generic "A" []))] (Source.generic "B" [])
  let outer := Source.functionType [Source.functionParam (some "h") inner] (Source.generic "B" [])
  Source.program [Source.function "f"
    [Source.typedIdent "x" (Source.nullable (Source.generic "A" [])),
      Source.typedIdent "g" outer] []]

theorem normalize_lossless_nestedCallback :
    nestedCallback.normalize.2 = ⟨["_tmp", "_tmp2"], 2⟩ ∧
    ∃ (aliases : List Hoisted) (body : List Node),
      nestedCallback.normalize.2.hoisted = aliases.map Hoisted.name ∧
      statements? nestedCallback.normalize.1 =
        some (body ++ aliases.map fun x => Source.typeAlias x.name x.type) ∧
      (unfoldAliases aliases
          (dropStatements aliases.length nestedCallback.normalize.1)).clearOptional =
        nestedCallback.clearOptional := by
  refine ⟨by decide +kernel, ?_⟩
  obtain ⟨aliases, body, hnames, -, hbody, -, -, -, hclear, -⟩ := normalize_lossless
    (t := nestedCallback) (by decide +kernel) (by decide +kernel) (by decide +kernel)
  exact ⟨aliases, body, hnames, hbody, hclear⟩

end Typeshift.Normalize
