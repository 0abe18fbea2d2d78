import Mathlib.Algebra.Ring.Nat
import Typeshift.Convert.Basic
import Typeshift.Proofs.Names
import Typeshift.Proofs.Tree.WellFormed
import Typeshift.Tree.Source

/-! # Optional access to types

A chain of links `O?.[K][L]?.[M]` reads from a type that is no link itself. It becomes one access
inside of another, and each optional link reads from the part of its object that is not null. If a
link is optional, what the whole chain gives may be `undefined`; this is said once, of the whole,
and not where a link passes its type on to the next.

* `Links`: the links of a chain, from the first; `exists_links`: every optional access is one.
* `Link.access`, `accesses`: one access, and one inside of another.
* `access_links`: the links before a whole chain is closed.
* `convertTree_links`: the converted chain. -/

namespace Typeshift.Convert

/-! ### Chains of links -/

/-- A link of an optional access to a type. -/
structure Link where
  head : Head
  index : Node

/-- An optional link, `?.[K]`. -/
def Link.isOptional (l : Link) : Bool := l.head.flag .isOptional

/-- A node is a link on an object. -/
structure Link.Reads (l : Link) (object t : Node) : Prop where
  tag : t.head.is .optionalIndexedAccessType = true
  head : t.head = l.head
  object : t.slots.child? .objectType = some object
  index : t.slots.child? .indexType = some l.index

/-- **The links of a chain** on a type that is no link itself, from the first to the last. -/
inductive Links (base : Node) : Node → List Link → Prop where
  | first {t : Node} {l : Link} (hbase : base.head.is .optionalIndexedAccessType = false)
    (ht : l.Reads base t) : Links base t [l]
  | next {object t : Node} {ls : List Link} {l : Link} (hlinks : Links base object ls)
    (ht : l.Reads object t) : Links base t (ls ++ [l])

/-- Every optional access is a chain of links. -/
theorem exists_links {t : Node} (ht : t.WellFormed .source)
    (htag : t.head.is .optionalIndexedAccessType = true) : ∃ base ls, Links base t ls := by
  induction ht with
  | @mk h s here _ ih =>
    have htag? : h.tag? = some .optionalIndexedAccessType := beq_iff_eq.mp htag
    have hfields : ∀ spec ∈ [FieldSpec.one .objectType, .one .indexType],
        spec ∈ Tag.fields .source .optionalIndexedAccessType := by decide
    obtain ⟨object, hobject⟩ := here.one htag? (hfields _ List.mem_cons_self) rfl rfl
    obtain ⟨index, hindex⟩ := here.one htag? (hfields _ (.tail _ List.mem_cons_self)) rfl rfl
    have hone {f : Field} {c : Node} (hc : s.get? f = some (.one c)) : s.child? f = some c := by
      rw [Slots.child?, hc]
    have hreads : (Link.mk h index).Reads object (.mk () h s) :=
      ⟨htag, rfl, hone hobject, hone hindex⟩
    cases hlink : object.head.is .optionalIndexedAccessType with
    | false => exact ⟨object, _, .first hlink hreads⟩
    | true =>
      obtain ⟨base, ls, hls⟩ := ih object (Slots.child?_mem (hone hobject)) hlink
      exact ⟨base, _, .next hls hreads⟩

theorem Links.tag {base t : Node} {ls : List Link} (h : Links base t ls) :
    t.head.is .optionalIndexedAccessType = true := by
  cases h with
  | first _ ht => exact ht.tag
  | next _ ht => exact ht.tag

/-! ### One access inside of another -/

/-- The access of a link. An optional link reads from the part of its object that is not null. -/
def Link.access (l : Link) (object index : Node) : Node :=
  Target.indexedAccess
    (if l.isOptional then Target.namedReference "NonNullable" [object] else object) index

/-- **One access inside of another**, for links with their converted indices. The access of a link
that is not the last has the place of that link. -/
def accesses (object : Node) : List (Link × Node) → Node
  | [] => object
  | [(l, i)] => l.access object i
  | (l, i) :: e :: rest => accesses ((l.access object i).withSpan l.head.span) (e :: rest)

/-- The last link reads from the accesses of those before it. -/
theorem accesses_append (object : Node) (front : List (Link × Node)) (k l : Link) (j i : Node) :
    accesses object ((front ++ [(k, j)]) ++ [(l, i)]) =
      l.access ((accesses object (front ++ [(k, j)])).withSpan k.head.span) i := by
  induction front generalizing object with
  | nil => rfl
  | cons e front ih =>
    obtain ⟨m, n⟩ := e
    cases front with
    | nil => rfl
    | cons e front => exact ih ((m.access object n).withSpan m.head.span)

/-- How many unions a tree has. -/
def unions (t : Node) : Nat := t.preorder.countP (·.is .tsUnionType)

theorem unions_mk (h : Head) (s : Slots Unit) :
    unions (.mk () h s) = (if h.is .tsUnionType then 1 else 0) + (s.toList.map unions).sum := by
  unfold unions
  rw [Node.preorder_mk, List.countP_cons, List.countP_flatMap, Nat.add_comm]
  rfl

@[simp] theorem unions_of (t : Tag) (attrs : List (Field × Attr)) (s : Slots Unit) :
    unions (.of t attrs s) = (if t = .tsUnionType then 1 else 0) + (s.toList.map unions).sum := by
  rw [Node.of, unions_mk]
  simp [Head.is, Head.tag?, Head.ofTag, Kind.tag?]

theorem unions_withSpan (t : Node) (span : Option Span) : unions (t.withSpan span) = unions t := by
  obtain ⟨_, h, s⟩ := t
  rw [Node.withSpan, unions_mk, unions_mk]
  rfl

theorem unions_attach (h : Head) (t : Node) : unions (attach h t) = unions t := by
  rw [attach, unions_withSpan]
  obtain ⟨_, k, s⟩ := t
  rw [Node.wrapComments, Node.withComments, unions_mk, unions_mk]
  rfl

theorem unions_access (l : Link) (object index : Node) :
    unions (l.access object index) = unions object + unions index := by
  unfold Link.access Target.indexedAccess
  split <;> simp [Target.namedReference, Target.typeReference, Target.typeArguments, Target.ident,
    Target.param, Slot.toList]

theorem unions_union (a : Node) : unions (Target.union [a, Target.undefined]) = unions a + 1 := by
  simp [Target.union, Target.undefined, Node.leaf, Slot.toList, Nat.add_comm]

/-- Accesses have the unions of the object and of the indices, and no more. -/
theorem unions_accesses (object : Node) (ps : List (Link × Node)) :
    unions (accesses object ps) = unions object + (ps.map fun p => unions p.2).sum := by
  fun_induction accesses object ps with
  | case1 => rfl
  | case2 object l i => rw [unions_access]; rfl
  | case3 object l i e rest ih =>
    rw [ih, unions_withSpan, unions_access, Nat.add_assoc]
    rfl

/-! ### The converted chain -/

theorem bind_of_eq {α β : Type} {p : Pass α} {f : α → Pass β} {st st' : State} {a : α}
    (h : p st = (a, st')) : (p >>= f) st = f a st' := by
  show f (p st).1 (p st).2 = _
  rw [h]

/-- What a type that is no link offers. -/
theorem access_base {t : Node} (ht : t.head.is .optionalIndexedAccessType = false) :
    (t.synthesize outcome).access = (·, false) <$> convertTree t := by
  obtain ⟨_, h, s⟩ := t
  exact if_neg (Bool.eq_false_iff.mp ht)

theorem access_link {t : Node} (ht : t.head.is .optionalIndexedAccessType = true) :
    (t.synthesize outcome).access = accessStep t.head (Tree.annotateSlots outcome t.slots) := by
  obtain ⟨_, h, s⟩ := t
  exact if_pos ht

/-- What a link offers once its object is there. -/
theorem access_reads {l : Link} {object t o i : Node} {inherited : Bool} {st st₁ st₂ : State}
    (ht : l.Reads object t) (ho : (object.synthesize outcome).access st = ((o, inherited), st₁))
    (hi : convertTree l.index st₁ = (i, st₂)) :
    (t.synthesize outcome).access st =
      ((l.access (if object.head.is .optionalIndexedAccessType then o.withSpan object.head.span
        else o) i, inherited || l.isOptional), st₂) := by
  rw [access_link ht.tag, ht.head, accessStep, Slots.child_annotateSlots outcome ht.object]
  dsimp only
  rw [Tree.head_annotate, Tree.note_annotate_eq, bind_of_eq ho]
  dsimp only
  rw [child, Slots.child_annotateSlots outcome ht.index]
  exact bind_of_eq hi

theorem Links.head_eq {base t : Node} {ls : List Link} (h : Links base t ls) :
    ∃ front l, ls = front ++ [l] ∧ t.head = l.head := by
  cases h with
  | first _ ht => exact ⟨[], _, rfl, ht.head⟩
  | next _ ht => exact ⟨_, _, rfl, ht.head⟩

/-- A chain offers its accesses before it is closed: its object is converted first, and then the
indices in the order of the links. -/
theorem access_links {base t : Node} {ls : List Link} (h : Links base t ls) (st : State) :
    ∃ b st₁ ps st₂, convertTree base st = (b, st₁) ∧ ps.map Prod.fst = ls ∧
      (ls.mapM fun l => convertTree l.index) st₁ = (ps.map Prod.snd, st₂) ∧
      (t.synthesize outcome).access st = ((accesses b ps, ls.any Link.isOptional), st₂) := by
  induction h with
  | @first t l hbase ht =>
    rcases hb : convertTree base st with ⟨b, st₁⟩
    rcases hi : convertTree l.index st₁ with ⟨i, st₂⟩
    have hobject : (base.synthesize outcome).access st = ((b, false), st₁) := by
      rw [access_base hbase, map_eq_pure_bind, bind_of_eq hb]
      rfl
    refine ⟨b, st₁, [(l, i)], st₂, rfl, rfl, ?_, ?_⟩
    · rw [List.mapM_cons, bind_of_eq hi]
      rfl
    · rw [access_reads ht hobject hi, if_neg (Bool.eq_false_iff.mp hbase), List.any_cons,
        Bool.false_or, List.any_nil, Bool.or_false, accesses]
  | @next object t ls l hlinks ht ih =>
    obtain ⟨b, st₁, ps, st₂, hb, hps, his, hobject⟩ := ih
    rcases hi : convertTree l.index st₂ with ⟨i, st₃⟩
    refine ⟨b, st₁, ps ++ [(l, i)], st₃, hb, ?_, ?_, ?_⟩
    · rw [List.map_append, hps]
      rfl
    · rw [List.mapM_append, bind_of_eq his, List.mapM_cons, bind_assoc, bind_of_eq hi,
        List.map_append]
      rfl
    · -- the object is the access of the last link before, and gets its place
      obtain ⟨front, k, rfl, hk⟩ := hlinks.head_eq
      obtain ⟨qs, last, rfl, -, hlast⟩ := List.map_eq_append_iff.mp hps
      obtain ⟨⟨k, j⟩, rfl, rfl⟩ := List.map_eq_singleton_iff.mp hlast
      rw [access_reads ht hobject hi, if_pos hlinks.tag, hk, accesses_append]
      simp only [List.any_append, List.any_cons, List.any_nil, Bool.or_false]

/-- The last link closes the chain. -/
theorem convertTree_access {t a : Node} {maybeUndefined : Bool} {st st' : State}
    (ht : t.head.is .optionalIndexedAccessType = true)
    (ha : (t.synthesize outcome).access st = ((a, maybeUndefined), st')) :
    convertTree t st = (attach t.head (closeAccess a maybeUndefined), st') := by
  have hnode : convertNode t.head (Tree.annotateSlots outcome t.slots) =
      accessStep t.head (Tree.annotateSlots outcome t.slots) >>=
        fun offer => pure (closeAccess offer.1 offer.2) := by
    rw [convertNode, show t.head.tag? = some .optionalIndexedAccessType from beq_iff_eq.mp ht]
    rfl
  have htree : convertTree t =
      attach t.head <$> convertNode t.head (Tree.annotateSlots outcome t.slots) := by
    cases t
    rfl
  rw [access_link ht] at ha
  rw [htree, hnode, map_eq_pure_bind, bind_assoc, bind_of_eq ha]
  rfl

/-- **An optional access to a type becomes one access inside of another, in the order of the
links.** Around the objects of the optional links, and no others, stands `NonNullable`. If a link is
optional, the whole is united with `undefined`, and otherwise it is not; this is the only union that
does not come from the object or an index. -/
theorem convertTree_links {base t : Node} {ls : List Link} (h : Links base t ls) (st : State) :
    ∃ b st₁ ps st₂, convertTree base st = (b, st₁) ∧ ps.map Prod.fst = ls ∧
      (ls.mapM fun l => convertTree l.index) st₁ = (ps.map Prod.snd, st₂) ∧
      convertTree t st = (attach t.head (if ls.any Link.isOptional then
        Target.union [accesses b ps, Target.undefined] else accesses b ps), st₂) ∧
      unions (accesses b ps) = unions b + (ps.map fun p => unions p.2).sum ∧
      unions (convertTree t st).1 = unions b + (ps.map fun p => unions p.2).sum +
        if ls.any Link.isOptional then 1 else 0 := by
  obtain ⟨b, st₁, ps, st₂, hb, hps, his, haccess⟩ := access_links h st
  have htree : convertTree t st = (attach t.head (if ls.any Link.isOptional then
      Target.union [accesses b ps, Target.undefined] else accesses b ps), st₂) :=
    convertTree_access h.tag haccess
  refine ⟨b, st₁, ps, st₂, hb, hps, his, htree, unions_accesses b ps, ?_⟩
  rw [htree, unions_attach]
  split
  · rw [unions_union, unions_accesses]
  · rw [unions_accesses, Nat.add_zero]

/-- `O[K]`, or `O?.[K]`, inside a chain. -/
def optionalAccess (object index : Node) (isOptional : Bool) : Node :=
  .of .optionalIndexedAccessType [(.isOptional, .flag isOptional)]
    [(.objectType, .one object), (.indexType, .one index)]

theorem reads_optionalAccess (object index : Node) (isOptional : Bool) :
    (Link.mk (optionalAccess object index isOptional).head index).Reads object
      (optionalAccess object index isOptional) := ⟨rfl, rfl, rfl, rfl⟩

/-- `A?.[K][L]?.[M]`. -/
def mixedAccess : Node :=
  optionalAccess
    (optionalAccess (optionalAccess (Source.generic "A" []) (Source.generic "K" []) true)
    (Source.generic "L" []) false) (Source.generic "M" []) true

/-- `A?.[K][L]?.[M]` becomes `NonNullable<NonNullable<A>[K][L]>[M] | undefined`. -/
theorem convertTree_links_mixed :
    ∃ ls, Links (Source.generic "A" []) mixedAccess ls ∧
      ls.map Link.isOptional = [true, false, true] ∧
      (∃ (b : Node) (ps : List (Link × Node)), ps.map Prod.fst = ls ∧
        unions mixedAccess.convert.tree = unions b + (ps.map fun p => unions p.2).sum + 1) ∧
      mixedAccess.convert.tree =
        let name := fun n => Target.typeReference (Target.ident n) none
        let nonNull := fun t => Target.namedReference "NonNullable" [t]
        Target.union [Target.indexedAccess (nonNull (Target.indexedAccess
          (Target.indexedAccess (nonNull (name "A")) (name "K")) (name "L"))) (name "M"),
          Target.undefined] := by
  have hlinks := Links.next (.next
    (.first rfl (reads_optionalAccess (Source.generic "A" []) (Source.generic "K" []) true))
    (reads_optionalAccess _ (Source.generic "L" []) false))
    (reads_optionalAccess _ (Source.generic "M" []) true)
  obtain ⟨b, st₁, ps, st₂, -, hps, -, -, -, hunions⟩ :=
    convertTree_links hlinks (.start mixedAccess.names)
  exact ⟨_, hlinks, rfl, ⟨b, ps, hps, hunions⟩, rfl⟩

end Typeshift.Convert
