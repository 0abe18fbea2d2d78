import Mathlib.Data.List.DropRight
import Typeshift.Proofs.Convert.Members
import Typeshift.Proofs.TypeMeaning.Values

/-! # The conversion of a type keeps its values

Types are rewritten into types of another shape: `?T` becomes a union of three, a literal type a
literal in a type, a property an ascribed signature. The values stay the same, however types are
nested, but for one thing: the target has no exact object types, so `$Exact<T>` becomes `T`.

* `Translatable`: the types that have a counterpart with the same values.
* `values_convertTree`: their conversion has the values of the type in which `$Exact<T>` means `T`.
* `values_convert`: it has the values of the type itself if exactness narrows nothing. -/

namespace Typeshift.TypeMeaning

open Typeshift.Convert

/-! ### Types with a counterpart -/

/-- The types without parts. -/
def basicTags : List Tag :=
  [.anyType, .mixedType, .existsType, .emptyType, .voidType, .nullType, .numberType, .stringType,
    .booleanType, .symbolType, .bigIntType]

/-- The literal types, except for those of bigints, whose digits may stand in their source text. -/
def literalTags : List Tag := [.stringLiteralType, .numberLiteralType, .booleanLiteralType]

/-- The types made of a list of types. -/
def listTags : List Tag := [.tupleType, .unionType, .intersectionType]

/-- The keys of properties that are no computed keys. -/
def keyTags : List Tag := [.identifier, .stringLiteral, .numericLiteral]

/-- The utility types that have a rule of their own, with the number of their arguments. -/
def utilities : List (String × Nat) :=
  [("$Keys", 1), ("$Values", 1), ("$Diff", 2), ("$Exact", 1), ("$ReadOnly", 1),
    ("$ReadOnlyArray", 1), ("$Shape", 1), ("$NonMaybeType", 1), ("$PropertyType", 2),
    ("$ElementType", 2)]

/-- A property `key: T` or `key?: T` of an object type. -/
structure PlainProperty (p : Node) : Prop where
  plain : isPlain p.head = true
  key : ∃ k, p.slots.child? .key = some k ∧ k.head.isAny keyTags = true
  value : (p.slots.child? .value).isSome = true

/-- **The types that have a counterpart with the same values**, nested in any way. -/
inductive Translatable : Node → Prop where
  | basic {t : Node} (ht : t.head.isAny basicTags = true) : Translatable t
  | literal {t : Node} (ht : t.head.isAny literalTags = true) : Translatable t
  | bigInt {t : Node} {digits : String} (ht : t.head.is .bigIntLiteralType = true)
    (hdigits : flowDigits? t.head = some digits) (hend : digits.toList.getLast? ≠ some 'n') :
    Translatable t
  | ascription {t a : Node} (ht : t.head.is .ascription = true) (ha : t.slots.child? .ty = some a)
    (inner : Translatable a) : Translatable t
  | nullable {t a : Node} (ht : t.head.is .nullableType = true) (ha : t.slots.child? .ty = some a)
    (inner : Translatable a) : Translatable t
  | array {t a : Node} (ht : t.head.is .arrayType = true)
    (ha : t.slots.child? .elementType = some a) (inner : Translatable a) : Translatable t
  | listed {t : Node} (ht : t.head.isAny listTags = true)
    (parts : ∀ a ∈ t.slots.children .types, Translatable a) : Translatable t
  | object {t : Node} (ht : t.head.is .objectType = true) (inexact : t.head.flag .isExact = false)
    (only : t.slots.children .indexers ++ t.slots.children .callProperties ++
      t.slots.children .internalSlots = [])
    (plain : ∀ p ∈ t.slots.children .properties, PlainProperty p)
    (values : ∀ p ∈ t.slots.children .properties, ∀ a ∈ p.slots.child? .value, Translatable a) :
    Translatable t
  | utility {t id a : Node} {name : String} (ht : t.head.is .genericType = true)
    (hname : name = "$Exact" ∨ name = "$NonMaybeType") (hid : t.slots.child? .id = some id)
    (hident : id.head.identifier? = some name)
    (hargs : arguments .typeParameterInstantiation t.slots = [a]) (inner : Translatable a) :
    Translatable t
  | reference {t id : Node} {names : List String} (ht : t.head.is .genericType = true)
    (hid : t.slots.child? .id = some id) (hpath : TypePath id names)
    (hparams : ∀ p ∈ t.slots.child? .typeParameters, p.head.is .typeParameterInstantiation = true)
    (other : ∀ name, names = [name] →
      (name, (arguments .typeParameterInstantiation t.slots).length) ∉ utilities)
    (parts : ∀ a ∈ arguments .typeParameterInstantiation t.slots, Translatable a) : Translatable t

/-! ### Reading parts -/

section Parts

variable {σ : Type} [Inhabited σ] (rule : Head → Slots σ → σ) (t : Node)

theorem note_child_annotate {a : Node} {f : Field} (ha : t.slots.child? f = some a) :
    ((t.annotate rule).slots.child f).note = a.synthesize rule := by
  rw [Tree.child_slots_annotate rule ha]
  rfl

omit [Inhabited σ] in
theorem notes_children_annotate (f : Field) :
    ((t.annotate rule).slots.children f).map Tree.note =
      (t.slots.children f).map (Tree.synthesize rule) := by
  rw [Tree.children_slots_annotate, List.map_map]
  rfl

omit [Inhabited σ] in
theorem arguments_annotate (tag : Tag) :
    arguments tag (t.annotate rule).slots = (arguments tag t.slots).map (Tree.annotate rule) := by
  unfold arguments
  rw [Tree.child?_slots_annotate]
  cases t.slots.child? .typeParameters with
  | none => rfl
  | some p =>
    rw [Option.map_some]
    dsimp only
    rw [Tree.head_annotate]
    split_ifs
    · exact Tree.children_slots_annotate rule p .params
    · rfl

end Parts

variable {U : Universe}

theorem path_annotate {σ : Type} (rule : Head → Slots σ → σ) (t : Node) :
    path (t.annotate rule) = path t := Tree.synthesize_annotate pathRule rule t

theorem pathRule_of_is {h : Head} (ht : h.is .qualifiedTypeIdentifier = true)
    (s : Slots (List String)) : pathRule h s = ((s.child? .qualification).map Tree.note).getD [] ++
      ((s.child? .id).map Tree.note).getD [] := by
  unfold pathRule
  rw [beq_iff_eq.mp ht]

/-- A tree is converted by the rule of its construct. -/
theorem convertTree_fst (t : Node) (st : State) : (convertTree t st).1 =
    attach t.head (convertNode t.head (t.annotate outcome).slots st).1 := by
  cases t
  rfl

theorem path_identifier {t : Node} {n : String} (h : t.head.identifier? = some n) :
    path t = [n] := by
  have hrule (s : Slots (List String)) : pathRule t.head s = [n] := by
    unfold Head.identifier? at h
    split_ifs at h with hi
    unfold pathRule
    rw [beq_iff_eq.mp hi]
    exact congrArg (fun n => [n]) (Option.some.inj h)
  exact (Tree.note_annotate pathRule t).trans (hrule _)

theorem path_of_typePath {t : Node} {names : List String} (h : TypePath t names) :
    path t = names := by
  induction h with
  | name h => exact path_identifier h
  | @dot t q i p n tag left right front name ih =>
    have hpath : path t = path q ++ path i := by
      unfold path Tree.synthesize
      rw [Tree.note_annotate, pathRule_of_is tag, Tree.child?_slots_annotate, left,
        Tree.child?_slots_annotate, right]
      rfl
    rw [hpath, ih, path_identifier name]

theorem path_attach (h : Head) (u : Node) : path (attach h u) = path u := by
  cases u
  rfl

/-- **A dotted name keeps its parts.** -/
theorem path_convertTree {t : Node} {names : List String} (h : TypePath t names) :
    ∀ st, path (convertTree t st).1 = names := by
  induction h with
  | name h => exact fun st => path_identifier (identifier?_convertTree h st)
  | @dot t q i p n tag left right front name ih =>
    intro st
    have hrule : convertNode t.head (t.annotate outcome).slots = (do
        let l ← convertTree q
        return Target.qualifiedName l (← convertTree i)) := by
      unfold convertNode
      rw [beq_iff_eq.mp tag]
      unfold convertTree Tree.synthesize
      rw [← Tree.child_slots_annotate outcome left, ← Tree.child_slots_annotate outcome right]
      rfl
    rw [convertTree_fst, path_attach, hrule]
    show path (convertTree q st).1 ++ path (convertTree i _).1 = p ++ [n]
    rw [ih, path_identifier (identifier?_convertTree name _)]

/-! ### The values of what is built -/

theorem typeScriptValues_attach (h : Head) (u : Node) :
    typeScriptValues U (attach h u) = typeScriptValues U u := by
  cases u
  rfl

theorem typeScriptValues_wrapComments (c : Comments) (u : Node) :
    typeScriptValues U (Node.wrapComments c u) = typeScriptValues U u := by
  cases u
  rfl

theorem typeScriptValues_union (us : List Node) :
    typeScriptValues U (Target.union us) = U.anyOf (us.map (typeScriptValues U)) :=
  congrArg U.anyOf (notes_children_annotate (typeScriptRule U) (Target.union us) .types)

theorem typeScriptValues_intersection (us : List Node) :
    typeScriptValues U (Target.intersection us) = U.allOf (us.map (typeScriptValues U)) :=
  congrArg U.allOf (notes_children_annotate (typeScriptRule U) (Target.intersection us) .types)

theorem typeScriptValues_tupleType (us : List Node) :
    typeScriptValues U (Target.tupleType us) = U.tuples (us.map (typeScriptValues U)) :=
  congrArg U.tuples (notes_children_annotate (typeScriptRule U) (Target.tupleType us) .elementTypes)

theorem typeScriptValues_ascribe (u : Node) :
    typeScriptValues U (Target.ascribe u) = typeScriptValues U u := by
  unfold Target.ascribe
  split_ifs <;> rfl

/-! ### Properties -/

theorem keyName?_attach (h : Head) (u : Node) :
    keyName? U (attach h u).head = keyName? U u.head := by
  cases u
  rfl

/-- **The key of a property keeps its name.** -/
theorem keyName?_convertTree {k : Node} (hk : k.head.isAny keyTags = true) (st : State) :
    keyName? U (convertTree k st).1.head = keyName? U k.head := by
  obtain ⟨tag, hmem, his⟩ := List.any_eq_true.mp hk
  have htag : k.head.tag? = some tag := beq_iff_eq.mp his
  have hin : tag.isIn .target = true := by
    have hall : ∀ tag ∈ keyTags, tag.isIn .target = true := by decide
    exact hall tag hmem
  have hshared : keyName? U (convertTree k st).1.head =
      keyName? U (.ofTag tag (sharedAttrs tag k.head (k.annotate outcome).slots)) := by
    rw [convertTree_fst, keyName?_attach, Chain.convertNode_shared htag hin]
    rfl
  rw [hshared]
  obtain rfl | rfl | rfl : tag = .identifier ∨ tag = .stringLiteral ∨ tag = .numericLiteral := by
    simpa [keyTags] using hmem
  all_goals
    unfold keyName?
    rw [htag]
  · exact congrArg some (Chain.text_of_convertAttr rfl (by decide) (by decide))
  · exact congrArg some (Chain.text_of_convertAttr rfl (by decide) (by decide))
  · exact congrArg (fun x => some (U.numeralName x))
      (Chain.number_of_convertAttr rfl (by decide) (by decide))

/-- A type without its ascription has the same values. -/
theorem typeScriptValues_bareType (t : Node) (st : State) :
    typeScriptValues U (bareType (t.annotate outcome) st).1 =
      typeScriptValues U (convertTree t st).1 := by
  unfold bareType
  rw [Tree.head_annotate]
  split_ifs with ht
  · have hrule : convertNode t.head (t.annotate outcome).slots = (do
        return Node.of .tsAscription []
          [(.ty, .one (← child (t.annotate outcome).slots .ty))]) := by
      unfold convertNode
      rw [beq_iff_eq.mp ht]
      rfl
    rw [convertTree_fst, typeScriptValues_attach, hrule]
    exact typeScriptValues_wrapComments _ _
  · rfl

theorem typeScriptMember?_propertySignature (key ty : Node) (isOptional isReadonly : Bool) :
    typeScriptMember? U ((Target.propertySignature key false isOptional isReadonly
      (some ty)).annotate (typeScriptRule U)) =
      (keyName? U key.head).map fun name => ⟨name, isOptional, typeScriptValues U ty⟩ := by
  rw [← Tree.head_annotate (typeScriptRule U) key]
  rfl

/-- **A plain property becomes one that asks for the same**, if its type keeps its values. -/
theorem member_convertTree {p a : Node} (hp : PlainProperty p) (ha : p.slots.child? .value = some a)
    (hvalues : ∀ st, typeScriptValues U (convertTree a st).1 = flowValues U false a) (st : State) :
    typeScriptMember? U ((convertTree p st).1.annotate (typeScriptRule U)) =
      flowMember? U (p.annotate (flowRule U false)) := by
  obtain ⟨k, hk, hkey⟩ := hp.key
  have hplain := hp.plain
  unfold isPlain at hplain
  simp only [Bool.and_eq_true, bne_iff_ne, ne_eq] at hplain
  obtain ⟨⟨⟨⟨htag, hget⟩, hset⟩, -⟩, -⟩ := hplain
  have hrule : convertNode p.head (p.annotate outcome).slots = (do
      let key ← convertTree k
      let ty ← ascribed (a.annotate outcome)
      return Target.propertySignature key false (p.head.flag .isOptional)
        (isReadOnly (p.annotate outcome).slots) (some ty)) := by
    unfold convertNode
    rw [beq_iff_eq.mp htag]
    show orUnsupported p.head (convertProperty? p.head (p.annotate outcome).slots) = _
    unfold convertProperty?
    split
    · next h => exact absurd h hget
    · next h => exact absurd h hset
    · unfold child
      rw [Tree.child_slots_annotate outcome hk, Tree.child_slots_annotate outcome ha]
      rfl
  -- neither what is attached nor the ascription around the type changes what is asked for
  have hattach (h : Head) (u : Node) :
      typeScriptMember? U ((attach h u).annotate (typeScriptRule U)) =
        typeScriptMember? U (u.annotate (typeScriptRule U)) := by
    cases u
    rfl
  rw [convertTree_fst, hattach, hrule]
  unfold flowMember?
  rw [Tree.head_annotate, if_pos hp.plain, Tree.child_slots_annotate _ hk, Tree.head_annotate,
    note_child_annotate _ _ ha, ← keyName?_convertTree hkey st]
  have hvalue (st : State) :
      typeScriptValues U (ascribed (a.annotate outcome) st).1 = flowValues U false a :=
    (typeScriptValues_ascribe _).trans ((typeScriptValues_bareType a st).trans (hvalues st))
  refine (typeScriptMember?_propertySignature (convertTree k st).1
    (ascribed (a.annotate outcome) (convertTree k st).2).1 _ _).trans ?_
  rw [hvalue]
  rfl

/-- What holds of each converted child holds of the list of them. -/
theorem map_children {α : Type} {g S : Node → α} {t : Node} {f : Field}
    (h : ∀ a ∈ t.slots.children f, ∀ st, g (convertTree a st).1 = S a) (st : State) :
    (children (t.annotate outcome).slots f st).1.map g = (t.slots.children f).map S := by
  rw [children, Tree.children_slots_annotate, convertList_annotate]
  have hall : Ensures (fun _ => True) ((t.slots.children f).mapM convertTree)
      (List.Forall₂ (fun a u => S a = g u) (t.slots.children f)) :=
    .mapM fun a ha st _ => ⟨True.intro, (h a ha st).symm⟩
  have hrel := (hall st True.intro).2
  have heq := List.forall₂_map_left_iff (R := Eq) |>.mpr (List.forall₂_map_right_iff.mpr hrel)
  rw [List.forall₂_eq_eq_eq] at heq
  exact heq.symm

/-- **Plain properties become a type literal.** -/
theorem convertObject_plain {s : Slots Unit}
    (only : s.children .indexers ++ s.children .callProperties ++ s.children .internalSlots = [])
    (hplain : ∀ p ∈ s.children .properties, PlainProperty p) :
    convertObject (Tree.annotateSlots outcome s) = do
      return Target.typeLiteral (← children (Tree.annotateSlots outcome s) .properties) := by
  obtain ⟨hothers, -⟩ := List.append_eq_nil_iff.mp only
  have hitems : items s = (s.children .properties).map .member := by
    unfold items
    rw [hothers, List.map_nil, List.append_nil]
    refine List.map_congr_left fun p hp => if_neg ?_
    have hp := (hplain p hp).plain
    unfold isPlain at hp
    simp only [Bool.and_eq_true] at hp
    unfold Head.is at hp ⊢
    rw [beq_iff_eq.mp hp.1.1.1.1]
    exact Bool.false_ne_true
  have hcut (ts : List Node) : cut (ts.map .member) = [ts.map .member] := by
    cases ts with
    | nil => rfl
    | cons t ts => exact splitBy_members (t :: ts)
  rw [convertObject_annotate, hitems, hcut, children, Slots.children_annotateSlots,
    convertList_annotate]
  simp [convertRun_members, intersect]

/-! ### Literals -/

theorem attr?_literalNode (h : Head) (t : Tag) (x : Option Attr) :
    (literalNode h t x).head.attr? .value = x := by
  cases x with
  | some a => rfl
  | none => cases h.attr? .extra <;> simp [literalNode, Node.of, Head.ofTag, Head.attr?]

/-- The digits of a bigint are the same for both readings. -/
theorem bigIntDigits_eq {h : Head} {digits : String} (hdigits : flowDigits? h = some digits)
    (hend : digits.toList.getLast? ≠ some 'n') : bigIntDigits h = digits := by
  unfold flowDigits? at hdigits
  unfold bigIntDigits
  cases hvalue : h.text? .value with
  | some d =>
    rw [hvalue] at hdigits
    exact Option.some.inj hdigits
  | none =>
    rw [hvalue] at hdigits
    cases hraw : h.raw? with
    | none =>
      rw [hraw] at hdigits
      cases hdigits
    | some raw =>
      rw [hraw] at hdigits
      dsimp only at hdigits
      split_ifs at hdigits with hlast
      obtain rfl := Option.some.inj hdigits
      rw [String.toList_ofList] at hend
      -- the digits end in no further `n`, so dropping all of them drops the last character only
      have hsplit : raw.toList = raw.toList.dropLast ++ ['n'] :=
        (List.dropLast_append_getLast? 'n' hlast).symm
      have hdrop : raw.toList.rdropWhile (· == 'n') = raw.toList.dropLast := by
        rw [hsplit, List.rdropWhile_concat_pos _ _ _ rfl, List.dropLast_concat,
          List.rdropWhile_eq_self_iff]
        intro hne hn
        exact hend ((List.getLast?_eq_some_getLast hne).trans (congrArg some (beq_iff_eq.mp hn)))
      exact congrArg String.ofList hdrop

/-! ### References -/

theorem typeScriptValues_typeReference (name : Node) (params : Option Node) :
    typeScriptValues U (Target.typeReference name params) = U.refers (path name)
      ((arguments .tsTypeParameterInstantiation (Target.typeReference name params).slots).map
        (typeScriptValues U)) := by
  show U.refers (path (name.annotate (typeScriptRule U))) ((arguments .tsTypeParameterInstantiation
    ((Target.typeReference name params).annotate (typeScriptRule U)).slots).map Tree.note) = _
  rw [path_annotate, arguments_annotate, List.map_map]
  rfl

/-- What is no utility has no rule of its own. -/
theorem convertUtility?_of_not_mem {name : String} {args : List Part}
    (h : (name, args.length) ∉ utilities) : convertUtility? name args = pure none := by
  unfold convertUtility?
  split
  all_goals first | rfl | exact absurd (by simp [utilities]) h

/-! ### Types -/

/-- A type keeps its values: its conversion has the same, when exactness is not heeded. -/
def Keeps (U : Universe) (t : Node) : Prop :=
  ∀ st, typeScriptValues U (convertTree t st).1 = flowValues U false t

theorem keeps_basic {t : Node} (ht : t.head.isAny basicTags = true) : Keeps U t := by
  obtain ⟨tag, hmem, his⟩ := List.any_eq_true.mp ht
  have hrule : ∀ tag ∈ basicTags, t.head.tag? = some tag → ∀ st,
      typeScriptValues U (convertNode t.head (t.annotate outcome).slots st).1 =
        flowAt U false tag t.head (t.annotate (flowRule U false)).slots := by
    intro tag hmem htag st
    unfold convertNode
    rw [htag]
    simp only [basicTags, List.mem_cons, List.not_mem_nil, or_false] at hmem
    rcases hmem with rfl | rfl | rfl | rfl | rfl | rfl | rfl | rfl | rfl | rfl | rfl <;> rfl
  intro st
  rw [convertTree_fst, typeScriptValues_attach, hrule tag hmem (beq_iff_eq.mp his),
    flowValues_of_is U his]

theorem keeps_literal {t : Node} (ht : t.head.isAny literalTags = true) : Keeps U t := by
  intro st
  obtain ⟨tag, hmem, his⟩ := List.any_eq_true.mp ht
  have htag : t.head.tag? = some tag := beq_iff_eq.mp his
  have hattr (tag : Tag) := attr?_literalNode t.head tag (t.head.attr? .value)
  rw [convertTree_fst, typeScriptValues_attach, flowValues_of_is U his]
  unfold convertNode
  rw [htag]
  obtain rfl | rfl | rfl : tag = .stringLiteralType ∨ tag = .numberLiteralType ∨
      tag = .booleanLiteralType := by
    simpa [literalTags] using hmem
  · have htext : (literalNode t.head .stringLiteral (t.head.attr? .value)).head.text .value =
        t.head.text .value := by
      unfold Head.text
      rw [hattr]
    exact congrArg (fun s => U.only (.string s)) htext
  · have hnumber : (literalNode t.head .numericLiteral (t.head.attr? .value)).head.number .value =
        t.head.number .value := by
      unfold Head.number
      rw [hattr]
    exact congrArg (fun x => U.only (.number x)) hnumber
  · have hflag : (literalNode t.head .booleanLiteral (t.head.attr? .value)).head.flag .value =
        t.head.flag .value := by
      unfold Head.flag
      rw [hattr]
    exact congrArg (fun b => U.only (.boolean b)) hflag

theorem keeps_bigInt {t : Node} {digits : String} (ht : t.head.is .bigIntLiteralType = true)
    (hdigits : flowDigits? t.head = some digits) (hend : digits.toList.getLast? ≠ some 'n') :
    Keeps U t := by
  intro st
  have hrule : convertNode t.head (t.annotate outcome).slots = pure (Target.literalType
      (literalNode t.head .bigIntLiteral (some (.text (bigIntDigits t.head))))) := by
    unfold convertNode
    rw [beq_iff_eq.mp ht]
    rfl
  rw [convertTree_fst, typeScriptValues_attach, hrule, flowValues_of_is U ht,
    bigIntDigits_eq hdigits hend]
  show U.integer digits = ((flowDigits? t.head).map U.integer).getD ∅
  rw [hdigits]
  rfl

/-- A construct of one type. -/
theorem keeps_one {t a : Node} {tag : Tag} {f : Field} (make : Node → Node)
    (S : Set U.Value → Set U.Value) (ht : t.head.is tag = true) (ha : t.slots.child? f = some a)
    (hrule : convertNode t.head (t.annotate outcome).slots = do
      return make (← child (t.annotate outcome).slots f))
    (hmake : ∀ u, typeScriptValues U (make u) = S (typeScriptValues U u))
    (hflow : flowAt U false tag t.head (t.annotate (flowRule U false)).slots =
      S ((t.annotate (flowRule U false)).slots.child f).note)
    (inner : Keeps U a) : Keeps U t := by
  intro st
  rw [convertTree_fst, typeScriptValues_attach, hrule, flowValues_of_is U ht, hflow,
    note_child_annotate _ _ ha]
  have hchild : child (t.annotate outcome).slots f = convertTree a := by
    rw [child, Tree.child_slots_annotate outcome ha]
    rfl
  rw [hchild]
  exact (hmake _).trans (congrArg S (inner st))

/-- A construct of a list of types. -/
theorem keeps_many {t : Node} {tag : Tag} {f : Field} (make : List Node → Node)
    (S : List (Set U.Value) → Set U.Value) (ht : t.head.is tag = true)
    (hrule : convertNode t.head (t.annotate outcome).slots = do
      return make (← children (t.annotate outcome).slots f))
    (hmake : ∀ us, typeScriptValues U (make us) = S (us.map (typeScriptValues U)))
    (hflow : flowAt U false tag t.head (t.annotate (flowRule U false)).slots =
      S (((t.annotate (flowRule U false)).slots.children f).map Tree.note))
    (parts : ∀ a ∈ t.slots.children f, Keeps U a) : Keeps U t := by
  intro st
  rw [convertTree_fst, typeScriptValues_attach, hrule, flowValues_of_is U ht, hflow,
    notes_children_annotate]
  exact (hmake _).trans (congrArg S (map_children parts st))

theorem keeps_ascription {t a : Node} (ht : t.head.is .ascription = true)
    (ha : t.slots.child? .ty = some a) (inner : Keeps U a) : Keeps U t := by
  refine keeps_one (fun u => Node.of .tsAscription [] [(.ty, .one u)]) id ht ha ?_
    (fun u => rfl) rfl inner
  unfold convertNode
  rw [beq_iff_eq.mp ht]
  rfl

theorem keeps_nullable {t a : Node} (ht : t.head.is .nullableType = true)
    (ha : t.slots.child? .ty = some a) (inner : Keeps U a) : Keeps U t := by
  refine keeps_one (fun u => Target.union [u, Target.null, Target.undefined])
    (fun S => S ∪ U.only .null ∪ U.only .undefined) ht ha ?_ (fun u => ?_) rfl inner
  · unfold convertNode
    rw [beq_iff_eq.mp ht]
    rfl
  · rw [typeScriptValues_union]
    ext v
    have hnull : typeScriptValues U Target.null = U.only .null := rfl
    have hundefined : typeScriptValues U Target.undefined = U.only .undefined := rfl
    simp [Universe.anyOf, hnull, hundefined, or_assoc]

theorem keeps_array {t a : Node} (ht : t.head.is .arrayType = true)
    (ha : t.slots.child? .elementType = some a) (inner : Keeps U a) : Keeps U t := by
  refine keeps_one Target.arrayType U.arrays ht ha ?_ (fun u => rfl) rfl inner
  unfold convertNode
  rw [beq_iff_eq.mp ht]
  rfl

theorem keeps_listed {t : Node} (ht : t.head.isAny listTags = true)
    (parts : ∀ a ∈ t.slots.children .types, Keeps U a) : Keeps U t := by
  obtain ⟨tag, hmem, his⟩ := List.any_eq_true.mp ht
  obtain rfl | rfl | rfl : tag = .tupleType ∨ tag = .unionType ∨ tag = .intersectionType := by
    simpa [listTags] using hmem
  · refine keeps_many Target.tupleType U.tuples his ?_ typeScriptValues_tupleType rfl parts
    unfold convertNode
    rw [beq_iff_eq.mp his]
    rfl
  · refine keeps_many Target.union U.anyOf his ?_ typeScriptValues_union rfl parts
    unfold convertNode
    rw [beq_iff_eq.mp his]
    rfl
  · refine keeps_many Target.intersection U.allOf his ?_ typeScriptValues_intersection rfl parts
    unfold convertNode
    rw [beq_iff_eq.mp his]
    rfl

theorem keeps_object {t : Node} (ht : t.head.is .objectType = true)
    (inexact : t.head.flag .isExact = false)
    (only : t.slots.children .indexers ++ t.slots.children .callProperties ++
      t.slots.children .internalSlots = [])
    (plain : ∀ p ∈ t.slots.children .properties, PlainProperty p)
    (values : ∀ p ∈ t.slots.children .properties, ∀ a ∈ p.slots.child? .value, Keeps U a) :
    Keeps U t := by
  intro st
  have hrule : convertNode t.head (t.annotate outcome).slots = do
      return Target.typeLiteral (← children (t.annotate outcome).slots .properties) := by
    unfold convertNode
    rw [beq_iff_eq.mp ht]
    cases t
    exact convertObject_plain only plain
  have hmembers : ∀ p ∈ t.slots.children .properties, ∀ st,
      typeScriptMember? U ((convertTree p st).1.annotate (typeScriptRule U)) =
        flowMember? U (p.annotate (flowRule U false)) := by
    intro p hp st
    obtain ⟨a, ha⟩ := Option.isSome_iff_exists.mp (plain p hp).value
    exact member_convertTree (plain p hp) ha (values p hp a ha) st
  have hflow : flowMembers U (t.annotate (flowRule U false)).slots =
      (t.slots.children .properties).map fun p =>
        flowMember? U (p.annotate (flowRule U false)) := by
    unfold flowMembers
    rw [Tree.children_slots_annotate, Tree.children_slots_annotate, Tree.children_slots_annotate,
      Tree.children_slots_annotate, ← List.map_append, ← List.map_append, only, List.map_map]
    exact List.append_nil _
  have htarget (us : List Node) : typeScriptValues U (Target.typeLiteral us) = U.objectsOf false
      (us.map fun u => typeScriptMember? U (u.annotate (typeScriptRule U))) := by
    show U.objectsOf false (((Target.typeLiteral us).annotate (typeScriptRule U)).slots.children
      .members |>.map (typeScriptMember? U)) = _
    rw [Tree.children_slots_annotate, List.map_map]
    rfl
  rw [convertTree_fst, typeScriptValues_attach, hrule, flowValues_of_is U ht]
  show typeScriptValues U (Target.typeLiteral _) = U.objectsOf (t.head.flag .isExact) _
  rw [htarget, inexact, hflow]
  exact congrArg (U.objectsOf false)
    (map_children (g := fun u => typeScriptMember? U (u.annotate (typeScriptRule U))) hmembers st)

theorem convertNode_generic {h : Head} (ht : h.is .genericType = true) (s : Slots Outcome) :
    convertNode h s = convertGeneric s := by
  unfold convertNode
  rw [beq_iff_eq.mp ht]
  rfl

theorem typeArguments_annotate (t : Node) : typeArguments (t.annotate outcome).slots =
    (arguments .typeParameterInstantiation t.slots).map (Tree.annotate outcome) := by
  rw [← arguments_annotate]
  unfold typeArguments arguments
  cases (t.annotate outcome).slots.child? .typeParameters <;> rfl

/-- What a reference is called, and what it is applied to, are read off its parts. -/
theorem flowValues_generic {heed : Bool} {t id : Node} (ht : t.head.is .genericType = true)
    (hid : t.slots.child? .id = some id) : flowValues U heed t = flowReference U heed (path id)
      ((arguments .typeParameterInstantiation t.slots).map (Tree.annotate (flowRule U heed))) := by
  rw [flowValues_of_is U ht, ← arguments_annotate, ← path_annotate (flowRule U heed) id,
    ← Tree.child_slots_annotate _ hid]
  rfl

theorem keeps_utility {t id a : Node} {name : String} (ht : t.head.is .genericType = true)
    (hname : name = "$Exact" ∨ name = "$NonMaybeType") (hid : t.slots.child? .id = some id)
    (hident : id.head.identifier? = some name)
    (hargs : arguments .typeParameterInstantiation t.slots = [a]) (inner : Keeps U a) :
    Keeps U t := by
  intro st
  have hrule : convertGeneric (t.annotate outcome).slots =
      convertUtility? name [a.annotate outcome] >>=
        fun u? => u?.elim (convertReference (t.annotate outcome).slots) pure := by
    have hparts : typeArguments (t.annotate outcome).slots = [a.annotate outcome] := by
      rw [typeArguments_annotate, hargs]
      rfl
    unfold convertGeneric
    rw [Tree.child_slots_annotate outcome hid, Tree.head_annotate, hident, hparts]
    exact congrArg (convertUtility? name [a.annotate outcome] >>= ·) <|
      funext fun u? => by cases u? <;> rfl
  rw [convertTree_fst, typeScriptValues_attach, convertNode_generic ht, hrule,
    flowValues_generic ht hid, path_identifier hident, hargs]
  obtain rfl | rfl := hname
  · exact inner st
  · exact congrArg U.nonNullish (inner st)

/-- A name that is no utility is looked up. -/
theorem flowReference_other {heed : Bool} {names : List String} {args : List (Tree (Set U.Value))}
    (other : ∀ name, names = [name] → (name, args.length) ∉ utilities) :
    flowReference U heed names args = U.refers names (args.map Tree.note) := by
  unfold flowReference
  split
  all_goals first | rfl | exact absurd (by simp [utilities]) (other _ rfl)

/-- The arguments of a reference keep their values. -/
theorem map_arguments {t : Node}
    (hparams : ∀ p ∈ t.slots.child? .typeParameters, p.head.is .typeParameterInstantiation = true)
    (parts : ∀ a ∈ arguments .typeParameterInstantiation t.slots, Keeps U a) (name : Node)
    (st : State) :
    (arguments .tsTypeParameterInstantiation (Target.typeReference name
      (child? (t.annotate outcome).slots .typeParameters st).1).slots).map (typeScriptValues U) =
      (arguments .typeParameterInstantiation t.slots).map (flowValues U false) := by
  unfold child?
  rw [Tree.child?_slots_annotate]
  cases hp : t.slots.child? .typeParameters with
  | none =>
    unfold arguments
    rw [hp]
    rfl
  | some p =>
    have hparam := hparams p hp
    have hsource : arguments .typeParameterInstantiation t.slots = p.slots.children .params := by
      unfold arguments
      rw [hp]
      exact if_pos hparam
    have hrule : convertNode p.head (p.annotate outcome).slots = do
        return Target.typeArguments (← children (p.annotate outcome).slots .params) := by
      unfold convertNode
      rw [beq_iff_eq.mp hparam]
      rfl
    have htarget (us : List Node) : arguments .tsTypeParameterInstantiation (Target.typeReference
        name (some (attach p.head (Target.typeArguments us)))).slots = us := rfl
    have hfst : (convertOption (some (p.annotate outcome)) st).1 = some (convertTree p st).1 := rfl
    rw [hsource] at parts ⊢
    rw [Option.map_some, hfst, convertTree_fst, hrule]
    exact (congrArg (List.map (typeScriptValues U)) (htarget _)).trans (map_children parts st)

theorem keeps_reference {t id : Node} {names : List String} (ht : t.head.is .genericType = true)
    (hid : t.slots.child? .id = some id) (hpath : TypePath id names)
    (hparams : ∀ p ∈ t.slots.child? .typeParameters, p.head.is .typeParameterInstantiation = true)
    (other : ∀ name, names = [name] →
      (name, (arguments .typeParameterInstantiation t.slots).length) ∉ utilities)
    (parts : ∀ a ∈ arguments .typeParameterInstantiation t.slots, Keeps U a) : Keeps U t := by
  intro st
  have hrule : convertGeneric (t.annotate outcome).slots =
      convertReference (t.annotate outcome).slots := by
    unfold convertGeneric
    rw [Tree.child_slots_annotate outcome hid, Tree.head_annotate]
    cases hident : id.head.identifier? with
    | none => rfl
    | some name =>
      have hnames : names = [name] := (path_of_typePath hpath).symm.trans (path_identifier hident)
      dsimp only
      rw [typeArguments_annotate, convertUtility?_of_not_mem]
      · rfl
      · rw [List.length_map]
        exact other name hnames
  rw [convertTree_fst, typeScriptValues_attach, convertNode_generic ht, hrule,
    flowValues_generic ht hid, path_of_typePath hpath,
    flowReference_other (by rw [List.length_map]; exact other), List.map_map]
  have hfst : (convertReference (t.annotate outcome).slots st).1 =
      let params := child? (t.annotate outcome).slots .typeParameters st
      Target.typeReference (convertTree id params.2).1 params.1 := by
    unfold convertReference child
    rw [Tree.child_slots_annotate outcome hid]
    rfl
  rw [hfst, typeScriptValues_typeReference, path_convertTree hpath]
  exact congrArg (U.refers names) (map_arguments hparams parts _ st)

/-- **The conversion of a type has the values of the type**, wherever it stands, if `$Exact<T>`
means what `T` does. -/
theorem values_convertTree {t : Node} (ht : Translatable t) : Keeps U t := by
  induction ht with
  | basic ht => exact keeps_basic ht
  | literal ht => exact keeps_literal ht
  | bigInt ht hdigits hend => exact keeps_bigInt ht hdigits hend
  | ascription ht ha _ ih => exact keeps_ascription ht ha ih
  | nullable ht ha _ ih => exact keeps_nullable ht ha ih
  | array ht ha _ ih => exact keeps_array ht ha ih
  | listed ht _ ih => exact keeps_listed ht ih
  | object ht inexact only plain _ ih => exact keeps_object ht inexact only plain ih
  | utility ht hname hid hident hargs _ ih => exact keeps_utility ht hname hid hident hargs ih
  | reference ht hid hpath hparams other _ ih => exact keeps_reference ht hid hpath hparams other ih

/-! ### Exactness -/

/-- Whether a node is `$Exact` of something. -/
def isExactOf (h : Head) (s : Slots Unit) : Bool :=
  h.is .genericType && path (s.child .id) == ["$Exact"]

/-- Exactness takes no values away: each `$Exact<T>` in a type has all values of `T`. -/
def Unnarrowed (U : Universe) (t : Node) : Prop :=
  t.Every fun h s => isExactOf h s = true → ∀ a, arguments .typeParameterInstantiation s = [a] →
    flowExact U (a.annotate (flowRule U true)) = flowValues U true a

/-- A type without `$Exact` is not narrowed. -/
theorem Unnarrowed.of_every {t : Node} (h : t.Every fun h s => isExactOf h s = false) :
    Unnarrowed U t :=
  h.imp₂ h fun _ _ hnot _ hexact => absurd hexact (by rw [hnot]; exact Bool.false_ne_true)

theorem path_child_annotateSlots {σ : Type} [Inhabited σ] (rule : Head → Slots σ → σ)
    (s : Slots Unit) (f : Field) :
    path (Slots.child (Tree.annotateSlots rule s) f) = path (s.child f) := by
  cases hf : s.child? f with
  | none =>
    unfold Slots.child
    rw [Slots.child?_annotateSlots, hf]
    rfl
  | some t =>
    rw [Slots.child_annotateSlots rule hf, path_annotate, Slots.child, hf]
    rfl

theorem flowReference_heed {path : List String} {args : List (Tree (Set U.Value))}
    (h : path = ["$Exact"] → ∀ a, args = [a] → flowExact U a = a.note) :
    flowReference U true path args = flowReference U false path args := by
  unfold flowReference
  split
  · exact h rfl _ rfl
  · rfl
  · rfl

/-- If exactness takes no values away, it makes no difference. -/
theorem Unnarrowed.annotate_eq {t : Node} (ht : Unnarrowed U t) :
    t.annotate (flowRule U true) = t.annotate (flowRule U false) := by
  induction ht with
  | @mk h s here _ ih =>
    have hslots : Tree.annotateSlots (flowRule U true) s =
        Tree.annotateSlots (flowRule U false) s := by
      rw [Slots.annotateSlots_eq_mapTrees, Slots.annotateSlots_eq_mapTrees]
      exact Slots.mapTrees_congr ih
    have hrule : flowRule U true h (Tree.annotateSlots (flowRule U true) s) =
        flowRule U false h (Tree.annotateSlots (flowRule U true) s) := by
      unfold flowRule
      cases htag : h.tag? with
      | none => rfl
      | some tag =>
        -- only the rule of references looks at exactness
        by_cases hgeneric : tag = .genericType
        · subst hgeneric
          refine flowReference_heed fun hpath a ha => ?_
          rw [path_child_annotateSlots] at hpath
          have hexact : isExactOf h s = true := by
            unfold isExactOf Head.is
            rw [htag, hpath]
            rfl
          have hargs :=
            arguments_annotate (flowRule U true) (.mk () h s) .typeParameterInstantiation
          obtain ⟨b, hb, rfl⟩ := List.map_eq_singleton_iff.mp (hargs.symm.trans ha)
          exact here hexact b hb
        · cases tag <;> first | rfl | exact absurd rfl hgeneric
    show Tree.mk _ h _ = Tree.mk _ h _
    rw [hrule, hslots]

/-- **The conversion of a type keeps its values**: they are those of the type with `$Exact<T>` read
as `T`, and of the type itself if exactness takes no values away. -/
theorem values_convert {t : Node} (ht : Translatable t) (U : Universe) (v : U.Value) :
    (v ∈ typeScriptValues U t.convert.tree ↔ v ∈ flowValues U false t) ∧
      (Unnarrowed U t → (v ∈ typeScriptValues U t.convert.tree ↔ v ∈ flowValues U true t)) := by
  have hvalues : typeScriptValues U t.convert.tree = flowValues U false t :=
    values_convertTree ht (.start t.names)
  refine ⟨by rw [hvalues], fun hnarrow => ?_⟩
  have hheed : flowValues U true t = flowValues U false t := congrArg Tree.note hnarrow.annotate_eq
  rw [hvalues, hheed]

/-- The text `"s"` and the objects `{ a: "s" }` and `{ a: "s", b: "s" }`. -/
inductive Sample where
  | text
  | record
  | wideRecord

/-- The universe of these three values. -/
def samples : Universe where
  Value := Sample
  primitive?
    | .text => some (.string "s")
    | _ => none
  items? _ := none
  properties?
    | .text => none
    | .record => some fun name => if name = "a" then some .text else none
    | .wideRecord => some fun name => if name = "a" ∨ name = "b" then some .text else none
  integer? := String.toInt?
  numeralName x := (Print.numberLayout.render? x).getD "NaN"
  named _ _ := ∅
  exactly _ S := S

theorem text_mem_kindOf : Sample.text ∈ samples.kindOf .string := ⟨"s", rfl⟩

theorem wideRecord_mem_objects (isOptional : Bool) :
    Sample.wideRecord ∈ samples.objects [⟨"a", isOptional, samples.kindOf .string⟩] := by
  refine ⟨_, rfl, fun m hm => ?_⟩
  obtain rfl := List.mem_singleton.mp hm
  exact .inl text_mem_kindOf

/-- `{ a: string }` or `{ a?: string }`. -/
def recordType (isOptional : Bool) : Node :=
  Source.objectType [Source.property "a" (Node.leaf .stringType) isOptional] false

theorem translatable_recordType (isOptional : Bool) : Translatable (recordType isOptional) := by
  refine .object rfl rfl rfl (fun p hp => ?_) fun p hp a ha => ?_
  · obtain rfl := List.mem_singleton.mp hp
    exact ⟨rfl, ⟨_, rfl, rfl⟩, rfl⟩
  · obtain rfl := List.mem_singleton.mp hp
    obtain rfl := Option.some.inj ha
    exact .basic rfl

/-- `?$NonMaybeType<{ a?: string }>`. -/
def nullablePartial : Node :=
  .of .nullableType [] [(.ty, .one (Source.generic "$NonMaybeType" [recordType true]))]

/-- The object with a further property is of the type that `?$NonMaybeType<{ a?: string }>` becomes,
and the text is not. -/
theorem values_convert_nullablePartial :
    Translatable nullablePartial ∧ Unnarrowed samples nullablePartial ∧
      Sample.wideRecord ∈ typeScriptValues samples nullablePartial.convert.tree ∧
      Sample.text ∉ typeScriptValues samples nullablePartial.convert.tree := by
  have ht : Translatable nullablePartial :=
    .nullable rfl rfl (.utility rfl (.inr rfl) rfl rfl rfl (translatable_recordType true))
  have hnarrow : Unnarrowed samples nullablePartial := .of_every (by decide)
  have hvalues : flowValues samples true nullablePartial =
      samples.nonNullish (samples.objects [⟨"a", true, samples.kindOf .string⟩]) ∪
        samples.only .null ∪ samples.only .undefined := rfl
  refine ⟨ht, hnarrow, ((values_convert ht samples _).2 hnarrow).mpr ?_,
    fun h => absurd (((values_convert ht samples _).2 hnarrow).mp h) ?_⟩
  · rw [hvalues]
    exact .inl (.inl ⟨wideRecord_mem_objects true, nofun, nofun⟩)
  · rw [hvalues]
    rintro ((⟨⟨_, h, -⟩, -⟩ | h) | h)
    · cases h
    · cases h
    · cases h

/-- `$Exact<{ a: string }>`. -/
def exactRecord : Node := Source.generic "$Exact" [recordType false]

/-- The object with a further property is not of the type `$Exact<{ a: string }>`, but of what it
becomes: the target has no exact types. -/
theorem not_values_exactRecord :
    Translatable exactRecord ∧
      Sample.wideRecord ∈ typeScriptValues samples exactRecord.convert.tree ∧
      Sample.wideRecord ∉ flowValues samples true exactRecord := by
  refine ⟨.utility rfl (.inl rfl) rfl rfl rfl (translatable_recordType false),
    wideRecord_mem_objects false, ?_⟩
  rintro ⟨-, h⟩
  have hkey : "b" ∈ ["a"] := h _ rfl "b" nofun
  exact absurd hkey (by decide)

end Typeshift.TypeMeaning
