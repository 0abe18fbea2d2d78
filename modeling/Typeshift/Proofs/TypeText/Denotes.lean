import Typeshift.Proofs.Expression.Denotes
import Typeshift.Proofs.StringLiteral
import Typeshift.Proofs.TypeText.Grammar

/-! # Trees that stand for types

A tree stands for a type of the grammar if it is built of the constructs that the grammar has,
without comments and other parts. The wrappers around ascribed types are no part of the type, and
may stand anywhere.

* `Denotes`: a tree stands for a type.
* `Denotes.printError?_eq_none`: such a tree can be printed. -/

namespace Typeshift.TypeText

open Print
open Expression (Alphabet Built IsName reserved)

/-- The constructs that are a word, and the words. -/
def keywordTags : List (Tag × String) :=
  [(.tsAnyKeyword, "any"), (.tsUnknownKeyword, "unknown"), (.tsNeverKeyword, "never"),
    (.tsVoidKeyword, "void"), (.tsNullKeyword, "null"), (.tsUndefinedKeyword, "undefined"),
    (.tsNumberKeyword, "number"), (.tsStringKeyword, "string"), (.tsBooleanKeyword, "boolean"),
    (.tsSymbolKeyword, "symbol"), (.tsBigIntKeyword, "bigint"), (.tsThisType, "this")]

/-- A name, plain or qualified. -/
inductive IsEntity (A : Alphabet) : Node → List String → Prop where
  | plain {t : Node} {x : String} (name : IsName A t x) : IsEntity A t [x]
  | qualified {t u v : Node} {xs : List String} {x : String}
    (built : Built t .tsQualifiedName [u, v])
      (hu : t.slots.child? .left = some u) (hv : t.slots.child? .right = some v)
      (left : IsEntity A u xs) (right : IsName A v x) : IsEntity A t (xs ++ [x])

/-- A string literal. If there is no source text, the text is made from the value. -/
structure IsString (t : Node) (s : String) : Prop where
  built : Built t .stringLiteral []
  value : t.head.text .value = s
  spelled : ∀ raw ∈ t.head.raw?, StringLiteral.read? raw.toList = some (s, [])

/-- A parameter with a name, and with a type if there is one. -/
structure IsNamed (A : Alphabet) (t : Node) (p : Parameter Node) : Prop where
  built : Built t .identifier p.type?.toList
  name : t.head.text .name = p.name
  spelled : A.isName p.name = true
  allowed : IsParameter p.name
  optional : t.head.flag .isOptional = p.isOptional
  type : t.slots.child? .ty = p.type?

/-- **A tree stands for a type.** -/
inductive Denotes (A : Alphabet) : Node → Typ → Prop where
  | wrapper {t u : Node} {τ : Typ} (built : Built t .tsAscription [u])
      (hu : t.slots.child? .ty = some u) (inner : Denotes A u τ) : Denotes A t τ
  | keyword {t : Node} {tag : Tag} {w : String} (hw : (tag, w) ∈ keywordTags)
      (built : Built t tag []) : Denotes A t (.keyword w)
  | string {t u : Node} {s : String} (built : Built t .tsLiteralType [u])
      (hu : t.slots.child? .literal = some u) (literal : IsString u s) : Denotes A t (.string s)
  | numeral {t u : Node} (built : Built t .tsLiteralType [u])
      (hu : t.slots.child? .literal = some u) (literal : Built u .numericLiteral [])
      (digits : isDigits (numeralText u.head) = true) :
    Denotes A t (.numeral (numeralText u.head))
  | reference {t u : Node} {x : String} {xs : List String} (built : Built t .tsTypeReference [u])
      (hu : t.slots.child? .typeName = some u) (bare : t.slots.child? .typeParameters = none)
      (name : IsEntity A u (x :: xs)) (hx : IsReference x xs) :
    Denotes A t (.reference (x :: xs) [])
  | generic {t u v : Node} {x : String} {xs : List String} {parts : List (Node × Typ)}
      (built : Built t .tsTypeReference [u, v]) (hu : t.slots.child? .typeName = some u)
      (hv : t.slots.child? .typeParameters = some v) (name : IsEntity A u (x :: xs))
      (hx : IsReference x xs) (list : Built v .tsTypeParameterInstantiation (parts.map Prod.fst))
      (hparts : v.slots.children .params = parts.map Prod.fst) (hne : parts ≠ [])
      (arguments : ∀ part ∈ parts, Denotes A part.1 part.2) :
    Denotes A t (.reference (x :: xs) (parts.map Prod.snd))
  | query {t u : Node} {x : String} {xs : List String} (built : Built t .tsTypeQuery [u])
      (hu : t.slots.child? .exprName = some u) (name : IsEntity A u (x :: xs)) (hx : x ∉ reserved) :
    Denotes A t (.query (x :: xs))
  | operator {t u : Node} {w : String} {τ : Typ} (built : Built t .tsTypeOperator [u])
      (ho : t.head.text .operator = w) (known : w ∈ operators) (hu : t.slots.child? .ty = some u)
      (argument : Denotes A u τ) : Denotes A t (.operator w τ)
  | array {t u : Node} {τ : Typ} (built : Built t .tsArrayType [u])
      (hu : t.slots.child? .elementType = some u) (element : Denotes A u τ) : Denotes A t (.array τ)
  | tuple {t : Node} {parts : List (Node × Typ)}
      (built : Built t .tsTupleType (parts.map Prod.fst))
      (hparts : t.slots.children .elementTypes = parts.map Prod.fst)
      (elements : ∀ part ∈ parts, Denotes A part.1 part.2) :
    Denotes A t (.tuple (parts.map Prod.snd))
  | access {t u v : Node} {τ κ : Typ} (built : Built t .tsIndexedAccessType [u, v])
      (hu : t.slots.child? .objectType = some u) (hv : t.slots.child? .indexType = some v)
      (object : Denotes A u τ) (index : Denotes A v κ) : Denotes A t (.access τ κ)
  | function {t u : Node} {ρ : Typ} {parts : List (Node × Parameter (Node × Typ))}
      (built : Built t .tsFunctionType (u :: parts.map Prod.fst))
      (plain : t.slots.child? .typeParameters = none) (hu : t.slots.child? .ty = some u)
      (hparts : t.slots.children .parameters = parts.map Prod.fst)
      (names : ∀ part ∈ parts, IsNamed A part.1 (part.2.map Prod.fst))
      (types : ∀ part ∈ parts, ∀ ty ∈ part.2.type?, Denotes A ty.1 ty.2) (result : Denotes A u ρ) :
    Denotes A t (.function (parts.map fun part => part.2.map Prod.snd) ρ)
  | union {t : Node} {parts : List (Node × Typ)} (built : Built t .tsUnionType (parts.map Prod.fst))
      (hlength : 2 ≤ parts.length) (hparts : t.slots.children .types = parts.map Prod.fst)
      (members : ∀ part ∈ parts, Denotes A part.1 part.2) :
      Denotes A t (.union (parts.map Prod.snd))
  | intersection {t : Node} {parts : List (Node × Typ)}
      (built : Built t .tsIntersectionType (parts.map Prod.fst)) (hlength : 2 ≤ parts.length)
      (hparts : t.slots.children .types = parts.map Prod.fst)
      (members : ∀ part ∈ parts, Denotes A part.1 part.2) :
    Denotes A t (.intersection (parts.map Prod.snd))

/-! ### Trees that stand for types can be printed -/

theorem IsEntity.printError?_eq_none {A : Alphabet} {t : Node} {xs : List String}
    (h : IsEntity A t xs) : t.printError? = none := by
  induction h with
  | plain name => exact name.printError?_eq_none
  | qualified built _ _ _ right ih =>
    exact built.printError?_eq_none (by simpa using ⟨ih, right.printError?_eq_none⟩)

theorem IsNamed.printError?_eq_none {A : Alphabet} {t : Node} {p : Parameter (Node × Typ)}
    (h : IsNamed A t (p.map Prod.fst)) (hty : ∀ ty ∈ p.type?, Node.printError? ty.1 = none) :
    t.printError? = none := by
  refine h.built.printError?_eq_none fun u hu => ?_
  obtain ⟨ty, hty', rfl⟩ := Option.map_eq_some_iff.mp (Option.mem_toList.mp hu)
  exact hty ty hty'

theorem Denotes.printError?_eq_none {A : Alphabet} {t : Node} {τ : Typ} (h : Denotes A t τ) :
    t.printError? = none := by
  induction h with
  | wrapper built _ _ ih => exact built.printError?_eq_none (by simpa using ih)
  | keyword _ built => exact built.printError?_eq_none (by simp)
  | string built _ literal =>
    exact built.printError?_eq_none (by simpa using literal.built.printError?_eq_none (by simp))
  | numeral built _ literal _ =>
    exact built.printError?_eq_none (by simpa using literal.printError?_eq_none (by simp))
  | reference built _ _ name _ =>
    exact built.printError?_eq_none (by simpa using name.printError?_eq_none)
  | generic built _ _ name _ list _ _ _ ihs =>
    have hlist := list.printError?_eq_none (List.forall_mem_map.mpr ihs)
    exact built.printError?_eq_none (by simpa using ⟨name.printError?_eq_none, hlist⟩)
  | query built _ name _ =>
    exact built.printError?_eq_none (by simpa using name.printError?_eq_none)
  | operator built _ _ _ _ ih => exact built.printError?_eq_none (by simpa using ih)
  | array built _ _ ih => exact built.printError?_eq_none (by simpa using ih)
  | tuple built _ _ ihs => exact built.printError?_eq_none (List.forall_mem_map.mpr ihs)
  | access built _ _ _ _ ihu ihv => exact built.printError?_eq_none (by simpa using ⟨ihu, ihv⟩)
  | @function _ _ _ parts built _ _ _ names _ _ ihs ih =>
    have hparts : ∀ v ∈ parts.map Prod.fst, Node.printError? v = none :=
      List.forall_mem_map.mpr fun part hp => (names part hp).printError?_eq_none (ihs part hp)
    exact built.printError?_eq_none (List.forall_mem_cons.mpr ⟨ih, hparts⟩)
  | union built _ _ _ ihs => exact built.printError?_eq_none (List.forall_mem_map.mpr ihs)
  | intersection built _ _ _ ihs => exact built.printError?_eq_none (List.forall_mem_map.mpr ihs)

end Typeshift.TypeText
