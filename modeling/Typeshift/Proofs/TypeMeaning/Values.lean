import Mathlib.Data.Set.Basic
import Typeshift.Proofs.Tree.Slots

/-! # The values of a type

A type means the set of its values. What the values are, and what references to types mean, is left
open: a *universe* says of a value which primitive it is, which items it has as an array and which
properties as an object, and gives a meaning to names. Types of both vocabularies are read in the
same universe, each by rules of its own.

* `Universe`: values, and the meaning of names.
* `flowValues`: the values of a type of the source.
* `typeScriptValues`: the values of a type of the target. -/

namespace Typeshift.TypeMeaning

open Decimal (Binary64)

/-! ### Values -/

/-- The values that have no parts. -/
inductive Primitive where
  | undefined
  | null
  | boolean (b : Bool)
  | number (x : Binary64)
  | string (s : String)
  | symbol
  | bigInt (i : Int)

/-- **Values, and the meaning of names.** -/
structure Universe where
  Value : Type
  /-- The primitive that a value is. -/
  primitive? : Value → Option Primitive
  /-- The items of an array. -/
  items? : Value → Option (List Value)
  /-- The properties of an object. -/
  properties? : Value → Option (String → Option Value)
  /-- The integer that is written with some digits. -/
  integer? : String → Option Int
  /-- The name of a property whose key is a number. -/
  numeralName : Binary64 → String
  /-- The values of a type with a dotted name, applied to types with some values. -/
  named : List String → List (Set Value) → Set Value
  /-- What `$Exact` keeps of the values of a type that is no object type, such as a reference. -/
  exactly : Node → Set Value → Set Value

/-- A property that an object type asks for. -/
structure Member (V : Type) where
  name : String
  isOptional : Bool
  values : Set V

namespace Universe

variable (U : Universe)

/-- The values that are one primitive. -/
def only (p : Primitive) : Set U.Value := {v | U.primitive? v = some p}

/-- The values that are a primitive of some kind. -/
def kindOf {α : Type} (kind : α → Primitive) : Set U.Value := {v | ∃ a, v ∈ U.only (kind a)}

/-- The integers that are written with some digits. -/
def integer (digits : String) : Set U.Value :=
  {v | ∃ i, U.integer? digits = some i ∧ v ∈ U.only (.bigInt i)}

/-- The values of `S` that are neither `null` nor `undefined`. -/
def nonNullish (S : Set U.Value) : Set U.Value :=
  {v ∈ S | v ∉ U.only .null ∧ v ∉ U.only .undefined}

/-- Arrays of any length. -/
def arrays (S : Set U.Value) : Set U.Value :=
  {v | ∃ items, U.items? v = some items ∧ ∀ w ∈ items, w ∈ S}

/-- Arrays with one item for each set. -/
def tuples (Ss : List (Set U.Value)) : Set U.Value :=
  {v | ∃ items, U.items? v = some items ∧ List.Forall₂ (· ∈ ·) items Ss}

/-- The values of one of some sets. -/
def anyOf (Ss : List (Set U.Value)) : Set U.Value := {v | ∃ S ∈ Ss, v ∈ S}

/-- The values of all of some sets. -/
def allOf (Ss : List (Set U.Value)) : Set U.Value := {v | ∀ S ∈ Ss, v ∈ S}

/-- What a property may be: one that is optional may be absent or `undefined`. -/
def Admits (m : Member U.Value) : Option U.Value → Prop
  | none => m.isOptional = true
  | some w => w ∈ m.values ∨ m.isOptional = true ∧ w ∈ U.only .undefined

/-- Objects with some properties, and possibly others. -/
def objects (members : List (Member U.Value)) : Set U.Value :=
  {v | ∃ get, U.properties? v = some get ∧ ∀ m ∈ members, U.Admits m (get m.name)}

/-- The values of `S` without properties of other names. -/
def without (names : List String) (S : Set U.Value) : Set U.Value :=
  {v ∈ S | ∀ get, U.properties? v = some get → ∀ n, get n ≠ none → n ∈ names}

/-- Objects with the properties that some parts ask for; without values if a part asks for none. -/
def objectsOf (isExact : Bool) (members : List (Option (Member U.Value))) : Set U.Value :=
  match members.mapM id with
  | some members =>
    if isExact then U.without (members.map (·.name)) (U.objects members) else U.objects members
  | none => ∅

/-- The values of a reference to a type. The name `NonNullable` is that of the built-in type. -/
def refers (path : List String) (args : List (Set U.Value)) : Set U.Value :=
  match path, args with
  | ["NonNullable"], [S] => U.nonNullish S
  | path, args => U.named path args

end Universe

/-! ### Names -/

section Names

variable {ρ : Type}

/-- The parts of a dotted name, given those of its parts. -/
def pathRule (h : Head) (s : Slots (List String)) : List String :=
  let part (f : Field) := ((s.child? f).map Tree.note).getD []
  match h.tag? with
  | some .identifier => [h.text .name]
  | some .qualifiedTypeIdentifier => part .qualification ++ part .id
  | some .tsQualifiedName => part .left ++ part .right
  | _ => []

/-- The parts of a dotted name. -/
def path (t : Tree ρ) : List String := t.synthesize pathRule

/-- The arguments of a reference. -/
def arguments (tag : Tag) (s : Slots ρ) : List (Tree ρ) :=
  match s.child? .typeParameters with
  | some p => if p.head.is tag then p.slots.children .params else []
  | none => []

/-- The name of a property that has a plain key. -/
def keyName? (U : Universe) (key : Head) : Option String :=
  match key.tag? with
  | some .identifier => some (key.text .name)
  | some .stringLiteral => some (key.text .value)
  | some .numericLiteral => some (U.numeralName (key.number .value))
  | _ => none

end Names

/-! ### The source -/

section Flow

variable (U : Universe)

/-- The digits of a bigint literal type: its value, or else its source text without the `n`. -/
def flowDigits? (h : Head) : Option String :=
  match h.text? .value, h.raw? with
  | some digits, _ => some digits
  | none, some raw =>
    if raw.toList.getLast? = some 'n' then some (String.ofList raw.toList.dropLast) else none
  | none, none => none

/-- Whether a part of an object type is a plain property. -/
def isPlain (h : Head) : Bool :=
  h.is .objectTypeProperty && h.word? .kind != some .get && h.word? .kind != some .set &&
    !h.flag .isStatic && !h.flag .isProto

/-- The property that a plain property of an object type asks for. -/
def flowMember? (t : Tree (Set U.Value)) : Option (Member U.Value) :=
  if isPlain t.head then
    (keyName? U (t.slots.child .key).head).map fun name =>
      ⟨name, t.head.flag .isOptional, (t.slots.child .value).note⟩
  else none

/-- The properties that the parts of an object type ask for. -/
def flowMembers (s : Slots (Set U.Value)) : List (Option (Member U.Value)) :=
  (s.children .properties).map (flowMember? U) ++
    (s.children .indexers ++ s.children .callProperties ++ s.children .internalSlots).map
      fun _ => none

/-- The values of `$Exact<T>`. -/
def flowExact (t : Tree (Set U.Value)) : Set U.Value :=
  if t.head.is .objectType then U.objectsOf true (flowMembers U t.slots)
  else U.exactly t.forget t.note

/-- The values of a reference. If exactness is not heeded, `$Exact<T>` means what `T` does. -/
def flowReference (heed : Bool) (path : List String) (args : List (Tree (Set U.Value))) :
    Set U.Value :=
  match path, args with
  | ["$Exact"], [t] => if heed then flowExact U t else t.note
  | ["$NonMaybeType"], [t] => U.nonNullish t.note
  | path, args => U.refers path (args.map Tree.note)

/-- **The values of a type of the source**, by its construct and given the values of its parts.
Constructs that are no types, and those that the reading leaves out, have no values. -/
def flowAt (heed : Bool) (t : Tag) (h : Head) (s : Slots (Set U.Value)) : Set U.Value :=
  let part (f : Field) : Set U.Value := (s.child f).note
  let parts (f : Field) : List (Set U.Value) := (s.children f).map Tree.note
  match t with
  | .anyType | .mixedType | .existsType => Set.univ
  | .emptyType => ∅
  | .voidType => U.only .undefined
  | .nullType => U.only .null
  | .numberType => U.kindOf .number
  | .stringType => U.kindOf .string
  | .booleanType => U.kindOf .boolean
  | .symbolType => U.only .symbol
  | .bigIntType => U.kindOf .bigInt
  | .stringLiteralType => U.only (.string (h.text .value))
  | .numberLiteralType => U.only (.number (h.number .value))
  | .booleanLiteralType => U.only (.boolean (h.flag .value))
  | .bigIntLiteralType => ((flowDigits? h).map U.integer).getD ∅
  | .nullableType => part .ty ∪ U.only .null ∪ U.only .undefined
  | .arrayType => U.arrays (part .elementType)
  | .tupleType => U.tuples (parts .types)
  | .unionType => U.anyOf (parts .types)
  | .intersectionType => U.allOf (parts .types)
  | .objectType => U.objectsOf (h.flag .isExact) (flowMembers U s)
  | .ascription => part .ty
  | .genericType =>
    flowReference U heed (path (s.child .id)) (arguments .typeParameterInstantiation s)
  | _ => ∅

/-- The values of a node of the source, given those of its parts. -/
def flowRule (heed : Bool) (h : Head) (s : Slots (Set U.Value)) : Set U.Value :=
  match h.tag? with
  | some t => flowAt U heed t h s
  | none => ∅

/-- **The values of a type of the source.** -/
def flowValues (heed : Bool) (t : Node) : Set U.Value := t.synthesize (flowRule U heed)

theorem flowValues_of_is {heed : Bool} {t : Node} {tag : Tag} (ht : t.head.is tag = true) :
    flowValues U heed t = flowAt U heed tag t.head (t.annotate (flowRule U heed)).slots := by
  unfold flowValues Tree.synthesize
  rw [Tree.note_annotate, flowRule, beq_iff_eq.mp ht]

end Flow

/-! ### The target -/

section TypeScript

variable (U : Universe)

/-- The property that a property signature asks for. -/
def typeScriptMember? (t : Tree (Set U.Value)) : Option (Member U.Value) :=
  if t.head.is .tsPropertySignature && !t.head.flag .isComputed then
    (keyName? U (t.slots.child .key).head).map fun name =>
      ⟨name, t.head.flag .isOptional, (t.slots.child .ty).note⟩
  else none

/-- **The values of a type of the target**, by its construct and given the values of its parts. A
literal has its own value. Constructs that are no types, and those that the reading leaves out, have
no values. -/
def typeScriptAt (t : Tag) (h : Head) (s : Slots (Set U.Value)) : Set U.Value :=
  let part (f : Field) : Set U.Value := (s.child f).note
  let parts (f : Field) : List (Set U.Value) := (s.children f).map Tree.note
  match t with
  | .tsAnyKeyword | .tsUnknownKeyword => Set.univ
  | .tsNeverKeyword => ∅
  | .tsVoidKeyword | .tsUndefinedKeyword => U.only .undefined
  | .tsNullKeyword => U.only .null
  | .tsNumberKeyword => U.kindOf .number
  | .tsStringKeyword => U.kindOf .string
  | .tsBooleanKeyword => U.kindOf .boolean
  | .tsSymbolKeyword => U.only .symbol
  | .tsBigIntKeyword => U.kindOf .bigInt
  | .stringLiteral => U.only (.string (h.text .value))
  | .numericLiteral => U.only (.number (h.number .value))
  | .booleanLiteral => U.only (.boolean (h.flag .value))
  | .bigIntLiteral => U.integer (h.text .value)
  | .tsLiteralType => part .literal
  | .tsArrayType => U.arrays (part .elementType)
  | .tsTupleType => U.tuples (parts .elementTypes)
  | .tsUnionType => U.anyOf (parts .types)
  | .tsIntersectionType => U.allOf (parts .types)
  | .tsTypeLiteral => U.objectsOf false ((s.children .members).map (typeScriptMember? U))
  | .tsAscription => part .ty
  | .tsTypeReference =>
    U.refers (path (s.child .typeName)) ((arguments .tsTypeParameterInstantiation s).map Tree.note)
  | _ => ∅

/-- The values of a node of the target, given those of its parts. -/
def typeScriptRule (h : Head) (s : Slots (Set U.Value)) : Set U.Value :=
  match h.tag? with
  | some t => typeScriptAt U t h s
  | none => ∅

/-- **The values of a type of the target.** -/
def typeScriptValues (t : Node) : Set U.Value := t.synthesize (typeScriptRule U)

end TypeScript

end Typeshift.TypeMeaning
