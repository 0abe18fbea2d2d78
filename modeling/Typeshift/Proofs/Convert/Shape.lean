import Typeshift.Convert.Basic
import Typeshift.Proofs.Ambient.Depth
import Typeshift.Proofs.Tree.Bodies

/-! # What the rules of a conversion make

The rule of a construct asks its parts and puts their answers together. What it makes has one of few
shapes: a plain node of answers, a declaration, something with a signature, a chain, or an answer
itself. Here the shapes are listed once, each with what is known where it is made. A property of
converted trees is then shown by going through the shapes.

* `View`: what is known of the answers of parts.
* `Composed`: a node that is put together of answers.
* `SignatureOf`: the signature of a function type.
* `Made`: what the rule of a construct makes. -/

namespace Typeshift.Convert

open Ambient (declareTags declarationTags)

/-! ### Parts -/

/-- A part that a field holds, or that stands for what the field does not hold. -/
inductive Fills (s : Slots Outcome) (f : Field) : Part → Prop where
  | held {slot : Slot Part} {c : Part} (hslot : s.get? f = some slot) (hc : c ∈ slot.toList) :
    Fills s f c
  | vacant (h : s.child? f = none) : Fills s f default

section Fills

variable {s : Slots Outcome} {f : Field} {c : Part}

theorem fills_child? (hc : s.child? f = some c) : Fills s f c := by
  unfold Slots.child? at hc
  split at hc
  · next a ha =>
    cases hc
    exact .held ha (List.mem_singleton_self _)
  · next a ha => exact .held ha (Option.mem_toList.mpr hc)
  · cases hc

theorem fills_children (hc : c ∈ s.children f) : Fills s f c := by
  unfold Slots.children at hc
  split at hc
  · next as ha => exact .held ha hc
  · cases hc

theorem fills_child (s : Slots Outcome) (f : Field) : Fills s f (s.child f) := by
  unfold Slots.child
  cases hc : s.child? f with
  | some c => exact fills_child? hc
  | none => exact .vacant hc

end Fills

/-- A construct with its answers. -/
def asPart (h : Head) (s : Slots Outcome) : Part := .mk (outcome h s) h s

/-- A construct of some source trees, which stands at some depth, with its parts. -/
def Stems (Source : Nat → Node → Prop) (d : Nat) (h : Head) (s : Slots Outcome) : Prop :=
  ∃ s₀, s = Tree.annotateSlots outcome s₀ ∧ Source d (.mk () h s₀)

/-- **What is known of the answers of parts**, and of the names that are made up. It may become more
while a conversion goes on. -/
structure View where
  convert : Part → Node → Prop
  chain : Part → Node × Option Node → Prop
  access : Part → Node × Bool → Prop
  entity : Part → Node → Prop
  /-- The nodes that stand for what a module exports as a whole. -/
  exported : Part → Node → Prop
  /-- A function body, after its temporaries are declared. -/
  body : Part → Node → Prop
  /-- The statements of a program, after its temporaries are declared. -/
  program : List Part → List Node → Prop
  temporary : String → Prop
  exports : String → Prop
  /-- Nodes that are passed through. -/
  refused : Head → Prop

/-- What is known stays known. -/
structure View.Le (V V' : View) : Prop where
  convert : ∀ {c v}, V.convert c v → V'.convert c v
  chain : ∀ {c x}, V.chain c x → V'.chain c x
  access : ∀ {c x}, V.access c x → V'.access c x
  entity : ∀ {c v}, V.entity c v → V'.entity c v
  exported : ∀ {c v}, V.exported c v → V'.exported c v
  body : ∀ {c v}, V.body c v → V'.body c v
  program : ∀ {cs vs}, V.program cs vs → V'.program cs vs
  temporary : ∀ {n}, V.temporary n → V'.temporary n
  exports : ∀ {n}, V.exports n → V'.exports n
  refused : ∀ {h}, V.refused h → V'.refused h

/-- A counterpart of something that a field holds. -/
def Held (V : View) (s : Slots Outcome) (f : Field) (v : Node) : Prop :=
  ∃ c, Fills s f c ∧ V.convert c v

/-- One of the nodes that a part becomes in a list of statements. -/
def Listing (V : View) (c : Part) (v : Node) : Prop := V.convert c v ∨ V.exported c v

/-! ### Nodes made of answers -/

/-- The constructs that are made of answers with nothing more to be said. -/
def plainTags : List Tag :=
  [.identifier, .restElement, .parenthesizedExpression, .logicalExpression, .callExpression,
    .stringLiteral, .numericLiteral, .booleanLiteral, .bigIntLiteral, .exportAllDeclaration,
    .classProperty, .tsExpressionWithTypeArguments, .tsAscription, .tsAnyKeyword, .tsNullKeyword,
    .tsUndefinedKeyword, .tsStringKeyword, .tsNeverKeyword, .tsVoidKeyword, .tsNumberKeyword,
    .tsBooleanKeyword, .tsSymbolKeyword, .tsBigIntKeyword, .tsThisType, .tsLiteralType,
    .tsUnionType, .tsIntersectionType, .tsTypeOperator, .tsIndexedAccessType,
    .tsTypeParameterInstantiation, .tsTypeLiteral, .tsArrayType, .tsTupleType, .tsTypeQuery,
    .tsQualifiedName, .tsPropertySignature, .tsIndexSignature, .tsInterfaceBody]

/-- The utilities that a built-in type takes the place of. -/
def builtins : List (String × String) :=
  [("$ReadOnly", "Readonly"), ("$ReadOnlyArray", "ReadonlyArray"), ("$Shape", "Partial"),
    ("$NonMaybeType", "NonNullable")]

/-- A construct refers to a type by its own name: it is the parent of an interface, or a reference
that is no utility. -/
inductive IsReference (h : Head) (s : Slots Outcome) : Prop where
  | parent (hh : h.is .interfaceExtends = true)
  | generic (hh : h.is .genericType = true)
    (hno : ∀ name, (s.child .id).head.identifier? = some name →
      ∃ st, (convertUtility? name (typeArguments s) st).1 = none)

/-- What a link of an access reads from, given the access of a part. -/
def baseOf (c : Part) (access : Node) : Node :=
  if c.head.is .optionalIndexedAccessType then access.withSpan c.head.span else access

/-- A built-in type is applied to something for a utility with one argument, or for an optional link
of an access. -/
inductive Introduces (h : Head) (s : Slots Outcome) : String → Node → Prop where
  | utility {name n : String} {c : Part} {u : Node} (hh : h.is .genericType = true)
    (hname : (s.child .id).head.identifier? = some name) (hargs : typeArguments s = [c])
    (hbuiltin : (name, n) ∈ builtins) (hrun : ∃ st, u = (convertPart c st).1) : Introduces h s n u
  | link {u : Node} (hh : h.is .optionalIndexedAccessType = true)
    (hflag : h.flag .isOptional = true)
    (hrun : ∃ st, u = baseOf (s.child .objectType) ((s.child .objectType).note.access st).1.1) :
    Introduces h s "NonNullable" u

/-- **A reference that a construct makes by its own name**: the name and the arguments are what some
runs give for the fields. -/
structure References (V : View) (h : Head) (s : Slots Outcome) (u : Node) (x : Option Node) :
    Prop where
  isReference : IsReference h s
  name : Held V s .id u
  arguments : ∀ a ∈ x, Held V s .typeParameters a
  nameRun : ∃ st, u = (child s .id st).1
  argumentsRun : ∃ st, x = (child? s .typeParameters st).1

/-! ### Slots -/

/-- Everything that slots hold has a property. -/
def Holds (G : Node → Prop) (s : Slots Unit) : Prop := ∀ c ∈ s.toList, G c

namespace Holds

variable {G : Node → Prop} {f : Field} {s : Slots Unit} {u : Node} {us : List Node}
  {x : Option Node}

theorem nil : Holds G [] := nofun

theorem one (hu : G u) (hs : Holds G s) : Holds G ((f, .one u) :: s) :=
  List.forall_mem_cons.mpr ⟨hu, hs⟩

theorem maybe (hx : ∀ u ∈ x, G u) (hs : Holds G s) : Holds G ((f, .maybe x) :: s) :=
  List.forall_mem_append.mpr ⟨fun u hu => hx u (Option.mem_toList.mp hu), hs⟩

theorem some (hu : G u) (hs : Holds G s) : Holds G ((f, .maybe (some u)) :: s) :=
  List.forall_mem_cons.mpr ⟨hu, hs⟩

theorem none (hs : Holds G s) : Holds G ((f, .maybe none) :: s) := hs

theorem many (hus : ∀ u ∈ us, G u) (hs : Holds G s) : Holds G ((f, .many us) :: s) :=
  List.forall_mem_append.mpr ⟨hus, hs⟩

end Holds

theorem forall_mem_some {α : Type} {P : α → Prop} {a : α} (h : P a) : ∀ b ∈ some a, P b := by
  rintro _ ⟨⟩
  exact h

/-- Any field. -/
abbrev anywhere : Field → Prop := fun _ => True

/-- **A node that is put together** of what the parts in some fields of a construct answer. -/
inductive Composed (V : View) : Head → Slots Outcome → (Field → Prop) → Node → Prop where
  | part {h s F f v} (hf : F f) (hv : Held V s f v) : Composed V h s F v
  | value {h s F f c x} (hf : F f) (hc : Fills s f c) (hx : V.chain c x) : Composed V h s F x.1
  | guard {h s F f c x g} (hf : F f) (hc : Fills s f c) (hx : V.chain c x) (hg : g ∈ x.2) :
    Composed V h s F g
  /-- The object or the property of an access. -/
  | piece {h s F f c x k} (hf : F f) (hc : Fills s f c) (hx : V.chain c x)
    (hm : x.1.head.is .memberExpression = true) (hk : k ∈ [Field.object, .property]) :
    Composed V h s F (x.1.slots.child k)
  | object {h s F f c x} (hf : F f) (hc : Fills s f c) (hx : V.access c x) :
    Composed V h s F (baseOf c x.1)
  | entity {h s F f c v} (hf : F f) (hc : Fills s f c) (hv : V.entity c v) : Composed V h s F v
  /-- A member of the body of an interface that is no object type. -/
  | taken {h s F f v u} (hf : F f) (hv : Held V s f v) (hu : u ∈ v.slots.children .members) :
    Composed V h s F u
  | within {h s F f c v} (hf : F f) (hc : Fills s f c)
    (hv : Composed V c.head c.slots anywhere v) : Composed V h s F v
  | node {h s F tag attrs} {slots : Slots Unit} (htag : tag ∈ plainTags)
    (hs : Holds (Composed V h s F) slots) : Composed V h s F (.of tag attrs slots)
  | member {h s F a b} (ha : Composed V h s F a) (hb : Composed V h s F b) (isComputed : Bool) :
    Composed V h s F (Target.member a b isComputed)
  | cast {h s F e ty} (he : Composed V h s F e) (hty : Composed V h s F ty)
    (hany : ty.head.is .tsAnyKeyword = true ∨ isAnyCast e = true) :
    Composed V h s F (Target.paren (Target.cast e ty))
  | assign {h s F n v} (hn : V.temporary n) (hv : Composed V h s F v) :
    Composed V h s F (Target.assign (Target.ident n) v)
  | reference {h s u x} (hh : References V h s u x) :
    Composed V h s anywhere (Target.typeReference u x)
  | introduced {h s n u} (hh : Introduces h s n u) (hu : Composed V h s anywhere u) :
    Composed V h s anywhere (Target.namedReference n [u])
  | dress {h s F u v} (hu : Composed V h s F u) (htag : ∀ t ∈ u.head.tag?, t ∉ declarationTags)
    (hbare : u.bare = v.bare) : Composed V h s F v
  | wrap {h s F u} (hu : Composed V h s F u) (c : Comments) : Composed V h s F (.wrapComments c u)

/-- The fields of a function type that its type parameters are declared for. -/
def signatureFields : List Field := [.receiver, .params, .rest, .returnType]

/-- **The signature of a function type** that stands in a construct. -/
inductive SignatureOf (V : View) : Head → Slots Outcome → Signature → Prop where
  | here {h s sig} (hh : h.is .functionType = true)
    (hps : ∀ u ∈ sig.typeParameters, Held V s .typeParameters u)
    (hparameters : ∀ u ∈ sig.parameters, Composed V h s (· ∈ signatureFields) u)
    (hreturn : Composed V h s (· ∈ signatureFields) sig.returnType) : SignatureOf V h s sig
  | part {h s f c sig} (hc : Fills s f c) (hsig : SignatureOf V c.head c.slots sig) :
    SignatureOf V h s sig

/-- A member of a declared class. -/
inductive MemberOf (V : View) : Head → Slots Outcome → Node → Prop where
  | plain {h s u} (hu : Composed V h s anywhere u) : MemberOf V h s u
  | method {h s kind key sig x} (isStatic isOptional : Bool) (hkey : Held V s .key key)
    (hsig : SignatureOf V h s sig) (hx : x = none ∨ x = some sig.returnType) :
    MemberOf V h s (atOrigin h (Target.declareMethod kind key sig.parameters false isStatic
      isOptional sig.typeParameters x))
  | part {h s f c u} (hc : Fills s f c) (hu : MemberOf V c.head c.slots u) : MemberOf V h s u

/-! ### What is made -/

/-- The declaration of what a module exports as a whole. -/
def exportsDeclaration (name : String) (ty : Node) (isDeclare : Bool) : Node :=
  Target.variableDeclaration .const [Target.declarator (Target.param name (some ty) false) none]
    isDeclare

/-- The value that a node has when it is passed through. -/
def passedValue (h : Head) : Json :=
  match h.kind with
  | .foreign _ raw => raw
  | .known t => .obj [("type", .str t.name)]

/-- A node that is passed through. -/
def passed (h : Head) : Node := .make ⟨.foreign h.name (passedValue h), [], .none, none⟩ []

/-- What is made of what a module exports as a whole. -/
inductive Exported (V : View) (d : Nat) (h : Head) (s : Slots Outcome) : Node → Prop where
  | constant {name : String} {ty : Node} (hname : V.exports name) (hty : Held V s .ty ty) :
    Exported V d h s (atOrigin h (exportsDeclaration name (Target.ascribe ty) (d == 0)))
  | assignment {name : String} (hname : V.exports name) :
    Exported V d h s ((Target.exportAssignment (Target.ident name)).withSpan h.span)

/-- The fields of a declaration that what it declares is seen in. -/
def declarationFields : List Field :=
  [.id, .typeParameters, .right, .impltype, .supertype, .body, .heritage, .implements]

/-- The statements of a declared module. -/
def moduleStatements (s : Slots Outcome) : List Part :=
  if (s.child .body).head.is .blockStatement then (s.child .body).slots.children .body
  else [s.child .body]

/-- The fields with types that may take the place of the construct around them. -/
def typePlaces : List (Tag × Field) :=
  [(.typeParameterInstantiation, .params), (.objectTypeSpreadProperty, .argument),
    (.interfaceType, .body)]

/-- What a field of a construct of both vocabularies holds afterwards. -/
inductive Filled (V : View) (t : Tag) (s : Slots Outcome) (f : Field) : Slot Node → Prop where
  | empty : Filled V t s f (.maybe none)
  | parts {slot : Slot Node} (hbody : f = .body → t ≠ .program ∧ hasScope t = false)
    (hslot : ∀ u ∈ slot.toList, Held V s (sourceField t f) u) : Filled V t s f slot
  | bodies {slot : Slot Node} (ht : hasScope t = true) (hf : f = .body)
    (hslot : ∀ u ∈ slot.toList, ∃ c, Fills s .body c ∧ V.body c u) : Filled V t s f slot
  | statements {cs : List Part} {us : List Node} (ht : t = .program) (hf : f = .body)
    (hcs : ∀ c ∈ cs, Fills s .body c) (hus : V.program cs us) : Filled V t s f (.many us)

/-- A field that is no body holds what was converted for it. -/
theorem Filled.held {V : View} {t : Tag} {s : Slots Outcome} {f : Field} {slot : Slot Node}
    (hslot : Filled V t s f slot) (hf : f ≠ .body) :
    ∀ u ∈ slot.toList, Held V s (sourceField t f) u := by
  cases hslot with
  | empty => exact nofun
  | parts _ hslot => exact hslot
  | bodies _ hf' => exact absurd hf' hf
  | statements _ hf' => exact absurd hf' hf

/-- What is made of a construct, if it declares nothing. -/
inductive Simple (V : View) (h : Head) (s : Slots Outcome) : Node → Prop where
  | node {tag attrs} {slots : Slots Unit} (htag : tag ∈ plainTags) (hname : tag ≠ .identifier)
    (hs : Holds (Composed V h s anywhere) slots) : Simple V h s (.of tag attrs slots)
  | member {a b} (ha : Composed V h s anywhere a) (hb : Composed V h s anywhere b)
    (isComputed : Bool) : Simple V h s (Target.member a b isComputed)
  | cast {e ty} (he : Composed V h s anywhere e) (hty : Composed V h s anywhere ty)
    (hany : ty.head.is .tsAnyKeyword = true ∨ isAnyCast e = true) :
    Simple V h s (Target.paren (Target.cast e ty))
  | dress {u v} (hu : Simple V h s u)
    (htag : ∀ t ∈ u.head.tag?, t ∉ declarationTags ∧ t ≠ .identifier) (hbare : u.bare = v.bare) :
    Simple V h s v
  | wrap {u} (hu : Simple V h s u) (c : Comments) : Simple V h s (.wrapComments c u)
  /-- A type in the place of the construct around it. -/
  | type {t f v} (ht : h.is t = true) (hf : (t, f) ∈ typePlaces) (hv : Held V s f v) :
    Simple V h s v
  /-- A type in the place of the construct two levels up. -/
  | typeBelow {t f f' c v} (hc : Fills s f' c) (ht : c.head.is t = true) (hf : (t, f) ∈ typePlaces)
    (hv : Held V c.slots f v) : Simple V h s v
  | intersect {us : List Node} (hus : ∀ u ∈ us, Simple V h s u) :
    Simple V h s (Convert.intersect us)
  | guarded {g v} (hg : Composed V h s anywhere g) (hv : Simple V h s v) :
    Simple V h s (Target.both g v)
  | maybeUndefined {v} (hv : Simple V h s v) : Simple V h s (Target.union [v, Target.undefined])
  | reference {u x} (hh : References V h s u x) : Simple V h s (Target.typeReference u x)
  | introduced {n u} (hh : Introduces h s n u) (hu : Composed V h s anywhere u) :
    Simple V h s (Target.namedReference n [u])
  | functionType {sig} (hsig : SignatureOf V h s sig) :
    Simple V h s (Target.functionType sig.typeParameters sig.parameters sig.returnType)
  | callSignature {sig} (hsig : SignatureOf V h s sig) :
    Simple V h s (Target.callSignature sig.typeParameters sig.parameters (some sig.returnType))
  | accessor {key kind sig x} (isOptional : Bool) (hkey : Held V s .key key)
    (hsig : SignatureOf V h s sig) (hx : x = none ∨ x = some sig.returnType) :
    Simple V h s (Target.methodSignature key false isOptional kind sig.typeParameters
      sig.parameters x)
  | typeParameters {us : List Node} (hh : h.is .typeParameterDeclaration = true)
    (hus : ∀ u ∈ us, Held V s .params u) : Simple V h s (Target.typeParameters us)
  | typeParameter {x y : Option Node} (hh : h.is .typeParameter = true)
    (hx : ∀ u ∈ x, Composed V h s anywhere u) (hy : ∀ u ∈ y, Composed V h s anywhere u) :
    Simple V h s (Target.typeParameter (h.text .name) x y)
  | exportDefault {u} (hh : h.is .declareExportDeclaration = true) (hu : Held V s .declaration u) :
    Simple V h s (Target.exportDefault u)
  | exportNamed {x us y} (hh : h.is .declareExportDeclaration = true)
    (hx : ∀ u ∈ x, Held V s .declaration u) (hus : ∀ u ∈ us, Composed V h s anywhere u)
    (hy : ∀ u ∈ y, Composed V h s anywhere u) : Simple V h s (Target.exportNamed x us y)

/-- **What the rule of a construct makes**, without its comments and span, with a number of ambient
contexts around. -/
inductive Made (V : View) (d : Nat) (h : Head) (s : Slots Outcome) : Node → Prop where
  | simple {v} (hv : Simple V h s v) : Made V d h s v
  | typeAlias {t id ps ty} (hh : h.is t = true)
    (ht : t ∈ [.typeAlias, .opaqueType, .declareTypeAlias, .declareOpaqueType])
    (hid : Held V s .id id) (hps : ∀ u ∈ ps, Held V s .typeParameters u)
    (hty : Composed V h s (· ∈ declarationFields) ty) :
    Made V d h s (Target.typeAlias id ps ty (h.isAny declareTags && d == 0))
  | interfaceDeclaration {t id ps parents us} (hh : h.is t = true)
    (ht : t ∈ [.interfaceDeclaration, .declareInterface]) (hid : Held V s .id id)
    (hps : ∀ u ∈ ps, Held V s .typeParameters u) (hparents : ∀ u ∈ parents, Held V s .heritage u)
    (hus : ∀ u ∈ us, Composed V h s (· ∈ declarationFields) u) :
    Made V d h s (Target.interfaceDeclaration id ps parents
      (atOrigin (s.child .body).head (Target.interfaceBody us)) (h.isAny declareTags && d == 0))
  | classDeclaration {id ps contracts us} {x y : Option Node} (hh : h.is .declareClass = true)
    (hid : Held V s .id id) (hx : ∀ u ∈ x, Composed V h s (· ∈ declarationFields) u)
    (hy : ∀ u ∈ y, Composed V h s (· ∈ declarationFields) u)
    (hps : ∀ u ∈ ps, Held V s .typeParameters u)
    (hcontracts : ∀ u ∈ contracts, Held V s .implements u)
    (hus : ∀ u ∈ us, ∃ c, Fills s .body c ∧ MemberOf V c.head c.slots u) :
    Made V d h s (Target.classDeclaration (some id) x y ps contracts
      (atOrigin (s.child .body).head (Target.classBody us)) (d == 0))
  | declaredVariable {id} (hh : h.is .declareVariable = true) (hid : Held V s .id id) :
    Made V d h s (Target.variableDeclaration .var [Target.declarator id none] (d == 0))
  | declaredFunction {name sig} (hh : h.is .declareFunction = true) (hsig : SignatureOf V h s sig) :
    Made V d h s (Target.declareFunction (atOrigin (s.child .id).head (Target.ident name))
      sig.typeParameters sig.parameters (some sig.returnType) (d == 0) false false)
  | declaredModule {id us} (hh : h.is .declareModule = true) (hid : Held V s .id id)
    (hus : ∀ u ∈ us, ∃ c ∈ moduleStatements s, Listing V c u) :
    Made V d h s (Target.moduleDeclaration id
      (atOrigin (s.child .body).head (Target.moduleBlock us)) (d == 0))
  | passed (hh : V.refused h) : Made V d h s (Convert.passed h)
  /-- A construct of both vocabularies. -/
  | shared {t : Tag} (ht : h.is t = true) (htarget : t.isIn .target = true) (st : State)
    (hs : ∀ e ∈ (convertShared t h s st).1.slots, Filled V t s e.1 e.2) :
    Made V d h s (convertShared t h s st).1

/-! ### Knowing more -/

section Mono

variable {V V' : View} (hle : V.Le V')
include hle

theorem Held.mono {s : Slots Outcome} {f : Field} {v : Node} : Held V s f v → Held V' s f v :=
  fun ⟨c, hc, hv⟩ => ⟨c, hc, hle.convert hv⟩

theorem References.mono {h : Head} {s : Slots Outcome} {u : Node} {x : Option Node}
    (hh : References V h s u x) : References V' h s u x where
  isReference := hh.isReference
  name := hh.name.mono hle
  arguments a ha := (hh.arguments a ha).mono hle
  nameRun := hh.nameRun
  argumentsRun := hh.argumentsRun

theorem Listing.mono {c : Part} {v : Node} : Listing V c v → Listing V' c v :=
  Or.imp hle.convert hle.exported

theorem Composed.mono {h : Head} {s : Slots Outcome} {F : Field → Prop} {v : Node}
    (hv : Composed V h s F v) : Composed V' h s F v := by
  induction hv with
  | part hf hv => exact .part hf (hv.mono hle)
  | value hf hc hx => exact .value hf hc (hle.chain hx)
  | guard hf hc hx hg => exact .guard hf hc (hle.chain hx) hg
  | piece hf hc hx hm hk => exact .piece hf hc (hle.chain hx) hm hk
  | object hf hc hx => exact .object hf hc (hle.access hx)
  | entity hf hc hv => exact .entity hf hc (hle.entity hv)
  | taken hf hv hu => exact .taken hf (hv.mono hle) hu
  | within hf hc _ ih => exact .within hf hc ih
  | node htag _ ih => exact .node htag ih
  | member _ _ isComputed iha ihb => exact .member iha ihb isComputed
  | cast _ _ hany ihe ihty => exact .cast ihe ihty hany
  | assign hn _ ih => exact .assign (hle.temporary hn) ih
  | reference hh => exact .reference (hh.mono hle)
  | introduced hh _ ih => exact .introduced hh ih
  | dress _ htag hbare ih => exact .dress ih htag hbare
  | wrap _ c ih => exact .wrap ih c

theorem SignatureOf.mono {h : Head} {s : Slots Outcome} {sig : Signature}
    (hsig : SignatureOf V h s sig) : SignatureOf V' h s sig := by
  induction hsig with
  | here hh hps hparameters hreturn =>
    exact .here hh (fun u hu => (hps u hu).mono hle) (fun u hu => (hparameters u hu).mono hle)
      (hreturn.mono hle)
  | part hc _ ih => exact .part hc ih

theorem MemberOf.mono {h : Head} {s : Slots Outcome} {u : Node} (hu : MemberOf V h s u) :
    MemberOf V' h s u := by
  induction hu with
  | plain hu => exact .plain (hu.mono hle)
  | method b c hkey hsig hx => exact .method b c (hkey.mono hle) (hsig.mono hle) hx
  | part hc _ ih => exact .part hc ih

theorem Exported.mono {d : Nat} {h : Head} {s : Slots Outcome} {v : Node}
    (hv : Exported V d h s v) : Exported V' d h s v := by
  cases hv with
  | constant hname hty => exact .constant (hle.exports hname) (hty.mono hle)
  | assignment hname => exact .assignment (hle.exports hname)

theorem Filled.mono {t : Tag} {s : Slots Outcome} {f : Field} {slot : Slot Node}
    (hslot : Filled V t s f slot) : Filled V' t s f slot := by
  cases hslot with
  | empty => exact .empty
  | parts hbody hslot => exact .parts hbody fun u hu => (hslot u hu).mono hle
  | bodies ht hf hslot =>
    refine .bodies ht hf fun u hu => ?_
    obtain ⟨c, hc, hu⟩ := hslot u hu
    exact ⟨c, hc, hle.body hu⟩
  | statements ht hf hcs hus => exact .statements ht hf hcs (hle.program hus)

theorem Held.mono_all {s : Slots Outcome} {f : Field} {us : List Node}
    (hus : ∀ u ∈ us, Held V s f u) : ∀ u ∈ us, Held V' s f u := fun u hu => (hus u hu).mono hle

theorem Held.mono_option {s : Slots Outcome} {f : Field} {x : Option Node}
    (hx : ∀ u ∈ x, Held V s f u) : ∀ u ∈ x, Held V' s f u := fun u hu => (hx u hu).mono hle

theorem Composed.mono_all {h : Head} {s : Slots Outcome} {F : Field → Prop} {us : List Node}
    (hus : ∀ u ∈ us, Composed V h s F u) : ∀ u ∈ us, Composed V' h s F u :=
  fun u hu => (hus u hu).mono hle

theorem Composed.mono_option {h : Head} {s : Slots Outcome} {F : Field → Prop} {x : Option Node}
    (hx : ∀ u ∈ x, Composed V h s F u) : ∀ u ∈ x, Composed V' h s F u :=
  fun u hu => (hx u hu).mono hle

theorem Simple.mono {h : Head} {s : Slots Outcome} {v : Node} (hv : Simple V h s v) :
    Simple V' h s v := by
  induction hv with
  | node htag hname hs => exact .node htag hname fun c hc => (hs c hc).mono hle
  | member ha hb isComputed => exact .member (ha.mono hle) (hb.mono hle) isComputed
  | cast he hty hany => exact .cast (he.mono hle) (hty.mono hle) hany
  | dress _ htag hbare ih => exact .dress ih htag hbare
  | wrap _ c ih => exact .wrap ih c
  | type ht hf hv => exact .type ht hf (hv.mono hle)
  | typeBelow hc ht hf hv => exact .typeBelow hc ht hf (hv.mono hle)
  | intersect _ ih => exact .intersect ih
  | guarded hg _ ih => exact .guarded (hg.mono hle) ih
  | maybeUndefined _ ih => exact .maybeUndefined ih
  | reference hh => exact .reference (hh.mono hle)
  | introduced hh hu => exact .introduced hh (hu.mono hle)
  | functionType hsig => exact .functionType (hsig.mono hle)
  | callSignature hsig => exact .callSignature (hsig.mono hle)
  | accessor b hkey hsig hx => exact .accessor b (hkey.mono hle) (hsig.mono hle) hx
  | typeParameters hh hus => exact .typeParameters hh (Held.mono_all hle hus)
  | typeParameter hh hx hy =>
    exact .typeParameter hh (Composed.mono_option hle hx) (Composed.mono_option hle hy)
  | exportDefault hh hu => exact .exportDefault hh (hu.mono hle)
  | exportNamed hh hx hus hy =>
    exact .exportNamed hh (Held.mono_option hle hx) (Composed.mono_all hle hus)
      (Composed.mono_option hle hy)

theorem Made.mono {d : Nat} {h : Head} {s : Slots Outcome} {v : Node} (hv : Made V d h s v) :
    Made V' d h s v := by
  cases hv with
  | simple hv => exact .simple (hv.mono hle)
  | typeAlias hh ht hid hps hty =>
    exact .typeAlias hh ht (hid.mono hle) (Held.mono_option hle hps) (hty.mono hle)
  | interfaceDeclaration hh ht hid hps hparents hus =>
    exact .interfaceDeclaration hh ht (hid.mono hle) (Held.mono_option hle hps)
      (Held.mono_all hle hparents) (Composed.mono_all hle hus)
  | classDeclaration hh hid hx hy hps hcontracts hus =>
    refine .classDeclaration hh (hid.mono hle) (Composed.mono_option hle hx)
      (Composed.mono_option hle hy) (Held.mono_option hle hps) (Held.mono_all hle hcontracts) ?_
    intro u hu
    obtain ⟨c, hc, hu⟩ := hus u hu
    exact ⟨c, hc, hu.mono hle⟩
  | declaredVariable hh hid => exact .declaredVariable hh (hid.mono hle)
  | declaredFunction hh hsig => exact .declaredFunction hh (hsig.mono hle)
  | declaredModule hh hid hus =>
    refine .declaredModule hh (hid.mono hle) fun u hu => ?_
    obtain ⟨c, hc, hu⟩ := hus u hu
    exact ⟨c, hc, hu.mono hle⟩
  | passed hh => exact .passed (hle.refused hh)
  | shared ht htarget st hs => exact .shared ht htarget st fun e he => (hs e he).mono hle

end Mono

end Typeshift.Convert
