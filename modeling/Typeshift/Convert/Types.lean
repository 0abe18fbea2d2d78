import Typeshift.Convert.Part

/-! # Converting types

* `signature?`: the parameters and the result of a function type, to be placed in any construct that
  has them.
* `convertGeneric`: references to types, among them the utilities that have a counterpart.
* `accessStep`: a link of an optional access to a type.
* `convertObject`: object types; spreads split them into an intersection.
* `convertCast`: casts, which go through `any`. -/

namespace Typeshift.Convert

/-- Convert a type, looking through an ascription. -/
def bareType (t : Part) : Pass Node := do
  if t.head.is .ascription then
    return Node.wrapComments t.head.comments (← child t.slots .ty)
  else convertPart t

/-- Convert a type for the place of an ascription. -/
def ascribed (t : Part) : Pass Node := return Target.ascribe (← bareType t)

/-! ### Function types -/

/-- The converted parts of a function type. -/
structure Signature where
  typeParameters : Option Node
  parameters : List Node
  returnType : Node

/-- The base of the names of parameters that have none. -/
def parameterBase : String := "a"

/-- The name of a parameter of a function type, if it has one. -/
def parameterName? (t : Part) : Option String :=
  if t.head.is .functionTypeParam then (t.slots.child? .name).bind (·.head.identifier?) else none

/-- The name of a parameter, a fresh one if it has none. -/
def parameterName (names : Names) (t : Part) : String × Names :=
  match parameterName? t with
  | some name => (name, names)
  | none => names.fresh parameterBase

/-- Convert the parameters of a function type, naming those without a name. -/
def convertParameters (names : Names) : List Part → Pass (List Node × Names)
  | [] => pure ([], names)
  | t :: rest => do
    if t.head.is .functionTypeParam then
      let (name, names) := parameterName names t
      let ty ← ascribed (t.slots.child .ty)
      let node := atOrigin t.head (Target.param name (some ty) (t.head.flag .isOptional))
      let (nodes, names) ← convertParameters names rest
      return (node :: nodes, names)
    else
      let node ← convertPart t
      let (nodes, names) ← convertParameters names rest
      return (node :: nodes, names)

/-- Convert the type of the receiver of a function type to its first parameter. -/
def convertReceiver : Option Part → Pass (List Node)
  | none => pure []
  | some t => do
    let ty ← ascribed (if t.head.is .functionTypeParam then t.slots.child .ty else t)
    return [(Target.param "this" (some ty) false).withSpan t.head.span]

/-- Convert the rest parameter of a function type; `none` if it is no parameter. -/
def convertRest (names : Names) : Option Part → Pass (Option (List Node))
  | none => pure (some [])
  | some t => do
    if t.head.is .functionTypeParam then
      let ty ← ascribed (t.slots.child .ty)
      return some [atOrigin t.head (Target.rest (Target.ident (parameterName names t).1) (some ty))]
    else return none

/-- **The signature of a function type**, `none` for other types. Parameters without a name get one
that no named parameter has. -/
def signature? (t : Part) : Pass (Option Signature) := do
  if !t.head.is .functionType then return none
  let params := t.slots.children .params
  let rest := t.slots.child? .rest
  let names := Names.ofList ((params ++ rest.toList).filterMap parameterName?)
  let receiver ← convertReceiver (t.slots.child? .receiver)
  let (parameters, names) ← convertParameters names params
  match ← convertRest names rest with
  | none => return none
  | some rest =>
    let typeParameters ← child? t.slots .typeParameters
    let returnType ← ascribed (t.slots.child .returnType)
    return some ⟨typeParameters, receiver ++ parameters ++ rest, returnType⟩

/-! ### References -/

/-- Convert a utility type that has a counterpart. -/
def convertUtility? (name : String) (args : List Part) : Pass (Option Node) := do
  match name, args with
  | "$Keys", [t] => return some (Target.keyof (← convertPart t))
  | "$Values", [t] =>
    let ty ← convertPart t
    return some (Target.indexedAccess ty (Target.keyof ty))
  | "$Diff", [_, _] => return some Target.any
  | "$Exact", [t] => return some (← convertPart t)
  | "$ReadOnly", [t] => return some (Target.namedReference "Readonly" [← convertPart t])
  | "$ReadOnlyArray", [t] => return some (Target.namedReference "ReadonlyArray" [← convertPart t])
  | "$Shape", [t] => return some (Target.namedReference "Partial" [← convertPart t])
  | "$NonMaybeType", [t] => return some (Target.namedReference "NonNullable" [← convertPart t])
  | "$PropertyType", [t, k] | "$ElementType", [t, k] =>
    let ty ← convertPart t
    return some (Target.indexedAccess ty (← convertPart k))
  | _, _ => return none

/-- The type arguments of a reference. -/
def typeArguments (s : Slots Outcome) : List Part :=
  match s.child? .typeParameters with
  | some t => if t.head.is .typeParameterInstantiation then t.slots.children .params else []
  | none => []

/-- Convert a reference with its arguments; the arguments are converted first. -/
def convertReference (s : Slots Outcome) : Pass Node := do
  let params ← child? s .typeParameters
  return Target.typeReference (← child s .id) params

/-- **Convert a reference to a type.** -/
def convertGeneric (s : Slots Outcome) : Pass Node := do
  let utility ← match (s.child .id).head.identifier? with
    | some name => convertUtility? name (typeArguments s)
    | none => pure none
  match utility with
  | some t => return t
  | none => convertReference s

/-- What a `typeof` type names. -/
def convertTypeof (argument : Part) : Pass Node := do
  if argument.head.is .genericType then
    return Node.wrapComments argument.head.comments (← child argument.slots .id)
  else convertPart argument

/-! ### Optional access -/

/-- **One link of an optional access to a type**, after those before it. An optional link reads from
the part that is not null, and the whole may then be `undefined`. -/
def accessStep (h : Head) (s : Slots Outcome) : Pass (Node × Bool) := do
  let base := s.child .objectType
  let (object, inherited) ← base.note.access
  let object := if base.head.is .optionalIndexedAccessType then object.withSpan base.head.span
    else object
  let isOptional := h.flag .isOptional
  let object := if isOptional then Target.namedReference "NonNullable" [object] else object
  return (Target.indexedAccess object (← child s .indexType), inherited || isOptional)

/-- The type of a whole access. -/
def closeAccess (access : Node) (maybeUndefined : Bool) : Node :=
  if maybeUndefined then Target.union [access, Target.undefined] else access

/-! ### Object types -/

/-- A single type, or the intersection of several. -/
def intersect : List Node → Node
  | [t] => t
  | ts => Target.intersection ts

/-- A type literal of some members, left out if there are none. -/
def literalOf (members : List Node) : List Node :=
  if members.isEmpty then [] else [Target.typeLiteral members]

/-- Convert the properties of an object type: the parts that spreads divide it into, and the members
after the last of them. -/
def convertProperties (members : List Node) : List Part → Pass (List Node × List Node)
  | [] => pure ([], members)
  | t :: rest => do
    if t.head.is .objectTypeSpreadProperty then
      let spread := Node.wrapComments t.head.comments (← child t.slots .argument)
      let (parts, last) ← convertProperties [] rest
      return (literalOf members ++ spread :: parts, last)
    else
      let member ← convertPart t
      convertProperties (members ++ [member]) rest

/-- **Convert an object type.** Spreads split it, in the order of the source:
`{ a: A, ...B, c: C }` becomes `{ a: A } & B & { c: C }`. -/
def convertObject (s : Slots Outcome) : Pass Node := do
  let (parts, members) ← convertProperties [] (s.children .properties)
  let indexers ← children s .indexers
  let calls ← children s .callProperties
  let members := members ++ indexers ++ calls
  let last := if parts.isEmpty then [Target.typeLiteral members] else literalOf members
  return intersect (parts ++ last)

/-- Convert the properties of a body that cannot be split; spreads are reported and left out. -/
def convertUnsplit : List Part → Pass (List Node)
  | [] => pure []
  | t :: rest => do
    if t.head.is .objectTypeSpreadProperty then
      report .unsupportedNode t.head [t.head.name]
      convertUnsplit rest
    else
      let member ← convertPart t
      return member :: (← convertUnsplit rest)

/-- Convert the members of the body of an interface. -/
def convertMembers (body : Part) : Pass (List Node) := do
  if body.head.is .objectType then
    let properties ← convertUnsplit (body.slots.children .properties)
    let indexers ← children body.slots .indexers
    let calls ← children body.slots .callProperties
    return properties ++ indexers ++ calls
  else
    return (← convertPart body).slots.children .members

/-- Convert a property of an object type; `none` for an accessor without a function type. -/
def convertProperty? (h : Head) (s : Slots Outcome) : Pass (Option Node) := do
  let isOptional := h.flag .isOptional
  let accessor (kind : Word) : Pass (Option Node) := do
    match ← signature? (s.child .value) with
    | none => return none
    | some sig =>
      let key ← child s .key
      let result := if kind = .get then some sig.returnType else none
      return some (Target.methodSignature key false isOptional kind sig.typeParameters
        sig.parameters result)
  match h.word? .kind with
  | some .get => accessor .get
  | some .set => accessor .set
  | _ =>
    let key ← child s .key
    let ty ← ascribed (s.child .value)
    return some (Target.propertySignature key false isOptional (isReadOnly s) (some ty))

/-- Convert an indexer. The key of an index signature is a string if it is not a basic type. -/
def convertIndexer (h : Head) (s : Slots Outcome) : Pass Node := do
  let name := ((s.child? .id).bind (·.head.identifier?)).getD "key"
  let key := s.child .key
  let keyType ← if key.head.is .genericType then pure Target.string else convertPart key
  let ty ← ascribed (s.child .value)
  return Target.indexSignature [Target.param name (some (Target.ascribe keyType)) false] (some ty)
    (isReadOnly s) (h.flag .isStatic)

/-- Convert a call property; `none` if it has no function type. -/
def convertCall? (s : Slots Outcome) : Pass (Option Node) := do
  match ← signature? (s.child .value) with
  | none => return none
  | some sig =>
    return some (Target.callSignature sig.typeParameters sig.parameters (some sig.returnType))

/-- Convert a function type; `none` if its rest parameter is no parameter. -/
def convertFunction? (t : Part) : Pass (Option Node) := do
  match ← signature? t with
  | none => return none
  | some sig => return some (Target.functionType sig.typeParameters sig.parameters sig.returnType)

/-- Convert a parent of an interface to a reference to its type. -/
def convertParent (t : Part) : Pass Node := do
  if t.head.is .interfaceExtends then return atOrigin t.head (← convertReference t.slots)
  else convertPart t

/-- Convert an interface that is a type of its own. -/
def convertInterfaceType (s : Slots Outcome) : Pass Node := do
  let parents ← (s.children .heritage).mapM convertParent
  return intersect (parents ++ [← child s .body])

/-! ### Literals and casts -/

/-- The digits of a bigint literal type; without a value they are found in the source text. -/
def bigIntDigits (h : Head) : String :=
  match h.text? .value, h.raw? with
  | some digits, _ => digits
  | none, some raw => String.ofList (raw.toList.reverse.dropWhile (· == 'n')).reverse
  | none, none => ""

/-- The literal inside a literal type. -/
def literalNode (h : Head) (t : Tag) (value : Option Attr) : Node :=
  Node.of t
    ((value.toList.map fun a => (Field.value, a))
      ++ (h.attr? .extra).toList.map fun a => (Field.extra, a)) []

/-- Whether an expression is a cast to `any`, given the answer for its parts. -/
def anyCastRule (h : Head) (s : Slots Bool) : Bool :=
  match h.tag? with
  | some .parenthesizedExpression => ((s.child? .expression).map Tree.note).getD false
  | some .tsAsExpression => ((s.child? .ty).map (·.head.is .tsAnyKeyword)).getD false
  | _ => false

/-- Whether an expression is a cast to `any`, in parentheses or not. -/
def isAnyCast (t : Node) : Bool := t.synthesize anyCastRule

/-- **Convert a cast.** `(e: T)` becomes `((e as any) as T)`; the step through `any` is left out if
`T` is `any` or if `e` is such a cast already. -/
def convertCast (s : Slots Outcome) : Pass Node := do
  let ty ← bareType (s.child .ty)
  let e ← child s .expression
  let widened := if ty.head.is .tsAnyKeyword || isAnyCast e then e
    else Target.paren (Target.cast e Target.any)
  return Target.paren (Target.cast widened ty)

end Typeshift.Convert
