import Typeshift.Convert.Types

/-! # Converting declarations

Interfaces, declared classes and functions, modules and declared exports. Inside a module and after
`export default` declarations are ambient by where they stand and do not say so again. -/

namespace Typeshift.Convert

/-- Convert the declaration of a type. -/
def convertTypeAlias (s : Slots Outcome) (type : Field) (isDeclare : Bool) : Pass Node := do
  let id ← child s .id
  let typeParameters ← child? s .typeParameters
  return Target.typeAlias id typeParameters (← child s type) isDeclare

/-- Convert a declared opaque type: its definition or else its bound is the type, converted first;
without either it is `any`. -/
def convertOpaque (s : Slots Outcome) : Pass Node := do
  let ty ← match s.child? .impltype <|> s.child? .supertype with
    | some t => convertPart t
    | none => pure Target.any
  let id ← child s .id
  let typeParameters ← child? s .typeParameters
  return Target.typeAlias id typeParameters ty (← declares)

/-- Convert an interface; its members are converted first. -/
def convertInterface (s : Slots Outcome) (isDeclare : Bool) : Pass Node := do
  let body := s.child .body
  let members ← convertMembers body
  let id ← child s .id
  let typeParameters ← child? s .typeParameters
  let parents ← children s .heritage
  return Target.interfaceDeclaration id typeParameters parents
    (atOrigin body.head (Target.interfaceBody members)) isDeclare

/-- Convert a declared variable. -/
def convertVariable (s : Slots Outcome) : Pass Node := do
  let id ← child s .id
  return Target.variableDeclaration .var [Target.declarator id none] (← declares)

/-- Convert a declared function, whose type stands in the annotation of its name; `none` if there is
no function type. -/
def convertDeclaredFunction? (s : Slots Outcome) : Pass (Option Node) := do
  let id := s.child .id
  match id.head.identifier?, id.slots.child? .ty with
  | some name, some ty =>
    let type := if ty.head.is .ascription then ty.slots.child .ty else ty
    match ← signature? type with
    | none => return none
    | some sig =>
      return some (Target.declareFunction (atOrigin id.head (Target.ident name))
        sig.typeParameters sig.parameters (some sig.returnType) (← declares) false false)
  | _, _ => return none

/-! ### Classes -/

/-- The dotted name of a parent, given those of its parts. -/
def parentNameRule (h : Head) (s : Slots String) : String :=
  let name (f : Field) := ((s.child? f).map Tree.note).getD ""
  match h.tag? with
  | some .interfaceExtends => name .id
  | some .qualifiedTypeIdentifier => name .qualification ++ "." ++ name .id
  | _ => h.identifier?.getD ""

/-- The dotted name of a parent. -/
def parentName (t : Part) : String := t.synthesize parentNameRule

/-- Report what a class cannot inherit from: it has one parent, and no mixins. -/
def reportDropped (className : String) (parents mixins : List Part) : Pass Unit := do
  for t in parents.drop 1 do
    report .classHeritageDropped t.head ["Extended class", parentName t, className]
  for t in mixins do
    report .classHeritageDropped t.head ["Mixin", parentName t, className]

/-- The name of a type as an expression: `A.B` is a member access. -/
def entityStep (h : Head) (s : Slots Outcome) : Pass Node := do
  let object ← (s.child .qualification).note.entity
  return (Target.member object (← child s .id) false).withSpan h.span

/-- What kind of method a property of a declared class is, `none` if it is none. -/
def methodKind? (h : Head) (s : Slots Outcome) : Option Word :=
  match h.word? .kind with
  | some .get => some .get
  | some .set => some .set
  | _ =>
    if !h.flag .isMethod then none
    else if !h.flag .isStatic && (s.child .key).head.identifier? == some "constructor" then
      some .constructor
    else some .method

/-- The kind and the signature of a property of a declared class that is a method. -/
def methodSignature? (h : Head) (s : Slots Outcome) : Pass (Option (Word × Signature)) := do
  match methodKind? h s with
  | none => return none
  | some kind =>
    let sig ← signature? (s.child .value)
    return sig.map (kind, ·)

/-- Convert a property of a declared class. One that should be a method, and has no function type,
stays a property. -/
def convertClassMember (t : Part) : Pass Node := do
  let h := t.head
  let s := t.slots
  let isOptional := h.flag .isOptional
  let isStatic := h.flag .isStatic
  match ← methodSignature? h s with
  | some (kind, sig) =>
    let key ← child s .key
    let result := if kind = .constructor || kind = .set then none else some sig.returnType
    return atOrigin h (Target.declareMethod kind key sig.parameters false isStatic isOptional
      sig.typeParameters result)
  | none =>
    let key ← child s .key
    let ty ← ascribed (s.child .value)
    return atOrigin h (Target.classProperty key (some ty) isStatic (isReadOnly s) isOptional)

/-- Convert the properties of a declared class; others are reported and left out. -/
def convertClassProperties : List Part → Pass (List Node)
  | [] => pure []
  | t :: rest => do
    if t.head.is .objectTypeProperty then
      let member ← convertClassMember t
      return member :: (← convertClassProperties rest)
    else
      report .unsupportedNode t.head [t.head.name]
      convertClassProperties rest

/-- Convert the members of a declared class. Call properties are reported and left out. -/
def convertClassMembers (className : String) (body : Part) : Pass (List Node) := do
  if !body.head.is .objectType then return []
  let properties ← convertClassProperties (body.slots.children .properties)
  let indexers ← children body.slots .indexers
  for t in body.slots.children .callProperties do
    report .callPropertyDropped t.head [className]
  return properties ++ indexers

/-- Convert a declared class. -/
def convertClass (s : Slots Outcome) : Pass Node := do
  let className := (s.child .id).head.identifier?.getD ""
  let parents := s.children .heritage
  reportDropped className parents (s.children .mixins)
  let (superClass, superTypeParameters) ← match parents.head? with
    | some t =>
      if t.head.is .interfaceExtends then do
        let e ← (t.slots.child .id).note.entity
        pure (some e, ← child? t.slots .typeParameters)
      else pure (none, none)
    | none => pure (none, none)
  let body := s.child .body
  let members ← convertClassMembers className body
  let id ← child s .id
  let typeParameters ← child? s .typeParameters
  let contracts ← children s .implements
  return Target.classDeclaration (some id) superClass superTypeParameters typeParameters contracts
    (atOrigin body.head (Target.classBody members)) (← declares)

/-! ### Modules and exports -/

/-- The base of the name of the constant that stands for what a module exports as a whole. -/
def exportsBase : String := "_exports"

/-- Convert the type of what a module exports as a whole: a constant of that type, and the export
of the constant. -/
def convertModuleExports (h : Head) (s : Slots Outcome) : Pass (List Node) := do
  let name ← freshName exportsBase
  let ty := Target.ascribe (← child s .ty)
  let constant := Target.declarator (Target.param name (some ty) false) none
  return [atOrigin h (Target.variableDeclaration .const [constant] (← declares)),
    (Target.exportAssignment (Target.ident name)).withSpan h.span]

/-- Convert the statements of a list. -/
def convertStatements : List Part → Pass (List Node)
  | [] => pure []
  | t :: rest => do
    if t.head.is .declareModuleExports then
      let nodes ← convertModuleExports t.head t.slots
      return nodes ++ (← convertStatements rest)
    else
      let node ← convertPart t
      return node :: (← convertStatements rest)

/-- Convert a declared module, whose body is ambient and converted first. -/
def convertModule (s : Slots Outcome) : Pass Node := do
  let isDeclare ← declares
  let body := s.child .body
  let statements := if body.head.is .blockStatement then body.slots.children .body else [body]
  let converted ← inAmbient (convertStatements statements)
  let id ← child s .id
  return Target.moduleDeclaration id (atOrigin body.head (Target.moduleBlock converted)) isDeclare

/-- Whether a declaration may be exported as the default. -/
def isDefaultExportable (h : Head) : Bool :=
  h.isAny [.declareFunction, .declareClass, .functionDeclaration, .classDeclaration]

/-- Convert a declared export; `none` for a default export of anything but a function or a class. -/
def convertExport? (h : Head) (s : Slots Outcome) : Pass (Option Node) := do
  if h.flag .default then
    match s.child? .declaration with
    | some t =>
      if isDefaultExportable t.head then
        return some (Target.exportDefault (← inAmbient (convertPart t)))
      else return none
    | none => return none
  else
    let declaration ← child? s .declaration
    let specifiers ← children s .specifiers
    let source ← child? s .source
    return some (Target.exportNamed declaration specifiers source)

end Typeshift.Convert
