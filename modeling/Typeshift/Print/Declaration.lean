import Typeshift.Print.TypeText

/-! # Declarations

Variables, functions, classes and their members, imports and exports, and the declarations of
types. -/

namespace Typeshift.Print

open Script

/-! ### Variables and functions -/

/-- `let a = 1, b`, without what ends a statement. -/
def variablesText (h : Head) (s : Slots Printed) : Script :=
  flagged h .isDeclare "declare " ++ text (((h.word? .kind).map Word.text).getD "") ++ space
    ++ expressions (s.children .declarations) .assignment

/-- ` id`, if there is one. -/
def spacedId (s : Slots Printed) : Script :=
  match s.child? .id with
  | none => []
  | some id => space ++ expression id .primary

/-- `<P>(a, b): T`. -/
def signature (s : Slots Printed) : Script :=
  typeParameters s ++ parameters (s.children .params) ++ ascription (s.child? .returnType)

/-- A function with its body. -/
def functionText (h : Head) (s : Slots Printed) : Script :=
  flagged h .isAsync "async " ++ text (if h.flag .isGenerator then "function*" else "function")
    ++ spacedId s ++ signature s ++ space ++ (s.child .body).note .block

/-- A method, with its body if it has one. -/
def methodText (h : Head) (s : Slots Printed) : Script :=
  flagged h .isStatic "static " ++ accessor h ++ flagged h .isAsync "async "
    ++ flagged h .isGenerator "*" ++ memberName (s.child .key) (h.flag .isComputed)
    ++ flagged h .isOptional "?" ++ signature s ++ after " " (s.child? .body) .block

/-! ### Classes -/

/-- Decorators, each on a line of its own. -/
def decoratorLines (s : Slots Printed) : Script :=
  (s.children .decorators).flatMap fun t => expression t .primary ++ line

/-- A class with its members. -/
def classText (h : Head) (s : Slots Printed) : Script :=
  let parent := match s.child? .superClass with
    | none => []
    | some t => text " extends " ++ expression t .leftHandSide
        ++ typeArguments (s.child? .superTypeParameters)
  let contracts := s.children .implements
  decoratorLines s ++ flagged h .isDeclare "declare " ++ text "class" ++ spacedId s
    ++ typeParameters s ++ parent
    ++ when (!contracts.isEmpty) (text " implements " ++ expressions contracts .primary)
    ++ space ++ (s.child .body).note .classBody

/-- A property of a class. -/
def classPropertyText (h : Head) (s : Slots Printed) : Script :=
  decoratorLines s ++ flagged h .isDeclare "declare " ++ flagged h .isStatic "static "
    ++ flagged h .isReadonly "readonly " ++ memberName (s.child .key) (h.flag .isComputed)
    ++ flagged h .isOptional "?" ++ ascription (s.child? .ty)
    ++ after " = " (s.child? .value) (.expression .assignment false) ++ text ";"

/-- The text of a member of a class. -/
def classMemberText (h : Head) (s : Slots Printed) : Script :=
  match h.tag? with
  | some .classMethod => decoratorLines s ++ methodText h s
  | some .classPrivateMethod => methodText h s
  | some .tsDeclareMethod => methodText h s ++ text ";"
  | some .classProperty | some .classPrivateProperty => classPropertyText h s
  | _ => []

/-! ### Imports and exports -/

/-- Whether a specifier is written without braces. -/
def isBare (h : Head) : Bool :=
  h.isAny [.importDefaultSpecifier, .importNamespaceSpecifier, .exportDefaultSpecifier,
    .exportNamespaceSpecifier]

/-- The specifiers of an import or export: the bare ones first, the named ones in braces. -/
def specifiers (ts : List (Tree Printed)) : Script :=
  let (bare, named) := ts.partition fun t => isBare t.head
  let group := if named.isEmpty then text "\x7b\x7d"
    else between "\x7b " " \x7d" (expressions named .primary)
  expressions bare .primary
    ++ when (bare.isEmpty || !named.isEmpty) (when (!bare.isEmpty) (text ", ") ++ group)

/-- The word after `import` that says what is brought in. -/
def importWord (h : Head) : String :=
  match h.word? .importKind with
  | some .type => "type"
  | some .typeof => "typeof"
  | _ => ""

/-- An import; one without names only runs the module. -/
def importText (o : Options) (h : Head) (s : Slots Printed) : Script :=
  let word := importWord h
  let names := s.children .specifiers
  text "import" ++ when (!word.isEmpty) (text (" " ++ word)) ++ space
    ++ when (!(names.isEmpty && word.isEmpty)) (specifiers names ++ text " from ")
    ++ expression (s.child .source) .primary ++ semicolon o

/-- The text of an export. -/
def exportText (o : Options) (h : Head) (s : Slots Printed) : Script :=
  let isType := h.word? .exportKind == some .type
  match h.tag? with
  | some .exportNamedDeclaration =>
    match s.child? .declaration with
    | some t => text "export " ++ t.note .exported
    | none =>
      text "export " ++ when isType (text "type ") ++ specifiers (s.children .specifiers)
        ++ after " from " (s.child? .source) (.expression .primary false) ++ semicolon o
  | some .exportDefaultDeclaration =>
    let t := s.child .declaration
    text "export default " ++
      if t.head.family = .statement then t.note .exported
      else expression t .assignment ++ semicolon o
  | some .exportAllDeclaration =>
    text (if isType then "export type * from " else "export * from ")
      ++ expression (s.child .source) .primary ++ semicolon o
  | some .tsExportAssignment =>
    text "export = " ++ expression (s.child .expression) .assignment ++ semicolon o
  | _ => []

/-! ### Types and modules -/

/-- The text of a declaration of a type, an interface, a module or a function without body. -/
def declarationText (o : Options) (h : Head) (s : Slots Printed) : Script :=
  let name := expression (s.child .id) .primary
  flagged h .isDeclare "declare " ++
    match h.tag? with
    | some .tsTypeAliasDeclaration =>
      text "type " ++ name ++ typeParameters s ++ text " = " ++ typeText (s.child .ty)
        ++ semicolon o
    | some .tsInterfaceDeclaration =>
      let parents := s.children .heritage
      text "interface " ++ name ++ typeParameters s
        ++ when (!parents.isEmpty) (text " extends " ++ expressions parents .primary)
        ++ space ++ typeText (s.child .body)
    | some .tsModuleDeclaration =>
      text (if (s.child .id).head.is .identifier then "namespace " else "module ") ++ name
        ++ space ++ (s.child .body).note .block
    | some .tsDeclareFunction =>
      flagged h .isAsync "async "
        ++ text (if h.flag .isGenerator then "function* " else "function ") ++ name
        ++ signature s ++ semicolon o
    | _ => []

end Typeshift.Print
