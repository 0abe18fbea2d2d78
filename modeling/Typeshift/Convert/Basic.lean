import Typeshift.Convert.Shared
import Typeshift.Tree.Names

/-! # Conversion

A source tree is rebuilt in the target vocabulary. Every construct has a rule; what is not known, or
has no counterpart where it stands, is passed through and reported. Comments and spans are carried
over.

* `convertNode`: the rule of every construct.
* `Node.convert`: the converted tree and the diagnostics. -/

namespace Typeshift

namespace Convert

/-- **The rule of a construct**, without its comments and span. -/
def convertNode (h : Head) (s : Slots Outcome) : Pass Node :=
  match h.tag? with
  | none => unsupported h
  | some t =>
    if t.isIn .target then convertShared t h s else
    match t with
    -- Expressions
    | .optionalMemberExpression | .optionalCallExpression => do
      let (value, guard) ← chainStep h s
      return closeChain value guard
    | .typeCastExpression => convertCast s
    -- Declarations
    | .classImplements | .interfaceExtends => do
      let e ← child s .id
      return Target.heritage e (← child? s .typeParameters)
    | .typeAlias => convertTypeAlias s .right false
    | .opaqueType => convertTypeAlias s .impltype false
    | .declareTypeAlias => do convertTypeAlias s .right (← declares)
    | .declareOpaqueType => convertOpaque s
    | .interfaceDeclaration => convertInterface s false
    | .declareInterface => do convertInterface s (← declares)
    | .declareVariable => convertVariable s
    | .declareFunction => orUnsupported h (convertDeclaredFunction? s)
    | .declareClass => convertClass s
    | .declareModule => convertModule s
    | .declareExportDeclaration => orUnsupported h (convertExport? h s)
    | .declareExportAllDeclaration => do
      return Target.exportAll (← child s .source) ((h.word? .exportKind).getD .value)
    -- Parameters and arguments of types
    | .ascription => do return Node.of .tsAscription [] [(.ty, .one (← child s .ty))]
    | .typeParameterDeclaration => do return Target.typeParameters (← children s .params)
    | .typeParameterInstantiation => do return Target.typeArguments (← children s .params)
    | .typeParameter => do
      let constraint ← match s.child? .bound with
        | some t => some <$> bareType t
        | none => pure none
      return Target.typeParameter (h.text .name) constraint (← child? s .default)
    -- Basic and literal types
    | .anyType | .mixedType | .existsType => return Target.any
    | .emptyType => return Node.leaf .tsNeverKeyword
    | .voidType => return Node.leaf .tsVoidKeyword
    | .nullType => return Target.null
    | .numberType => return Node.leaf .tsNumberKeyword
    | .stringType => return Target.string
    | .booleanType => return Node.leaf .tsBooleanKeyword
    | .symbolType => return Node.leaf .tsSymbolKeyword
    | .bigIntType => return Node.leaf .tsBigIntKeyword
    | .thisType => return Node.leaf .tsThisType
    | .stringLiteralType =>
      return Target.literalType (literalNode h .stringLiteral (h.attr? .value))
    | .numberLiteralType =>
      return Target.literalType (literalNode h .numericLiteral (h.attr? .value))
    | .booleanLiteralType =>
      return Target.literalType (literalNode h .booleanLiteral (h.attr? .value))
    | .bigIntLiteralType =>
      return Target.literalType (literalNode h .bigIntLiteral (some (.text (bigIntDigits h))))
    -- Types made of types
    | .nullableType => do
      return Target.union [← child s .ty, Target.null, Target.undefined]
    | .arrayType => do return Target.arrayType (← child s .elementType)
    | .tupleType => do return Target.tupleType (← children s .types)
    | .unionType => do return Target.union (← children s .types)
    | .intersectionType => do return Target.intersection (← children s .types)
    | .typeofType => do return Target.typeQuery (← convertTypeof (s.child .argument))
    | .indexedAccessType => do
      let object ← child s .objectType
      return Target.indexedAccess object (← child s .indexType)
    | .optionalIndexedAccessType => do
      let (access, maybeUndefined) ← accessStep h s
      return closeAccess access maybeUndefined
    | .functionType => orUnsupported h (convertFunction? (.mk default h s))
    | .genericType => convertGeneric s
    | .qualifiedTypeIdentifier => do
      let left ← child s .qualification
      return Target.qualifiedName left (← child s .id)
    | .objectType => convertObject s
    | .objectTypeProperty => orUnsupported h (convertProperty? h s)
    | .objectTypeIndexer => convertIndexer h s
    | .objectTypeCallProperty => orUnsupported h (convertCall? s)
    | .interfaceType => convertInterfaceType s
    -- Parts that only mean something to the construct around them
    | _ => unsupported h

/-- What a node offers to the construct around it. -/
def outcome (h : Head) (s : Slots Outcome) : Outcome :=
  let convert := attach h <$> convertNode h s
  { convert := convert
    chain := if h.isAny [.optionalMemberExpression, .optionalCallExpression] then chainStep h s
      else (·, none) <$> convert
    access := if h.is .optionalIndexedAccessType then accessStep h s else (·, false) <$> convert
    entity := if h.is .qualifiedTypeIdentifier then entityStep h s else convert }

/-- Convert a tree in some state. -/
def convertTree (t : Node) : Pass Node := (t.synthesize outcome).convert

/-- A converted tree and what was found on the way. -/
structure Conversion where
  tree : Node
  diagnostics : List Diagnostic

end Convert

/-- **Convert a tree.** Names that are made up differ from all names of the tree. -/
def Node.convert (t : Node) : Convert.Conversion :=
  let (tree, st) := Convert.convertTree t (.start t.names)
  ⟨tree, st.diagnostics⟩

end Typeshift
