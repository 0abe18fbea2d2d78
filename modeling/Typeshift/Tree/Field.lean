/-! # Fields

The parts of a node are named by *fields*: some hold child nodes, others hold texts, numbers, flags
or words. A field has the same name in JSON wherever it occurs. -/

namespace Typeshift

/-- The fields of both vocabularies. -/
inductive Field where
  | alternate | argument | arguments | isAsync | attributes | isAwait | block | body | bound
  | callProperties | callee | cases | children | closingElement | closingFragment | isComputed
  | consequent | constraint | declaration | declarations | isDeclare | decorators | default
  | isDelegate | directives | discriminant | elementType | elementTypes | elements | isExact
  | exportKind | exported | exprName | expression | expressions | heritage | extra | finalizer
  | flags | isGenerator | handler | id | implements | impltype | importKind | imported | indexType
  | indexers | isInexact | init | internalSlots | interpreter | key | kind | label | left
  | literal | localName | members | metaName | isMethod | mixins | name | nspace | object
  | objectType | openingElement | openingFragment | operator | isOptional | param | parameters
  | params | pattern | predicate | operatorFirst | program | properties | property | isProto
  | qualification | quasi | quasis | isReadonly | rest | returnType | right | isSelfClosing
  | isShorthand | source | sourceType | specifiers | isStatic | superClass | superTypeParameters
  | supertype | tag | isTail | test | receiver | ty | typeArguments | typeName | typeParameters
  | types | update | value | variance
  deriving DecidableEq, Repr, Inhabited

namespace Field

/-- The key of a field in JSON. -/
def jsonKey : Field → String
  | .alternate => "alternate"
  | .argument => "argument"
  | .arguments => "arguments"
  | .isAsync => "async"
  | .attributes => "attributes"
  | .isAwait => "await"
  | .block => "block"
  | .body => "body"
  | .bound => "bound"
  | .callProperties => "callProperties"
  | .callee => "callee"
  | .cases => "cases"
  | .children => "children"
  | .closingElement => "closingElement"
  | .closingFragment => "closingFragment"
  | .isComputed => "computed"
  | .consequent => "consequent"
  | .constraint => "constraint"
  | .declaration => "declaration"
  | .declarations => "declarations"
  | .isDeclare => "declare"
  | .decorators => "decorators"
  | .default => "default"
  | .isDelegate => "delegate"
  | .directives => "directives"
  | .discriminant => "discriminant"
  | .elementType => "elementType"
  | .elementTypes => "elementTypes"
  | .elements => "elements"
  | .isExact => "exact"
  | .exportKind => "exportKind"
  | .exported => "exported"
  | .exprName => "exprName"
  | .expression => "expression"
  | .expressions => "expressions"
  | .heritage => "extends"
  | .extra => "extra"
  | .finalizer => "finalizer"
  | .flags => "flags"
  | .isGenerator => "generator"
  | .handler => "handler"
  | .id => "id"
  | .implements => "implements"
  | .impltype => "impltype"
  | .importKind => "importKind"
  | .imported => "imported"
  | .indexType => "indexType"
  | .indexers => "indexers"
  | .isInexact => "inexact"
  | .init => "init"
  | .internalSlots => "internalSlots"
  | .interpreter => "interpreter"
  | .key => "key"
  | .kind => "kind"
  | .label => "label"
  | .left => "left"
  | .literal => "literal"
  | .localName => "local"
  | .members => "members"
  | .metaName => "meta"
  | .isMethod => "method"
  | .mixins => "mixins"
  | .name => "name"
  | .nspace => "namespace"
  | .object => "object"
  | .objectType => "objectType"
  | .openingElement => "openingElement"
  | .openingFragment => "openingFragment"
  | .operator => "operator"
  | .isOptional => "optional"
  | .param => "param"
  | .parameters => "parameters"
  | .params => "params"
  | .pattern => "pattern"
  | .predicate => "predicate"
  | .operatorFirst => "prefix"
  | .program => "program"
  | .properties => "properties"
  | .property => "property"
  | .isProto => "proto"
  | .qualification => "qualification"
  | .quasi => "quasi"
  | .quasis => "quasis"
  | .isReadonly => "readonly"
  | .rest => "rest"
  | .returnType => "returnType"
  | .right => "right"
  | .isSelfClosing => "selfClosing"
  | .isShorthand => "shorthand"
  | .source => "source"
  | .sourceType => "sourceType"
  | .specifiers => "specifiers"
  | .isStatic => "static"
  | .superClass => "superClass"
  | .superTypeParameters => "superTypeParameters"
  | .supertype => "supertype"
  | .tag => "tag"
  | .isTail => "tail"
  | .test => "test"
  | .receiver => "this"
  | .ty => "typeAnnotation"
  | .typeArguments => "typeArguments"
  | .typeName => "typeName"
  | .typeParameters => "typeParameters"
  | .types => "types"
  | .update => "update"
  | .value => "value"
  | .variance => "variance"

end Field

end Typeshift
