/-! # Words

Some fields hold one word of a short list: the kind of a variable declaration, of a method, of an
object type's property, the sign of a variance, and what an import or export brings in. -/

namespace Typeshift

/-- A word that a field may hold. -/
inductive Word where
  | var | letWord | const
  | constructor | method | get | set | init
  | plus | minus
  | value | type | typeof
  deriving DecidableEq, Repr, Inhabited

namespace Word

/-- The text of a word. -/
def text : Word → String
  | .var => "var"
  | .letWord => "let"
  | .const => "const"
  | .constructor => "constructor"
  | .method => "method"
  | .get => "get"
  | .set => "set"
  | .init => "init"
  | .plus => "plus"
  | .minus => "minus"
  | .value => "value"
  | .type => "type"
  | .typeof => "typeof"

/-- The kinds of a variable declaration. -/
def variableKinds : List Word := [.var, .letWord, .const]
/-- The kinds of a method. -/
def methodKinds : List Word := [.constructor, .method, .get, .set]
/-- The kinds of a property of an object type; a plain one is first. -/
def propertyKinds : List Word := [.init, .get, .set]
/-- The signs of a variance. -/
def varianceKinds : List Word := [.plus, .minus]
/-- What an import brings in. -/
def importKinds : List Word := [.value, .type, .typeof]
/-- What an export brings out. -/
def exportKinds : List Word := [.value, .type]

end Word

end Typeshift
