import Typeshift.Json.Writer
import Typeshift.Text.Quoted

/-! # What can be wrong with a written tree

Either the text is no JSON, or a value stands where a node must stand and names no construct, or a
construct does not have the shape that its name promises. A fault inside a child is a fault of the
parent, so causes nest.

* `LoadError.message`: the wording. -/

namespace Typeshift

/-- Why a tree could not be read. -/
inductive LoadError where
  /-- The text is not JSON. -/
  | notJson
  /-- A value in the place of a node that names no construct. -/
  | untagged (found : Json)
  /-- A construct with a fault in it. -/
  | malformed (name : String) (cause : LoadError)
  /-- A value of the wrong type. -/
  | wrongType (found : Json) (expected : String)
  /-- A value of the right type that is out of range. -/
  | wrongValue (found : Json) (expected : String)
  /-- A record written as a list that is too short or too long. -/
  | wrongLength (found : Nat) (expected : String)
  /-- A word that is not among the choices. -/
  | unknownWord (found : String) (choices : List String)
  /-- A field that must be there and is not. -/
  | missingField (key : String)
  /-- A field that is written under both of its keys. -/
  | duplicateField (key : String)

namespace LoadError

/-- What a value in the place of a node is called. -/
def describe : Json → String
  | .null => "null"
  | .bool _ => "a boolean"
  | .int _ => "a number"
  | .float _ => "a number"
  | .str _ => "a string"
  | .arr _ => "an array"
  | .obj _ => "an object without a \"type\" field"

/-- What a value in the place of an attribute is called. -/
def describeValue : Json → String
  | .null => "null"
  | .bool b => "boolean `" ++ (if b then "true" else "false") ++ "`"
  | .int i => "integer `" ++ (Json.int i).scalarText ++ "`"
  | .float x => "floating point `" ++ (Json.float x).scalarText ++ "`"
  | .str s => "string " ++ Text.quoted s
  | .arr _ => "sequence"
  | .obj _ => "map"

/-- A word between back quotes. -/
def ticked (s : String) : String := "`" ++ s ++ "`"

/-- The choices for a word. -/
def choicesText : List String → String
  | [a, b] => ticked a ++ " or " ++ ticked b
  | [a] => ticked a
  | choices => "one of " ++ ", ".intercalate (choices.map ticked)

/-- **The wording of an error.** -/
def message : LoadError → String
  | .notJson => "invalid AST JSON"
  | .untagged v => "expected an AST node with a \"type\" tag, found " ++ describe v
  | .malformed name cause => "malformed " ++ name ++ " node: " ++ cause.message
  | .wrongType v expected => "invalid type: " ++ describeValue v ++ ", expected " ++ expected
  | .wrongValue v expected => "invalid value: " ++ describeValue v ++ ", expected " ++ expected
  | .wrongLength n expected => "invalid length " ++ Nat.repr n ++ ", expected " ++ expected
  | .unknownWord word choices =>
    "unknown variant " ++ ticked word ++ ", expected " ++ choicesText choices
  | .missingField key => "missing field " ++ ticked key
  | .duplicateField key => "duplicate field " ++ ticked key

/-- The error and the causes it wraps, outermost first, joined by colons. A malformed construct
already words its cause, which therefore appears twice. -/
def chain : LoadError → String
  | .malformed name cause => (malformed name cause).message ++ ": " ++ cause.message
  | e => e.message

end LoadError

end Typeshift
