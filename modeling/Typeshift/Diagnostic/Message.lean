import Typeshift.Text.Replace

/-! # The message table

Every finding has a number and a message with numbered places for its arguments.

* `Message.table`: the messages.
* `formatMessage`: a message with its arguments put in, one after the other: the place of the first
  argument is filled everywhere, then that of the second, and so on. An argument whose text looks
  like a later place is therefore filled again. -/

namespace Typeshift

/-- How serious a finding is. -/
inductive Category where
  | warning
  | error
  | suggestion
  | message
  deriving DecidableEq, Repr

/-- The word for a category in a report. -/
def Category.text : Category → String
  | .warning => "warning"
  | .error => "error"
  | .suggestion => "suggestion"
  | .message => "message"

/-- The name of a category. -/
def Category.name : Category → String
  | .warning => "Warning"
  | .error => "Error"
  | .suggestion => "Suggestion"
  | .message => "Message"

/-- The findings that have a message. -/
inductive Finding where
  | unsupportedNode
  | varianceDropped
  | exactObjectType
  | diffWidened
  | existentialType
  | internalSlotDropped
  | typeofImport
  | callPropertyDropped
  | classHeritageDropped
  deriving DecidableEq, Repr

/-- The number of a finding. -/
def Finding.code : Finding → Nat
  | .unsupportedNode => 1001
  | .varianceDropped => 1002
  | .exactObjectType => 1003
  | .diffWidened => 1004
  | .existentialType => 1005
  | .internalSlotDropped => 1006
  | .typeofImport => 1007
  | .callPropertyDropped => 1008
  | .classHeritageDropped => 1009

/-- A message with numbered places. -/
structure Message where
  code : Nat
  category : Category
  template : String
  deriving DecidableEq, Repr

/-- The place of the argument with a number. -/
def place (i : Nat) : String := "\x7b" ++ Nat.repr i ++ "\x7d"

/-- The template of a finding. -/
def Finding.template : Finding → String
  | .unsupportedNode =>
    "Node type '" ++ place 0 ++ "' has no TypeScript conversion and was passed through unchanged."
  | .varianceDropped =>
    "Covariant variance marker on '" ++ place 0 ++
      "' has no TypeScript equivalent and was dropped."
  | .exactObjectType =>
    "Exact object type was converted to a plain object type; " ++
      "extra properties are no longer rejected."
  | .diffWidened => "'$Diff' utility type was widened to 'any'."
  | .existentialType => "Existential type '*' was widened to 'any'."
  | .internalSlotDropped => "Internal slot '[[" ++ place 0 ++ "]]' was dropped."
  | .typeofImport => "'import typeof' of '" ++ place 0 ++ "' was converted to 'import type'."
  | .callPropertyDropped =>
    "Call property of declared class '" ++ place 0 ++
      "' cannot be expressed on a TypeScript class and was dropped."
  | .classHeritageDropped =>
    place 0 ++ " '" ++ place 1 ++ "' of declared class '" ++ place 2 ++
      "' cannot be expressed on a TypeScript class and was dropped."

/-- Every finding, in the order of the numbers. -/
def Finding.all : List Finding :=
  [.unsupportedNode, .varianceDropped, .exactObjectType, .diffWidened, .existentialType,
    .internalSlotDropped, .typeofImport, .callPropertyDropped, .classHeritageDropped]

/-- **The message table.** -/
def Message.table : List Message := Finding.all.map fun f => ⟨f.code, .warning, f.template⟩

/-- The message with a number. -/
def Message.find? (code : Nat) : Option Message := Message.table.find? fun m => m.code == code

/-- Fill the places of the arguments from number `i` on. -/
def fillFrom (i : Nat) (template : String) : List String → String
  | [] => template
  | arg :: rest => fillFrom (i + 1) (Text.replaceAll (place i) arg template) rest

/-- **A message with its arguments put in.** -/
def formatMessage (template : String) (args : List String) : String := fillFrom 0 template args

end Typeshift
