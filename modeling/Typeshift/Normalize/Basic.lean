import Typeshift.Normalize.Hoist
import Typeshift.Normalize.Optional

/-! # Normalization

Before a tree is converted its optional parts are marked and, if it has a list of statements to
append definitions to, its function types are hoisted.

* `Node.normalize`: the normalized tree and a report of what was changed. -/

namespace Typeshift

namespace Normalize

/-- What normalization changed. -/
structure Report where
  /-- The names of the hoisted types, in the order of their definitions. -/
  hoisted : List String
  /-- The number of parts that were marked optional. -/
  optionalized : Nat
  deriving DecidableEq, Repr

/-- The definition of a hoisted type. -/
def Hoisted.definition (x : Hoisted) : Node := Source.typeAlias x.name x.type

/-- Whether a tree is a program or a file that holds one. -/
def hasBody (t : Node) : Bool :=
  t.head.is .program ||
    t.head.is .file && ((t.slots.child? .program).map (·.head.is .program)).getD false

/-- A program with statements appended. -/
def appendToProgram (statements : List Node) : Node → Node
  | .mk n h s => .mk n h <| s.map fun
    | (.body, .many body) => (.body, .many (body ++ statements))
    | entry => entry

/-- A program, or a file that holds one, with statements appended. -/
def appendStatements (statements : List Node) (t : Node) : Node :=
  if t.head.is .file then
    .mk () t.head <| t.slots.map fun
      | (.program, .one p) => (.program, .one (appendToProgram statements p))
      | entry => entry
  else appendToProgram statements t

end Normalize

open Normalize

/-- **Normalize a tree.** -/
def Node.normalize (t : Node) : Node × Report :=
  let marked := markOptional t
  if hasBody t then
    let (node, hoisted) := hoist marked.node
    (appendStatements (hoisted.map Hoisted.definition) node,
      ⟨hoisted.map Hoisted.name, marked.count⟩)
  else (marked.node, ⟨[], marked.count⟩)

end Typeshift
