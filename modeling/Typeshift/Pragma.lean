import Typeshift.Tree.Basic

/-! # Marker comments

A file of the source dialect says so in a comment before its first statement. In the target the
comment is out of place: the first leading comment of the first statement whose text is one of the
markers is removed.

* `Node.stripPragma`: the tree without its marker, and whether there was one. -/

namespace Typeshift

/-- The marker that is removed if nothing else is asked for. -/
def defaultPragma : String := "@flow"

/-- Whether a comment is one of some markers. -/
def Comment.isMarker (markers : List String) (c : Comment) : Bool := markers.contains c.text

namespace Node

/-- A node without its marker, `none` if it has none. -/
def stripLeading? (markers : List String) (t : Node) : Option Node :=
  (t.head.comments.removeLeading? (Comment.isMarker markers)).map fun found =>
    t.withComments found.2

/-- Statements with the marker before the first one removed, `none` if there is none. -/
def stripFirst? (markers : List String) : List Node → Option (List Node)
  | [] => none
  | first :: rest => (stripLeading? markers first).map (· :: rest)

/-- A program without its marker, `none` if it is no program or has none. -/
def stripProgram? (markers : List String) (t : Node) : Option Node :=
  if t.head.is .program then
    (stripFirst? markers (t.slots.children .body)).map fun body =>
      .mk () t.head <| t.slots.map fun
        | (.body, .many _) => (.body, .many body)
        | entry => entry
  else none

/-- A file or a program without its marker, `none` if it has none. -/
def strip? (markers : List String) (t : Node) : Option Node :=
  if t.head.is .file then
    ((t.slots.child? .program).bind (stripProgram? markers)).map fun p =>
      .mk () t.head <| t.slots.map fun
        | (.program, .one _) => (.program, .one p)
        | entry => entry
  else stripProgram? markers t

/-- **Remove the marker comment of a tree**, and tell whether there was one. -/
def stripPragma (markers : List String) (t : Node) : Node × Bool :=
  match t.strip? markers with
  | some stripped => (stripped, true)
  | none => (t, false)

end Node

end Typeshift
