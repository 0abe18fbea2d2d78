import Typeshift.Json.Writer
import Typeshift.Tree.Basic

/-! # Writing trees as JSON

A construct is written as an object: its name under `type`, its fields in the order of its shape in
the target vocabulary, its comments as far as it has any, and its offsets if it has a span. A
foreign node is written as it was found.

* `Tree.toJson`: the JSON value of a tree. -/

namespace Typeshift

/-- An optional text, `null` for none. -/
def Json.ofText? : Option String → Json
  | some s => .str s
  | none => .null

namespace Comment

/-- A comment as an object; unknown offsets are left out. -/
def toJson (c : Comment) : Json :=
  .obj ([("type", .str (if c.isBlock then "CommentBlock" else "CommentLine")),
      ("value", .str c.value)] ++
    (c.start.toList.map fun n => ("start", .int n)) ++ (c.stop.toList.map fun n => ("end", .int n)))

end Comment

namespace Comments

/-- A list of comments as an entry, left out if it is empty. -/
def entry (key : String) (cs : List Comment) : List (String × Json) :=
  if cs.isEmpty then [] else [(key, .arr (cs.map Comment.toJson))]

/-- The entries for the comments of a node. -/
def toEntries (c : Comments) : List (String × Json) :=
  entry "leadingComments" c.leading ++ entry "trailingComments" c.trailing ++
    entry "innerComments" c.inner

end Comments

/-- The entries for the offsets of a node. -/
def Span.toEntries : Option Span → List (String × Json)
  | some s => [("start", .int s.start), ("end", .int s.stop)]
  | none => []

/-- An attribute as a value. -/
def Attr.toJson : Attr → Json
  | .text s => .str s
  | .textOrNone s => .ofText? s
  | .flag b => .bool b
  | .number x => .float x
  | .extra none => .null
  | .extra (some e) => .obj (e.raw.toList.map fun s => ("raw", .str s))
  | .template raw cooked => .obj [("raw", .str raw), ("cooked", .ofText? cooked)]
  | .word w => .str w.text
  | .wordOrNone w => .ofText? (w.map Word.text)

/-- A slot as a value, its children already being values. -/
def Slot.toJson : Slot Json → Json
  | .one v => v
  | .maybe v => v.getD .null
  | .many vs => .arr vs
  | .holes vs => .arr (vs.map (·.getD .null))

/-- The entry for one field. -/
def fieldEntry (head : Head) (slots : Slots Json) (f : Field) : String × Json :=
  (f.jsonKey,
    match head.attr? f, slots.get? f with
    | some a, _ => a.toJson
    | none, some s => (s.map Tree.note).toJson
    | none, none => .null)

/-- The value of a node, its children being annotated with theirs. -/
def nodeJson (head : Head) (slots : Slots Json) : Json :=
  match head.kind with
  | .foreign _ raw => raw
  | .known t =>
    .obj (("type", .str t.name) ::
      (t.fields .target).map (fun s => fieldEntry head slots s.field) ++
      head.comments.toEntries ++ Span.toEntries head.span)

/-- **The JSON value of a tree.** -/
def Tree.toJson {ρ : Type} (t : Tree ρ) : Json := t.synthesize nodeJson

end Typeshift
