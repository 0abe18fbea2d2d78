import Typeshift.Json.Reader
import Typeshift.Tree.Basic
import Typeshift.Tree.LoadError

/-! # Reading trees

A node is written as an object whose `type` names the construct. Its comments are read first. If the
name is none of the source vocabulary the object is kept as it is; otherwise its entries are read in
the order in which they are written, and the first wrong one is reported. Only then is a missing
field reported, the first in the order of the shape.

* `Comments.load`: the three lists of comments of an object.
* `loadAttr`: the value of a field that holds no nodes.
* `Node.load`: a tree from a JSON value.
* `Node.parse`: a tree from a text. -/

namespace Typeshift

/-- The result of reading a part of a tree. -/
abbrev Loaded := Except LoadError

namespace Loaded

/-- A text. -/
def text : Json → Loaded String
  | .str s => .ok s
  | v => .error (.wrongType v "a string")

/-- A flag. -/
def flag : Json → Loaded Bool
  | .bool b => .ok b
  | v => .error (.wrongType v "a boolean")

/-- A number. -/
def number : Json → Loaded Decimal.Binary64
  | .int i => .ok (.ofInt i)
  | .float x => .ok x
  | v => .error (.wrongType v "f64")

/-- An offset. -/
def offset (v : Json) : Loaded Nat :=
  match v with
  | .int i => if 0 ≤ i ∧ i < Json.word32Bound then .ok i.toNat else .error (.wrongValue v "u32")
  | _ => .error (.wrongType v "u32")

/-- A value that may be `null`. -/
def orNone {α : Type} (read : Json → Loaded α) : Json → Loaded (Option α)
  | .null => .ok none
  | v => some <$> read v

/-- One of some words. A word may also be the only key of an object that gives it no value. -/
def choice {α : Type} (choices : List (String × α)) (isVoid : Json → Bool) (v : Json) : Loaded α :=
  match v with
  | .str s => find s
  | .obj [(s, w)] => do
    let a ← find s
    if isVoid w then .ok a else .error (.wrongType w "unit")
  | .obj _ => .error (.wrongValue v "map with a single key")
  | _ => .error (.wrongType v "string or map")
where
  /-- The choice with a given name. -/
  find (s : String) : Loaded α :=
    match choices.lookup s with
    | some a => .ok a
    | none => .error (.unknownWord s (choices.map (·.1)))

/-- Whether a value is `null`. -/
def isNull : Json → Bool
  | .null => true
  | _ => false

/-- Whether a value is `null` or an object without entries. -/
def isVoid : Json → Bool
  | .null => true
  | .obj [] => true
  | _ => false

end Loaded

/-! ### Comments -/

namespace Comment

/-- The two kinds of comments by their names. -/
def kinds : List (String × CommentKind) := [("CommentBlock", .block), ("CommentLine", .line)]

/-- A comment that is not completely read. -/
structure Draft where
  kind : Option CommentKind
  value : Option String
  start : Option Nat
  stop : Option Nat

/-- Read one entry of a comment. -/
def loadEntry (d : Draft) (e : String × Json) : Loaded Draft :=
  match e.1 with
  | "type" => do return { d with kind := some (← Loaded.choice kinds Loaded.isNull e.2) }
  | "value" => do return { d with value := some (← Loaded.text e.2) }
  | "start" => do return { d with start := ← Loaded.orNone Loaded.offset e.2 }
  | "end" => do return { d with stop := ← Loaded.orNone Loaded.offset e.2 }
  | _ => .ok d

/-- A comment from an object, or from the list of its parts. -/
def load (v : Json) : Loaded Comment :=
  match v with
  | .obj entries => do
    match ← entries.foldlM loadEntry ⟨none, none, none, none⟩ with
    | ⟨none, _, _, _⟩ => .error (.missingField "type")
    | ⟨_, none, _, _⟩ => .error (.missingField "value")
    | ⟨some kind, some value, start, stop⟩ => .ok ⟨kind, value, start, stop⟩
  | .arr items => do
    let d ← (["type", "value", "start", "end"].zip items).foldlM loadEntry ⟨none, none, none, none⟩
    match d with
    | ⟨some kind, some value, start, stop⟩ =>
      if items.length ≤ 4 then .ok ⟨kind, value, start, stop⟩
      else .error (.wrongLength items.length "fewer elements in array")
    | _ => .error (.wrongLength items.length "struct Comment with 4 elements")
  | _ => .error (.wrongType v "struct Comment")

end Comment

namespace Comments

/-- A list of comments, `null` for none. -/
def loadList : Json → Loaded (List Comment)
  | .null => .ok []
  | .arr items => items.mapM Comment.load
  | v => .error (.wrongType v "a sequence")

/-- Read one entry of an object that may carry comments. -/
def loadEntry (c : Comments) (e : String × Json) : Loaded Comments :=
  match e.1 with
  | "leadingComments" => do return { c with leading := ← loadList e.2 }
  | "trailingComments" => do return { c with trailing := ← loadList e.2 }
  | "innerComments" => do return { c with inner := ← loadList e.2 }
  | _ => .ok c

/-- **The comments of an object**, or of the list of the three lists. -/
def load (v : Json) : Loaded Comments :=
  match v with
  | .obj entries => entries.foldlM loadEntry none
  | .arr items => do
    let c ← (["leadingComments", "trailingComments", "innerComments"].zip items).foldlM
      loadEntry none
    if items.length ≤ 3 then .ok c
    else .error (.wrongLength items.length "fewer elements in array")
  | _ => .error (.wrongType v "struct Comments")

end Comments

/-! ### Attributes -/

/-- The extra record of a literal, from an object or from the list of its parts. -/
def LiteralExtra.load (v : Json) : Loaded LiteralExtra :=
  match v with
  | .obj entries => entries.foldlM (fun e entry => do
      if entry.1 = "raw" then return ⟨← Loaded.orNone Loaded.text entry.2⟩ else return e) ⟨none⟩
  | .arr [] => .ok ⟨none⟩
  | .arr (raw :: rest) => do
    let e ← Loaded.orNone Loaded.text raw
    if rest = [] then .ok ⟨e⟩
    else .error (.wrongLength (rest.length + 1) "1 element in sequence")
  | _ => .error (.wrongType v "struct LiteralExtra")

/-- The two texts of a piece of a template, from an object or from the list of its parts. -/
def loadTemplate (v : Json) : Loaded Attr :=
  match v with
  | .obj entries => do
    let (raw, cooked) ← entries.foldlM (fun (d : Option String × Option String) entry => do
      match entry.1 with
      | "raw" => return (some (← Loaded.text entry.2), d.2)
      | "cooked" => return (d.1, ← Loaded.orNone Loaded.text entry.2)
      | _ => return d) (none, none)
    match raw with
    | some raw => .ok (.template raw cooked)
    | none => .error (.missingField "raw")
  | .arr [] => .error (.wrongLength 0 "struct TemplateValue with 2 elements")
  | .arr [raw] => return .template (← Loaded.text raw) none
  | .arr (raw :: cooked :: rest) => do
    let raw ← Loaded.text raw
    let cooked ← Loaded.orNone Loaded.text cooked
    if rest.isEmpty then .ok (.template raw cooked)
    else .error (.wrongLength (rest.length + 2) "2 elements in sequence")
  | _ => .error (.wrongType v "struct TemplateValue")

/-- What an attribute is when nothing is written for it, `none` if something must be. -/
def FieldSpec.defaultAttr? (s : FieldSpec) : Option Attr :=
  match s.presence with
  | .required => none
  | .optional =>
    match s.type with
    | .text => some (.textOrNone none)
    | .extra => some (.extra none)
    | .word _ => some (.wordOrNone none)
    | _ => none
  | _ =>
    match s.type with
    | .text => some (.text "")
    | .flag => some (.flag s.flagDefault)
    | .word (w :: _) => some (.word w)
    | _ => none

/-- **The value of a field that holds no nodes.** -/
def loadAttr (s : FieldSpec) (v : Json) : Loaded Attr :=
  match s.presence, v, s.defaultAttr? with
  | .optional, .null, some a => .ok a
  | .orNull, .null, some a => .ok a
  | presence, v, _ =>
    match s.type with
    | .text => do
      let text ← Loaded.text v
      return if presence = .optional then .textOrNone (some text) else .text text
    | .flag => .flag <$> Loaded.flag v
    | .number => .number <$> Loaded.number v
    | .extra => (fun e => .extra (some e)) <$> LiteralExtra.load v
    | .template => loadTemplate v
    | .word choices => do
      let w ← Loaded.choice (choices.map fun w => (w.text, w)) Loaded.isVoid v
      return if presence = .optional then .wordOrNone (some w) else .word w
    | .node => .error (.untagged v)
    | .nodes => .error (.wrongType v "a sequence")
    | .holes => .error (.wrongType v "a sequence")

/-! ### Nodes -/

/-- The value of a field. -/
inductive FieldValue where
  | attr (a : Attr)
  | slot (s : Slot Node)

/-- What a slot is when nothing is written for it, `none` if something must be. -/
def FieldSpec.defaultSlot? (s : FieldSpec) : Option (Slot Node) :=
  match s.presence, s.type with
  | .required, _ => none
  | _, .node => some (.maybe none)
  | _, .nodes => some (.many [])
  | _, _ => none

/-- What a field is when nothing is written for it, `none` if something must be. -/
def FieldSpec.default? (s : FieldSpec) : Option FieldValue :=
  if s.isSlot then s.defaultSlot?.map .slot else s.defaultAttr?.map .attr

/-- The values of all fields of a shape, in its order, from those that were written. -/
def complete (written : List (Field × FieldValue)) (shape : List FieldSpec) :
    Loaded (List (Field × FieldValue)) :=
  shape.mapM fun s =>
    match written.lookup s.field, s.default? with
    | some v, _ => .ok (s.field, v)
    | none, some v => .ok (s.field, v)
    | none, none => .error (.missingField s.field.jsonKey)

/-- The attributes among some values. -/
def attrsOf (values : List (Field × FieldValue)) : List (Field × Attr) :=
  values.filterMap fun
    | (f, .attr a) => some (f, a)
    | _ => none

/-- The slots among some values, in a given order. -/
def slotsOf (order : List Field) (values : List (Field × FieldValue)) : Slots Unit :=
  order.filterMap fun f =>
    match values.lookup f with
    | some (.slot s) => some (f, s)
    | _ => none

/-- A value that is no list in the place of a list of nodes: only `null` may stand there. -/
def loadNoList (s : FieldSpec) (v : Json) : Loaded FieldValue :=
  match s.presence, v with
  | .orNull, .null => .ok (.slot (.many []))
  | _, _ => .error (.wrongType v "a sequence")

mutual

/-- **A tree from a JSON value.** -/
def Node.load : Json → Loaded Node
  | .obj entries =>
    match Json.lookup "type" entries with
    | some (.str name) => do
      let comments ← (Comments.load (.obj entries)).mapError (.malformed name)
      let span := Span.ofJson? (.obj entries)
      match Tag.ofName? .source name with
      | none => return Node.make ⟨.foreign name (.obj entries), [], comments, span⟩ []
      | some t => do
        let shape := t.fields .source
        let written ← (loadEntries shape [] entries).mapError (.malformed name)
        let values ← (complete written shape).mapError (.malformed name)
        return Node.make ⟨.known t, attrsOf values, comments, span⟩ (slotsOf t.slotOrder values)
    | _ => .error (.untagged (.obj entries))
  | v => .error (.untagged v)

/-- The values of the fields of a shape among the entries of an object, in the order of the
entries. -/
def loadEntries (shape : List FieldSpec) (seen : List Field) :
    List (String × Json) → Loaded (List (Field × FieldValue))
  | [] => .ok []
  | (key, v) :: rest =>
    match shape.find? (·.hasKey key) with
    | none => loadEntries shape seen rest
    | some s =>
      if s.field ∈ seen then .error (.duplicateField s.field.jsonKey) else do
        let value ← match s.type with
          | .node =>
            match s.presence, v with
            | .required, _ => (fun n => FieldValue.slot (.one n)) <$> Node.load v
            | _, .null => pure (.slot (.maybe none))
            | _, _ => (fun n => FieldValue.slot (.maybe (some n))) <$> Node.load v
          | .nodes =>
            match v with
            | .arr items => (fun ns => FieldValue.slot (.many ns)) <$> loadList items
            | _ => loadNoList s v
          | .holes =>
            match v with
            | .arr items => (fun ns => FieldValue.slot (.holes ns)) <$> loadGaps items
            | _ => .error (.wrongType v "a sequence")
          | _ => FieldValue.attr <$> loadAttr s v
        let others ← loadEntries shape (s.field :: seen) rest
        return (s.field, value) :: others

/-- A list of nodes. -/
def loadList : List Json → Loaded (List Node)
  | [] => .ok []
  | v :: rest => do return (← Node.load v) :: (← loadList rest)

/-- A list of nodes in which `null` marks a gap. -/
def loadGaps : List Json → Loaded (List (Option Node))
  | [] => .ok []
  | .null :: rest => do return none :: (← loadGaps rest)
  | v :: rest => do return some (← Node.load v) :: (← loadGaps rest)

end

/-- **A tree from a text.** -/
def Node.parse (s : String) : Loaded Node :=
  match Json.parse s with
  | some v => Node.load v
  | none => .error .notJson

end Typeshift
