import Typeshift.Json.Basic
import Typeshift.Tree.Comment
import Typeshift.Tree.Shape
import Typeshift.Tree.Span

/-! # Syntax trees

A node has a *head* (its kind, its attributes, its comments and its span) and *slots* that hold its
children. Trees are generic in a *note* that every node carries: a plain tree has no notes, and a
pass over a tree is described by the note it writes on each node.

* `Tree.annotate`: write notes from the leaves up. The rule that makes the note of a node sees its
  head and its slots, and in the slots every node below it with its note. So a rule may ask for what
  a child, or a child of a child, has to offer, and needs no recursion of its own.
* `Tree.note_annotate`: the note of an annotated node is what the rule says.
* `Node.preorder`: a node and everything below it, in the order of the text. -/

namespace Typeshift

open Decimal (Binary64)

/-- The record a parser keeps beside a literal; only its source text matters. -/
structure LiteralExtra where
  raw : Option String
  deriving DecidableEq, Repr

/-- The value of a field that holds no nodes. -/
inductive Attr where
  | text (s : String)
  | textOrNone (s : Option String)
  | flag (b : Bool)
  | number (x : Binary64)
  | extra (e : Option LiteralExtra)
  | template (raw : String) (cooked : Option String)
  | word (w : Word)
  | wordOrNone (w : Option Word)
  deriving DecidableEq, Repr

/-- What a node is: a construct of a vocabulary, or something else, kept as it was written. -/
inductive Kind where
  | known (tag : Tag)
  | foreign (name : String) (raw : Json)

/-- All of a node but its children. -/
structure Head where
  kind : Kind
  attrs : List (Field × Attr)
  comments : Comments
  span : Option Span

instance : Inhabited Head := ⟨⟨.foreign "" .null, [], .none, none⟩⟩

/-- The children that a field holds. -/
inductive Slot (α : Type) where
  | one (a : α)
  | maybe (a : Option α)
  | many (as : List α)
  | holes (as : List (Option α))

/-- A tree whose nodes carry notes of type `ρ`. -/
inductive Tree (ρ : Type) where
  | mk (note : ρ) (head : Head) (slots : List (Field × Slot (Tree ρ)))

/-- The slots of a node with annotated children. -/
abbrev Slots (ρ : Type) := List (Field × Slot (Tree ρ))

/-- A plain syntax tree. -/
abbrev Node := Tree Unit

/-! ### Heads -/

namespace Kind

/-- The name of a kind in JSON. -/
def name : Kind → String
  | .known t => t.name
  | .foreign name _ => name

/-- The tag of a known construct. -/
def tag? : Kind → Option Tag
  | .known t => some t
  | .foreign _ _ => none

end Kind

namespace Head

/-- The head of a construct without comments and span. -/
def ofTag (t : Tag) (attrs : List (Field × Attr)) : Head := ⟨.known t, attrs, .none, none⟩

/-- The name of the construct in JSON. -/
def name (h : Head) : String := h.kind.name

/-- The tag of a known construct. -/
def tag? (h : Head) : Option Tag := h.kind.tag?

/-- Whether the node is the given construct. -/
def is (h : Head) (t : Tag) : Bool := h.tag? == some t

/-- Whether the node is one of the given constructs. -/
def isAny (h : Head) (ts : List Tag) : Bool := ts.any h.is

/-- The attribute of a field. -/
def attr? (h : Head) (f : Field) : Option Attr := h.attrs.lookup f

/-- The text of a field, empty if there is none. -/
def text (h : Head) (f : Field) : String :=
  match h.attr? f with
  | some (.text s) => s
  | some (.textOrNone (some s)) => s
  | _ => ""

/-- The text of a field that may have none. -/
def text? (h : Head) (f : Field) : Option String :=
  match h.attr? f with
  | some (.text s) => some s
  | some (.textOrNone s) => s
  | _ => none

/-- The flag of a field, false if there is none. -/
def flag (h : Head) (f : Field) : Bool :=
  match h.attr? f with
  | some (.flag b) => b
  | _ => false

/-- The number of a field. -/
def number (h : Head) (f : Field) : Binary64 :=
  match h.attr? f with
  | some (.number x) => x
  | _ => .zero false

/-- The word of a field. -/
def word? (h : Head) (f : Field) : Option Word :=
  match h.attr? f with
  | some (.word w) => some w
  | some (.wordOrNone w) => w
  | _ => none

/-- The source text of a literal, if the parser kept it. -/
def raw? (h : Head) : Option String :=
  match h.attr? .extra with
  | some (.extra (some e)) => e.raw
  | _ => none

/-- The name, if the node is an identifier. -/
def identifier? (h : Head) : Option String :=
  if h.is .identifier then some (h.text .name) else none

/-- The head with an attribute replaced. -/
def setAttr (h : Head) (f : Field) (a : Attr) : Head :=
  { h with attrs := h.attrs.map fun e => if e.1 = f then (f, a) else e }

end Head

/-! ### Slots -/

namespace Slot

variable {α β : Type}

/-- The children of a slot, in order. -/
def toList : Slot α → List α
  | .one a => [a]
  | .maybe a => a.toList
  | .many as => as
  | .holes as => as.filterMap id

/-- The slot with a function applied to every child. -/
def map (f : α → β) : Slot α → Slot β
  | .one a => .one (f a)
  | .maybe a => .maybe (a.map f)
  | .many as => .many (as.map f)
  | .holes as => .holes (as.map (·.map f))

/-- The slot with an action run on every child, in order. -/
def mapM {m : Type → Type} [Monad m] (f : α → m β) : Slot α → m (Slot β)
  | .one a => return .one (← f a)
  | .maybe none => return .maybe none
  | .maybe (some a) => return .maybe (some (← f a))
  | .many as => return .many (← as.mapM f)
  | .holes as => return .holes (← as.mapM fun a => match a with
    | none => pure none
    | some a => return some (← f a))

@[simp] theorem toList_map (f : α → β) (s : Slot α) : (s.map f).toList = s.toList.map f := by
  cases s with
  | one a => rfl
  | maybe a => cases a <;> rfl
  | many as => rfl
  | holes as =>
    show (as.map (·.map f)).filterMap id = (as.filterMap id).map f
    induction as with
    | nil => rfl
    | cons a rest ih => cases a <;> simp_all

end Slot

namespace Tree

variable {ρ σ : Type}

/-- The note of a node. -/
def note : Tree ρ → ρ
  | .mk n _ _ => n

/-- The head of a node. -/
def head : Tree ρ → Head
  | .mk _ h _ => h

/-- The slots of a node. -/
def slots : Tree ρ → Slots ρ
  | .mk _ _ s => s

@[simp] theorem note_mk (n : ρ) (h : Head) (s : Slots ρ) : (Tree.mk n h s).note = n := rfl
@[simp] theorem head_mk (n : ρ) (h : Head) (s : Slots ρ) : (Tree.mk n h s).head = h := rfl
@[simp] theorem slots_mk (n : ρ) (h : Head) (s : Slots ρ) : (Tree.mk n h s).slots = s := rfl

instance [Inhabited ρ] : Inhabited (Tree ρ) := ⟨.mk default default []⟩

end Tree

namespace Slots

variable {ρ : Type}

/-- The slot of a field. -/
def get? (s : Slots ρ) (f : Field) : Option (Slot (Tree ρ)) := s.lookup f

/-- The child of a field that holds one, or may hold one. -/
def child? (s : Slots ρ) (f : Field) : Option (Tree ρ) :=
  match s.get? f with
  | some (.one a) => some a
  | some (.maybe a) => a
  | _ => none

/-- The child of a field that must hold one. -/
def child [Inhabited ρ] (s : Slots ρ) (f : Field) : Tree ρ := (s.child? f).getD default

/-- The children of a field that holds a list. -/
def children (s : Slots ρ) (f : Field) : List (Tree ρ) :=
  match s.get? f with
  | some (.many as) => as
  | _ => []

/-- The children of a field that holds a list with gaps. -/
def gaps (s : Slots ρ) (f : Field) : List (Option (Tree ρ)) :=
  match s.get? f with
  | some (.holes as) => as
  | _ => []

/-- All children, in slot order. -/
def toList (s : Slots ρ) : List (Tree ρ) := s.flatMap fun e => e.2.toList

end Slots

/-! ### Notes -/

namespace Tree

variable {ρ σ : Type}

mutual

/-- **Write notes from the leaves up.** -/
def annotate (rule : Head → Slots σ → σ) : Tree ρ → Tree σ
  | .mk _ head slots =>
    let slots := annotateSlots rule slots
    .mk (rule head slots) head slots

/-- Write notes in the slots of a node. -/
def annotateSlots (rule : Head → Slots σ → σ) : Slots ρ → Slots σ
  | [] => []
  | (f, .one a) :: rest => (f, .one (annotate rule a)) :: annotateSlots rule rest
  | (f, .maybe none) :: rest => (f, .maybe none) :: annotateSlots rule rest
  | (f, .maybe (some a)) :: rest => (f, .maybe (some (annotate rule a))) :: annotateSlots rule rest
  | (f, .many as) :: rest => (f, .many (annotateList rule as)) :: annotateSlots rule rest
  | (f, .holes as) :: rest => (f, .holes (annotateGaps rule as)) :: annotateSlots rule rest

/-- Write notes in a list of nodes. -/
def annotateList (rule : Head → Slots σ → σ) : List (Tree ρ) → List (Tree σ)
  | [] => []
  | a :: rest => annotate rule a :: annotateList rule rest

/-- Write notes in a list of nodes with gaps. -/
def annotateGaps (rule : Head → Slots σ → σ) : List (Option (Tree ρ)) → List (Option (Tree σ))
  | [] => []
  | none :: rest => none :: annotateGaps rule rest
  | some a :: rest => some (annotate rule a) :: annotateGaps rule rest

end

/-- The note that a rule writes on the root of a tree. -/
def synthesize (rule : Head → Slots σ → σ) (t : Tree ρ) : σ := (t.annotate rule).note

theorem annotateList_eq_map (rule : Head → Slots σ → σ) (as : List (Tree ρ)) :
    annotateList rule as = as.map (annotate rule) := by
  induction as with
  | nil => rfl
  | cons a rest ih => simp [annotateList, ih]

theorem annotateGaps_eq_map (rule : Head → Slots σ → σ) (as : List (Option (Tree ρ))) :
    annotateGaps rule as = as.map (·.map (annotate rule)) := by
  induction as with
  | nil => rfl
  | cons a rest ih => cases a <;> simp [annotateGaps, ih]

theorem annotateSlots_eq_map (rule : Head → Slots σ → σ) (s : Slots ρ) :
    annotateSlots rule s = s.map fun e => (e.1, e.2.map (annotate rule)) := by
  induction s with
  | nil => rfl
  | cons e rest ih =>
    obtain ⟨f, s⟩ := e
    cases s with
    | one a => simp [annotateSlots, Slot.map, ih]
    | maybe a => cases a <;> simp [annotateSlots, Slot.map, ih]
    | many as => simp [annotateSlots, Slot.map, annotateList_eq_map, ih]
    | holes as => simp [annotateSlots, Slot.map, annotateGaps_eq_map, ih]

/-- **The note of an annotated node is what the rule says** of its head and its annotated slots. -/
theorem note_annotate (rule : Head → Slots σ → σ) (t : Tree ρ) :
    (t.annotate rule).note = rule t.head (t.annotate rule).slots := by
  cases t; rfl

@[simp] theorem head_annotate (rule : Head → Slots σ → σ) (t : Tree ρ) :
    (t.annotate rule).head = t.head := by
  cases t; rfl

theorem slots_annotate (rule : Head → Slots σ → σ) (t : Tree ρ) :
    (t.annotate rule).slots = t.slots.map fun e => (e.1, e.2.map (annotate rule)) := by
  cases t; exact annotateSlots_eq_map rule _

/-- The tree without its notes. -/
def forget (t : Tree ρ) : Node := t.annotate fun _ _ => ()

end Tree

/-! ### Plain trees -/

namespace Node

/-- A node from its head and its slots. -/
def make (head : Head) (slots : Slots Unit) : Node := .mk () head slots

/-- A construct without comments and span. -/
def of (t : Tag) (attrs : List (Field × Attr)) (slots : Slots Unit) : Node :=
  .mk () (.ofTag t attrs) slots

/-- A construct without fields. -/
def leaf (t : Tag) : Node := of t [] []

/-- The node with other comments. -/
def withComments (c : Comments) : Node → Node
  | .mk n h s => .mk n { h with comments := c } s

/-- The node with another span. -/
def withSpan (span : Option Span) : Node → Node
  | .mk n h s => .mk n { h with span := span } s

/-- The node with the comments of an outer node wrapped around its own. -/
def wrapComments (outer : Comments) (t : Node) : Node :=
  t.withComments (t.head.comments.wrap outer)

/-- A node and everything below it, in the order of the text. -/
def preorder (t : Node) : List Head :=
  t.synthesize fun head slots => head :: slots.toList.flatMap (·.note)

end Node

end Typeshift
