import Typeshift.Text.Blank

/-! # Comments

A node carries three lists of comments: those before it, those after it and those inside it where it
has no other part to hold them. A comment knows where it stood in the source if it came from there;
one comment may then be attached to two neighbouring nodes.

* `Comments.wrap`: the comments of a node that takes the place of another one around it.
* `Comments.removeLeading?`: take out the first leading comment that satisfies a test. -/

namespace Typeshift

/-- Whether a comment is delimited on both sides or ends with its line. -/
inductive CommentKind where
  | block
  | line
  deriving DecidableEq, Repr

/-- A comment without its delimiters. -/
structure Comment where
  kind : CommentKind
  value : String
  start : Option Nat
  stop : Option Nat
  deriving DecidableEq, Repr

namespace Comment

/-- A block comment that has no place in the source. -/
def block (value : String) : Comment := ⟨.block, value, none, none⟩

/-- A line comment that has no place in the source. -/
def line (value : String) : Comment := ⟨.line, value, none, none⟩

/-- Whether the comment is a block comment. -/
def isBlock (c : Comment) : Bool := c.kind == .block

/-- The text without blanks at its ends. -/
def text (c : Comment) : String := Text.trim c.value

/-- Where the comment stood in the source, if both ends are known. -/
def position (c : Comment) : Option (Nat × Nat) := do
  let start ← c.start
  let stop ← c.stop
  return (start, stop)

end Comment

/-- The comments of a node. -/
structure Comments where
  leading : List Comment
  trailing : List Comment
  inner : List Comment
  deriving DecidableEq, Repr

namespace Comments

/-- No comments. -/
def none : Comments := ⟨[], [], []⟩

instance : Inhabited Comments := ⟨none⟩

/-- Leading comments only. -/
def ofLeading (cs : List Comment) : Comments := ⟨cs, [], []⟩

/-- Whether all three lists are empty. -/
def isEmpty (c : Comments) : Bool := c.leading.isEmpty && c.trailing.isEmpty && c.inner.isEmpty

/-- **Wrap** the comments of an outer node around those of the node inside: the outer leading ones
come first, the other outer ones last. -/
def wrap (inside outer : Comments) : Comments :=
  ⟨outer.leading ++ inside.leading, inside.trailing ++ outer.trailing, inside.inner ++ outer.inner⟩

/-- Take out the first leading comment that satisfies a test. -/
def removeLeading? (p : Comment → Bool) (c : Comments) : Option (Comment × Comments) :=
  (c.leading.find? p).map fun found => (found, { c with leading := c.leading.eraseP p })

@[simp] theorem wrap_none (c : Comments) : c.wrap none = c := by simp [wrap, none]

@[simp] theorem none_wrap (c : Comments) : none.wrap c = c := by simp [wrap, none]

theorem wrap_assoc (a b c : Comments) : (a.wrap b).wrap c = a.wrap (b.wrap c) := by
  simp [wrap, List.append_assoc]

end Comments

end Typeshift
