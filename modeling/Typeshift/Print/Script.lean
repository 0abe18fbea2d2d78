import Typeshift.Print.Page
import Typeshift.Text.Replace
import Typeshift.Tree.Comment

/-! # Scripts

The text of a tree is first laid down as a *script*: a list of pieces to be put on a page one after
the other. Only two things are left open until then: whether the page is at the start of a line, and
which comments were written before. A comment that knows its place in the source is written once,
however many nodes it is attached to.

* `Piece.run`, `Script.run`: put a piece, or all pieces, on a sheet.
* `CommentStyle`: the ways to write a list of comments. -/

namespace Typeshift.Print

/-- The ways to write a list of comments. -/
inductive CommentStyle where
  /-- Each on lines of its own. -/
  | lines
  /-- Each after what stands on the line; a line comment ends the line. -/
  | afterLine
  /-- Each followed by a space, as block comments. -/
  | before
  /-- Separated by spaces, as block comments, and with a last space if asked for. -/
  | inside (spaced : Bool)
  /-- Each after a space, as block comments. -/
  | after
  deriving DecidableEq, Repr

/-- A piece of a script. -/
inductive Piece where
  /-- Text without line breaks. -/
  | text (s : String)
  /-- Text that may span lines. -/
  | raw (s : String)
  | space
  /-- The end of a line. -/
  | line
  | indent
  | dedent
  /-- Text that is set off by a space, unless it begins a line. -/
  | apart (s : String)
  /-- Comments, those that were not written before. -/
  | comments (style : CommentStyle) (cs : List Comment)
  deriving DecidableEq, Repr

/-- The pieces of a text. -/
abbrev Script := List Piece

/-- A page and the places of the comments that were written on it. -/
structure Sheet where
  page : Page
  taken : List (Nat × Nat)
  deriving DecidableEq, Repr

/-! ### Comments on a page -/

namespace Page

/-- Write a comment in its own form. -/
def writeComment (p : Page) (c : Comment) : Page :=
  if c.isBlock then p.writeRaw ("/*" ++ c.value ++ "*/") else p.write ("//" ++ c.value)

/-- Write a comment in the form of a block, so that more may follow on the line. -/
def writeAsBlock (p : Page) (c : Comment) : Page :=
  if c.isBlock then p.writeComment c
  else p.write ("/*" ++ Text.replaceAll "*/" "* /" c.value ++ "*/")

/-- Write comments separated by spaces. -/
def writeSpaced (p : Page) : List Comment → Page
  | [] => p
  | [c] => p.writeAsBlock c
  | c :: rest => (p.writeAsBlock c).space.writeSpaced rest

/-- Write comments in a style. -/
def writeComments (p : Page) (style : CommentStyle) (cs : List Comment) : Page :=
  match style with
  | .lines => cs.foldl (fun p c => (p.endLine.writeComment c).endLine) p
  | .afterLine => cs.foldl (fun p c =>
      let p := (if p.atLineStart then p else p.space).writeComment c
      if c.isBlock then p else p.endLine) p
  | .before => cs.foldl (fun p c => (p.writeAsBlock c).space) p
  | .inside spaced => if spaced && !cs.isEmpty then (p.writeSpaced cs).space else p.writeSpaced cs
  | .after => cs.foldl (fun p c => p.space.writeAsBlock c) p

end Page

/-- **Pick comments**: those of a list that still have to be written, and the places that are
taken afterwards. A comment without a place is always written. -/
def pickFresh (taken : List (Nat × Nat)) : List Comment → List Comment × List (Nat × Nat)
  | [] => ([], taken)
  | c :: rest =>
    match c.position with
    | none => let (fresh, taken) := pickFresh taken rest; (c :: fresh, taken)
    | some place =>
      if taken.contains place then pickFresh taken rest
      else let (fresh, taken) := pickFresh (place :: taken) rest; (c :: fresh, taken)

/-! ### Running a script -/

/-- Put a piece on a sheet. -/
def Piece.run (t : Sheet) : Piece → Sheet
  | .text s => { t with page := t.page.write s }
  | .raw s => { t with page := t.page.writeRaw s }
  | .space => { t with page := t.page.space }
  | .line => { t with page := t.page.endLine }
  | .indent => { t with page := t.page.indent }
  | .dedent => { t with page := t.page.dedent }
  | .apart s => { t with page := t.page.write (if t.page.atLineStart then s else " " ++ s) }
  | .comments style cs =>
    let (fresh, taken) := pickFresh t.taken cs
    ⟨t.page.writeComments style fresh, taken⟩

namespace Script

/-- **Put a script on a sheet.** -/
def run (t : Sheet) (s : Script) : Sheet := s.foldl Piece.run t

@[simp] theorem run_nil (t : Sheet) : run t [] = t := rfl

@[simp] theorem run_append (t : Sheet) (a b : Script) : run t (a ++ b) = run (run t a) b :=
  List.foldl_append

/-! ### Building scripts -/

/-- Text without line breaks. -/
def text (s : String) : Script := [.text s]

/-- A space. -/
def space : Script := [.space]

/-- The end of a line. -/
def line : Script := [.line]

/-- Comments in a style. -/
def comments (style : CommentStyle) (cs : List Comment) : Script := [.comments style cs]

/-- A script, if a condition holds. -/
def when (b : Bool) (s : Script) : Script := if b then s else []

/-- A text between others. -/
def between (l r : String) (s : Script) : Script := text l ++ s ++ text r

/-- A script in parentheses, if a condition holds. -/
def parenIf (b : Bool) (s : Script) : Script := if b then between "(" ")" s else s

/-- Scripts separated by a text. -/
def separated (sep : String) (items : List Script) : Script := List.intercalate (text sep) items

/-- Scripts separated by commas. -/
def commas (items : List Script) : Script := separated ", " items

/-- A script one step further to the right. -/
def indented (s : Script) : Script := .indent :: s ++ [.dedent]

/-- A script in braces, on lines of its own. -/
def braces (s : Script) : Script := text "\x7b" ++ indented s ++ line ++ text "\x7d"

end Script

end Typeshift.Print
