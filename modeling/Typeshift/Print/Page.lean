/-! # Pages

A page is text that grows at its end. Lines are indented lazily: the margin is written only when
something is put on the line, so lines that stay empty have no margin and ending a line twice makes
no blank line.

* `Page.write`: text without line breaks; `Page.writeRaw`: text that may contain them.
* `Page.endLine`: end the current line.
* `Page.finish`: the whole text, its last line ended. -/

namespace Typeshift.Print

/-- Text under construction. -/
structure Page where
  output : String
  /-- How many steps the next line is indented. A printer counts them with 32 bits; no text in
  memory is indented so far that the count could overflow. -/
  level : Nat
  /-- The number of spaces in a step. -/
  width : Nat
  /-- Whether nothing stands on the current line. -/
  atLineStart : Bool
  deriving DecidableEq, Repr

namespace Page

/-- An empty page. -/
def empty (width : Nat) : Page := ⟨"", 0, width, true⟩

/-- The spaces before the first text of a line. -/
def margin (p : Page) : String := String.ofList (List.replicate (p.level * p.width) ' ')

/-- Begin the current line, if it has not begun. -/
def beginLine (p : Page) : Page :=
  if p.atLineStart then { p with output := p.output ++ p.margin, atLineStart := false } else p

/-- Add text to the current line, which must have begun. -/
def append (p : Page) (s : String) : Page := { p with output := p.output ++ s }

/-- Write text without line breaks. -/
def write (p : Page) (s : String) : Page := if s.isEmpty then p else p.beginLine.append s

/-- Write one character. -/
def writeChar (p : Page) (c : Char) : Page := p.beginLine.append (String.singleton c)

/-- Write text that may span lines; the lines after its first are left as they are. -/
def writeRaw (p : Page) (s : String) : Page :=
  if s.isEmpty then p else
    { p.beginLine.append s with atLineStart := s.toList.getLast? == some '\n' }

/-- Write a space. -/
def space (p : Page) : Page := p.writeChar ' '

/-- End the current line, if something stands on it. -/
def endLine (p : Page) : Page :=
  if p.atLineStart then p else { p.append "\n" with atLineStart := true }

/-- Indent the lines that follow by one more step. -/
def indent (p : Page) : Page := { p with level := p.level + 1 }

/-- Indent the lines that follow by one step less. -/
def dedent (p : Page) : Page := { p with level := p.level - 1 }

/-- The whole text, its last line ended. -/
def finish (p : Page) : String := p.endLine.output

end Page

end Typeshift.Print
