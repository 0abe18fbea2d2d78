import Typeshift.Diagnostic.Basic

/-! # Reports for a terminal

Diagnostics are written one a line, failures with the error on a line of its own. On a terminal
places, categories and numbers are coloured.

* `Palette.render`: a list of diagnostics.
* `Palette.failure`: a file that could not be converted. -/

namespace Typeshift

/-- The colours and weights of a report. -/
inductive Style where
  | cyan
  | red
  | yellow
  | blue
  | dimmed
  | boldRed

/-- The codes that switch a style on. -/
def Style.codes : Style → String
  | .cyan => "36"
  | .red => "31"
  | .yellow => "33"
  | .blue => "34"
  | .dimmed => "2"
  | .boldRed => "1;31"

/-- Whether a report is coloured. -/
structure Palette where
  color : Bool

namespace Palette

/-- The sequence that switches a style on. -/
def start (s : Style) : String := "\x1b[" ++ s.codes ++ "m"

/-- The sequence that switches every style off. -/
def reset : String := "\x1b[0m"

/-- A text in a style, if the report is coloured. A text that switches styles off itself goes on in
the style after that. -/
def paint (p : Palette) (s : Style) (text : String) : String :=
  if p.color then start s ++ Text.replaceAll reset (reset ++ start s) text ++ reset else text

/-- The style of a category. -/
def categoryStyle : Category → Style
  | .error => .red
  | .warning => .yellow
  | .suggestion => .blue
  | .message => .blue

/-- One diagnostic. Without a file it came from the standard input. -/
def diagnostic (p : Palette) (d : Diagnostic) : String :=
  let location := if d.file = "" then "<stdin>" else d.file ++ "(" ++ Nat.repr d.start ++ ")"
  p.paint .cyan location ++ " - " ++ p.paint (categoryStyle d.category) d.category.text ++ " " ++
    p.paint .dimmed d.codeText ++ ": " ++ d.text

/-- **A list of diagnostics**, one a line. -/
def render (p : Palette) (ds : List Diagnostic) : String :=
  "\n".intercalate (ds.map p.diagnostic)

/-- **A file that could not be converted**, with the error below. -/
def failure (p : Palette) (file error : String) : String :=
  p.paint .boldRed ("FAILED ON FILE: " ++ file) ++ "\n  " ++ error

end Palette

end Typeshift
