import Typeshift.Text.Blank

/-! # Formats of the log

The format of the log is chosen by a setting in the environment. -/

namespace Typeshift.Command

/-- The formats of the log. -/
inductive LogFormat where
  | text
  | tree
  | json
  deriving DecidableEq, Repr

/-- **The format that a setting names.** Blanks around it and the case of its letters do not count;
anything unknown is plain text. -/
def LogFormat.parse (value : String) : LogFormat :=
  match String.ofList ((Text.trim value).toList.map Char.toLower) with
  | "tree" => .tree
  | "json" => .json
  | _ => .text

end Typeshift.Command
