import Typeshift.Text.Invisible

/-! # Texts in messages

A message that shows a text found in the input puts it between double quotes and writes what cannot
be seen as an escape: quotes, backslashes, line breaks, and all invisible characters.

* `quoted`: a text between double quotes. -/

namespace Typeshift.Text

/-- A character inside a quoted text. -/
def quotedChar (c : Char) : List Char :=
  match c with
  | '"' => ['\\', '"']
  | '\\' => ['\\', '\\']
  | '\n' => ['\\', 'n']
  | '\r' => ['\\', 'r']
  | '\t' => ['\\', 't']
  | '\x00' => ['\\', '0']
  | c =>
    if isInvisible c then '\\' :: 'u' :: '\x7b' :: (Nat.toDigits 16 c.toNat ++ ['\x7d']) else [c]

/-- A text between double quotes. -/
def quoted (s : String) : String :=
  String.ofList ('"' :: s.toList.flatMap quotedChar ++ ['"'])

end Typeshift.Text
