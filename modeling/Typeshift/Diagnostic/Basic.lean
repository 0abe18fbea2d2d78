import Typeshift.Diagnostic.Message
import Typeshift.Tree.Span

/-! # Diagnostics

A diagnostic is a finding at a place of a source file. None of them stops the conversion.

* `Diagnostic.ofCode`: a diagnostic from the message table. A number that is not in the table still
  gives a diagnostic, whose text is the arguments.
* `Diagnostic.display`: one line of text. -/

namespace Typeshift

/-- A finding at a place. -/
structure Diagnostic where
  file : String
  start : Nat
  length : Nat
  text : String
  category : Category
  code : Nat
  deriving DecidableEq, Repr

namespace Diagnostic

/-- **A diagnostic from the message table.** -/
def ofCode (code : Nat) (span : Option Span) (args : List String) : Diagnostic :=
  let span := span.getD .zero
  match Message.find? code with
  | some m => ⟨"", span.start, span.length, formatMessage m.template args, m.category, code⟩
  | none => ⟨"", span.start, span.length, " ".intercalate args, .warning, code⟩

/-- A diagnostic for a finding. -/
def ofFinding (f : Finding) (span : Option Span) (args : List String) : Diagnostic :=
  ofCode f.code span args

/-- The diagnostic with the file it belongs to. -/
def withFile (d : Diagnostic) (file : String) : Diagnostic := { d with file := file }

/-- The number of a diagnostic as it is written. -/
def codeText (d : Diagnostic) : String := "FT" ++ Nat.repr d.code

/-- One line of text, with the place if the file is known. -/
def display (d : Diagnostic) : String :=
  (if d.file = "" then "" else d.file ++ "(" ++ Nat.repr d.start ++ "): ") ++
    d.category.text ++ " " ++ d.codeText ++ ": " ++ d.text

end Diagnostic

end Typeshift
