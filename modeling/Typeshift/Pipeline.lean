import Typeshift.Convert.Basic
import Typeshift.Json.Writer
import Typeshift.Normalize.Basic
import Typeshift.Pragma
import Typeshift.Print.Printer
import Typeshift.Rule.Lossy
import Typeshift.Tree.Load
import Typeshift.Tree.Serialize

/-! # Compilation

A text is read as a tree; the rules look at it, it is normalized and converted, its marker is
removed, and the result is written.

* `Node.transform`: the steps between reading and writing.
* `compile`: all of them. -/

namespace Typeshift

/-- The forms of the output. -/
inductive OutputFormat where
  /-- TypeScript source text. -/
  | typescript
  /-- The target tree as JSON, spread over lines or on one line. -/
  | json (pretty : Bool)
  deriving DecidableEq, Repr

/-- The choices of a compilation. -/
structure CompileOptions where
  /-- The marker comments of which one is removed. -/
  pragmas : List String
  format : OutputFormat
  print : Print.Options

/-- The usual choices. -/
def CompileOptions.standard : CompileOptions := ⟨[defaultPragma], .typescript, .standard⟩

/-- A converted tree that is ready to be written. -/
structure Transformed where
  tree : Node
  /-- What the conversion found, and then what the rules found. -/
  diagnostics : List Diagnostic
  /-- The names of the hoisted types. -/
  hoisted : List String
  pragmaRemoved : Bool

/-- **The steps between reading and writing.** The rules see the tree as it was read. -/
def Node.transform (pragmas : List String) (rules : Registry) (t : Node) : Transformed :=
  let (normalized, report) := t.normalize
  let conversion := normalized.convert
  let (tree, removed) := conversion.tree.stripPragma pragmas
  ⟨tree, conversion.diagnostics ++ rules.run t, report.hoisted, removed⟩

/-- The text of a target tree. -/
def Node.write (format : OutputFormat) (o : Print.Options) (t : Node) : Except PrintError String :=
  match format with
  | .typescript => printText o t
  | .json true => .ok (t.toJson.pretty ++ "\n")
  | .json false => .ok (t.toJson.compact ++ "\n")

/-- The result of a compilation. -/
structure CompileOutput where
  code : String
  diagnostics : List Diagnostic
  hoisted : List String
  pragmaRemoved : Bool

/-- Why a text cannot be compiled. -/
inductive CompileError where
  | load (e : LoadError)
  | print (e : PrintError)

/-- The wording of an error with its causes, outermost first. -/
def CompileError.message : CompileError → String
  | .load e => "failed to read the source AST: " ++ e.chain
  | .print e => "failed to print the converted tree: " ++ e.message

/-- **Compile a text.** -/
def compile (options : CompileOptions) (rules : Registry) (source : String) :
    Except CompileError CompileOutput := do
  let tree ← (Node.parse source).mapError .load
  let result := tree.transform options.pragmas rules
  let code ← (result.tree.write options.format options.print).mapError .print
  return ⟨code, result.diagnostics, result.hoisted, result.pragmaRemoved⟩

end Typeshift
