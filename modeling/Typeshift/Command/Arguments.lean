import Typeshift.Disk.Path
import Typeshift.Pipeline

/-! # Arguments of the command

An argument is a switch, the value of a switch, or an input. Switches are long (`--output`), with a
value after `=` or in the next argument, or short (`-o`), and several short ones may be written
together. After `--` all arguments are inputs.

A value that stands in an argument of its own is judged late: when the next switch or input is read,
or at the end. An unknown switch after it is found first.

* `Arguments.parse`: what the arguments say, or why the command stops before its work.
* `UsageError.message`: the wording of what can be wrong with them. -/

namespace Typeshift.Command

open Typeshift.Disk

/-- What is written for each input. -/
inductive Format where
  | typescript
  | json
  deriving DecidableEq, Repr

/-- What the arguments say. -/
structure Arguments where
  /-- Files, directories and patterns. -/
  inputs : List String
  /-- A file or directory for the output. -/
  output : Option Path
  format : Format
  /-- Whether the output gets the extension of files with markup. -/
  rename : Bool
  /-- The marker comments to remove, if any are named. -/
  pragmas : List String
  /-- Whether lossy conversions are reported. -/
  warnLossy : Bool
  /-- Whether diagnostics are not shown. -/
  quiet : Bool
  indentWidth : Nat
  singleQuote : Bool
  noSemicolons : Bool
  deriving DecidableEq, Repr

namespace Arguments

/-- What no arguments say. -/
def none : Arguments :=
  ⟨[], .none, .typescript, false, [], false, false, Print.Options.standard.indentWidth, false,
    false⟩

/-- Whether the only input is the standard input. -/
def readsStdin (a : Arguments) : Bool := a.inputs = [] || a.inputs = ["-"]

/-- The choices for the compilation. -/
def compileOptions (a : Arguments) : CompileOptions where
  pragmas := if a.pragmas = [] then [defaultPragma] else a.pragmas
  format := match a.format with
    | .typescript => .typescript
    | .json => .json true
  print := ⟨a.indentWidth, a.singleQuote, !a.noSemicolons⟩

/-- The rules that look at the inputs. -/
def rules (a : Arguments) : Registry := if a.warnLossy then .builtin else .empty

end Arguments

/-! ### Switches -/

/-- Switches that take no value. -/
inductive Flag where
  | rename
  | warnLossy
  | quiet
  | singleQuote
  | noSemicolons
  deriving DecidableEq, Repr

/-- Switches that take a value. -/
inductive Setting where
  | output
  | format
  | pragma
  | indentWidth
  deriving DecidableEq, Repr

/-- All switches. -/
inductive Switch where
  | flag (f : Flag)
  | setting (s : Setting)
  | help
  | version
  deriving DecidableEq, Repr

namespace Switch

/-- The switches by their long names. -/
def longNames : List (String × Switch) :=
  [("output", .setting .output), ("format", .setting .format), ("rename", .flag .rename),
    ("pragma", .setting .pragma), ("warn-lossy", .flag .warnLossy), ("quiet", .flag .quiet),
    ("indent-width", .setting .indentWidth), ("single-quote", .flag .singleQuote),
    ("no-semicolons", .flag .noSemicolons), ("help", .help), ("version", .version)]

/-- The switches by their short names. -/
def shortNames : List (Char × Switch) :=
  [('o', .setting .output), ('q', .flag .quiet), ('h', .help), ('V', .version)]

/-- The long name of a switch, with its hyphens. -/
def name (s : Switch) : String :=
  match longNames.find? (·.2 = s) with
  | some (n, _) => "--" ++ n
  | .none => ""

end Switch

/-! ### Errors -/

/-- What can be wrong with the arguments. -/
inductive UsageError where
  | unknown (argument : String)
  | missingValue (s : Setting)
  | emptyPath
  | unknownFormat (value : String)
  | invalidWidth (value : String)
  | needlessValue (s : Switch) (value : String)
  | repeated (s : Switch)
  deriving DecidableEq, Repr

/-- Why the command stops before its work. -/
inductive Stop where
  | help
  | version
  | usage (e : UsageError)
  deriving DecidableEq, Repr

/-- How the command is called. -/
def usageLine : String := "Usage: flowts [OPTIONS] [INPUTS]..."

/-- The wording of an error. -/
def UsageError.message : UsageError → String
  | .unknown a => "unexpected argument '" ++ a ++ "' found"
  | .missingValue s =>
    "a value is required for '" ++ (Switch.setting s).name ++ "' but none was supplied"
  | .emptyPath => "a value is required for '--output' but none was supplied"
  | .unknownFormat v => "invalid value '" ++ v ++ "' for '--format'"
  | .invalidWidth v => "invalid value '" ++ v ++ "' for '--indent-width'"
  | .needlessValue s v => "unexpected value '" ++ v ++ "' for '" ++ s.name ++ "' found"
  | .repeated s => "the argument '" ++ s.name ++ "' cannot be used multiple times"

/-! ### Values -/

/-- The number that some digits write. -/
def digitsValue (ds : List Char) : Nat := ds.foldl (fun n d => n * 10 + (d.toNat - '0'.toNat)) 0

/-- A number without its sign, and whether the sign is a minus. -/
def splitSign : List Char → Bool × List Char
  | '-' :: ds => (true, ds)
  | '+' :: ds => (false, ds)
  | ds => (false, ds)

/-- A width of indentation: a number below `2 ^ 32`, with or without a sign. -/
def parseWidth? (s : String) : Option Nat :=
  let (isNegative, ds) := splitSign s.toList
  let n := digitsValue ds
  let isNumber := !ds.isEmpty && ds.all Char.isDigit
  if isNumber && n < Nat.pow 2 32 && (!isNegative || n = 0) then some n else none

/-- A format. -/
def Format.parse? : String → Option Format
  | "ts" => some .typescript
  | "json" => some .json
  | _ => none

namespace Arguments

/-- The arguments with a flag set. -/
def setFlag (a : Arguments) : Flag → Arguments
  | .rename => { a with rename := true }
  | .warnLossy => { a with warnLossy := true }
  | .quiet => { a with quiet := true }
  | .singleQuote => { a with singleQuote := true }
  | .noSemicolons => { a with noSemicolons := true }

/-- The arguments with a setting changed. -/
def set (a : Arguments) (s : Setting) (value : String) : Except UsageError Arguments :=
  match s with
  | .output => if value = "" then .error .emptyPath else .ok { a with output := some ⟨value⟩ }
  | .format =>
    match Format.parse? value with
    | some f => .ok { a with format := f }
    | .none => .error (.unknownFormat value)
  | .pragma => .ok { a with pragmas := a.pragmas ++ [value] }
  | .indentWidth =>
    match parseWidth? value with
    | some n => .ok { a with indentWidth := n }
    | .none => .error (.invalidWidth value)

end Arguments

/-! ### Reading -/

/-- The arguments read so far. -/
structure Reading where
  arguments : Arguments
  /-- The switches that were given. -/
  given : List Switch
  /-- A setting whose value is awaited or not yet judged. -/
  pending : Option (Setting × Option String)

namespace Reading

/-- Nothing read so far. -/
def start : Reading := ⟨.none, [], .none⟩

/-- Note that a switch is given. Only markers may be named repeatedly. -/
def give (r : Reading) (s : Switch) : Except Stop Reading :=
  if s ≠ .setting .pragma && r.given.contains s then .error (.usage (.repeated s))
  else .ok { r with given := s :: r.given }

/-- Change a setting. -/
def assign (r : Reading) (s : Setting) (value : String) : Except Stop Reading := do
  let r ← r.give (.setting s)
  return { r with arguments := ← (r.arguments.set s value).mapError .usage }

/-- Judge the setting that is pending. -/
def settle (r : Reading) : Except Stop Reading :=
  match r.pending with
  | .none => .ok r
  | some (s, .none) => .error (.usage (.missingValue s))
  | some (s, some value) => Reading.assign { r with pending := .none } s value

/-- An input. -/
def input (r : Reading) (value : String) : Except Stop Reading := do
  let r ← r.settle
  return { r with arguments := { r.arguments with inputs := r.arguments.inputs ++ [value] } }

/-- A setting, whose value may be attached. -/
def setting (r : Reading) (s : Setting) (attached : Option String) : Except Stop Reading := do
  let r ← r.settle
  match attached with
  | some value => r.assign s value
  | .none => return { r with pending := some (s, .none) }

/-- A switch without a value. -/
def plain (r : Reading) (f : Flag) : Except Stop Reading := do
  let r ← (← r.settle).give (.flag f)
  return { r with arguments := r.arguments.setFlag f }

/-- A question, which is answered in place of the work. -/
def question (r : Reading) (s : Stop) : Except Stop Reading := do
  let _ ← r.settle
  .error s

/-- A long switch, with the text after `=` if there is one. -/
def long (r : Reading) (name : String) (attached : Option String) : Except Stop Reading :=
  match Switch.longNames.lookup name with
  | .none => .error (.usage (.unknown ("--" ++ name)))
  | some (.setting s) => r.setting s attached
  | some s =>
    match attached with
    | some value => .error (.usage (.needlessValue s value))
    | .none =>
      match s with
      | .flag f => r.plain f
      | .version => r.question .version
      | _ => r.question .help

/-- Short switches written together. The rest after one that takes a value is its value. -/
def shorts (r : Reading) : List Char → Except Stop Reading
  | [] => .ok r
  | c :: cs =>
    match Switch.shortNames.lookup c with
    | .none => .error (.usage (.unknown ("-" ++ String.singleton c)))
    | some (.flag f) => do (← r.plain f).shorts cs
    | some .help => r.question .help
    | some .version => r.question .version
    | some (.setting s) => r.setting s (match cs with
      | [] => .none
      | '=' :: value => some (String.ofList value)
      | value => some (String.ofList value))

/-- A value or an input. -/
def value (r : Reading) (text : String) : Except Stop Reading :=
  match r.pending with
  | some (s, .none) => .ok { r with pending := some (s, some text) }
  | _ => r.input text

/-- The parts of a long switch before and after its first `=`. -/
def splitEquals (cs : List Char) : String × Option String :=
  (String.ofList (cs.takeWhile (· ≠ '=')), match cs.dropWhile (· ≠ '=') with
    | [] => .none
    | _ :: value => some (String.ofList value))

/-- An argument before `--`. -/
def argument (r : Reading) (text : String) : Except Stop Reading :=
  match text.toList with
  | '-' :: '-' :: cs => let (name, attached) := splitEquals cs; r.long name attached
  | '-' :: c :: cs => r.shorts (c :: cs)
  | _ => r.value text

/-- All arguments. -/
def all (r : Reading) : List String → Except Stop Reading
  | [] => .ok r
  | text :: rest =>
    if text = "--" then rest.foldlM input r else do (← r.argument text).all rest

end Reading

/-- **What the arguments say.** -/
def Arguments.parse (args : List String) : Except Stop Arguments := do
  let r ← Reading.start.all args
  return (← r.settle).arguments

end Typeshift.Command
