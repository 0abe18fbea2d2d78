import Typeshift.Json.Number

/-! # Reading JSON text

Text is read in one pass over its characters into tokens and in one pass over the tokens into a
value, each pass keeping its unfinished work in a state. Only strict JSON is accepted: no control
characters in strings, no lone surrogates, no text after the value, and at most `maxDepth` arrays
and objects inside each other.

* `Token.scan`: the tokens of a text.
* `Partial.step`: how one token continues an unfinished value.
* `Json.parse`: the value of a text. -/

namespace Typeshift.Json

/-- A token of JSON text. -/
inductive Token where
  | openArray
  | closeArray
  | openObject
  | closeObject
  | comma
  | colon
  | text (s : String)
  | scalar (v : Json)

/-! ### Characters to tokens -/

/-- What the scanner is in the middle of. Unfinished texts are kept backwards. -/
inductive Scan where
  /-- Between two tokens. -/
  | gap
  /-- In a word: a numeral or one of the three names. -/
  | word (rev : List Char)
  /-- In a string. -/
  | text (rev : List Char)
  /-- After a backslash in a string. -/
  | escape (rev : List Char)
  /-- After `\u`, with the hexadecimal digits so far and a high surrogate that waits for its
  partner. -/
  | code (rev : List Char) (high : Option Nat) (digits : List Nat)
  /-- After a high surrogate; a backslash must follow. -/
  | pairSlash (rev : List Char) (high : Nat)
  /-- After a high surrogate and a backslash; the letter `u` must follow. -/
  | pairLetter (rev : List Char) (high : Nat)

/-- The blanks allowed between tokens. -/
def isGap (c : Char) : Bool := c = ' ' || c = '\n' || c = '\t' || c = '\r'

/-- The token of a character that is a token by itself. -/
def Token.ofChar? : Char → Option Token
  | '[' => some .openArray
  | ']' => some .closeArray
  | '\x7b' => some .openObject
  | '\x7d' => some .closeObject
  | ',' => some .comma
  | ':' => some .colon
  | _ => none

/-- The token of a word. -/
def Token.ofWord? (cs : List Char) : Option Token :=
  match String.ofList cs with
  | "null" => some (.scalar .null)
  | "true" => some (.scalar (.bool true))
  | "false" => some (.scalar (.bool false))
  | _ => (Number.parse cs).map .scalar

/-- The value of a hexadecimal digit. -/
def hexDigit? (c : Char) : Option Nat :=
  if c.isDigit then some (c.toNat - '0'.toNat)
  else if 'a' ≤ c ∧ c ≤ 'f' then some (c.toNat - 'a'.toNat + 10)
  else if 'A' ≤ c ∧ c ≤ 'F' then some (c.toNat - 'A'.toNat + 10)
  else none

/-- The character after a backslash in a string, for the escapes of one letter. -/
def escaped? : Char → Option Char
  | '"' => some '"'
  | '\\' => some '\\'
  | '/' => some '/'
  | 'b' => some '\x08'
  | 'f' => some '\x0c'
  | 'n' => some '\n'
  | 'r' => some '\r'
  | 't' => some '\t'
  | _ => none

/-- Whether a code unit is a high surrogate, the first half of a pair. -/
def isHigh (n : Nat) : Bool := 0xD800 ≤ n && n < 0xDC00

/-- Whether a code unit is a low surrogate, the second half of a pair. -/
def isLow (n : Nat) : Bool := 0xDC00 ≤ n && n < 0xE000

/-- Continue a string after a complete `\u` escape. -/
def afterCode (rev : List Char) (high : Option Nat) (n : Nat) : Option Scan :=
  match high with
  | some h =>
    if isLow n then some (.text (Char.ofNat (0x10000 + (h - 0xD800) * 0x400 + (n - 0xDC00)) :: rev))
    else none
  | none =>
    if isHigh n then some (.pairSlash rev n)
    else if isLow n then none
    else some (.text (Char.ofNat n :: rev))

/-- One character between two tokens. -/
def Token.start (tokens : List Token) (c : Char) : List Token × Scan :=
  if isGap c then (tokens, .gap)
  else if c = '"' then (tokens, .text [])
  else match Token.ofChar? c with
    | some t => (t :: tokens, .gap)
    | none => (tokens, .word [c])

/-- **One character.** The tokens so far are kept backwards. -/
def Token.step : List Token × Scan → Char → Option (List Token × Scan)
  | (tokens, .gap), c => some (Token.start tokens c)
  | (tokens, .word rev), c =>
    if isGap c ∨ c = '"' ∨ (Token.ofChar? c).isSome then
      (Token.ofWord? rev.reverse).map fun t => Token.start (t :: tokens) c
    else some (tokens, .word (c :: rev))
  | (tokens, .text rev), c =>
    if c = '"' then some (.text (String.ofList rev.reverse) :: tokens, .gap)
    else if c = '\\' then some (tokens, .escape rev)
    else if c.toNat < 0x20 then none
    else some (tokens, .text (c :: rev))
  | (tokens, .escape rev), c =>
    if c = 'u' then some (tokens, .code rev none [])
    else (escaped? c).map fun e => (tokens, .text (e :: rev))
  | (tokens, .code rev high digits), c => do
    let d ← hexDigit? c
    let digits := digits ++ [d]
    if digits.length = 4 then
      (afterCode rev high (digits.foldl (fun n d => n * 16 + d) 0)).map fun s => (tokens, s)
    else some (tokens, .code rev high digits)
  | (tokens, .pairSlash rev high), c =>
    if c = '\\' then some (tokens, .pairLetter rev high) else none
  | (tokens, .pairLetter rev high), c =>
    if c = 'u' then some (tokens, .code rev (some high) []) else none

/-- **The tokens of a text**, `none` if it ends inside a string or holds a word that is none. -/
def Token.scan (s : String) : Option (List Token) := do
  match ← s.toList.foldlM Token.step ([], Scan.gap) with
  | (tokens, .gap) => some tokens.reverse
  | (tokens, .word rev) => (Token.ofWord? rev.reverse).map fun t => (t :: tokens).reverse
  | _ => none

/-! ### Tokens to values -/

/-- An array or object that is not closed yet. Items are kept backwards. -/
inductive Frame where
  | items (rev : List Json)
  | entries (done : List (String × Json)) (key : String)

/-- What may come next. -/
inductive Expected where
  | value
  | valueOrClose
  | key (orClose : Bool)
  | colon
  | separator
  | nothing (result : Json)

/-- An unfinished value: the open arrays and objects, innermost first, and what may come next. -/
structure Partial where
  frames : List Frame
  expected : Expected

/-- How many arrays and objects may lie inside each other. -/
def maxDepth : Nat := 127

/-- A complete value goes into the innermost open array or object. -/
def Partial.complete (v : Json) : List Frame → Partial
  | [] => ⟨[], .nothing v⟩
  | .items rev :: rest => ⟨.items (v :: rev) :: rest, .separator⟩
  | .entries done key :: rest => ⟨.entries (insertKey key v done) key :: rest, .separator⟩

/-- Open an array or object, unless too many are open. -/
def Partial.push (f : Frame) (e : Expected) (frames : List Frame) : Option Partial :=
  if frames.length < maxDepth then some ⟨f :: frames, e⟩ else none

/-- The first token of a value. -/
def Partial.value (frames : List Frame) : Token → Option Partial
  | .scalar v => some (Partial.complete v frames)
  | .text s => some (Partial.complete (.str s) frames)
  | .openArray => Partial.push (.items []) .valueOrClose frames
  | .openObject => Partial.push (.entries [] "") (.key true) frames
  | _ => none

/-- **One token.** -/
def Partial.step : Partial → Token → Option Partial
  | ⟨frames, .value⟩, t => Partial.value frames t
  | ⟨.items [] :: rest, .valueOrClose⟩, .closeArray => some (Partial.complete (.arr []) rest)
  | ⟨frames, .valueOrClose⟩, t => Partial.value frames t
  | ⟨.entries done _ :: rest, .key _⟩, .text key => some ⟨.entries done key :: rest, .colon⟩
  | ⟨.entries done _ :: rest, .key true⟩, .closeObject => some (Partial.complete (.obj done) rest)
  | ⟨frames, .colon⟩, .colon => some ⟨frames, .value⟩
  | ⟨.items rev :: rest, .separator⟩, .comma => some ⟨.items rev :: rest, .value⟩
  | ⟨.items rev :: rest, .separator⟩, .closeArray => some (Partial.complete (.arr rev.reverse) rest)
  | ⟨.entries done key :: rest, .separator⟩, .comma => some ⟨.entries done key :: rest, .key false⟩
  | ⟨.entries done _ :: rest, .separator⟩, .closeObject => some (Partial.complete (.obj done) rest)
  | _, _ => none

/-- **The value of a text**, `none` if the text is not one JSON value. -/
def parse (s : String) : Option Json := do
  let tokens ← Token.scan s
  match (← tokens.foldlM Partial.step ⟨[], .value⟩).expected with
  | .nothing v => some v
  | _ => none

end Typeshift.Json
