/-! # Glob patterns

A pattern is a list of tokens. `*` and `?` stay inside a component of a path, `**` as a whole
component stands for any number of them, `[…]` is one of some characters, and `{a,b}` one of some
patterns. A backslash takes the next character as it is.

* `Glob.parse`: the tokens of a pattern, or what is wrong with it. -/

namespace Typeshift.Glob

/-- A token of a pattern. -/
inductive Token where
  | literal (c : Char)
  /-- `?`. -/
  | any
  /-- `*`. -/
  | star
  /-- `**` at the start, with the separator after it. -/
  | directoriesBefore
  /-- `**` at the end, with the separator before it. -/
  | allBelow
  /-- `**` in between, with the separators around it. -/
  | directoriesBetween
  /-- `[a-z]`, or `[!a-z]`. -/
  | oneOf (negated : Bool) (ranges : List (Char × Char))
  /-- `{a,b}`. -/
  | alternatives (branches : List (List Token))

/-- What can be wrong with a pattern. -/
inductive PatternError where
  | unclosedClass
  | invalidRange (low high : Char)
  | unopenedAlternatives
  | unclosedAlternatives
  | danglingEscape
  deriving DecidableEq, Repr

/-- The wording of an error, without the pattern. -/
def PatternError.message : PatternError → String
  | .unclosedClass => "unclosed character class; missing ']'"
  | .invalidRange low high =>
    "invalid range; '" ++ String.singleton low ++ "' > '" ++ String.singleton high ++ "'"
  | .unopenedAlternatives =>
    "unopened alternate group; missing '\x7b' (maybe escape '\x7d' with '[\x7d]'?)"
  | .unclosedAlternatives =>
    "unclosed alternate group; missing '\x7d' (maybe escape '\x7b' with '[\x7b]'?)"
  | .danglingEscape => "dangling '\\'"

/-! ### Building a pattern -/

/-- A group of alternatives that is still open: the tokens before it, last first, and its branches
so far. -/
structure Group where
  before : List Token
  branches : List (List Token)

/-- The tokens of the innermost branch, last first, and the open groups, innermost first. -/
structure Builder where
  current : List Token
  groups : List Group

namespace Builder

/-- Nothing read so far. -/
def empty : Builder := ⟨[], []⟩

/-- Add a token. -/
def push (b : Builder) (t : Token) : Builder := { b with current := t :: b.current }

/-- Open a group. -/
def openGroup (b : Builder) : Builder := ⟨[], ⟨b.current, []⟩ :: b.groups⟩

/-- A comma: the end of a branch, or outside of groups a plain character. -/
def comma (b : Builder) : Builder :=
  match b.groups with
  | [] => b.push (.literal ',')
  | g :: gs => ⟨[], { g with branches := g.branches ++ [b.current.reverse] } :: gs⟩

/-- Close a group. -/
def closeGroup (b : Builder) : Except PatternError Builder :=
  match b.groups with
  | [] => .error .unopenedAlternatives
  | g :: gs => .ok ⟨.alternatives (g.branches ++ [b.current.reverse]) :: g.before, gs⟩

/-- Put a token that takes in the separator in place of the separator. One that already stands for
any number of components stays. -/
def replaceSeparator (b : Builder) (t : Token) : Builder :=
  match b.current with
  | .directoriesBefore :: _ | .allBelow :: _ => b
  | _ :: rest => { b with current := t :: rest }
  | [] => b.push t

/-- Whether `**` can be a whole component after a character. -/
def mayRecurse (b : Builder) (prev : Option Char) : Bool :=
  prev = some '/' || !b.groups.isEmpty && (prev = some ',' || prev = some '\x7b')

/-- The tokens of a whole pattern. -/
def finish (b : Builder) : Except PatternError (List Token) :=
  if b.groups.isEmpty then .ok b.current.reverse else .error .unclosedAlternatives

end Builder

/-- A character class that is still open: its ranges, last first. -/
structure OpenClass where
  negated : Bool
  ranges : List (Char × Char)
  isFirst : Bool
  inRange : Bool

namespace OpenClass

/-- A class without characters. -/
def start (negated : Bool) : OpenClass := ⟨negated, [], true, false⟩

/-- Add a character, or the end of a range. -/
def add (k : OpenClass) (c : Char) : Except PatternError OpenClass :=
  match k.inRange, k.ranges with
  | true, (low, _) :: rest =>
    if c < low then .error (.invalidRange low c)
    else .ok ⟨k.negated, (low, c) :: rest, false, false⟩
  | _, ranges => .ok ⟨k.negated, (c, c) :: ranges, false, false⟩

/-- Add a hyphen: at the start, or as the end of a range, it is a character. -/
def hyphen (k : OpenClass) : Except PatternError OpenClass :=
  if k.isFirst || k.inRange then k.add '-' else .ok { k with inRange := true }

/-- The token of the class. A hyphen at its end is a character. -/
def close (k : OpenClass) : Token :=
  .oneOf k.negated ((if k.inRange then ('-', '-') :: k.ranges else k.ranges).reverse)

end OpenClass

/-- What the next character is read as. -/
inductive Mode where
  | plain
  /-- After a backslash. -/
  | escaped
  /-- After the bracket that opens a class. -/
  | classStart
  | inClass (k : OpenClass)

/-- A character inside a class: the class that goes on, or `none` if it closes. -/
def OpenClass.step (k : OpenClass) (c : Char) : Except PatternError (Option OpenClass) :=
  if c = ']' then (if k.isFirst then some <$> k.add ']' else .ok none)
  else if c = '-' then some <$> k.hyphen
  else some <$> k.add c

/-- Read a pattern after `prev`, the character before. -/
def parseFrom (mode : Mode) (b : Builder) (prev : Option Char) :
    List Char → Except PatternError (List Token)
  | [] =>
    match mode with
    | .plain => b.finish
    | .escaped => .error .danglingEscape
    | .classStart | .inClass _ => .error .unclosedClass
  | c :: cs =>
    match mode with
    | .escaped => parseFrom .plain (b.push (.literal c)) (some c) cs
    | .classStart =>
      if c = '!' || c = '^' then parseFrom (.inClass (.start true)) b (some c) cs
      else do
        match ← (OpenClass.start false).step c with
        | some k => parseFrom (.inClass k) b (some c) cs
        | none => parseFrom .plain b (some c) cs
    | .inClass k => do
      match ← k.step c with
      | some k => parseFrom (.inClass k) b (some c) cs
      | none => parseFrom .plain (b.push k.close) (some c) cs
    | .plain =>
      match c with
      | '?' => parseFrom .plain (b.push .any) (some c) cs
      | '[' => parseFrom .classStart b (some c) cs
      | '\x7b' => parseFrom .plain b.openGroup (some c) cs
      | '\x7d' => do parseFrom .plain (← b.closeGroup) (some c) cs
      | ',' => parseFrom .plain b.comma (some c) cs
      | '\\' => parseFrom .escaped b (some c) cs
      | '*' =>
        match cs with
        | '*' :: rest =>
          let twoStars := (b.push .star).push .star
          if b.current.isEmpty then
            match rest with
            | [] => (b.push .directoriesBefore).finish
            | '/' :: more => parseFrom .plain (b.push .directoriesBefore) (some '/') more
            | d :: more => parseFrom .plain twoStars (some '*') (d :: more)
          else if b.mayRecurse prev then
            match rest with
            | [] => (b.replaceSeparator .allBelow).finish
            | '/' :: more =>
              parseFrom .plain (b.replaceSeparator .directoriesBetween) (some '/') more
            | d :: more =>
              if !b.groups.isEmpty && (d = ',' || d = '\x7d') then
                parseFrom .plain (b.replaceSeparator .allBelow) (some '*') (d :: more)
              else parseFrom .plain twoStars (some '*') (d :: more)
          else parseFrom .plain twoStars (some '*') rest
        | rest => parseFrom .plain (b.push .star) (some c) rest
      | c => parseFrom .plain (b.push (.literal c)) (some c) cs

/-- **The tokens of a pattern.** -/
def parse (pattern : String) : Except PatternError (List Token) :=
  parseFrom .plain .empty none pattern.toList

end Typeshift.Glob
