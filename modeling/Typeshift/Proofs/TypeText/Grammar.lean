import Typeshift.Proofs.Expression.Grammar

/-! # A grammar of types

The part of the grammar of types whose terminals are names, keywords, numerals, strings, brackets
and the marks `|`, `&`, `=>`, `?`, `:`, `,` and `.`. Parentheses are no part of a type: they only
say how a type is put together.

* `Typ`: a type without its parentheses.
* `Derives`: the grammar, with the type that a list of tokens stands for. -/

namespace Typeshift.TypeText

open Expression (reserved)

/-- A token of a type: a word, a numeral, a string or a mark such as `|` or `(`. A string is given
by its value. -/
inductive Token where
  | word (s : String)
  | numeral (s : String)
  | string (value : String)
  | mark (s : String)
  deriving DecidableEq, Repr

/-- A parameter of a function type, with what is known of its type. -/
structure Parameter (τ : Type) where
  name : String
  isOptional : Bool
  type? : Option τ

/-- A parameter with something else known of its type. -/
def Parameter.map {σ τ : Type} (f : σ → τ) (p : Parameter σ) : Parameter τ :=
  ⟨p.name, p.isOptional, p.type?.map f⟩

/-- A type without its parentheses. -/
inductive Typ where
  | keyword (word : String)
  | string (value : String)
  | numeral (digits : String)
  /-- `a.b<T, U>`; without arguments there are no angle brackets. -/
  | reference (name : List String) (arguments : List Typ)
  /-- `typeof a.b`. -/
  | query (name : List String)
  /-- `keyof T`. -/
  | operator (word : String) (argument : Typ)
  | array (element : Typ)
  | tuple (elements : List Typ)
  /-- `T[K]`. -/
  | access (object index : Typ)
  | function (parameters : List (Parameter Typ)) (result : Typ)
  | union (members : List Typ)
  | intersection (members : List Typ)

/-- The words that are types by themselves. -/
def keywords : List String :=
  ["any", "unknown", "never", "void", "null", "undefined", "number", "string", "boolean", "symbol",
    "bigint", "object", "this", "true", "false"]

/-- The operators before a type. -/
def operators : List String := ["keyof", "unique", "readonly"]

/-- A word may begin the name of a type that goes on with the given words. A word that is a type by
itself is a part of a name only before a point. -/
def IsReference (x : String) (xs : List String) : Prop :=
  x ∉ reserved ∧ x ∉ "infer" :: operators ∧ (xs = [] → x ∉ keywords)

instance (x : String) (xs : List String) : Decidable (IsReference x xs) := by
  unfold IsReference
  infer_instance

/-- A word may be the name of a parameter. -/
def IsParameter (x : String) : Prop := x ∉ reserved ∨ x = "this"

instance (x : String) : Decidable (IsParameter x) := by
  unfold IsParameter
  infer_instance

/-- The kinds of phrases, the narrowest first. -/
inductive Phrase where
  | primary | access | operator | intersection | union | whole
  deriving DecidableEq, Repr

/-- The kind of phrase that may be made of a single phrase of the given kind. -/
def Phrase.wider : Phrase → Option Phrase
  | .primary => some .access
  | .access => some .operator
  | .operator => some .intersection
  | .intersection => some .union
  | .union => some .whole
  | .whole => none

/-- Words with points before them. -/
def pointed (xs : List String) : List Token := xs.flatMap fun x => [.mark ".", .word x]

/-- Lists of tokens with a mark between them. -/
def joined (m : String) (parts : List (List Token)) : List Token := List.intercalate [.mark m] parts

/-- A mark, if there is one. -/
def markIf (m : String) (there : Bool) : List Token := if there then [.mark m] else []

/-- Lists of tokens with commas between them. There may be a comma after the last one. -/
def listed (parts : List (List Token)) (comma : Bool) : List Token :=
  joined "," parts ++ markIf "," comma

/-- The tokens of a parameter, given those of its type. -/
def Parameter.tokens (p : Parameter (List Token)) : List Token :=
  .word p.name :: markIf "?" p.isOptional ++
    match p.type? with
    | none => []
    | some ts => .mark ":" :: ts

/-- **The grammar**: a phrase of a kind, its tokens and the type they stand for. -/
inductive Derives : Phrase → List Token → Typ → Prop where
  | wider {p q : Phrase} {ts : List Token} {t : Typ} (narrow : Derives q ts t)
      (hq : q.wider = some p) : Derives p ts t
  | keyword {w : String} (hw : w ∈ keywords) : Derives .primary [.word w] (.keyword w)
  | string (value : String) : Derives .primary [.string value] (.string value)
  | numeral (digits : String) : Derives .primary [.numeral digits] (.numeral digits)
  | reference {x : String} {xs : List String} (hx : IsReference x xs) :
    Derives .primary (.word x :: pointed xs) (.reference (x :: xs) [])
  | generic {x : String} {xs : List String} {parts : List (List Token × Typ)}
      (hx : IsReference x xs) (hne : parts ≠ [])
      (arguments : ∀ part ∈ parts, Derives .whole part.1 part.2) :
    Derives .primary
      (.word x :: pointed xs ++ .mark "<" :: joined "," (parts.map Prod.fst) ++ [.mark ">"])
      (.reference (x :: xs) (parts.map Prod.snd))
  | query {x : String} {xs : List String} (hx : x ∉ reserved) :
    Derives .primary (.word "typeof" :: .word x :: pointed xs) (.query (x :: xs))
  | paren {ts : List Token} {t : Typ} (inner : Derives .whole ts t) :
    Derives .primary (.mark "(" :: ts ++ [.mark ")"]) t
  | tuple {parts : List (List Token × Typ)} {comma : Bool}
      (elements : ∀ part ∈ parts, Derives .whole part.1 part.2)
      (hcomma : comma = true → parts ≠ []) :
    Derives .primary (.mark "[" :: listed (parts.map Prod.fst) comma ++ [.mark "]"])
      (.tuple (parts.map Prod.snd))
  | array {ts : List Token} {t : Typ} (element : Derives .access ts t) :
    Derives .access (ts ++ [.mark "[", .mark "]"]) (.array t)
  | access {ts us : List Token} {t k : Typ} (object : Derives .access ts t)
      (index : Derives .whole us k) :
    Derives .access (ts ++ .mark "[" :: us ++ [.mark "]"]) (.access t k)
  | operator {w : String} {ts : List Token} {t : Typ} (hw : w ∈ operators)
      (argument : Derives .operator ts t) : Derives .operator (.word w :: ts) (.operator w t)
  | intersection {parts : List (List Token × Typ)} {leads : Bool}
      (members : ∀ part ∈ parts, Derives .operator part.1 part.2) (hne : parts ≠ [])
      (hlength : leads = false → 2 ≤ parts.length) :
    Derives .intersection (markIf "&" leads ++ joined "&" (parts.map Prod.fst))
      (.intersection (parts.map Prod.snd))
  | union {parts : List (List Token × Typ)} {leads : Bool}
      (members : ∀ part ∈ parts, Derives .intersection part.1 part.2) (hne : parts ≠ [])
      (hlength : leads = false → 2 ≤ parts.length) :
    Derives .union (markIf "|" leads ++ joined "|" (parts.map Prod.fst))
      (.union (parts.map Prod.snd))
  | function {parts : List (Parameter (List Token × Typ))} {comma : Bool} {us : List Token}
      {r : Typ} (names : ∀ part ∈ parts, IsParameter part.name)
      (types : ∀ part ∈ parts, ∀ ty ∈ part.type?, Derives .whole ty.1 ty.2)
      (hcomma : comma = true → parts ≠ []) (result : Derives .whole us r) :
    Derives .whole
      (.mark "(" :: listed (parts.map fun part => (part.map Prod.fst).tokens) comma
        ++ .mark ")" :: .mark "=>" :: us)
      (.function (parts.map (Parameter.map Prod.snd)) r)

end Typeshift.TypeText
