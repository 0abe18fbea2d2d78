import Typeshift.Proofs.Expression.Unambiguous
import Typeshift.Proofs.TypeText.Grammar

/-! # The grammar of types is unambiguous

A list of tokens stands for at most one type. The proof reads the tokens from left to right, one
kind of phrase after the other. An opening parenthesis begins a function type if `=>` stands after
the parenthesis that closes it, and a type in parentheses otherwise. The reader accepts more than
the grammar does, but where the grammar derives a type it finds that type.

* `parse`: read a phrase of a kind.
* `Derives.isArrow_eq_false`: only a function type begins as one.
* `Derives.complete`: the reader finds what the grammar derives.
* `Derives.unique`: no list of tokens stands for two types. -/

namespace Typeshift.TypeText

open Expression (Eventually reserved)

/-! ### Reading from left to right -/

/-- The tokens after a given one. -/
def expect (t : Token) : List Token → Option (List Token)
  | [] => none
  | u :: ts => if u = t then some ts else none

/-- The tokens after the parenthesis that closes one before them, with so many open since. -/
def skip : Nat → List Token → List Token
  | _, [] => []
  | d, t :: ts =>
    if t = .mark "(" then skip (d + 1) ts
    else if t ≠ .mark ")" then skip d ts
    else if d = 0 then ts else skip (d - 1) ts

/-- Whether tokens begin a function type. -/
def isArrow (ts : List Token) : Bool :=
  match expect (.mark "(") ts with
  | none => false
  | some ts => (skip 0 ts).head? == some (.mark "=>")

/-- The words of a name, each after a point. -/
def points : List Token → List String × List Token
  | .mark "." :: .word x :: ts => ((points ts).1.cons x, (points ts).2)
  | ts => ([], ts)

/-- Read the name after `typeof`. -/
def parseQuery : List Token → Option (Typ × List Token)
  | .word x :: ts => some (.query (x :: (points ts).1), (points ts).2)
  | _ => none

/-- One of several types, or that type if it is alone and no mark stands before it. -/
def gather (build : List Typ → Typ) (leads : Bool) : List Typ → Typ
  | [t] => if leads then build [t] else t
  | ts => build ts

/-- The tokens after a mark, if there is one, and whether there is. -/
def optional (m : String) (ts : List Token) : Bool × List Token :=
  match expect (.mark m) ts with
  | none => (false, ts)
  | some ts => (true, ts)

/-- Read the type of a parameter, if it has one. -/
def parseAscription (read : List Token → Option (Typ × List Token)) (ts : List Token) :
    Option (Option Typ × List Token) :=
  match expect (.mark ":") ts with
  | none => some (none, ts)
  | some ts => (read ts).map fun r => (some r.1, r.2)

mutual

/-- Read a phrase of a kind. -/
def parse : Nat → Phrase → List Token → Option (Typ × List Token)
  | 0, _, _ => none
  | n + 1, .whole, ts =>
    if isArrow ts then do
      let (ps, ts) ← parseParameters n (ts.drop 1)
      let (t, ts) ← parse n .whole (← expect (.mark "=>") ts)
      some (.function ps t, ts)
    else parse n .union ts
  | n + 1, .union, ts => do
    let (members, rest) ← parseMembers n .intersection "|" (optional "|" ts).2
    some (gather .union (optional "|" ts).1 members, rest)
  | n + 1, .intersection, ts => do
    let (members, rest) ← parseMembers n .operator "&" (optional "&" ts).2
    some (gather .intersection (optional "&" ts).1 members, rest)
  | n + 1, .operator, ts =>
    match ts with
    | .word w :: us =>
      if w ∈ operators then do
        let (t, us) ← parse n .operator us
        some (.operator w t, us)
      else parse n .access ts
    | _ => parse n .access ts
  | n + 1, .access, ts => do
    let (t, ts) ← parse n .primary ts
    suffixes n t ts
  | n + 1, .primary, ts =>
    match ts with
    | [] => none
    | .string value :: ts => some (.string value, ts)
    | .numeral digits :: ts => some (.numeral digits, ts)
    | .word w :: ts =>
      if w = "typeof" then parseQuery ts
      else if w ∈ keywords ∧ ts.head? ≠ some (.mark ".") then some (.keyword w, ts)
      else
        match expect (.mark "<") (points ts).2 with
        | none => some (.reference (w :: (points ts).1) [], (points ts).2)
        | some us => do
          let (arguments, us) ← parseElements n ">" us
          some (.reference (w :: (points ts).1) arguments, us)
    | .mark m :: ts =>
      if m = "(" then do
        let (t, ts) ← parse n .whole ts
        some (t, ← expect (.mark ")") ts)
      else do
        let (elements, ts) ← parseElements n "]" ts
        some (.tuple elements, ts)

/-- Go on from a type with what stands in brackets after it. -/
def suffixes : Nat → Typ → List Token → Option (Typ × List Token)
  | 0, _, _ => none
  | n + 1, t, ts =>
    match expect (.mark "[") ts with
    | none => some (t, ts)
    | some us =>
      match expect (.mark "]") us with
      | some vs => suffixes n (.array t) vs
      | none => do
        let (k, vs) ← parse n .whole us
        suffixes n (.access t k) (← expect (.mark "]") vs)

/-- Read phrases of a kind with a mark between them. -/
def parseMembers : Nat → Phrase → String → List Token → Option (List Typ × List Token)
  | 0, _, _, _ => none
  | n + 1, p, m, ts => do
    let (t, ts) ← parse n p ts
    match expect (.mark m) ts with
    | none => some ([t], ts)
    | some ts => do
      let (members, ts) ← parseMembers n p m ts
      some (t :: members, ts)

/-- Read types up to the bracket that closes them. -/
def parseElements : Nat → String → List Token → Option (List Typ × List Token)
  | 0, _, _ => none
  | n + 1, close, ts =>
    match expect (.mark close) ts with
    | some ts => some ([], ts)
    | none => do
      let (t, ts) ← parse n .whole ts
      match expect (.mark ",") ts with
      | none => some ([t], ← expect (.mark close) ts)
      | some ts => do
        let (elements, ts) ← parseElements n close ts
        some (t :: elements, ts)

/-- Read parameters up to the parenthesis that closes them. -/
def parseParameters : Nat → List Token → Option (List (Parameter Typ) × List Token)
  | 0, _ => none
  | n + 1, ts =>
    match ts with
    | .word x :: ts => do
      let isOptional := (optional "?" ts).1
      let (type?, ts) ← parseAscription (parse n .whole) (optional "?" ts).2
      match expect (.mark ",") ts with
      | none => some ([⟨x, isOptional, type?⟩], ← expect (.mark ")") ts)
      | some ts => do
        let (ps, ts) ← parseParameters n ts
        some (⟨x, isOptional, type?⟩ :: ps, ts)
    | _ => do some ([], ← expect (.mark ")") ts)

end

-- the equations are made here, once, and the rules below share them
attribute [grind =] parse suffixes parseMembers parseElements parseParameters

/-! ### Enough steps -/

/-- Given enough steps, a phrase is read. -/
def Parses (p : Phrase) (ts : List Token) (t : Typ) (rest : List Token) : Prop :=
  Eventually fun n => parse n p ts = some (t, rest)

/-- Given enough steps, what stands in brackets after a type is read. -/
def Suffixed (t : Typ) (ts : List Token) (t' : Typ) (rest : List Token) : Prop :=
  Eventually fun n => suffixes n t ts = some (t', rest)

/-- Given enough steps, phrases with a mark between them are read. -/
def ParsesMembers (p : Phrase) (m : String) (ts : List Token) (members : List Typ)
    (rest : List Token) : Prop :=
  Eventually fun n => parseMembers n p m ts = some (members, rest)

/-- Given enough steps, types are read up to a bracket. -/
def ParsesElements (close : String) (ts : List Token) (elements : List Typ) (rest : List Token) :
    Prop :=
  Eventually fun n => parseElements n close ts = some (elements, rest)

/-- Given enough steps, parameters are read. -/
def ParsesParameters (ts : List Token) (ps : List (Parameter Typ)) (rest : List Token) : Prop :=
  Eventually fun n => parseParameters n ts = some (ps, rest)

theorem Parses.unique {p : Phrase} {ts rest rest' : List Token} {t t' : Typ}
    (h : Parses p ts t rest) (h' : Parses p ts t' rest') : t = t' := by
  obtain ⟨N, hN⟩ := h.and h'
  obtain ⟨h, h'⟩ := hN N (Nat.le_refl N)
  cases h.symm.trans h'
  rfl

@[simp] theorem expect_self (t : Token) (ts : List Token) : expect t (t :: ts) = some ts := by
  simp [expect]

theorem expect_of_ne {t : Token} {ts : List Token} (h : ts.head? ≠ some t) :
    expect t ts = none := by
  cases ts with
  | nil => rfl
  | cons u ts => exact if_neg fun hu => h (congrArg some hu)

theorem optional_of_ne {m : String} {ts : List Token} (h : ts.head? ≠ some (.mark m)) :
    optional m ts = (false, ts) := by
  rw [optional, expect_of_ne h]

theorem optional_markIf {m : String} {leads : Bool} {ts : List Token}
    (h : leads = false → ts.head? ≠ some (.mark m)) :
    optional m (markIf m leads ++ ts) = (leads, ts) := by
  cases leads with
  | true => simp [optional, markIf]
  | false => exact optional_of_ne (h rfl)

/-- The kinds of phrases that are made of several narrower ones with a mark between them. -/
inductive Joins : Phrase → Phrase → String → (List Typ → Typ) → Prop where
  | union : Joins .union .intersection "|" .union
  | intersection : Joins .intersection .operator "&" .intersection

section Rules

variable {p q : Phrase} {m close w x : String} {ts us vs rest : List Token} {t t' k r : Typ}
  {members : List Typ} {ps : List (Parameter Typ)}

theorem parses_function (ha : isArrow (.mark "(" :: ts) = true)
    (hp : ParsesParameters ts ps (.mark "=>" :: us)) (hr : Parses .whole us r rest) :
    Parses .whole (.mark "(" :: ts) (.function ps r) rest :=
  (hp.and hr).step fun n h => by simp [parse, ha, h.1, h.2]

theorem parses_whole (ha : isArrow ts = false) (h : Parses .union ts t rest) :
    Parses .whole ts t rest :=
  h.step fun n h => by simp [parse, ha, h]

theorem parses_joined {build : List Typ → Typ} (leads : Bool) (hj : Joins p q m build)
    (hl : leads = false → ts.head? ≠ some (.mark m)) (h : ParsesMembers q m ts members rest) :
    Parses p (markIf m leads ++ ts) (gather build leads members) rest := by
  cases hj <;> exact h.step fun n h => by simp [parse, optional_markIf hl, h]

theorem parses_operator (hw : w ∈ operators) (h : Parses .operator ts t rest) :
    Parses .operator (.word w :: ts) (.operator w t) rest :=
  h.step fun n h => by simp [parse, hw, h]

theorem parses_access (ht : ∀ w ∈ operators, ts.head? ≠ some (.word w))
    (h : Parses .access ts t rest) : Parses .operator ts t rest := by
  refine h.step fun n h => ?_
  match ts with
  | [] => simpa [parse] using h
  | .word w :: us =>
    have hw : w ∉ operators := fun hw => ht w hw rfl
    simpa [parse, hw] using h
  | .string _ :: us => simpa [parse] using h
  | .numeral _ :: us => simpa [parse] using h
  | .mark _ :: us => simpa [parse] using h

theorem parses_suffixes (h : Parses .primary ts t us) (hs : Suffixed t us t' rest) :
    Parses .access ts t' rest :=
  (h.and hs).step fun n h => by simp [parse, h.1, h.2]

theorem suffixed_nil (h : ts.head? ≠ some (.mark "[")) : Suffixed t ts t ts :=
  Eventually.of_forall fun n => by simp [suffixes, expect_of_ne h]

theorem suffixed_array (h : Suffixed (.array t) ts t' rest) :
    Suffixed t (.mark "[" :: .mark "]" :: ts) t' rest :=
  h.step fun n h => by simp [suffixes, h]

theorem suffixed_access (hts : ts.head? ≠ some (.mark "]"))
    (hk : Parses .whole ts k (.mark "]" :: us)) (h : Suffixed (.access t k) us t' rest) :
    Suffixed t (.mark "[" :: ts) t' rest :=
  (hk.and h).step fun n h => by simp [suffixes, expect_of_ne hts, h.1, h.2]

theorem parses_paren (h : Parses .whole ts t (.mark ")" :: rest)) :
    Parses .primary (.mark "(" :: ts) t rest :=
  h.step fun n h => by simp [parse, h]

theorem parses_tuple (h : ParsesElements "]" ts members rest) :
    Parses .primary (.mark "[" :: ts) (.tuple members) rest :=
  h.step fun n h => by simp [parse, h]

theorem parsesMembers_last (h : Parses p ts t rest) (hrest : rest.head? ≠ some (.mark m)) :
    ParsesMembers p m ts [t] rest :=
  h.step fun n h => by simp [parseMembers, h, expect_of_ne hrest]

theorem parsesMembers_cons (h : Parses p ts t (.mark m :: us))
    (hm : ParsesMembers p m us members rest) : ParsesMembers p m ts (t :: members) rest :=
  (h.and hm).step fun n h => by simp [parseMembers, h.1, h.2]

theorem parsesElements_nil : ParsesElements close (.mark close :: ts) [] ts :=
  Eventually.of_forall fun n => by simp [parseElements]

theorem parsesElements_last (hts : ts.head? ≠ some (.mark close)) (hclose : close ≠ ",")
    (h : Parses .whole ts t (.mark close :: rest)) : ParsesElements close ts [t] rest := by
  have hcomma : expect (.mark ",") (.mark close :: rest) = none :=
    expect_of_ne (by simpa using hclose)
  exact h.step fun n h => by simp [parseElements, expect_of_ne hts, h, hcomma]

theorem parsesElements_cons (hts : ts.head? ≠ some (.mark close))
    (h : Parses .whole ts t (.mark "," :: us)) (hm : ParsesElements close us members rest) :
    ParsesElements close ts (t :: members) rest :=
  (h.and hm).step fun n h => by simp [parseElements, expect_of_ne hts, h.1, h.2]

theorem points_pointed (hrest : rest.head? ≠ some (.mark ".")) (xs : List String) :
    points (pointed xs ++ rest) = (xs, rest) := by
  induction xs with
  | nil =>
    match rest with
    | [] => rfl
    | u :: us =>
      have hu : u ≠ .mark "." := fun hu => hrest (congrArg some hu)
      rw [pointed, List.flatMap_nil, List.nil_append]
      unfold points
      split
      · next heq => exact absurd (List.cons_eq_cons.mp heq).1 hu
      · rfl
  | cons x xs ih =>
    show points (.mark "." :: .word x :: (pointed xs ++ rest)) = _
    rw [points, ih]

theorem parses_keyword (hw : w ∈ keywords) (hrest : rest.head? ≠ some (.mark ".")) :
    Parses .primary (.word w :: rest) (.keyword w) rest := by
  have htypeof : w ≠ "typeof" := by
    rintro rfl
    exact absurd hw (by decide)
  exact Eventually.of_forall fun n => by simp [parse, htypeof, hw, hrest]

theorem parses_query (hrest : rest.head? ≠ some (.mark ".")) (xs : List String) :
    Parses .primary (.word "typeof" :: .word x :: (pointed xs ++ rest)) (.query (x :: xs)) rest :=
  Eventually.of_forall fun n => by simp [parse, parseQuery, points_pointed hrest]

theorem IsReference.not_operator {xs : List String} (hx : IsReference x xs) : x ∉ operators :=
  fun hmem => hx.2.1 (List.mem_cons_of_mem _ hmem)

/-- A word that begins a name does not begin another type. -/
theorem IsReference.not_keyword {xs : List String} (hx : IsReference x xs) (rest : List Token) :
    x ≠ "typeof" ∧ ¬ (x ∈ keywords ∧ (pointed xs ++ rest).head? ≠ some (.mark ".")) := by
  obtain ⟨hreserved, -, hkeyword⟩ := hx
  refine ⟨?_, ?_⟩
  · rintro rfl
    exact hreserved (by decide)
  · rintro ⟨hmem, hpoint⟩
    cases xs with
    | nil => exact hkeyword rfl hmem
    | cons y ys => exact hpoint rfl

theorem parses_reference {xs : List String} (hx : IsReference x xs)
    (hpoint : rest.head? ≠ some (.mark ".")) (hangle : rest.head? ≠ some (.mark "<")) :
    Parses .primary (.word x :: (pointed xs ++ rest)) (.reference (x :: xs) []) rest := by
  obtain ⟨htypeof, hkeyword⟩ := hx.not_keyword rest
  refine Eventually.of_forall fun n => ?_
  rw [parse, if_neg htypeof, if_neg hkeyword, points_pointed hpoint, expect_of_ne hangle]

theorem parses_generic {xs : List String} (hx : IsReference x xs)
    (h : ParsesElements ">" ts members rest) :
    Parses .primary (.word x :: (pointed xs ++ .mark "<" :: ts)) (.reference (x :: xs) members)
      rest := by
  have hpoint : (Token.mark "<" :: ts).head? ≠ some (.mark ".") := by simp
  obtain ⟨htypeof, hkeyword⟩ := hx.not_keyword (.mark "<" :: ts)
  refine h.step fun n h => ?_
  rw [parse, if_neg htypeof, if_neg hkeyword, points_pointed hpoint, expect_self]
  simp [h]

/-- The type of a parameter is read if it is followed by the given tokens. -/
def ParsesType (part : Parameter (List Token × Typ)) (us : List Token) : Prop :=
  ∀ ty ∈ part.type?, Parses .whole (ty.1 ++ us) ty.2 us

theorem parsesAscription {part : Parameter (List Token × Typ)} (h : ParsesType part us)
    (hcolon : us.head? ≠ some (.mark ":")) (hquestion : us.head? ≠ some (.mark "?")) :
    ∃ vs, (part.map Prod.fst).tokens ++ us = .word part.name :: vs ∧
      (optional "?" vs).1 = part.isOptional ∧
      Eventually fun n => parseAscription (parse n .whole) (optional "?" vs).2 =
        some (part.type?.map Prod.snd, us) := by
  obtain ⟨x, isOptional, type?⟩ := part
  cases type? with
  | none =>
    have hoptional : optional "?" (markIf "?" isOptional ++ us) = (isOptional, us) :=
      optional_markIf fun _ => hquestion
    refine ⟨markIf "?" isOptional ++ us, by simp [Parameter.map, Parameter.tokens], ?_⟩
    rw [hoptional]
    exact ⟨rfl, Eventually.of_forall fun n => by simp [parseAscription, expect_of_ne hcolon]⟩
  | some ty =>
    have hoptional : optional "?" (markIf "?" isOptional ++ .mark ":" :: (ty.1 ++ us)) =
        (isOptional, .mark ":" :: (ty.1 ++ us)) := optional_markIf fun _ => by simp
    obtain ⟨N, hN⟩ := h ty rfl
    refine ⟨markIf "?" isOptional ++ .mark ":" :: (ty.1 ++ us),
      by simp [Parameter.map, Parameter.tokens], ?_⟩
    rw [hoptional]
    exact ⟨rfl, N, fun n hn => by simp [parseAscription, hN n hn]⟩

theorem parsesParameters_last {part : Parameter (List Token × Typ)}
    (h : ParsesType part (.mark ")" :: rest)) :
    ParsesParameters ((part.map Prod.fst).tokens ++ .mark ")" :: rest)
      [part.map Prod.snd] rest := by
  obtain ⟨vs, heq, hoptional, htype⟩ := parsesAscription h (by simp) (by simp)
  have hcomma : expect (.mark ",") (.mark ")" :: rest) = none := rfl
  rw [heq]
  exact htype.step fun n h => by simp [parseParameters, hoptional, h, hcomma, Parameter.map]

theorem parsesParameters_cons {part : Parameter (List Token × Typ)}
    (h : ParsesType part (.mark "," :: us)) (hps : ParsesParameters us ps rest) :
    ParsesParameters ((part.map Prod.fst).tokens ++ .mark "," :: us) (part.map Prod.snd :: ps)
      rest := by
  obtain ⟨vs, heq, hoptional, htype⟩ := parsesAscription h (by simp) (by simp)
  rw [heq]
  exact (htype.and hps).step fun n h => by
    simp [parseParameters, hoptional, h.1, h.2, Parameter.map]

theorem parsesParameters_nil : ParsesParameters (.mark ")" :: ts) [] ts :=
  Eventually.of_forall fun n => by simp [parseParameters]

end Rules

/-! ### How phrases begin and end -/

namespace Phrase

/-- Tokens that no phrase of a kind begins with. -/
def avoids : Phrase → List Token
  | .whole | .union => [.mark ")", .mark "]", .mark ">"]
  | .intersection => [.mark "|", .mark ")", .mark "]", .mark ">"]
  | .operator => [.mark "&", .mark "|", .mark ")", .mark "]", .mark ">"]
  | .access | .primary =>
    [.word "keyof", .word "unique", .word "readonly", .mark "&", .mark "|", .mark ")", .mark "]",
      .mark ">"]

/-- Tokens that would be read as a part of a phrase if they followed it. -/
def goesOn : Phrase → List Token
  | .primary => [.mark ".", .mark "<", .mark "=>"]
  | .access | .operator => [.mark ".", .mark "<", .mark "=>", .mark "["]
  | .intersection => [.mark ".", .mark "<", .mark "=>", .mark "[", .mark "&"]
  | .union | .whole => [.mark ".", .mark "<", .mark "=>", .mark "[", .mark "&", .mark "|"]

theorem avoids_wider {p q : Phrase} (h : q.wider = some p) : p.avoids ⊆ q.avoids := by
  cases q <;> cases h <;> decide

end Phrase

/-- Tokens begin with one that a phrase of a kind may begin with. -/
def Begins (p : Phrase) (ts : List Token) : Prop := ∃ u us, ts = u :: us ∧ u ∉ p.avoids

/-- What follows a phrase is no part of it. -/
def Follows (p : Phrase) (rest : List Token) : Prop := ∀ u ∈ rest.head?, u ∉ p.goesOn

section Ends

variable {p q : Phrase} {ts us rest : List Token} {m : String} {u : Token}

theorem Begins.append (h : Begins p ts) (us : List Token) : Begins p (ts ++ us) := by
  obtain ⟨u, vs, rfl, hu⟩ := h
  exact ⟨u, vs ++ us, rfl, hu⟩

theorem Begins.mono (h : Begins q ts) (hpq : p.avoids ⊆ q.avoids) : Begins p ts := by
  obtain ⟨u, vs, rfl, hu⟩ := h
  exact ⟨u, vs, rfl, fun hmem => hu (hpq hmem)⟩

theorem Begins.head?_ne (h : Begins p ts) (hu : u ∈ p.avoids) : ts.head? ≠ some u := by
  obtain ⟨v, vs, rfl, hv⟩ := h
  rintro ⟨⟩
  exact hv hu

theorem Follows.mono (h : Follows p rest) (hpq : q.goesOn ⊆ p.goesOn) : Follows q rest :=
  fun u hu hmem => h u hu (hpq hmem)

theorem Follows.head?_ne (h : Follows p rest) (hu : u ∈ p.goesOn) : rest.head? ≠ some u :=
  fun hhead => h u hhead hu

theorem follows_cons (hu : u ∉ p.goesOn) : Follows p (u :: ts) := by
  rintro _ ⟨⟩
  exact hu

theorem joined_singleton (m : String) (ts : List Token) : joined m [ts] = ts := by
  simp [joined, List.intercalate]

theorem joined_cons_cons (m : String) (ts us : List Token) (parts : List (List Token)) :
    joined m (ts :: us :: parts) = ts ++ .mark m :: joined m (us :: parts) := by
  simp [joined, List.intercalate]

theorem exists_joined (m : String) (ts : List Token) (parts : List (List Token)) :
    ∃ us, joined m (ts :: parts) = ts ++ us ∧ (us = [] ∨ us.head? = some (.mark m)) := by
  cases parts with
  | nil => exact ⟨[], by simp [joined_singleton], .inl rfl⟩
  | cons us parts => exact ⟨_, joined_cons_cons m ts us parts, .inr rfl⟩

theorem begins_joined {parts : List (List Token × Typ)} (hne : parts ≠ [])
    (h : ∀ part ∈ parts, Begins p part.1) : Begins p (joined m (parts.map Prod.fst)) := by
  obtain ⟨part, more, rfl⟩ := List.exists_cons_of_ne_nil hne
  obtain ⟨us, hus, -⟩ := exists_joined m part.1 (more.map Prod.fst)
  rw [List.map_cons, hus]
  exact (h part List.mem_cons_self).append us

theorem begins_markIf_append {there : Bool} (hm : .mark m ∉ p.avoids) (h : Begins p ts) :
    Begins p (markIf m there ++ ts) := by
  cases there with
  | true => exact ⟨_, ts, rfl, hm⟩
  | false => exact h

end Ends

/-- How phrases begin. -/
theorem Derives.begins {p : Phrase} {ts : List Token} {t : Typ} (h : Derives p ts t) :
    Begins p ts := by
  induction h with
  | wider _ hq ih => exact ih.mono (Phrase.avoids_wider hq)
  | keyword hw =>
    have hall : ∀ w ∈ keywords, Token.word w ∉ Phrase.primary.avoids := by decide
    exact ⟨_, _, rfl, hall _ hw⟩
  | string => exact ⟨_, _, rfl, by simp [Phrase.avoids]⟩
  | numeral => exact ⟨_, _, rfl, by simp [Phrase.avoids]⟩
  | reference hx => exact ⟨_, _, rfl, by simpa [Phrase.avoids, operators] using hx.not_operator⟩
  | generic hx => exact ⟨_, _, rfl, by simpa [Phrase.avoids, operators] using hx.not_operator⟩
  | query => exact ⟨_, _, rfl, by decide⟩
  | paren => exact ⟨_, _, rfl, by decide⟩
  | tuple => exact ⟨_, _, rfl, by decide⟩
  | array _ ih => exact ih.append _
  | access _ _ ih =>
    rw [List.append_assoc]
    exact ih.append _
  | operator => exact ⟨_, _, rfl, by simp [Phrase.avoids]⟩
  | intersection _ hne _ ih =>
    refine begins_markIf_append (by decide) (begins_joined hne fun part hp => ?_)
    exact (ih part hp).mono (by decide)
  | union _ hne _ ih =>
    refine begins_markIf_append (by decide) (begins_joined hne fun part hp => ?_)
    exact (ih part hp).mono (by decide)
  | function => exact ⟨_, _, rfl, by decide⟩

/-! ### Parentheses -/

/-- Tokens that close all the parentheses they open. -/
def Balanced (ts : List Token) : Prop := ∀ d rest, skip d (ts ++ rest) = skip d rest

theorem balanced_nil : Balanced [] := fun _ _ => rfl

theorem Balanced.append {ts us : List Token} (h : Balanced ts) (h' : Balanced us) :
    Balanced (ts ++ us) := fun d rest => by rw [List.append_assoc, h, h']

theorem balanced_token {u : Token} (hu : u ∉ [Token.mark "(", .mark ")"]) : Balanced [u] := by
  intro d rest
  obtain ⟨hopen, hclose⟩ : u ≠ .mark "(" ∧ u ≠ .mark ")" := by simpa using hu
  rw [List.singleton_append, skip, if_neg hopen, if_pos hclose]

theorem Balanced.cons {ts : List Token} {u : Token} (h : Balanced ts)
    (hu : u ∉ [Token.mark "(", .mark ")"]) : Balanced (u :: ts) := (balanced_token hu).append h

theorem Balanced.skip_paren {ts : List Token} (h : Balanced ts) (rest : List Token) :
    skip 0 (ts ++ .mark ")" :: rest) = rest := by
  rw [h, skip]
  simp

theorem Balanced.paren {ts : List Token} (h : Balanced ts) :
    Balanced (.mark "(" :: ts ++ [Token.mark ")"]) := by
  intro d rest
  have hopen :
      .mark "(" :: ts ++ [Token.mark ")"] ++ rest = .mark "(" :: (ts ++ .mark ")" :: rest) := by
    simp
  rw [hopen, skip, if_pos rfl, h, skip]
  simp

theorem balanced_pointed (xs : List String) : Balanced (pointed xs) := by
  induction xs with
  | nil => exact balanced_nil
  | cons x xs ih => exact (ih.cons (by simp)).cons (by decide)

theorem balanced_markIf {m : String} {there : Bool} (hm : .mark m ∉ [Token.mark "(", .mark ")"]) :
    Balanced (markIf m there) := by
  cases there with
  | true => exact balanced_token hm
  | false => exact balanced_nil

theorem balanced_joined {m : String} (hm : .mark m ∉ [Token.mark "(", .mark ")"]) :
    ∀ {parts : List (List Token)}, (∀ ts ∈ parts, Balanced ts) → Balanced (joined m parts)
  | [], _ => balanced_nil
  | [ts], h => by
    rw [joined_singleton]
    exact h ts List.mem_cons_self
  | ts :: us :: parts, h => by
    rw [joined_cons_cons]
    have hrest := balanced_joined hm fun vs hvs => h vs (List.mem_cons_of_mem ts hvs)
    exact (h ts List.mem_cons_self).append (hrest.cons hm)

theorem balanced_listed {parts : List (List Token)} (comma : Bool)
    (h : ∀ ts ∈ parts, Balanced ts) : Balanced (listed parts comma) :=
  (balanced_joined (by decide) h).append (balanced_markIf (by decide))

theorem Parameter.balanced_tokens {p : Parameter (List Token)} (h : ∀ ts ∈ p.type?, Balanced ts) :
    Balanced p.tokens := by
  obtain ⟨x, isOptional, type?⟩ := p
  have hname : Balanced (.word x :: markIf "?" isOptional) :=
    (balanced_markIf (by decide)).cons (by simp)
  cases type? with
  | none => exact hname.append balanced_nil
  | some ts => exact hname.append ((h ts rfl).cons (by decide))

/-- The tokens of parameters close all the parentheses they open, if those of their types do. -/
theorem balanced_parameters {parts : List (Parameter (List Token × Typ))} (comma : Bool)
    (h : ∀ part ∈ parts, ∀ ty ∈ part.type?, Balanced ty.1) :
    Balanced (listed (parts.map fun part => (part.map Prod.fst).tokens) comma) := by
  refine balanced_listed comma (List.forall_mem_map.mpr fun part hp => Parameter.balanced_tokens ?_)
  intro ts hts
  obtain ⟨ty, hty, rfl⟩ := Option.map_eq_some_iff.mp hts
  exact h part hp ty hty

theorem Derives.balanced {p : Phrase} {ts : List Token} {t : Typ} (h : Derives p ts t) :
    Balanced ts := by
  induction h with
  | wider _ _ ih => exact ih
  | keyword => exact balanced_token (by simp)
  | string => exact balanced_token (by simp)
  | numeral => exact balanced_token (by simp)
  | @reference x xs => exact (balanced_pointed xs).cons (by simp)
  | @generic x xs parts _ _ _ ih =>
    have hname : Balanced (.word x :: pointed xs) := (balanced_pointed xs).cons (by simp)
    have harguments : Balanced (joined "," (parts.map Prod.fst)) :=
      balanced_joined (by decide) (List.forall_mem_map.mpr ih)
    exact (hname.append (harguments.cons (by decide))).append (balanced_token (by decide))
  | @query x xs => exact ((balanced_pointed xs).cons (by simp)).cons (by simp)
  | paren _ ih => exact ih.paren
  | @tuple parts comma _ _ ih =>
    have helements := balanced_listed comma (List.forall_mem_map.mpr ih)
    exact (helements.cons (by decide)).append (balanced_token (by decide))
  | array _ ih => exact ih.append ((balanced_token (by decide)).cons (by decide))
  | access _ _ iht ihk =>
    exact (iht.append (ihk.cons (by decide))).append (balanced_token (by decide))
  | operator _ _ ih => exact ih.cons (by simp)
  | intersection _ _ _ ih =>
    exact (balanced_markIf (by decide)).append
      (balanced_joined (by decide) (List.forall_mem_map.mpr ih))
  | union _ _ _ ih =>
    exact (balanced_markIf (by decide)).append
      (balanced_joined (by decide) (List.forall_mem_map.mpr ih))
  | @function parts comma us _ _ _ _ _ ihp ihr =>
    have hparameters := (balanced_parameters comma ihp).paren
    have hresult : Balanced (.mark "=>" :: us) := ihr.cons (by decide)
    simpa using hparameters.append hresult

/-- Tokens that do not begin a function type, whatever follows but `=>`. -/
def Plain (ts : List Token) : Prop :=
  ∀ rest : List Token, rest.head? ≠ some (.mark "=>") → isArrow (ts ++ rest) = false

theorem plain_joined {m : String} {parts : List (List Token × Typ)} (hm : m ≠ "=>")
    (hne : parts ≠ []) (h : ∀ part ∈ parts, Plain part.1) :
    Plain (joined m (parts.map Prod.fst)) := by
  intro rest hrest
  obtain ⟨part, more, rfl⟩ := List.exists_cons_of_ne_nil hne
  obtain ⟨us, hus, hhead⟩ := exists_joined m part.1 (more.map Prod.fst)
  rw [List.map_cons, hus, List.append_assoc]
  refine h part List.mem_cons_self _ ?_
  rcases hhead with rfl | hhead
  · exact hrest
  · simp [List.head?_append, hhead, hm]

theorem Plain.markIf_append {m : String} {ts : List Token} (hm : m ≠ "(") (h : Plain ts)
    (there : Bool) : Plain (markIf m there ++ ts) := by
  cases there with
  | true => exact fun rest _ => by simp [markIf, isArrow, expect, hm]
  | false => exact h

/-- **Only a function type begins as one.** The parenthesis that a narrower phrase begins with is
closed before its end, and `=>` does not follow. -/
theorem Derives.plain {p : Phrase} {ts : List Token} {t : Typ} (h : Derives p ts t)
    (hp : p ≠ .whole) : Plain ts := by
  induction h with
  | @wider p q _ _ _ hq ih =>
    refine ih ?_
    rintro rfl
    cases hq
  | paren inner =>
    intro rest hrest
    simp [isArrow, inner.balanced.skip_paren rest, hrest]
  | array _ ih =>
    intro rest _
    rw [List.append_assoc]
    exact ih (by decide) _ (by simp)
  | access _ _ ih =>
    intro rest _
    rw [List.append_assoc, List.append_assoc]
    exact ih (by decide) _ (by simp)
  | intersection _ hne _ ih =>
    have hmembers := plain_joined (m := "&") (by decide) hne fun part hp => ih part hp (by decide)
    exact hmembers.markIf_append (by decide) _
  | union _ hne _ ih =>
    have hmembers := plain_joined (m := "|") (by decide) hne fun part hp => ih part hp (by decide)
    exact hmembers.markIf_append (by decide) _
  | function => exact absurd rfl hp
  | _ => exact fun _ _ => rfl

/-! ### The reader finds what the grammar derives -/

/-- Tokens of a phrase are read as a type, whatever follows. What stands in brackets after a type
that may go on with it is read too. -/
def Complete : Phrase → List Token → Typ → Prop
  | .access, ts, t => ∀ ⦃rest : List Token⦄ ⦃t' : Typ⦄ ⦃rest' : List Token⦄, Follows .primary rest →
    Suffixed t rest t' rest' → Parses .access (ts ++ rest) t' rest'
  | p, ts, t => ∀ ⦃rest : List Token⦄, Follows p rest → Parses p (ts ++ rest) t rest

section Complete

variable {p q : Phrase} {ts rest : List Token} {t : Typ} {m close : String}

theorem Complete.parses (h : Complete p ts t) (hf : Follows p rest) :
    Parses p (ts ++ rest) t rest := by
  cases p with
  | access => exact h (hf.mono (by decide)) (suffixed_nil (hf.head?_ne (by decide)))
  | _ => exact h hf

theorem parsesMembers_complete (hm : .mark m ∉ p.goesOn) (hf : Follows p rest)
    (hrest : rest.head? ≠ some (.mark m)) :
    ∀ {parts : List (List Token × Typ)}, parts ≠ [] →
      (∀ part ∈ parts, Complete p part.1 part.2) →
        ParsesMembers p m (joined m (parts.map Prod.fst) ++ rest) (parts.map Prod.snd) rest
  | [part], _, hc => by
    rw [List.map_singleton, joined_singleton]
    exact parsesMembers_last ((hc part List.mem_cons_self).parses hf) hrest
  | part :: next :: more, _, hc => by
    rw [List.map_cons, List.map_cons, joined_cons_cons, List.append_assoc]
    have hnext := parsesMembers_complete hm hf hrest (List.cons_ne_nil next more)
      fun p hp => hc p (List.mem_cons_of_mem part hp)
    exact parsesMembers_cons ((hc part List.mem_cons_self).parses (follows_cons hm)) hnext

theorem Joins.mark {build : List Typ → Typ} (hj : Joins p q m build) :
    q.goesOn ⊆ p.goesOn ∧ .mark m ∉ q.goesOn ∧ .mark m ∈ p.goesOn ∧ .mark m ∈ q.avoids := by
  cases hj <;> decide

/-- A phrase made of one narrower phrase is read as that. -/
theorem Joins.complete_single {build : List Typ → Typ} (hj : Joins p q m build)
    (hd : Derives q ts t) (hc : Complete q ts t) (hf : Follows p rest) :
    Parses p (ts ++ rest) t rest := by
  obtain ⟨hgoesOn, -, hwithin, havoids⟩ := hj.mark
  have hread := parsesMembers_last (hc.parses (hf.mono hgoesOn)) (hf.head?_ne hwithin)
  exact parses_joined false hj
    (fun _ => (hd.begins.append rest).head?_ne havoids) hread

/-- A phrase made of several is read as one. -/
theorem Joins.complete {build : List Typ → Typ} {parts : List (List Token × Typ)} {leads : Bool}
    (hj : Joins p q m build) (hne : parts ≠ []) (hlength : leads = false → 2 ≤ parts.length)
    (hmembers : ∀ part ∈ parts, Derives q part.1 part.2)
    (hc : ∀ part ∈ parts, Complete q part.1 part.2) (hf : Follows p rest) :
    Parses p (markIf m leads ++ joined m (parts.map Prod.fst) ++ rest) (build (parts.map Prod.snd))
      rest := by
  obtain ⟨hgoesOn, hm, hwithin, havoids⟩ := hj.mark
  have hread := parsesMembers_complete hm (hf.mono hgoesOn) (hf.head?_ne hwithin) hne hc
  have hbegins := begins_joined (m := m) hne fun part hp => (hmembers part hp).begins
  have hgather : gather build leads (parts.map Prod.snd) = build (parts.map Prod.snd) := by
    match parts, leads, hlength with
    | [], _, _ => rfl
    | [_], true, _ => rfl
    | [_], false, hlength => exact absurd (hlength rfl) (by simp)
    | _ :: _ :: _, _, _ => rfl
  rw [List.append_assoc, ← hgather]
  exact parses_joined leads hj (fun _ => (hbegins.append rest).head?_ne havoids) hread

/-- Reading a list up to its end, one member after the other. -/
theorem listed_rec {α : Type} {P : α → Prop} {R : List Token → List α → Prop}
    {tokens : α → List Token} {tail : List Token} (comma : Bool) (nil : R tail [])
    (last : ∀ a, P a → R (tokens a ++ tail) [a])
    (cons : ∀ a, P a → ∀ ts as, R ts as → R (tokens a ++ .mark "," :: ts) (a :: as)) :
    ∀ {parts : List α}, (comma = true → parts ≠ []) → (∀ a ∈ parts, P a) →
      R (listed (parts.map tokens) comma ++ tail) parts
  | [], hcomma, _ => by
    obtain rfl : comma = false := Bool.eq_false_iff.mpr fun h => hcomma h rfl
    exact nil
  | [a], _, ha => by
    rw [List.map_singleton, listed, joined_singleton]
    cases comma with
    | true =>
      have hread := cons a (ha a List.mem_cons_self) tail [] nil
      simpa [markIf] using hread
    | false =>
      have hread := last a (ha a List.mem_cons_self)
      simpa [markIf] using hread
  | a :: b :: more, _, ha => by
    have hmore := listed_rec comma nil last cons (fun _ => List.cons_ne_nil b more)
      fun c hc => ha c (List.mem_cons_of_mem a hc)
    have hread := cons a (ha a List.mem_cons_self) _ _ hmore
    simpa [listed, joined_cons_cons] using hread

theorem parsesElements_complete (hclose : close ∈ ["]", ">"]) (rest : List Token) (comma : Bool)
    {parts : List (List Token × Typ)} (hcomma : comma = true → parts ≠ [])
    (helements : ∀ part ∈ parts, Derives .whole part.1 part.2)
    (hc : ∀ part ∈ parts, Complete .whole part.1 part.2) :
    ParsesElements close (listed (parts.map Prod.fst) comma ++ .mark close :: rest)
      (parts.map Prod.snd) rest := by
  have hcloses : ∀ close ∈ ["]", ">"], Token.mark close ∈ Phrase.whole.avoids ∧
      Token.mark close ∉ Phrase.whole.goesOn ∧ close ≠ "," := by decide
  obtain ⟨havoids, hgoesOn, hne⟩ := hcloses close hclose
  refine listed_rec (R := fun ts parts => ParsesElements close ts (parts.map Prod.snd) rest)
    (P := fun part => Begins .whole part.1 ∧ Complete .whole part.1 part.2)
    comma parsesElements_nil ?_ ?_ hcomma fun part hp => ⟨(helements part hp).begins, hc part hp⟩
  · rintro part ⟨hb, hc⟩
    exact parsesElements_last ((hb.append _).head?_ne havoids) hne
      (hc.parses (follows_cons hgoesOn))
  · rintro part ⟨hb, hc⟩ ts parts hparts
    exact parsesElements_cons ((hb.append _).head?_ne havoids)
      (hc.parses (follows_cons (by decide)))
      hparts

theorem parsesParameters_complete (rest : List Token) {comma : Bool}
    {parts : List (Parameter (List Token × Typ))} (hcomma : comma = true → parts ≠ [])
    (hc : ∀ part ∈ parts, ∀ ty ∈ part.type?, Complete .whole ty.1 ty.2) :
    ParsesParameters
      (listed (parts.map fun part => (part.map Prod.fst).tokens) comma ++ .mark ")" :: rest)
      (parts.map (Parameter.map Prod.snd)) rest := by
  refine listed_rec
    (R := fun ts parts => ParsesParameters ts (parts.map (Parameter.map Prod.snd)) rest)
    (P := fun part => ∀ ty ∈ part.type?, Complete .whole ty.1 ty.2)
    comma parsesParameters_nil ?_ ?_ hcomma hc
  · exact fun part hc => parsesParameters_last fun ty hty =>
      (hc ty hty).parses (follows_cons (by decide))
  · exact fun part hc ts parts hparts => parsesParameters_cons
      (fun ty hty => (hc ty hty).parses (follows_cons (by decide))) hparts

/-- **The reader finds what the grammar derives.** -/
theorem Derives.complete (h : Derives p ts t) : Complete p ts t := by
  induction h with
  | @wider p q ts t narrow hq ih =>
    -- each kind of phrase is read by reading one of the next narrower kind
    cases q with
    | primary =>
      cases hq
      exact fun rest t' rest' hf hs => parses_suffixes (ih.parses hf) hs
    | access =>
      cases hq
      intro rest hf
      refine parses_access (fun w hw => (narrow.begins.append rest).head?_ne ?_)
        (ih.parses (hf.mono (by decide)))
      revert w
      decide
    | operator =>
      cases hq
      exact fun rest hf => Joins.intersection.complete_single narrow ih hf
    | intersection =>
      cases hq
      exact fun rest hf => Joins.union.complete_single narrow ih hf
    | union =>
      cases hq
      intro rest hf
      exact parses_whole (narrow.plain (by decide) rest (hf.head?_ne (by decide))) (ih.parses hf)
    | whole => cases hq
  | keyword hw => exact fun rest hf => parses_keyword hw (hf.head?_ne (by decide))
  | string => exact fun rest _ => Eventually.of_forall fun n => by simp [parse]
  | numeral => exact fun rest _ => Eventually.of_forall fun n => by simp [parse]
  | reference hx =>
    exact fun rest hf => parses_reference hx (hf.head?_ne (by decide)) (hf.head?_ne (by decide))
  | @generic x xs parts hx hne harguments ih =>
    intro rest _
    have hread := parsesElements_complete (show ">" ∈ _ by decide) rest false
      (fun _ => hne) harguments ih
    have hgeneric := parses_generic hx hread
    simpa [listed, markIf] using hgeneric
  | query => exact fun rest hf => parses_query (hf.head?_ne (by decide)) _
  | @paren ts t _ ih =>
    intro rest _
    have hinner : Parses .whole (ts ++ .mark ")" :: rest) t (.mark ")" :: rest) :=
      ih.parses (follows_cons (by decide))
    simpa using parses_paren hinner
  | tuple helements hcomma ih =>
    intro rest _
    have hread := parsesElements_complete (show "]" ∈ _ by decide) rest _ hcomma helements ih
    simpa using parses_tuple hread
  | array _ ih =>
    intro rest t' rest' hf hs
    rw [List.append_assoc]
    exact ih (follows_cons (by decide)) (suffixed_array hs)
  | @access ts us t k _ index iht ihk =>
    intro rest t' rest' hf hs
    have hindex : Parses .whole (us ++ .mark "]" :: rest) k (.mark "]" :: rest) :=
      ihk.parses (follows_cons (by decide))
    have hbegins := (index.begins.append (.mark "]" :: rest)).head?_ne (u := .mark "]") (by decide)
    have hread := iht (follows_cons (by decide)) (suffixed_access hbegins hindex hs)
    simpa using hread
  | operator hw _ ih => exact fun rest hf => parses_operator hw (ih.parses hf)
  | intersection hmembers hne hlength ih =>
    exact fun rest hf => Joins.intersection.complete hne hlength hmembers ih hf
  | union hmembers hne hlength ih =>
    exact fun rest hf => Joins.union.complete hne hlength hmembers ih hf
  | @function parts comma us r _ types hcomma _ iht ihr =>
    intro rest hf
    have hparameters := parsesParameters_complete (.mark "=>" :: (us ++ rest)) hcomma iht
    have hbalanced := balanced_parameters comma
      fun part hp ty hty => (types part hp ty hty).balanced
    have harrow := parses_function (by simp [isArrow, hbalanced.skip_paren]) hparameters
      (ihr.parses hf)
    simpa using harrow

end Complete

/-- **The grammar is unambiguous**: no list of tokens stands for two types. -/
theorem Derives.unique {ts : List Token} {t t' : Typ} (h : Derives .whole ts t)
    (h' : Derives .whole ts t') : t = t' := by
  have hend : Follows .whole [] := fun _ hu => nomatch hu
  have hread : ∀ {t : Typ}, Derives .whole ts t → Parses .whole (ts ++ []) t [] :=
    fun h => h.complete.parses hend
  exact (hread h).unique (hread h')

end Typeshift.TypeText
