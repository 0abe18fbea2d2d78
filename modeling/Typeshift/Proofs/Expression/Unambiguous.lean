import Typeshift.Proofs.Expression.Grammar

/-! # The grammar is unambiguous

A list of tokens stands for at most one expression. The proof reads the tokens from left to right
and lets every operator bind as tightly as its level says. This reader accepts more than the grammar
does, but where the grammar derives an expression it finds that expression.

* `parse`: read an expression whose operators bind at least so tightly.
* `Derives.parses`: the reader finds what the grammar derives.
* `Derives.unique`: no list of tokens stands for two expressions. -/

namespace Typeshift.Expression

/-! ### Reading from left to right -/

/-- What a token begins. -/
inductive Opening where
  | operand (e : Expr)
  | group
  | operator (build : Expr → Expr)
  | new

/-- What a token begins, where an operand is expected. -/
def Token.opening : Token → Opening
  | .numeral digits => .operand (.numeral digits)
  | .word w =>
    if w = "new" then .new
    else if w ∈ wordOperators then .operator (.unary w)
    else .operand (.name w)
  | .mark m =>
    if m = "(" then .group
    else if m ∈ updateOperators then .operator (.update m true)
    else .operator (.unary m)

/-- What a token does to the operand before it. -/
inductive Step where
  | stop
  | dot
  | bracket
  | arguments
  | update (operator : String)
  | operator (level right : Nat) (build : Expr → Expr → Expr)
  | question
  | comma

/-- The level of an operator that binds to the left. -/
def operatorLevel? : String → Option Nat
  | "??" => some 3
  | "||" => some 4
  | "&&" => some 5
  | "|" => some 6
  | "^" => some 7
  | "&" => some 8
  | "==" | "!=" | "===" | "!==" => some 9
  | "<" | ">" | "<=" | ">=" | "in" | "instanceof" => some 10
  | "<<" | ">>" | ">>>" => some 11
  | "+" | "-" => some 12
  | "*" | "/" | "%" => some 13
  | _ => none

/-- What an operator between two operands does. -/
def operatorStep (operator : String) : Step :=
  match operatorLevel? operator with
  | some level => .operator level (level + 1) (.binary operator)
  | none => if operator ∈ assignmentOperators then .operator 1 1 (.assign operator) else .stop

/-- What a token does, where an operand has been read. -/
def Token.step : Token → Step
  | .numeral _ => .stop
  | .word w => operatorStep w
  | .mark "." => .dot
  | .mark "[" => .bracket
  | .mark "(" => .arguments
  | .mark "++" => .update "++"
  | .mark "--" => .update "--"
  | .mark "**" => .operator 14 14 (.binary "**")
  | .mark "?" => .question
  | .mark "," => .comma
  | .mark m => operatorStep m

/-- How tightly a step binds, if it binds at all. -/
def Step.level? : Step → Option Nat
  | .stop => none
  | .dot | .bracket => some 18
  | .arguments => some 17
  | .update _ => some 16
  | .operator level _ _ => some level
  | .question => some 2
  | .comma => some 0

/-- Whether a token binds at least so tightly. -/
def Token.binds (least : Nat) (t : Token) : Bool := t.step.level?.any (least ≤ ·)

/-- The tokens after a given one. -/
def expect (t : Token) : List Token → Option (List Token)
  | [] => none
  | u :: ts => if u = t then some ts else none

mutual

/-- Read an expression whose operators bind at least so tightly. -/
def parse : Nat → Nat → List Token → Option (Expr × List Token)
  | 0, _, _ => none
  | _ + 1, _, [] => none
  | n + 1, least, t :: ts =>
    match t.opening with
    | .operand e => climb n least e ts
    | .group => do
      let (e, ts) ← parse n 0 ts
      climb n least e (← expect (.mark ")") ts)
    | .operator build => do
      let (e, ts) ← parse n 15 ts
      climb n least (build e) ts
    | .new => do
      let (callee, ts) ← parse n 18 ts
      match expect (.mark "(") ts with
      | some ts => do
        let (es, ts) ← parseArguments n ts
        climb n least (.new callee es) ts
      | none => climb n least (.new callee []) ts

/-- Go on from an operand, as long as the tokens bind at least so tightly. -/
def climb : Nat → Nat → Expr → List Token → Option (Expr × List Token)
  | 0, _, _, _ => none
  | _ + 1, _, e, [] => some (e, [])
  | n + 1, least, e, t :: ts =>
    if t.binds least then
      match t.step with
      | .stop => none
      | .dot =>
        match ts with
        | .word x :: ts => climb n least (.member e x) ts
        | _ => none
      | .bracket => do
        let (k, ts) ← parse n 0 ts
        climb n least (.index e k) (← expect (.mark "]") ts)
      | .arguments => do
        let (es, ts) ← parseArguments n ts
        climb n least (.call e es) ts
      | .update operator => climb n least (.update operator false e) ts
      | .operator _ right build => do
        let (r, ts) ← parse n right ts
        climb n least (build e r) ts
      | .question => do
        let (a, ts) ← parse n 1 ts
        let (b, ts) ← parse n 1 (← expect (.mark ":") ts)
        climb n least (.conditional e a b) ts
      | .comma => do
        let (es, ts) ← parseItems n ts
        climb n least (.sequence (e :: es)) ts
    else some (e, t :: ts)

/-- Read expressions with commas between them. -/
def parseItems : Nat → List Token → Option (List Expr × List Token)
  | 0, _ => none
  | n + 1, ts => do
    let (e, ts) ← parse n 1 ts
    match expect (.mark ",") ts with
    | none => some ([e], ts)
    | some ts =>
      if ts.head? = some (.mark ")") then some ([e], ts) else do
        let (es, ts) ← parseItems n ts
        some (e :: es, ts)

/-- Read arguments up to the parenthesis that closes them. -/
def parseArguments : Nat → List Token → Option (List Expr × List Token)
  | 0, _ => none
  | n + 1, ts =>
    match expect (.mark ")") ts with
    | some ts => some ([], ts)
    | none => do
      let (es, ts) ← parseItems n ts
      some (es, ← expect (.mark ")") ts)

end

-- the equations are made here, once, and the rules below share them
attribute [grind =] parse climb parseItems parseArguments

/-! ### Enough steps -/

/-- A property of all numbers from some number on. -/
def Eventually (P : Nat → Prop) : Prop := ∃ N, ∀ n, N ≤ n → P n

theorem Eventually.and {P Q : Nat → Prop} (hP : Eventually P) (hQ : Eventually Q) :
    Eventually fun n => P n ∧ Q n := by
  obtain ⟨N, hN⟩ := hP
  obtain ⟨M, hM⟩ := hQ
  exact ⟨max N M, fun n hn => ⟨hN n (by omega), hM n (by omega)⟩⟩

theorem Eventually.step {P Q : Nat → Prop} (hP : Eventually P) (h : ∀ n, P n → Q (n + 1)) :
    Eventually Q := by
  obtain ⟨N, hN⟩ := hP
  refine ⟨N + 1, fun n hn => ?_⟩
  obtain ⟨m, rfl⟩ : ∃ m, n = m + 1 := ⟨n - 1, by omega⟩
  exact h m (hN m (by omega))

theorem Eventually.of_forall {P : Nat → Prop} (h : ∀ n, P (n + 1)) : Eventually P :=
  Eventually.step ⟨0, fun _ _ => trivial⟩ fun n _ => h n

/-- Given enough steps, an expression is read. -/
def Parses (least : Nat) (ts : List Token) (e : Expr) (rest : List Token) : Prop :=
  Eventually fun n => parse n least ts = some (e, rest)

/-- Given enough steps, an expression is read that begins with an operand. -/
def Climbs (least : Nat) (operand : Expr) (ts : List Token) (e : Expr) (rest : List Token) : Prop :=
  Eventually fun n => climb n least operand ts = some (e, rest)

/-- Given enough steps, expressions are read. -/
def ParsesItems (ts : List Token) (es : List Expr) (rest : List Token) : Prop :=
  Eventually fun n => parseItems n ts = some (es, rest)

/-- Given enough steps, arguments are read. -/
def ParsesArguments (ts : List Token) (es : List Expr) (rest : List Token) : Prop :=
  Eventually fun n => parseArguments n ts = some (es, rest)

theorem Parses.unique {least : Nat} {ts rest rest' : List Token} {e e' : Expr}
    (h : Parses least ts e rest) (h' : Parses least ts e' rest') : e = e' ∧ rest = rest' := by
  obtain ⟨N, hN⟩ := h.and h'
  obtain ⟨h, h'⟩ := hN N (Nat.le_refl N)
  cases h.symm.trans h'
  exact ⟨rfl, rfl⟩

@[simp] theorem expect_self (t : Token) (ts : List Token) : expect t (t :: ts) = some ts := by
  simp [expect]

theorem expect_of_ne {t : Token} {ts : List Token} (h : ts.head? ≠ some t) :
    expect t ts = none := by
  cases ts with
  | nil => rfl
  | cons u ts => exact if_neg fun hu => h (congrArg some hu)

@[simp] theorem opening_group : (Token.mark "(").opening = .group := rfl
@[simp] theorem opening_new : (Token.word "new").opening = .new := rfl
@[simp] theorem step_dot : (Token.mark ".").step = .dot := rfl
@[simp] theorem step_bracket : (Token.mark "[").step = .bracket := rfl
@[simp] theorem step_arguments : (Token.mark "(").step = .arguments := rfl
@[simp] theorem step_question : (Token.mark "?").step = .question := rfl
@[simp] theorem step_comma : (Token.mark ",").step = .comma := rfl

section Rules

variable {least : Nat} {t : Token} {ts us vs rest : List Token} {o e a b r : Expr} {es : List Expr}

theorem parses_operand (ht : t.opening = .operand o) (h : Climbs least o ts e rest) :
    Parses least (t :: ts) e rest :=
  h.step fun n h => by simp [parse, ht, h]

theorem parses_group (hg : Parses 0 ts o (.mark ")" :: us)) (h : Climbs least o us e rest) :
    Parses least (.mark "(" :: ts) e rest :=
  (hg.and h).step fun n h => by simp [parse, h.1, h.2]

theorem parses_operator {build : Expr → Expr} (ht : t.opening = .operator build)
    (ho : Parses 15 ts o us) (h : Climbs least (build o) us e rest) :
    Parses least (t :: ts) e rest :=
  (ho.and h).step fun n h => by simp [parse, ht, h.1, h.2]

theorem parses_new (hc : Parses 18 ts o (.mark "(" :: us)) (ha : ParsesArguments us es vs)
    (h : Climbs least (.new o es) vs e rest) : Parses least (.word "new" :: ts) e rest :=
  ((hc.and ha).and h).step fun n h => by simp [parse, h.1.1, h.1.2, h.2]

theorem parses_newBare (hc : Parses 18 ts o us) (hu : us.head? ≠ some (.mark "("))
    (h : Climbs least (.new o []) us e rest) : Parses least (.word "new" :: ts) e rest :=
  (hc.and h).step fun n h => by simp [parse, h.1, h.2, expect_of_ne hu]

theorem climbs_stop (h : ∀ t ∈ ts.head?, t.binds least = false) : Climbs least o ts o ts := by
  refine Eventually.of_forall fun n => ?_
  cases ts with
  | nil => rfl
  | cons t ts => simp [climb, h t rfl]

theorem climbs_member (hl : least ≤ 18) {x : String} (h : Climbs least (.member o x) ts e rest) :
    Climbs least o (.mark "." :: .word x :: ts) e rest :=
  h.step fun n h => by simp [climb, Token.binds, Step.level?, hl, h]

theorem climbs_index (hl : least ≤ 18) (hk : Parses 0 ts a (.mark "]" :: us))
    (h : Climbs least (.index o a) us e rest) : Climbs least o (.mark "[" :: ts) e rest :=
  (hk.and h).step fun n h => by simp [climb, Token.binds, Step.level?, hl, h.1, h.2]

theorem climbs_call (hl : least ≤ 17) (ha : ParsesArguments ts es us)
    (h : Climbs least (.call o es) us e rest) : Climbs least o (.mark "(" :: ts) e rest :=
  (ha.and h).step fun n h => by simp [climb, Token.binds, Step.level?, hl, h.1, h.2]

theorem climbs_update {operator : String} (ho : operator ∈ updateOperators) (hl : least ≤ 16)
    (h : Climbs least (.update operator false o) ts e rest) :
    Climbs least o (.mark operator :: ts) e rest := by
  have hstep : (Token.mark operator).step = .update operator := by
    simp only [updateOperators, List.mem_cons, List.not_mem_nil, or_false] at ho
    rcases ho with rfl | rfl <;> rfl
  exact h.step fun n h => by simp [climb, Token.binds, hstep, Step.level?, hl, h]

theorem climbs_operator {level right : Nat} {build : Expr → Expr → Expr}
    (ht : t.step = .operator level right build) (hl : least ≤ level) (hr : Parses right ts r us)
    (h : Climbs least (build o r) us e rest) : Climbs least o (t :: ts) e rest :=
  (hr.and h).step fun n h => by simp [climb, Token.binds, ht, Step.level?, hl, h.1, h.2]

theorem climbs_conditional (hl : least ≤ 2) (ha : Parses 1 ts a (.mark ":" :: us))
    (hb : Parses 1 us b vs) (h : Climbs least (.conditional o a b) vs e rest) :
    Climbs least o (.mark "?" :: ts) e rest :=
  ((ha.and hb).and h).step fun n h => by
    simp [climb, Token.binds, Step.level?, hl, h.1.1, h.1.2, h.2]

theorem climbs_sequence (hl : least = 0) (hi : ParsesItems ts es us)
    (h : Climbs least (.sequence (o :: es)) us e rest) : Climbs least o (.mark "," :: ts) e rest :=
  (hi.and h).step fun n h => by simp [climb, Token.binds, Step.level?, hl, h.1, hl ▸ h.2]

theorem parsesItems_last (h : Parses 1 ts e us) (hu : us.head? ≠ some (.mark ",")) :
    ParsesItems ts [e] us :=
  h.step fun n h => by simp [parseItems, h, expect_of_ne hu]

theorem parsesItems_comma (h : Parses 1 ts e (.mark "," :: .mark ")" :: us)) :
    ParsesItems ts [e] (.mark ")" :: us) :=
  h.step fun n h => by simp [parseItems, h]

theorem parsesItems_cons (h : Parses 1 ts e (.mark "," :: us)) (hi : ParsesItems us es vs)
    (hu : us.head? ≠ some (.mark ")")) : ParsesItems ts (e :: es) vs :=
  (h.and hi).step fun n h => by simp [parseItems, h.1, h.2, hu]

theorem parsesArguments_nil : ParsesArguments (.mark ")" :: ts) [] ts :=
  Eventually.of_forall fun n => by simp [parseArguments]

theorem parsesArguments_items (h : ParsesItems ts es (.mark ")" :: us))
    (ht : ts.head? ≠ some (.mark ")")) : ParsesArguments ts es us :=
  h.step fun n h => by simp [parseArguments, h, expect_of_ne ht]

end Rules

/-! ### Levels of phrases -/

namespace Phrase

/-- How tightly the operators of a phrase bind at least. -/
def level : Phrase → Nat
  | .expression => 0
  | .assignment => 1
  | .conditional => 2
  | .shortCircuit | .coalesce => 3
  | .logicalOr => 4
  | .logicalAnd => 5
  | .bitwiseOr => 6
  | .bitwiseXor => 7
  | .bitwiseAnd => 8
  | .equality => 9
  | .relational => 10
  | .shift => 11
  | .additive => 12
  | .multiplicative => 13
  | .exponent => 14
  | .unary => 15
  | .update => 16
  | .leftHandSide | .call => 17
  | .newExpression | .member => 18
  | .primary => 19

/-- A token that follows a phrase binds looser than this. -/
def bound : Phrase → Nat
  | .expression => 0
  | .assignment | .conditional => 1
  | .shortCircuit => 3
  | .coalesce => 4
  | .logicalOr => 5
  | .logicalAnd => 6
  | .bitwiseOr => 7
  | .bitwiseXor => 8
  | .bitwiseAnd => 9
  | .equality => 10
  | .relational => 11
  | .shift => 12
  | .additive => 13
  | .multiplicative | .exponent => 14
  | .unary | .update => 15
  | .leftHandSide | .newExpression => 17
  | .call | .member | .primary => 19

theorem level_wider {p q : Phrase} (h : q.wider = some p) : p.level ≤ q.level := by
  cases q <;> cases h <;> decide

theorem member_or_call :
    ∀ p ∈ [Phrase.member, .call], 17 ≤ p.level ∧ p.level ≤ 18 ∧ p.bound = 19 := by
  decide

theorem bound_wider {p q : Phrase} (h : q.wider = some p) : p.bound ≤ q.bound := by
  cases q <;> cases h <;> decide

end Phrase

/-- What follows a phrase does not bind to a part of it. -/
def Follows (p : Phrase) (rest : List Token) : Prop :=
  ∀ t ∈ rest.head?, ∀ l ∈ t.step.level?, l < p.bound

theorem Follows.mono {p q : Phrase} {rest : List Token} (h : Follows p rest)
    (hpq : p.bound ≤ q.bound) : Follows q rest :=
  fun t ht l hl => Nat.lt_of_lt_of_le (h t ht l hl) hpq

theorem follows_cons {p : Phrase} {t : Token} {ts : List Token}
    (h : ∀ l ∈ t.step.level?, l < p.bound) : Follows p (t :: ts) := by
  rintro _ ⟨⟩
  exact h

/-- Reading stops where a phrase ends, if the operators must bind tighter than what follows. -/
theorem Follows.climbs {p : Phrase} {rest : List Token} (h : Follows p rest) {least : Nat}
    (hl : p.bound ≤ least) (e : Expr) : Climbs least e rest e rest := by
  refine climbs_stop fun t ht => ?_
  unfold Token.binds
  cases hs : t.step.level? with
  | none => rfl
  | some l =>
    have hlt := h t ht l hs
    simp only [Option.any_some, decide_eq_false_iff_not]
    omega

theorem step_operator {p : Phrase} {operator : String} (h : operator ∈ p.operators) :
    (operatorToken operator).step = .operator p.level (p.level + 1) (.binary operator) ∧
      p.bound = p.level + 1 := by
  cases p <;> simp only [Phrase.operators, List.mem_cons, List.not_mem_nil, or_false] at h <;>
    rcases h with rfl | rfl | rfl | rfl | rfl | rfl <;> exact ⟨rfl, rfl⟩

theorem level_operand {p q : Phrase} {operator : String} (ho : operator ∈ p.operators)
    (hq : q.wider = some p) : p.level + 1 ≤ q.level := by
  cases q <;> cases hq <;> first | decide | cases ho

theorem step_assignment {operator : String} (h : operator ∈ assignmentOperators) :
    (Token.mark operator).step = .operator 1 1 (.assign operator) := by
  simp only [assignmentOperators, List.mem_cons, List.not_mem_nil, or_false] at h
  rcases h with rfl | rfl | rfl | rfl | rfl | rfl | rfl | rfl | rfl | rfl | rfl | rfl | rfl | rfl |
    rfl | rfl <;> rfl

theorem opening_name {x : String} (h : x ∉ reserved) :
    (Token.word x).opening = .operand (.name x) := by
  have hnew : x ≠ "new" := by
    rintro rfl
    exact h (by decide)
  have hword : x ∉ wordOperators := by
    have hsub : ∀ w ∈ wordOperators, w ∈ reserved := by decide
    exact fun hx => h (hsub x hx)
  simp [Token.opening, hnew, hword]

theorem opening_unary {operator : String} (h : operator ∈ unaryOperators) :
    (operatorToken operator).opening = .operator (.unary operator) := by
  simp only [unaryOperators, List.mem_cons, List.not_mem_nil, or_false] at h
  rcases h with rfl | rfl | rfl | rfl | rfl | rfl | rfl <;> rfl

theorem opening_update {operator : String} (h : operator ∈ updateOperators) :
    (Token.mark operator).opening = .operator (.update operator true) := by
  simp only [updateOperators, List.mem_cons, List.not_mem_nil, or_false] at h
  rcases h with rfl | rfl <;> rfl

/-! ### How phrases begin -/

theorem separated_singleton (ts : List Token) : separated [ts] = ts := by
  simp [separated, List.intercalate]

theorem separated_cons_cons (ts us : List Token) (parts : List (List Token)) :
    separated (ts :: us :: parts) = ts ++ .mark "," :: separated (us :: parts) := by
  simp [separated, List.intercalate]

/-- The first token has a property. -/
def StartsWith (P : Token → Prop) (ts : List Token) : Prop := ∃ t us, ts = t :: us ∧ P t

theorem StartsWith.append {P : Token → Prop} {ts : List Token} (h : StartsWith P ts)
    (us : List Token) : StartsWith P (ts ++ us) := by
  obtain ⟨t, vs, rfl, ht⟩ := h
  exact ⟨t, vs ++ us, rfl, ht⟩

theorem startsWith_separated {P : Token → Prop} {parts : List (List Token × Expr)}
    (hne : parts ≠ []) (h : ∀ part ∈ parts, StartsWith P part.1) :
    StartsWith P (separated (parts.map Prod.fst)) := by
  match parts, hne with
  | [part], _ =>
    rw [List.map_singleton, separated_singleton]
    exact h part List.mem_cons_self
  | part :: next :: more, _ =>
    rw [List.map_cons, List.map_cons, separated_cons_cons]
    exact (h part List.mem_cons_self).append _

/-- What may begin a phrase: a word, a numeral, a parenthesis or an operator before an operand. -/
def Token.Opens : Token → Prop
  | .mark m => m ∈ ["(", "++", "--", "+", "-", "~", "!"]
  | _ => True

/-- **How phrases begin.** -/
theorem Derives.startsWith {p : Phrase} {ts : List Token} {e : Expr} (h : Derives p ts e) :
    StartsWith Token.Opens ts := by
  induction h with
  | wider _ _ ih => exact ih
  | name => exact ⟨_, _, rfl, trivial⟩
  | numeral => exact ⟨_, _, rfl, trivial⟩
  | paren => exact ⟨_, _, rfl, by simp [Token.Opens]⟩
  | member _ _ _ ih => exact ih.append _
  | index _ _ _ ih => exact ih.append _
  | new => exact ⟨_, _, rfl, trivial⟩
  | newBare => exact ⟨_, _, rfl, trivial⟩
  | call _ _ _ _ ih => exact ih.append _
  | updateLast _ _ ih => exact ih.append _
  | updateFirst ho =>
    refine ⟨_, _, rfl, ?_⟩
    simp only [updateOperators, List.mem_cons, List.not_mem_nil, or_false] at ho
    rcases ho with rfl | rfl <;> simp [Token.Opens]
  | unary ho =>
    refine ⟨_, _, rfl, ?_⟩
    simp only [unaryOperators, List.mem_cons, List.not_mem_nil, or_false] at ho
    rcases ho with rfl | rfl | rfl | rfl | rfl | rfl | rfl <;>
      simp [operatorToken, wordOperators, Token.Opens]
  | exponent _ _ ih => exact ih.append _
  | binary _ _ _ _ ih => exact ih.append _
  | coalesce _ _ _ ih => exact ih.append _
  | conditional _ _ _ ih =>
    rw [List.append_assoc]
    exact ih.append _
  | assign _ _ _ ih => exact ih.append _
  | @sequence parts hparts _ ih =>
    refine startsWith_separated ?_ ih
    rintro rfl
    simp at hparts

/-- Tokens that do not begin with a closing parenthesis. -/
def Begins (ts : List Token) : Prop := ∃ t us, ts = t :: us ∧ t ≠ .mark ")"

theorem Begins.append {ts : List Token} (h : Begins ts) (us : List Token) : Begins (ts ++ us) :=
  StartsWith.append h us

theorem Begins.head?_ne {ts : List Token} (h : Begins ts) : ts.head? ≠ some (.mark ")") := by
  obtain ⟨t, us, rfl, ht⟩ := h
  exact fun hh => ht (Option.some.inj hh)

theorem begins_separated {parts : List (List Token × Expr)} (hne : parts ≠ [])
    (h : ∀ part ∈ parts, Begins part.1) : Begins (separated (parts.map Prod.fst)) :=
  startsWith_separated hne h

/-- No phrase begins with a closing parenthesis. -/
theorem Derives.begins {p : Phrase} {ts : List Token} {e : Expr} (h : Derives p ts e) :
    Begins ts := by
  obtain ⟨t, us, rfl, ht⟩ := h.startsWith
  refine ⟨t, us, rfl, ?_⟩
  rintro rfl
  simp [Token.Opens] at ht

theorem Derives.ne_nil {p : Phrase} {ts : List Token} {e : Expr} (h : Derives p ts e) :
    ts ≠ [] := by
  obtain ⟨t, us, rfl, -⟩ := h.begins
  exact List.cons_ne_nil t us

/-! ### The reader finds what the grammar derives -/

/-- Tokens of a phrase are read as an expression, whatever follows. -/
def Complete (p : Phrase) (ts : List Token) (e : Expr) : Prop :=
  ∀ ⦃least : Nat⦄ ⦃rest : List Token⦄ ⦃e' : Expr⦄ ⦃rest' : List Token⦄, least ≤ p.level →
    Follows p rest → Climbs least e rest e' rest' → Parses least (ts ++ rest) e' rest'

theorem Complete.alone {p : Phrase} {ts rest : List Token} {e : Expr} (h : Complete p ts e)
    {least : Nat} (hl : least ≤ p.level) (hb : p.bound ≤ least) (hf : Follows p rest) :
    Parses least (ts ++ rest) e rest := h hl hf (hf.climbs hb e)

/-- Reading items, given how the last one is read. -/
theorem parsesItems_complete {rest rest' : List Token} (hf : Follows .assignment rest)
    (hlast : ∀ {ts : List Token} {e : Expr}, Parses 1 ts e rest → ParsesItems ts [e] rest') :
    ∀ {parts : List (List Token × Expr)}, parts ≠ [] → (∀ part ∈ parts, Begins part.1) →
      (∀ part ∈ parts, Complete .assignment part.1 part.2) →
        ParsesItems (separated (parts.map Prod.fst) ++ rest) (parts.map Prod.snd) rest'
  | [part], _, _, hc => by
    rw [List.map_singleton, separated_singleton]
    exact hlast ((hc part List.mem_cons_self).alone (Nat.le_refl 1) (Nat.le_refl 1) hf)
  | part :: next :: more, _, hb, hc => by
    rw [List.map_cons, List.map_cons, separated_cons_cons, List.append_assoc]
    have hnext := parsesItems_complete hf hlast (List.cons_ne_nil next more)
      (fun p hp => hb p (List.mem_cons_of_mem part hp))
      (fun p hp => hc p (List.mem_cons_of_mem part hp))
    have hbegins := begins_separated (List.cons_ne_nil next more)
      fun p hp => hb p (List.mem_cons_of_mem part hp)
    have hcomma : Follows .assignment
        (.mark "," :: (separated ((next :: more).map Prod.fst) ++ rest)) :=
      follows_cons (by decide)
    exact parsesItems_cons
      ((hc part List.mem_cons_self).alone (Nat.le_refl 1) (Nat.le_refl 1) hcomma) hnext
      (hbegins.append rest).head?_ne

theorem parsesArguments_complete {parts : List (List Token × Expr)} {comma : Bool}
    (hcomma : comma = true → parts ≠ []) (hb : ∀ part ∈ parts, Begins part.1)
    (hc : ∀ part ∈ parts, Complete .assignment part.1 part.2) (rest : List Token) :
    ∃ ts, bracketed (parts.map Prod.fst) comma ++ rest = .mark "(" :: ts ∧
      ParsesArguments ts (parts.map Prod.snd) rest := by
  refine ⟨separated (parts.map Prod.fst) ++
    ((if comma then [Token.mark ",", .mark ")"] else [Token.mark ")"]) ++ rest), ?_, ?_⟩
  · simp [bracketed]
  by_cases hne : parts = []
  · subst hne
    obtain rfl : comma = false := Bool.eq_false_iff.mpr fun h => hcomma h rfl
    exact parsesArguments_nil
  · refine parsesArguments_items ?_ ((begins_separated hne hb).append _).head?_ne
    cases comma with
    | true => exact parsesItems_complete (follows_cons (by decide)) parsesItems_comma hne hb hc
    | false =>
      exact parsesItems_complete (follows_cons (by decide))
        (fun h => parsesItems_last h (by simp)) hne hb hc

/-- **The reader finds what the grammar derives.** -/
theorem Derives.complete {p : Phrase} {ts : List Token} {e : Expr} (h : Derives p ts e) :
    Complete p ts e := by
  induction h with
  | wider _ hq ih =>
    intro least rest e' rest' hl hf hclimb
    exact ih (Nat.le_trans hl (Phrase.level_wider hq)) (hf.mono (Phrase.bound_wider hq)) hclimb
  | name hx => exact fun _ _ _ _ _ _ hclimb => parses_operand (opening_name hx) hclimb
  | numeral => exact fun _ _ _ _ _ _ hclimb => parses_operand rfl hclimb
  | @paren ts e _ ih =>
    intro least rest e' rest' _ _ hclimb
    have hinner : Parses 0 (ts ++ .mark ")" :: rest) e (.mark ")" :: rest) :=
      ih.alone (Nat.le_refl 0) (Nat.le_refl 0) (follows_cons (by decide))
    simp only [List.cons_append, List.append_assoc, List.nil_append]
    exact parses_group hinner hclimb
  | @member p ts o hp _ x ih =>
    intro least rest e' rest' hl _ hclimb
    obtain ⟨-, hlevel, hbound⟩ := Phrase.member_or_call p hp
    rw [List.append_assoc]
    refine ih hl (follows_cons ?_) (climbs_member (Nat.le_trans hl hlevel) hclimb)
    rw [hbound]
    decide
  | @index p ts us o k hp _ _ iho ihk =>
    intro least rest e' rest' hl _ hclimb
    obtain ⟨-, hlevel, hbound⟩ := Phrase.member_or_call p hp
    have hkey : Parses 0 (us ++ .mark "]" :: rest) k (.mark "]" :: rest) :=
      ihk.alone (Nat.le_refl 0) (Nat.le_refl 0) (follows_cons (by decide))
    simp only [List.cons_append, List.append_assoc, List.nil_append]
    refine iho hl (follows_cons ?_) (climbs_index (Nat.le_trans hl hlevel) hkey hclimb)
    rw [hbound]
    decide
  | @new ts c parts comma _ hargs hcomma ihc iha =>
    intro least rest e' rest' _ _ hclimb
    obtain ⟨us, hus, harguments⟩ := parsesArguments_complete hcomma
      (fun part hp => (hargs part hp).begins) iha rest
    have hcallee : Parses 18 (ts ++ .mark "(" :: us) c (.mark "(" :: us) :=
      ihc (Nat.le_refl 18) (follows_cons (by decide)) (climbs_stop (by rintro _ ⟨⟩; rfl))
    rw [List.cons_append, List.append_assoc, hus]
    exact parses_new hcallee harguments hclimb
  | @newBare ts c _ ih =>
    intro least rest e' rest' _ hf hclimb
    refine parses_newBare (ih.alone (Nat.le_refl 18) (by decide) hf) ?_ hclimb
    intro hhead
    exact absurd (hf _ hhead 17 rfl) (by decide)
  | @call p ts c parts comma hp _ hargs hcomma ihc iha =>
    intro least rest e' rest' hl _ hclimb
    obtain ⟨hlevel, -, hbound⟩ := Phrase.member_or_call p hp
    obtain ⟨us, hus, harguments⟩ := parsesArguments_complete hcomma
      (fun part hp => (hargs part hp).begins) iha rest
    rw [List.append_assoc, hus]
    refine ihc (Nat.le_trans hl hlevel) (follows_cons ?_) (climbs_call hl harguments hclimb)
    rw [hbound]
    decide
  | @updateLast operator ts e ho _ ih =>
    intro least rest e' rest' hl _ hclimb
    rw [List.append_assoc]
    refine ih (Nat.le_succ_of_le hl) (follows_cons ?_) (climbs_update ho hl hclimb)
    simp only [updateOperators, List.mem_cons, List.not_mem_nil, or_false] at ho
    rcases ho with rfl | rfl <;> decide
  | updateFirst ho _ ih =>
    intro least rest e' rest' _ hf hclimb
    exact parses_operator (opening_update ho)
      (ih.alone (Nat.le_refl 15) (Nat.le_refl 15) (hf.mono (by decide))) hclimb
  | unary ho _ ih =>
    intro least rest e' rest' _ hf hclimb
    exact parses_operator (opening_unary ho)
      (ih.alone (Nat.le_refl 15) (Nat.le_refl 15) hf) hclimb
  | exponent _ _ ihl ihr =>
    intro least rest e' rest' hl hf hclimb
    rw [List.append_assoc]
    exact ihl (Nat.le_trans hl (by decide)) (follows_cons (by decide)) (climbs_operator rfl hl
      (ihr.alone (Nat.le_refl 14) (Nat.le_refl 14) hf) hclimb)
  | @binary p q operator ts us l r ho hq _ _ ihl ihr =>
    intro least rest e' rest' hl hf hclimb
    obtain ⟨hstep, hbound⟩ := step_operator ho
    have hright : Parses (p.level + 1) (us ++ rest) r rest :=
      ihr (level_operand ho hq) (hf.mono (Phrase.bound_wider hq))
        (hf.climbs (Nat.le_of_eq hbound) r)
    rw [List.append_assoc]
    refine ihl hl (follows_cons ?_) (climbs_operator hstep hl hright hclimb)
    rw [hstep, hbound]
    rintro _ ⟨⟩
    exact Nat.lt_succ_self p.level
  | @coalesce p ts us l r hp _ _ ihl ihr =>
    intro least rest e' rest' hl hf hclimb
    have hleft : ∀ p ∈ [Phrase.coalesce, .bitwiseOr], 3 ≤ p.level ∧ 3 < p.bound := by decide
    obtain ⟨hlevel, hbound⟩ := hleft p hp
    have hright : Parses 4 (us ++ rest) r rest :=
      ihr (by decide) (hf.mono (by decide)) (hf.climbs (Nat.le_refl 4) r)
    rw [List.append_assoc]
    refine ihl (Nat.le_trans hl hlevel) (follows_cons ?_) (climbs_operator rfl hl hright hclimb)
    rintro _ ⟨⟩
    exact hbound
  | @conditional ts us vs c a b _ _ _ ihc iha ihb =>
    intro least rest e' rest' hl hf hclimb
    have hconsequent : Parses 1 (us ++ .mark ":" :: (vs ++ rest)) a (.mark ":" :: (vs ++ rest)) :=
      iha.alone (Nat.le_refl 1) (Nat.le_refl 1) (follows_cons (by decide))
    have halternate : Parses 1 (vs ++ rest) b rest :=
      ihb.alone (Nat.le_refl 1) (Nat.le_refl 1) hf
    simp only [List.append_assoc, List.cons_append]
    exact ihc (Nat.le_trans hl (by decide)) (follows_cons (by decide))
      (climbs_conditional hl hconsequent halternate hclimb)
  | assign ho _ _ ihl ihr =>
    intro least rest e' rest' hl hf hclimb
    have hstep := step_assignment ho
    rw [List.append_assoc]
    refine ihl (Nat.le_trans hl (by decide)) (follows_cons ?_) (climbs_operator hstep hl
      (ihr.alone (Nat.le_refl 1) (Nat.le_refl 1) hf) hclimb)
    rw [hstep]
    rintro _ ⟨⟩
    decide
  | @sequence parts hparts hitems ih =>
    intro least rest e' rest' hl hf hclimb
    obtain ⟨first, second, more, rfl⟩ : ∃ first second more, parts = first :: second :: more := by
      match parts, hparts with
      | first :: second :: more, _ => exact ⟨first, second, more, rfl⟩
    have hrest : ∀ part ∈ second :: more, part ∈ first :: second :: more :=
      fun part hp => List.mem_cons_of_mem first hp
    have hcomma : rest.head? ≠ some (.mark ",") :=
      fun hhead => absurd (hf _ hhead 0 rfl) (by decide)
    have hothers := parsesItems_complete (hf.mono (by decide))
      (fun h => parsesItems_last h hcomma) (List.cons_ne_nil second more)
      (fun part hp => (hitems part (hrest part hp)).begins) (fun part hp => ih part (hrest part hp))
    rw [List.map_cons, List.map_cons, separated_cons_cons, List.append_assoc]
    exact ih first List.mem_cons_self (Nat.le_trans hl (by decide)) (follows_cons (by decide))
      (climbs_sequence (Nat.le_zero.mp hl) hothers hclimb)

/-- An expression is read up to what does not go on with it. -/
theorem Derives.parses {ts rest : List Token} {e : Expr} (h : Derives .expression ts e)
    (hf : Follows .expression rest) : Parses 0 (ts ++ rest) e rest :=
  h.complete.alone (Nat.le_refl 0) (Nat.le_refl 0) hf

theorem follows_nil (p : Phrase) : Follows p [] := by
  rintro _ ⟨⟩

/-- **The grammar is unambiguous**: no list of tokens stands for two expressions. -/
theorem Derives.unique {ts : List Token} {e e' : Expr} (h : Derives .expression ts e)
    (h' : Derives .expression ts e') : e = e' :=
  ((h.parses (follows_nil _)).unique (h'.parses (follows_nil _))).1

end Typeshift.Expression
