import Typeshift.Proofs.Statement.LoopHead

/-! # The grammar of statements is unambiguous

A list of lexemes is read as statements in at most one way. A part that ends with a semicolon or
does without has one end: no phrase holds a semicolon or a brace, and where a line ends the phrase
must be as long as it can be. A part in parentheses ends where its expression does.

* `Derives.inner`, `Binds.inner`: what tokens a phrase is made of.
* `bindings_unique`: names that are declared end where nothing goes on with them.
* `Heads.not_traverses`: the head of a loop with two semicolons is that of no other loop.
* `Begins.unique`: how a statement begins. `Reads.unique`: the whole grammar. -/

namespace Typeshift.Expression

/-! ### The tokens of a phrase -/

/-- Whether a token may stand in a phrase: semicolons and braces may not. -/
def Token.isInner (t : Token) : Bool :=
  t != .mark ";" && t != .mark "\x7b" && t != .mark "\x7d"

theorem inner_separated {α : Type} {parts : List (List Token × α)}
    (h : ∀ part ∈ parts, ∀ t ∈ part.1, t.isInner = true) :
    ∀ t ∈ separated (parts.map Prod.fst), t.isInner = true := by
  induction parts with
  | nil => simp [separated, List.intercalate]
  | cons part rest ih =>
    obtain ⟨hpart, hrest⟩ := List.forall_mem_cons.mp h
    cases rest with
    | nil => rwa [List.map_singleton, separated_singleton]
    | cons next more =>
      rw [List.map_cons, List.map_cons, separated_cons_cons]
      exact List.forall_mem_append.mpr ⟨hpart, List.forall_mem_cons.mpr ⟨rfl, ih hrest⟩⟩

theorem inner_bracketed {parts : List (List Token × Expr)} {comma : Bool}
    (h : ∀ part ∈ parts, ∀ t ∈ part.1, t.isInner = true) :
    ∀ t ∈ bracketed (parts.map Prod.fst) comma, t.isInner = true := by
  have hclose : ∀ t ∈ if comma then [Token.mark ",", .mark ")"] else [.mark ")"],
      t.isInner = true := by cases comma <;> decide
  exact List.forall_mem_cons.mpr
    ⟨rfl, List.forall_mem_append.mpr ⟨inner_separated h, hclose⟩⟩

theorem inner_operator {operator : String} {operators : List String} (ho : operator ∈ operators)
    (h : ∀ o ∈ operators, (operatorToken o).isInner = true) :
    (operatorToken operator).isInner = true := h operator ho

/-- No phrase holds a semicolon or a brace. -/
theorem Derives.inner {p : Phrase} {ts : List Token} {e : Expr} (h : Derives p ts e) :
    ∀ t ∈ ts, t.isInner = true := by
  have hword (x : String) : (Token.word x).isInner = true := rfl
  have hbinary : ∀ p, ∀ o ∈ Phrase.operators p, (operatorToken o).isInner = true := by
    intro p
    cases p <;> decide
  induction h with
  | wider _ _ ih => exact ih
  | name => exact List.forall_mem_singleton.mpr rfl
  | numeral => exact List.forall_mem_singleton.mpr rfl
  | paren _ ih =>
    exact List.forall_mem_append.mpr ⟨List.forall_mem_cons.mpr ⟨rfl, ih⟩, by decide⟩
  | member _ _ x ih => exact List.forall_mem_append.mpr ⟨ih, by simp [Token.isInner]⟩
  | index _ _ _ ih ih' =>
    exact List.forall_mem_append.mpr ⟨ih, List.forall_mem_append.mpr
      ⟨List.forall_mem_cons.mpr ⟨rfl, ih'⟩, by decide⟩⟩
  | new _ _ _ ih ihs =>
    exact List.forall_mem_cons.mpr ⟨rfl, List.forall_mem_append.mpr ⟨ih, inner_bracketed ihs⟩⟩
  | newBare _ ih => exact List.forall_mem_cons.mpr ⟨rfl, ih⟩
  | call _ _ _ _ ih ihs => exact List.forall_mem_append.mpr ⟨ih, inner_bracketed ihs⟩
  | updateLast ho _ ih =>
    refine List.forall_mem_append.mpr ⟨ih, List.forall_mem_singleton.mpr ?_⟩
    revert ho
    exact (by decide : ∀ o ∈ updateOperators, (Token.mark o).isInner = true) _
  | updateFirst ho _ ih =>
    refine List.forall_mem_cons.mpr ⟨?_, ih⟩
    revert ho
    exact (by decide : ∀ o ∈ updateOperators, (Token.mark o).isInner = true) _
  | unary ho _ ih =>
    exact List.forall_mem_cons.mpr ⟨inner_operator ho (by decide), ih⟩
  | exponent _ _ ih ih' =>
    exact List.forall_mem_append.mpr ⟨ih, List.forall_mem_cons.mpr ⟨rfl, ih'⟩⟩
  | binary ho _ _ _ ih ih' =>
    exact List.forall_mem_append.mpr ⟨ih, List.forall_mem_cons.mpr ⟨hbinary _ _ ho, ih'⟩⟩
  | coalesce _ _ _ ih ih' =>
    exact List.forall_mem_append.mpr ⟨ih, List.forall_mem_cons.mpr ⟨rfl, ih'⟩⟩
  | conditional _ _ _ ih ih' ih'' =>
    exact List.forall_mem_append.mpr ⟨List.forall_mem_append.mpr
      ⟨ih, List.forall_mem_cons.mpr ⟨rfl, ih'⟩⟩, List.forall_mem_cons.mpr ⟨rfl, ih''⟩⟩
  | assign ho _ _ ih ih' =>
    refine List.forall_mem_append.mpr ⟨ih, List.forall_mem_cons.mpr ⟨?_, ih'⟩⟩
    revert ho
    exact (by decide : ∀ o ∈ assignmentOperators, (Token.mark o).isInner = true) _
  | sequence _ _ ih => exact inner_separated ih

/-- A phrase ends where nothing goes on with it. -/
theorem Derives.unique_before {p : Phrase} {ts us rest rest' : List Token} {e e' : Expr}
    (h : Derives p ts e) (h' : Derives p us e') (hp : p.bound ≤ p.level) (hf : Follows p rest)
    (hf' : Follows p rest') (heq : ts ++ rest = us ++ rest') : e = e' ∧ rest = rest' := by
  have hparses := h.complete.alone (Nat.le_refl _) hp hf
  rw [heq] at hparses
  exact hparses.unique (h'.complete.alone (Nat.le_refl _) hp hf')

end Typeshift.Expression

namespace Typeshift.Statement

open Expression

variable {ls ls' ms ms' rest rest' all : List Lexeme} {l l' : Lexeme} {e e' : Expr}

/-! ### Phrases among lexemes -/

@[simp] theorem tokens_nil : tokens [] = [] := rfl

@[simp] theorem tokens_cons (l : Lexeme) (ls : List Lexeme) :
    tokens (l :: ls) = l.token :: tokens ls := rfl

@[simp] theorem tokens_append (ls ms : List Lexeme) :
    tokens (ls ++ ms) = tokens ls ++ tokens ms := List.map_append

/-- Lexemes none of which is a semicolon or a brace. -/
def Inner (ls : List Lexeme) : Prop := ∀ t ∈ tokens ls, t.isInner = true

theorem Expresses.inner (h : Expresses ls e) : Inner ls := h.derives.inner

theorem Expresses.ne_nil (h : Expresses ls e) : ls ≠ [] := by
  rintro rfl
  exact h.derives.ne_nil rfl

theorem Expresses.unique (h : Expresses ls e) (h' : Expresses ls e') : e = e' :=
  h.derives.unique h'.derives

/-- Two lists whose tokens before the same rest are equal. -/
theorem eq_of_tokens_eq (heq : ls ++ rest = ls' ++ rest') (ht : tokens rest = tokens rest') :
    ls = ls' ∧ rest = rest' := by
  have hlength : rest.length = rest'.length := by
    simpa [tokens] using congrArg List.length ht
  exact List.append_inj' heq hlength

/-- Lexemes are cut at the first semicolon in one way. -/
theorem split_semicolon (hls : Inner ls) (hls' : Inner ls') (hl : l.token = .mark ";")
    (hl' : l'.token = .mark ";") (heq : ls ++ l :: rest = ls' ++ l' :: rest') :
    ls = ls' ∧ rest = rest' := by
  induction ls generalizing ls' with
  | nil =>
    cases ls' with
    | nil => exact ⟨rfl, (List.cons.inj heq).2⟩
    | cons m ls' =>
      obtain ⟨rfl, -⟩ := List.cons.inj heq
      have := hls' l.token List.mem_cons_self
      rw [hl] at this
      cases this
  | cons m ls ih =>
    cases ls' with
    | nil =>
      obtain ⟨rfl, -⟩ := List.cons.inj heq
      have := hls m.token List.mem_cons_self
      rw [hl'] at this
      cases this
    | cons m' ls' =>
      simp only [List.cons_append, List.cons.injEq] at heq
      obtain ⟨rfl, heq⟩ := heq
      obtain ⟨rfl, rfl⟩ := ih (fun t ht => hls t (List.mem_cons_of_mem _ ht))
        (fun t ht => hls' t (List.mem_cons_of_mem _ ht)) heq
      exact ⟨rfl, rfl⟩

/-- A phrase among lexemes ends where nothing goes on with it. -/
theorem derives_unique_before {p : Phrase} (h : Derives p (tokens ls) e)
    (h' : Derives p (tokens ls') e') (hp : p.bound ≤ p.level) (hf : Follows p (tokens rest))
    (hf' : Follows p (tokens rest')) (heq : ls ++ rest = ls' ++ rest') : e = e' ∧ rest = rest' := by
  have htokens : tokens ls ++ tokens rest = tokens ls' ++ tokens rest' := by
    rw [← tokens_append, ← tokens_append, heq]
  obtain ⟨he, hrest⟩ := h.unique_before h' hp hf hf' htokens
  exact ⟨he, (eq_of_tokens_eq heq hrest).2⟩

/-- Nothing goes on after a parenthesis that closes. -/
theorem follows_close {p : Phrase} (hl : l.token = .mark ")") : Follows p (tokens (l :: rest)) := by
  rw [tokens_cons, hl]
  exact follows_cons nofun

/-- An expression before a parenthesis that closes. -/
theorem Expresses.unique_before (h : Expresses ls e) (h' : Expresses ls' e')
    (hl : l.token = .mark ")") (hl' : l'.token = .mark ")")
    (heq : ls ++ l :: rest = ls' ++ l' :: rest') : e = e' ∧ rest = rest' := by
  obtain ⟨he, hcons⟩ := derives_unique_before h.derives h'.derives (by decide) (follows_close hl)
    (follows_close hl') heq
  exact ⟨he, (List.cons.inj hcons).2⟩

theorem Grouped.unique (h : Grouped all e rest) (h' : Grouped all e' rest') :
    e = e' ∧ rest = rest' := by
  obtain ⟨-, value, hr, rfl⟩ := h
  obtain ⟨-, value', hr', split⟩ := h'
  exact value.unique_before value' hr hr' (List.cons.inj split).2

theorem Maybe.inner {v : Option Expr} (h : Maybe ls v) : Inner ls := by
  cases h with
  | none => simp [Inner]
  | some value => exact value.inner

theorem Maybe.unique {v v' : Option Expr} (h : Maybe ls v) (h' : Maybe ls v') : v = v' := by
  cases h with
  | none =>
    cases h' with
    | none => rfl
    | some value => exact absurd rfl value.ne_nil
  | some value =>
    cases h' with
    | none => exact absurd rfl value.ne_nil
    | some value' => rw [value.unique value']

/-- No expression begins with a parenthesis that closes. -/
theorem Expresses.ne_close (h : Expresses ls e) (hl : l.token = .mark ")")
    (heq : l :: rest = ls ++ rest') : False := by
  obtain ⟨t, us, hts, ht⟩ := h.derives.begins
  cases ls with
  | nil => exact h.ne_nil rfl
  | cons m ls =>
    obtain ⟨rfl, -⟩ := List.cons.inj heq
    rw [tokens_cons, hl] at hts
    exact ht (List.cons.inj hts).1.symm

theorem Maybe.unique_before {v v' : Option Expr} (h : Maybe ls v) (h' : Maybe ls' v')
    (hl : l.token = .mark ")") (hl' : l'.token = .mark ")")
    (heq : ls ++ l :: rest = ls' ++ l' :: rest') : v = v' ∧ rest = rest' := by
  cases h with
  | none =>
    cases h' with
    | none => exact ⟨rfl, (List.cons.inj heq).2⟩
    | some value => exact (value.ne_close hl heq).elim
  | some value =>
    cases h' with
    | none => exact (value.ne_close hl' heq.symm).elim
    | some value' =>
      obtain ⟨rfl, rfl⟩ := value.unique_before value' hl hl' heq
      exact ⟨rfl, rfl⟩

/-! ### Names that are declared -/

theorem Binding.inner {ts : List Token} {b : String × Option Expr} (h : Binding ts b) :
    ∀ t ∈ ts, t.isInner = true := by
  cases h with
  | bare => exact List.forall_mem_singleton.mpr rfl
  | valued _ value =>
    exact List.forall_mem_cons.mpr ⟨rfl, List.forall_mem_cons.mpr ⟨rfl, value.inner⟩⟩

/-- Nothing goes on with names that are declared: no operator, no comma and no `=`. -/
def EndsBindings (rest : List Token) : Prop :=
  ∀ t ∈ rest.head?, t.step.level? = none

theorem EndsBindings.follows {rest : List Token} (h : EndsBindings rest) (p : Phrase) :
    Follows p rest := by
  intro t ht l hl
  rw [h t ht] at hl
  cases hl

/-- A declared name ends before a comma, or where nothing goes on with it. -/
theorem Binding.unique {ts us rest rest' : List Token} {b b' : String × Option Expr}
    (h : Binding ts b) (h' : Binding us b') (hf : Follows .assignment rest)
    (hf' : Follows .assignment rest') (heq : ts ++ rest = us ++ rest') :
    b = b' ∧ rest = rest' := by
  have hassign : ∀ {ts : List Token}, ¬ Follows .assignment (.mark "=" :: ts) := fun hf =>
    absurd (hf _ rfl 1 rfl) (by decide)
  cases h with
  | bare =>
    cases h' with
    | bare =>
      simp only [List.cons_append, List.nil_append, List.cons.injEq, Token.word.injEq] at heq
      rw [heq.1]
      exact ⟨rfl, heq.2⟩
    | valued =>
      simp only [List.cons_append, List.nil_append, List.cons.injEq] at heq
      rw [heq.2] at hf
      exact (hassign hf).elim
  | valued _ value =>
    cases h' with
    | bare =>
      simp only [List.cons_append, List.nil_append, List.cons.injEq] at heq
      rw [← heq.2] at hf'
      exact (hassign hf').elim
    | valued _ value' =>
      simp only [List.cons_append, List.cons.injEq, Token.word.injEq, true_and] at heq
      obtain ⟨rfl, heq⟩ := heq
      have hparses := value.complete.alone (Nat.le_refl 1) (Nat.le_refl 1) hf
      rw [heq] at hparses
      obtain ⟨rfl, rfl⟩ := hparses.unique
        (value'.complete.alone (Nat.le_refl 1) (Nat.le_refl 1) hf')
      exact ⟨rfl, rfl⟩

/-- **Names that are declared end where nothing goes on with them.** -/
theorem bindings_unique {parts parts' : List (List Token × (String × Option Expr))}
    {rest rest' : List Token} (hne : parts ≠ []) (hne' : parts' ≠ [])
    (h : ∀ part ∈ parts, Binding part.1 part.2) (h' : ∀ part ∈ parts', Binding part.1 part.2)
    (hr : EndsBindings rest) (hr' : EndsBindings rest')
    (heq : separated (parts.map Prod.fst) ++ rest = separated (parts'.map Prod.fst) ++ rest') :
    parts.map Prod.snd = parts'.map Prod.snd ∧ rest = rest' := by
  have hcomma : ∀ {ts : List Token}, Follows .assignment (.mark "," :: ts) :=
    follows_cons (by decide)
  have hstop : ∀ {ts : List Token}, ¬ EndsBindings (.mark "," :: ts) := fun hr =>
    nomatch hr _ rfl
  induction parts generalizing parts' with
  | nil => exact absurd rfl hne
  | cons part more ih =>
    obtain ⟨hpart, hmore⟩ := List.forall_mem_cons.mp h
    cases parts' with
    | nil => exact absurd rfl hne'
    | cons part' more' =>
      obtain ⟨hpart', hmore'⟩ := List.forall_mem_cons.mp h'
      cases more with
      | nil =>
        cases more' with
        | nil =>
          simp only [List.map_singleton, separated_singleton] at heq ⊢
          obtain ⟨hb, hrest⟩ := hpart.unique hpart' (hr.follows _) (hr'.follows _) heq
          exact ⟨by rw [hb], hrest⟩
        | cons next' more' =>
          rw [List.map_singleton, separated_singleton, List.map_cons, List.map_cons,
            separated_cons_cons, List.append_assoc] at heq
          obtain ⟨-, hrest⟩ := hpart.unique hpart' (hr.follows _) hcomma heq
          rw [hrest] at hr
          exact (hstop hr).elim
      | cons next more =>
        cases more' with
        | nil =>
          rw [List.map_singleton, separated_singleton, List.map_cons, List.map_cons,
            separated_cons_cons, List.append_assoc] at heq
          obtain ⟨-, hrest⟩ := hpart.unique hpart' hcomma (hr'.follows _) heq
          rw [← hrest] at hr'
          exact (hstop hr').elim
        | cons next' more' =>
          rw [List.map_cons, List.map_cons, separated_cons_cons, List.append_assoc, List.map_cons,
            List.map_cons, separated_cons_cons, List.append_assoc] at heq
          obtain ⟨hb, hrest⟩ := hpart.unique hpart' hcomma hcomma heq
          obtain ⟨hbs, hrest⟩ := ih (List.cons_ne_nil _ _) (List.cons_ne_nil _ _) hmore hmore'
            (List.cons.inj hrest).2
          refine ⟨?_, hrest⟩
          rw [List.map_cons, hb, hbs, ← List.map_cons]

theorem Binds.inner {bs : Bindings} (h : Binds ls bs) : Inner ls := by
  obtain ⟨parts, -, htokens, -, hparts⟩ := h.bindings
  unfold Inner
  rw [htokens]
  exact Expression.inner_separated fun part hpart => (hparts part hpart).inner

theorem Binds.unique {bs bs' : Bindings} (h : Binds ls bs) (h' : Binds ls bs') : bs = bs' := by
  obtain ⟨parts, hne, htokens, rfl, hparts⟩ := h.bindings
  obtain ⟨parts', hne', htokens', rfl, hparts'⟩ := h'.bindings
  have hends : EndsBindings [] := by rintro _ ⟨⟩
  refine (bindings_unique hne hne' hparts hparts' hends hends ?_).1
  rw [← htokens, ← htokens']

/-! ### The ends of statements -/

/-- No phrase of the kind holds what ends the statement without being part of it. -/
theorem Ends.not_longer {kind : List Lexeme → Prop} (more : List Lexeme)
    (hkind : ∀ ls, kind ls → Inner ls) (h : Ends kind ls (l :: more ++ ms) rest)
    (hlonger : kind (ls ++ l :: more)) : False := by
  have hinner : l.token.isInner = true := hkind _ hlonger _ (by simp)
  cases h with
  | semicolon hl =>
    rw [hl] at hinner
    cases hinner
  | brace hl =>
    rw [hl] at hinner
    cases hinner
  | line _ _ offends => exact offends more hlonger

theorem Ends.unique_rest {kind : List Lexeme → Prop} (h : Ends kind ls ms rest)
    (h' : Ends kind ls ms rest') : rest = rest' := by
  have hne : Token.mark ";" ≠ .mark "\x7d" := by decide
  cases h with
  | semicolon hl =>
    cases h' with
    | semicolon => rfl
    | brace hl' => exact absurd (hl.symm.trans hl') hne
    | line hl' => simp [hl] at hl'
  | brace hl =>
    cases h' with
    | semicolon hl' => exact absurd (hl'.symm.trans hl) hne
    | brace => rfl
    | line => rfl
  | finish =>
    cases h'
    rfl
  | line hl =>
    cases h' with
    | semicolon hl' => simp [hl'] at hl
    | brace => rfl
    | line => rfl

/-- **A phrase that ends a statement ends in one way.** -/
theorem Ends.unique {kind : List Lexeme → Prop} (hkind : ∀ ls, kind ls → Inner ls) (hls : kind ls)
    (hls' : kind ls') (h : Ends kind ls ms rest) (h' : Ends kind ls' ms' rest')
    (heq : ls ++ ms = ls' ++ ms') : ls = ls' ∧ rest = rest' := by
  suffices hsame : ls = ls' by
    subst hsame
    rw [List.append_cancel_left heq] at h
    exact ⟨rfl, h.unique_rest h'⟩
  rcases List.append_eq_append_iff.mp heq with ⟨more, rfl, rfl⟩ | ⟨more, rfl, rfl⟩
  · cases more with
    | nil => rw [List.append_nil]
    | cons l more => exact (h.not_longer more hkind hls').elim
  · cases more with
    | nil => rw [List.append_nil]
    | cons l more => exact (h'.not_longer more hkind hls).elim

theorem IsExpression.inner (h : IsExpression ls) : Inner ls := by
  rcases h with ⟨e, he⟩ | ⟨x, -, hx⟩
  · exact he.inner
  · unfold Inner
    rw [hx]
    exact List.forall_mem_cons.mpr ⟨rfl, List.forall_mem_singleton.mpr rfl⟩

theorem IsBindings.inner (h : IsBindings ls) : Inner ls := by
  obtain ⟨bs, hbs⟩ := h
  exact hbs.inner

/-- A name before a colon is no beginning of an expression statement. -/
theorem label_not_expression {c : Lexeme} {x : String} (hl : l.token = .word x) (hx : x ∉ reserved)
    (hc : c.token = .mark ":") (hvalue : Expresses ls e) (hends : Ends IsExpression ls ms rest)
    (heq : l :: c :: all = ls ++ ms) : False := by
  cases ls with
  | nil => exact hvalue.ne_nil rfl
  | cons l' ls =>
    simp only [List.cons_append, List.cons.injEq] at heq
    obtain ⟨rfl, heq⟩ := heq
    cases ls with
    | nil =>
      rw [List.nil_append] at heq
      subst heq
      refine hends.not_longer [] (fun _ => IsExpression.inner) (.inr ⟨x, hx, ?_⟩)
      rw [tokens_append, tokens_cons, tokens_cons, hl, hc]
      rfl
    | cons c' ls =>
      simp only [List.cons_append, List.cons.injEq] at heq
      obtain ⟨rfl, -⟩ := heq
      -- the reader stops before the colon
      have hname :
          Parses 0 (.word x :: .mark ":" :: tokens ls) (.name x) (.mark ":" :: tokens ls) :=
        (Derives.name hx).within (by decide : Phrase.primary.Within .expression) |>.parses
          (follows_cons (by rintro _ ⟨⟩))
      have hderives := hvalue.derives
      rw [tokens_cons, tokens_cons, hl, hc] at hderives
      have hparses := hderives.parses (follows_nil _)
      rw [List.append_nil] at hparses
      exact List.cons_ne_nil _ _ (hname.unique hparses).2

/-! ### The beginnings of statements -/

theorem inner_of_declaration {t : Token} {kind : String} (ht : form t = .declaration kind) :
    t.isInner = true := by
  by_contra hinner
  have hcases : t = .mark ";" ∨ t = .mark "\x7b" ∨ t = .mark "\x7d" := by
    have hfalse := Bool.eq_false_iff.mpr hinner
    simp only [Token.isInner, Bool.and_eq_false_iff, bne_eq_false_iff_eq] at hfalse
    tauto
  rcases hcases with rfl | rfl | rfl <;> cases ht

theorem Opens.inner {init : Option Init} (h : Opens ls init) : Inner ls := by
  cases h with
  | none => simp [Inner]
  | expression value => exact value.inner
  | declaration hl bindings =>
    exact List.forall_mem_cons.mpr ⟨inner_of_declaration hl, bindings.inner⟩

theorem Opens.unique {init init' : Option Init} (h : Opens ls init) (h' : Opens ls init') :
    init = init' := by
  cases h with
  | none =>
    cases h' with
    | none => rfl
    | expression value => exact absurd rfl value.ne_nil
  | expression value plain =>
    cases h' with
    | none => exact absurd rfl value.ne_nil
    | expression value' => rw [value.unique value']
    | declaration hl =>
      rw [plain _ rfl] at hl
      cases hl
  | declaration hl bindings =>
    cases h' with
    | expression _ plain =>
      rw [plain _ rfl] at hl
      cases hl
    | declaration hl' bindings' =>
      rw [hl] at hl'
      cases hl'
      rw [bindings.unique bindings']

theorem Heads.unique {init init' : Option Init} {test test' update update' : Option Expr}
    (h : Heads all init test update rest) (h' : Heads all init' test' update' rest') :
    init = init' ∧ test = test' ∧ update = update' ∧ rest = rest' := by
  obtain ⟨-, first, ha, second, hb, third, hr, rfl⟩ := h
  obtain ⟨-, first', ha', second', hb', third', hr', split⟩ := h'
  obtain ⟨rfl, hmore⟩ := split_semicolon first.inner first'.inner ha ha' (List.cons.inj split).2
  obtain ⟨rfl, hlast⟩ := split_semicolon second.inner second'.inner hb hb' hmore
  obtain ⟨rfl, rfl⟩ := third.unique_before third' hr hr' hlast
  exact ⟨first.unique first', second.unique second', rfl, rfl⟩

/-! ### Loops over keys and items -/

section Loops

variable {ts us : List Lexeme} {w w' a : Lexeme} {target target' : LoopTarget} {p : Phrase}
  {word word' : String}

theorem Aims.inner (h : Aims ts target) : Inner ts := by
  cases h with
  | expression derives => exact derives.inner
  | declaration hl hm =>
    refine List.forall_mem_cons.mpr ⟨inner_of_declaration hl, List.forall_mem_singleton.mpr ?_⟩
    rw [hm]
    rfl

/-- The words after what a loop sets are no operators that bind tighter than `in`. -/
theorem follows_word (hw : w.token = .word word) (hword : word ∈ ["in", "of"]) :
    Follows .leftHandSide (tokens (w :: rest)) := by
  rw [tokens_cons, hw]
  refine follows_cons ?_
  simp only [List.mem_cons, List.not_mem_nil, or_false] at hword
  rcases hword with rfl | rfl
  · rintro _ ⟨⟩
    decide
  · rintro _ ⟨⟩

/-- What a loop sets ends before the word that follows it. -/
theorem Aims.unique_before (h : Aims ts target) (h' : Aims us target') (hw : w.token = .word word)
    (hw' : w'.token = .word word') (hword : word ∈ ["in", "of"]) (hword' : word' ∈ ["in", "of"])
    (heq : ts ++ w :: rest = us ++ w' :: rest') : target = target' ∧ w = w' ∧ rest = rest' := by
  cases h with
  | expression derives _ plain =>
    cases h' with
    | expression derives' =>
      obtain ⟨rfl, hcons⟩ := derives_unique_before derives derives' (by decide)
        (follows_word hw hword) (follows_word hw' hword') heq
      obtain ⟨rfl, rfl⟩ := List.cons.inj hcons
      exact ⟨rfl, rfl, rfl⟩
    | declaration hl =>
      cases ts with
      | nil => exact absurd rfl derives.ne_nil
      | cons t ts =>
        obtain ⟨rfl, -⟩ := List.cons.inj heq
        rw [plain _ rfl] at hl
        cases hl
  | declaration hl hm =>
    cases h' with
    | expression derives' _ plain' =>
      cases us with
      | nil => exact absurd rfl derives'.ne_nil
      | cons t us =>
        obtain ⟨rfl, -⟩ := List.cons.inj heq
        rw [plain' _ rfl] at hl
        cases hl
    | declaration hl' hm' =>
      simp only [List.cons_append, List.nil_append, List.cons.injEq] at heq
      obtain ⟨rfl, rfl, rfl, rfl⟩ := heq
      rw [hl] at hl'
      rw [hm] at hm'
      cases hl'
      cases hm'
      exact ⟨rfl, rfl, rfl⟩

theorem Traverses.word_unique {p' : Phrase} (h : Traverses p word all target e rest)
    (h' : Traverses p' word' all target' e' rest') (hword : word ∈ ["in", "of"])
    (hword' : word' ∈ ["in", "of"]) : word = word' := by
  obtain ⟨-, first, hw, -, -, -, rfl⟩ := h
  obtain ⟨-, first', hw', -, -, -, split⟩ := h'
  obtain ⟨-, rfl, -⟩ :=
    first.unique_before first' hw hw' hword hword' (List.cons.inj split).2
  rw [hw] at hw'
  exact Token.word.inj hw'

theorem Traverses.unique (h : Traverses p word all target e rest)
    (h' : Traverses p word all target' e' rest') (hword : word ∈ ["in", "of"])
    (hp : p.bound ≤ p.level) : target = target' ∧ e = e' ∧ rest = rest' := by
  obtain ⟨-, first, hw, derives, -, hr, rfl⟩ := h
  obtain ⟨-, first', hw', derives', -, hr', split⟩ := h'
  obtain ⟨rfl, rfl, hright⟩ :=
    first.unique_before first' hw hw' hword hword (List.cons.inj split).2
  obtain ⟨rfl, hcons⟩ := derives_unique_before derives derives' hp (follows_close hr)
    (follows_close hr') hright
  exact ⟨rfl, rfl, (List.cons.inj hcons).2⟩

/-- What stands before the first semicolon holds all that comes before a token without one. -/
theorem exists_before_semicolon (hts : Inner ts) (hw : w.token = .word word)
    (ha : a.token = .mark ";") (heq : ls ++ a :: ms = ts ++ w :: rest) :
    ∃ more, ls = ts ++ w :: more := by
  have heq : ls ++ a :: ms = (ts ++ [w]) ++ rest := by simpa using heq
  rcases List.append_eq_append_iff.mp heq with ⟨as, has, hrest⟩ | ⟨bs, rfl, -⟩
  · cases as with
    | nil => exact ⟨[], by rw [← List.append_nil ls, ← has]⟩
    | cons b as =>
      obtain ⟨rfl, -⟩ := List.cons.inj hrest
      -- the semicolon would stand among what the loop sets
      have hmem : a ∈ ts ++ [w] := has ▸ by simp
      rcases List.mem_append.mp hmem with hmem | hmem
      · have := hts a.token (List.mem_map_of_mem hmem)
        rw [ha] at this
        cases this
      · rw [List.mem_singleton.mp hmem, hw] at ha
        cases ha
  · exact ⟨bs, by simp⟩

/-- No expression goes on with `of`. -/
theorem not_derives_of {ts us : List Token} (h : Derives p ts e) (hp : p.Within .expression)
    (h' : Derives .expression (ts ++ .word "of" :: us) e') : False := by
  have hends : Follows .expression (.word "of" :: us) := follows_cons nofun
  obtain ⟨-, hnil⟩ := (h.within hp).unique_before h' (by decide) hends (follows_nil _)
    (List.append_nil _).symm
  cases hnil

/-- No three-part head begins as a head that goes over something. -/
theorem Opens.not_aims {init : Option Init} {more : List Lexeme}
    (h : Opens (ts ++ w :: more) init) (haims : Aims ts target) (hw : w.token = .word word)
    (hword : word ∈ ["in", "of"]) : False := by
  simp only [List.mem_cons, List.not_mem_nil, or_false] at hword
  generalize hls : ts ++ w :: more = ls at h
  cases h with
  | none => simp at hls
  | expression value plain hin =>
    subst hls
    cases haims with
    | expression derives =>
      rcases hword with rfl | rfl
      · rw [tokens_append, tokens_cons, hw, hasBareIn_target derives] at hin
        cases hin
      · have hvalue := value.derives
        rw [tokens_append, tokens_cons, hw] at hvalue
        exact not_derives_of derives (by decide) hvalue
    | declaration hl =>
      rw [plain _ rfl] at hl
      cases hl
  | declaration hl bindings hin =>
    cases haims with
    | expression derives _ plain =>
      cases ts with
      | nil => exact derives.ne_nil rfl
      | cons t ts =>
        obtain ⟨rfl, -⟩ := List.cons.inj hls
        rw [plain _ rfl] at hl
        cases hl
    | @declaration l m kind x hl hm hx =>
      obtain ⟨rfl, rfl⟩ : _ = _ ∧ m :: w :: more = _ := List.cons.inj hls
      rcases hword with rfl | rfl
      · have hname : hasBareIn (.word x :: .word "in" :: tokens more) = true :=
          hasBareIn_target (.name hx) (tokens more)
        rw [tokens_cons, tokens_cons, hm, hw, hname] at hin
        cases hin
      · obtain ⟨parts, hne, htokens, -, hparts⟩ := bindings.bindings
        rw [tokens_cons, tokens_cons, hm, hw] at htokens
        have hends : EndsBindings (.word "of" :: tokens more) := by
          rintro _ ⟨⟩
          rfl
        have hone : ∀ part ∈ [([Token.word x], (x, (Option.none : Option Expr)))],
            Binding part.1 part.2 := List.forall_mem_singleton.mpr (.bare hx)
        have hnothing : EndsBindings [] := by rintro _ ⟨⟩
        obtain ⟨-, hnil⟩ := bindings_unique (List.cons_ne_nil _ _) hne hone hparts hends hnothing
          (by simpa [separated_singleton] using htokens)
        cases hnil

theorem Heads.not_traverses {init : Option Init} {test update : Option Expr}
    (h : Heads all init test update rest) (h' : Traverses p word all target e rest')
    (hword : word ∈ ["in", "of"]) : False := by
  obtain ⟨-, first, ha, -, -, -, -, rfl⟩ := h
  obtain ⟨-, first', hw, -, -, -, split⟩ := h'
  obtain ⟨more, rfl⟩ := exists_before_semicolon first'.inner hw ha (List.cons.inj split).2
  exact first.not_aims first' hw hword

theorem Heads.exists_open {init : Option Init} {test update : Option Expr}
    (h : Heads all init test update rest) : ∃ l ∈ all.head?, l.token = .mark "(" := by
  obtain ⟨hl, -, -, -, -, -, -, rfl⟩ := h
  exact ⟨_, rfl, hl⟩

theorem Traverses.exists_open (h : Traverses p word all target e rest) :
    ∃ l ∈ all.head?, l.token = .mark "(" := by
  obtain ⟨hl, -, -, -, -, -, rfl⟩ := h
  exact ⟨_, rfl, hl⟩

theorem Awaits.unique {b b' : Bool} (h : Awaits b all ls) (h' : Awaits b' all ls')
    (hls : ∃ l ∈ ls.head?, l.token = .mark "(") (hls' : ∃ l ∈ ls'.head?, l.token = .mark "(") :
    b = b' ∧ ls = ls' := by
  cases h with
  | no =>
    cases h' with
    | no => exact ⟨rfl, rfl⟩
    | yes hl =>
      obtain ⟨_, ⟨⟩, hopen⟩ := hls
      rw [hl] at hopen
      cases hopen
  | yes hl =>
    cases h' with
    | no =>
      obtain ⟨_, ⟨⟩, hopen⟩ := hls'
      rw [hl] at hopen
      cases hopen
    | yes => exact ⟨rfl, rfl⟩

end Loops

/-- **A statement begins in one way.** -/
theorem Begins.unique {f : Form} {lead lead' : Lead} (h : Begins f ls lead rest)
    (h' : Begins f ls lead' rest') : lead = lead' ∧ rest = rest' := by
  cases h with
  | empty =>
    cases h'
    exact ⟨rfl, rfl⟩
  | block =>
    cases h'
    exact ⟨rfl, rfl⟩
  | branch test =>
    cases h' with
    | branch test' =>
      obtain ⟨rfl, rfl⟩ := test.unique test'
      exact ⟨rfl, rfl⟩
  | whileLoop test =>
    cases h' with
    | whileLoop test' =>
      obtain ⟨rfl, rfl⟩ := test.unique test'
      exact ⟨rfl, rfl⟩
  | doLoop =>
    cases h'
    exact ⟨rfl, rfl⟩
  | forLoop head =>
    cases h' with
    | forLoop head' =>
      obtain ⟨rfl, rfl, rfl, rfl⟩ := head.unique head'
      exact ⟨rfl, rfl⟩
    | forIn head' => exact (head.not_traverses head' (by decide)).elim
    | forOf wait' head' =>
      obtain ⟨rfl, rfl⟩ := Awaits.no.unique wait' head.exists_open head'.exists_open
      exact (head.not_traverses head' (by decide)).elim
  | forIn head =>
    cases h' with
    | forLoop head' => exact (head'.not_traverses head (by decide)).elim
    | forIn head' =>
      obtain ⟨rfl, rfl, rfl⟩ := head.unique head' (by decide) (by decide)
      exact ⟨rfl, rfl⟩
    | forOf wait' head' =>
      obtain ⟨rfl, rfl⟩ := Awaits.no.unique wait' head.exists_open head'.exists_open
      exact absurd (head.word_unique head' (by decide) (by decide)) (by decide)
  | forOf wait head =>
    cases h' with
    | forLoop head' =>
      obtain ⟨rfl, rfl⟩ := wait.unique .no head.exists_open head'.exists_open
      exact (head'.not_traverses head (by decide)).elim
    | forIn head' =>
      obtain ⟨rfl, rfl⟩ := wait.unique .no head.exists_open head'.exists_open
      exact absurd (head.word_unique head' (by decide) (by decide)) (by decide)
    | forOf wait' head' =>
      obtain ⟨rfl, rfl⟩ := wait.unique wait' head.exists_open head'.exists_open
      obtain ⟨rfl, rfl, rfl⟩ := head.unique head' (by decide) (by decide)
      exact ⟨rfl, rfl⟩
  | withObject object =>
    cases h' with
    | withObject object' =>
      obtain ⟨rfl, rfl⟩ := object.unique object'
      exact ⟨rfl, rfl⟩
  | declaration split bindings ends =>
    cases h' with
    | declaration split' bindings' ends' =>
      obtain ⟨rfl, rfl⟩ := ends.unique (fun _ => IsBindings.inner) ⟨_, bindings⟩ ⟨_, bindings'⟩
        ends' (split.symm.trans split')
      rw [bindings.unique bindings']
      exact ⟨rfl, rfl⟩
  | label hl hx hc =>
    cases h' with
    | label hl' _ _ =>
      rw [hl] at hl'
      cases hl'
      exact ⟨rfl, rfl⟩
    | expression split value ends => exact (label_not_expression hl hx hc value ends split).elim
  | expression split value ends =>
    cases h' with
    | label hl hx hc => exact (label_not_expression hl hx hc value ends split).elim
    | expression split' value' ends' =>
      obtain ⟨rfl, rfl⟩ := ends.unique (fun _ => IsExpression.inner) (.inl ⟨_, value⟩)
        (.inl ⟨_, value'⟩) ends' (split.symm.trans split')
      rw [value.unique value']
      exact ⟨rfl, rfl⟩

theorem Leads.unique {lead lead' : Lead} (h : Leads ls lead rest) (h' : Leads ls lead' rest') :
    lead = lead' ∧ rest = rest' := by
  obtain ⟨l, hl, h⟩ := h
  obtain ⟨l', hl', h'⟩ := h'
  obtain rfl := Option.mem_unique hl hl'
  exact h.unique h'

/-- The tokens that end a list of statements, or go on after a statement. -/
def stops : List Token := [.mark "\x7d", .word "else"]

/-- No expression and no label begins with such a token. -/
theorem Begins.not_stop {lead : Lead} (h : Begins .plain ls lead rest) :
    ∀ l ∈ ls.head?, l.token ∉ stops := by
  cases h with
  | label hx hreserved =>
    rintro _ ⟨⟩
    rw [hx]
    simp only [stops, List.mem_cons, List.not_mem_nil, or_false, reduceCtorEq, false_or,
      Token.word.injEq]
    rintro rfl
    exact hreserved (by decide)
  | @expression _ value more _ e split expresses ends =>
    cases value with
    | nil => exact absurd rfl expresses.ne_nil
    | cons l value =>
      subst split
      rintro _ ⟨⟩ hl
      rcases List.mem_cons.mp hl with hl | hl
      · have hinner := expresses.inner l.token List.mem_cons_self
        rw [hl] at hinner
        cases hinner
      · exact (opensAs_of_derives expresses.derives).ne_word (by decide) (by decide) _ rfl
          (List.mem_singleton.mp hl)

/-- **No statement begins with a token that ends a list of statements or goes on after one.** -/
theorem Leads.not_stop {lead : Lead} (h : Leads ls lead rest) :
    ∃ l ∈ ls.head?, l.token ∉ stops := by
  obtain ⟨l, hl, h⟩ := h
  refine ⟨l, hl, fun hstop => ?_⟩
  have hplain : ∀ t ∈ stops, form t = .plain := by decide
  rw [hplain _ hstop] at h
  exact h.not_stop l hl hstop

/-! ### Statements -/

theorem Reads.exists_leads {ss : List Stmt} (h : Reads .one ls ss rest) :
    ∃ lead mid, Leads ls lead mid := by
  cases h with
  | whole lead | before lead | block lead | ifThen lead | ifElse lead | doLoop lead =>
    exact ⟨_, _, lead⟩

theorem Reads.not_stop {ss : List Stmt} (h : Reads .one ls ss rest) :
    ∃ l ∈ ls.head?, l.token ∉ stops := by
  obtain ⟨_, _, lead⟩ := h.exists_leads
  exact lead.not_stop

/-- What begins as an `if` is read as one, with a branch. -/
theorem Reads.exists_branch {ss : List Stmt} (h : Reads .one ls ss rest)
    (hbranch : Leads ls (.branch e) ms) : ∃ s rest, Reads .one ms [s] rest := by
  cases h with
  | ifThen lead consequent | ifElse lead consequent =>
    obtain ⟨-, rfl⟩ := lead.unique hbranch
    exact ⟨_, _, consequent⟩
  | whole lead | before lead | block lead | doLoop lead => cases (lead.unique hbranch).1

/-- No statement is read where a list of them ends. -/
theorem Reads.not_end {ss : List Stmt} (h : Reads .one ls ss rest)
    (hend : ∀ l ∈ ls.head?, l.token = .mark "\x7d") : False := by
  obtain ⟨l, hl, hstop⟩ := h.not_stop
  rw [hend l hl] at hstop
  exact hstop (by decide)

/-- **The grammar of statements is unambiguous**: lexemes are read as statements in at most one
way. -/
theorem Reads.unique {k : Size} {ss ss' : List Stmt} (h : Reads k ls ss rest)
    (h' : Reads k ls ss' rest') : ss = ss' ∧ rest = rest' := by
  induction h generalizing ss' rest' with
  | whole lead =>
    cases h' with
    | whole lead' =>
      obtain ⟨hlead, rfl⟩ := lead.unique lead'
      cases hlead
      exact ⟨rfl, rfl⟩
    | before lead' | block lead' | ifThen lead' | ifElse lead' | doLoop lead' =>
      cases (lead.unique lead').1
  | before lead _ ih =>
    cases h' with
    | before lead' body =>
      obtain ⟨hlead, rfl⟩ := lead.unique lead'
      cases hlead
      obtain ⟨hs, rfl⟩ := ih body
      cases hs
      exact ⟨rfl, rfl⟩
    | whole lead' | block lead' | ifThen lead' | ifElse lead' | doLoop lead' =>
      cases (lead.unique lead').1
  | block lead _ _ ih =>
    cases h' with
    | block lead' members =>
      obtain ⟨-, rfl⟩ := lead.unique lead'
      obtain ⟨rfl, hrest⟩ := ih members
      cases hrest
      exact ⟨rfl, rfl⟩
    | whole lead' | before lead' | ifThen lead' | ifElse lead' | doLoop lead' =>
      cases (lead.unique lead').1
  | ifThen lead _ hnext ih =>
    cases h' with
    | ifThen lead' consequent =>
      obtain ⟨hlead, rfl⟩ := lead.unique lead'
      cases hlead
      obtain ⟨hs, rfl⟩ := ih consequent
      cases hs
      exact ⟨rfl, rfl⟩
    | ifElse lead' consequent hr =>
      obtain ⟨-, rfl⟩ := lead.unique lead'
      obtain ⟨-, rfl⟩ := ih consequent
      exact absurd hr (hnext _ rfl)
    | whole lead' | before lead' | block lead' | doLoop lead' => cases (lead.unique lead').1
  | ifElse lead _ hr _ ih ih' =>
    cases h' with
    | ifThen lead' consequent hnext =>
      obtain ⟨-, rfl⟩ := lead.unique lead'
      obtain ⟨-, rfl⟩ := ih consequent
      exact absurd hr (hnext _ rfl)
    | ifElse lead' consequent _ alternate =>
      obtain ⟨hlead, rfl⟩ := lead.unique lead'
      cases hlead
      obtain ⟨hs, hrest⟩ := ih consequent
      cases hs
      cases hrest
      obtain ⟨hs, rfl⟩ := ih' alternate
      cases hs
      exact ⟨rfl, rfl⟩
    | whole lead' | before lead' | block lead' | doLoop lead' => cases (lead.unique lead').1
  | doLoop lead _ _ head ih =>
    cases h' with
    | doLoop lead' body _ head' =>
      obtain ⟨-, rfl⟩ := lead.unique lead'
      obtain ⟨hs, hrest⟩ := ih body
      cases hs
      cases hrest
      obtain ⟨rfl, rfl⟩ := head.unique head'
      exact ⟨rfl, rfl⟩
    | whole lead' | before lead' | block lead' | ifThen lead' | ifElse lead' =>
      cases (lead.unique lead').1
  | none hend =>
    cases h' with
    | none => exact ⟨rfl, rfl⟩
    | some first => exact (first.not_end hend).elim
  | some first _ ih ih' =>
    cases h' with
    | none hend => exact (first.not_end hend).elim
    | some first' others =>
      obtain ⟨hs, rfl⟩ := ih first'
      cases hs
      obtain ⟨rfl, rfl⟩ := ih' others
      exact ⟨rfl, rfl⟩

/-- A text is read as statements in at most one way. -/
theorem ReadsAs.unique {A : Alphabet} {text : String} {ss ss' : List Stmt}
    (h : ReadsAs A text ss) (h' : ReadsAs A text ss') : ss = ss' := by
  obtain ⟨ls, hls, h⟩ := h
  obtain ⟨ls', hls', h'⟩ := h'
  cases hls.symm.trans hls'
  exact (h.unique h').1

end Typeshift.Statement
