import Typeshift.Proofs.Statement.LineEnds
import Typeshift.Proofs.Statement.RoundTrip

/-! # Statements up to empty ones

A semicolon in front of a statement ends the statement before it, or is a statement that does
nothing. Among the members of a list this does not matter. Where the statement is the body of
another, the semicolon is read as the body.

* `Stmt.tidy`: a statement without the empty ones that are members of its lists.
* `Tells`: lexemes are read as a statement up to empty ones, or never so. `TellsAll`: the same of a
  list.
* `tells_before`, `tells_ifElse`, `tells_doLoop`, `tells_block`, `tellsAll_cons`: statements put
  together. -/

namespace Typeshift.Statement

open Expression

/-! ### Without empty members -/

namespace Stmt

/-- Whether a statement does nothing. -/
def isEmpty : Stmt → Bool
  | empty => true
  | _ => false

/-- Whether a statement is a block. -/
def isBlock : Stmt → Bool
  | block _ => true
  | _ => false

mutual

/-- **A statement without the empty ones** that are members of its lists. -/
def tidy : Stmt → Stmt
  | empty => empty
  | expression e => expression e
  | declare kind bindings => declare kind bindings
  | block members => block (tidyAll members)
  | ifThen test consequent => ifThen test consequent.tidy
  | ifElse test consequent alternate => ifElse test consequent.tidy alternate.tidy
  | whileLoop test body => whileLoop test body.tidy
  | doLoop body test => doLoop body.tidy test
  | forLoop init test update body => forLoop init test update body.tidy
  | forIn target object body => forIn target object body.tidy
  | forOf isAwait target items body => forOf isAwait target items body.tidy
  | withObject object body => withObject object body.tidy
  | labeled label body => labeled label body.tidy

/-- Statements without the empty ones. -/
def tidyAll : List Stmt → List Stmt
  | [] => []
  | s :: rest => if s.isEmpty then tidyAll rest else s.tidy :: tidyAll rest

end

variable {s s' : Stmt}

@[simp] theorem isEmpty_tidy (s : Stmt) : s.tidy.isEmpty = s.isEmpty := by cases s <;> rfl

@[simp] theorem isEmpty_braced (s : Stmt) : s.braced.isEmpty = s.isEmpty := by cases s <;> rfl

theorem isEmpty_of_tidy_eq (h : s'.tidy = s.braced.tidy) : s'.isEmpty = s.isEmpty := by
  rw [← isEmpty_tidy, h, isEmpty_tidy, isEmpty_braced]

theorem tidyAll_cons (h : s.isEmpty = false) (rest : List Stmt) :
    tidyAll (s :: rest) = s.tidy :: tidyAll rest := by
  rw [tidyAll, h, if_neg Bool.false_ne_true]

end Stmt

open Stmt

/-- What is read agrees with what stands there: up to empty members, and in full where statements
end with semicolons. -/
structure Agrees {α : Type} (tidy : α → α) (semis : Bool) (a' a : α) : Prop where
  tidy : tidy a' = tidy a
  same : semis = true → a' = a

theorem Agrees.congr {α β : Type} {tidy : α → α} {tidy' : β → β} {semis : Bool} {a' a : α}
    {f g : α → β} (h : Agrees tidy semis a' a) (hf : ∀ a, tidy' (f a) = g (tidy a)) :
    Agrees tidy' semis (f a') (f a) :=
  ⟨by rw [hf, hf, h.tidy], fun hs => by rw [h.same hs]⟩

/-! ### What is read -/

section Inversion

variable {ls mid rest : List Lexeme} {ss : List Stmt} {s : Stmt} {e : Expr} {build : Stmt → Stmt}
  {b : Bool}

theorem Reads.of_before (h : Reads .one ls ss rest) (lead : Leads ls (.before build) mid) :
    ∃ s, ss = [build s] ∧ Reads .one mid [s] rest := by
  cases h with
  | before lead' body =>
    obtain ⟨hlead, rfl⟩ := lead'.unique lead
    cases hlead
    exact ⟨_, rfl, body⟩
  | whole lead' | block lead' | ifThen lead' | ifElse lead' | doLoop lead' =>
    cases (lead'.unique lead).1

theorem Reads.of_block (h : Reads .one ls ss rest) (lead : Leads ls .block mid) :
    ∃ members r, ss = [.block members] ∧ Reads .many mid members (r :: rest) := by
  cases h with
  | block lead' members =>
    obtain ⟨-, rfl⟩ := lead'.unique lead
    exact ⟨_, _, rfl, members⟩
  | whole lead' | before lead' | ifThen lead' | ifElse lead' | doLoop lead' =>
    cases (lead'.unique lead).1

/-- What begins as an `if`: one branch, or two. -/
theorem Reads.of_branch (h : Reads .one ls ss rest) (lead : Leads ls (.branch e) mid) :
    ∃ s after, Reads .one mid [s] after ∧ (ss = [.ifThen e s] ∨ ∃ r more s', after = r :: more ∧
      ss = [.ifElse e s s'] ∧ Reads .one more [s'] rest) := by
  cases h with
  | ifThen lead' consequent =>
    obtain ⟨hlead, rfl⟩ := lead'.unique lead
    cases hlead
    exact ⟨_, _, consequent, .inl rfl⟩
  | ifElse lead' consequent _ alternate =>
    obtain ⟨hlead, rfl⟩ := lead'.unique lead
    cases hlead
    exact ⟨_, _, consequent, .inr ⟨_, _, _, rfl, rfl, alternate⟩⟩
  | whole lead' | before lead' | block lead' | doLoop lead' => cases (lead'.unique lead).1

theorem Reads.of_doLoop (h : Reads .one ls ss rest) (lead : Leads ls .doLoop mid) :
    ∃ s e after, ss = [.doLoop s e] ∧ Reads .one mid [s] after := by
  cases h with
  | doLoop lead' body =>
    obtain ⟨-, rfl⟩ := lead'.unique lead
    exact ⟨_, _, _, rfl, body⟩
  | whole lead' | before lead' | block lead' | ifThen lead' | ifElse lead' =>
    cases (lead'.unique lead).1

/-- A semicolon that stands alone. -/
theorem reads_empty (ls : List Lexeme) : Reads .one (⟨.mark ";", b⟩ :: ls) [.empty] ls :=
  .whole ⟨_, rfl, .empty⟩

/-- The tokens that begin a statement of a form of its own. -/
def openers : List Token :=
  [.mark ";", .mark "\x7b", .word "if", .word "while", .word "do", .word "for", .word "with",
    .word "var", .word "let", .word "const"]

theorem mem_openers_of_form {t : Token} (h : form t ≠ .plain) : t ∈ openers := by
  by_contra hnot
  have hne {u : Token} (hu : u ∈ openers) : t ≠ u := fun heq => hnot (heq ▸ hu)
  refine h ?_
  rw [form, if_neg (hne (by decide)), if_neg (hne (by decide)), if_neg (hne (by decide)),
    if_neg (hne (by decide)), if_neg (hne (by decide)), if_neg (hne (by decide)),
    if_neg (hne (by decide)), if_neg (hne (by decide)), if_neg (hne (by decide)),
    if_neg (hne (by decide))]

theorem eq_semicolon_of_form {t : Token} (h : form t = .empty) : t = .mark ";" := by
  have hall : ∀ t ∈ openers, form t = .empty → t = .mark ";" := by decide
  exact hall t (mem_openers_of_form (by rw [h]; decide)) h

/-- A token that begins a statement of a form of its own goes on with nothing. -/
theorem isFresh_of_form {t : Token} (h : form t ∉ [.plain, .empty]) :
    t.IsFresh ∧ t ∉ .mark ";" :: stops := by
  have hall : ∀ t ∈ openers, form t ≠ .empty → t.IsFresh ∧ t ∉ .mark ";" :: stops := by decide
  simp only [List.mem_cons, List.not_mem_nil, or_false, not_or] at h
  exact hall t (mem_openers_of_form h.1) h.2

/-- Only a semicolon is read as a statement that does nothing. -/
theorem Reads.isEmpty_eq_false (h : Reads .one ls [s] rest)
    (hls : ∀ l ∈ ls.head?, l.token ≠ .mark ";") : s.isEmpty = false := by
  cases h with
  | whole lead =>
    obtain ⟨l, hl, hbegins⟩ := lead
    generalize hf : form l.token = f at hbegins
    cases hbegins with
    | empty => exact absurd (eq_semicolon_of_form hf) (hls l hl)
    | declaration | expression => rfl
  | before lead =>
    obtain ⟨l, hl, hbegins⟩ := lead
    generalize form l.token = f at hbegins
    cases hbegins <;> rfl
  | block | ifThen | ifElse | doLoop => rfl

end Inversion

/-! ### How a statement is read -/

section Tells

variable {semis spoils spoils' : Bool} {s s' : Stmt} {ss : List Stmt} {ls rest rest' : List Lexeme}
  {e : Expr} {build : Stmt → Stmt} {P Q : List Lexeme → Prop} {l : Lexeme}

/-- What is left after a statement: without semicolons it may take one that follows it. -/
def Left (semis : Bool) (rest rest' : List Lexeme) : Prop :=
  rest' = rest ∨ semis = false ∧ rest' = skipSemicolon rest

theorem Left.eq_of_ne (h : Left semis rest rest') (hne : ∀ l ∈ rest.head?, l.token ≠ .mark ";") :
    rest' = rest := by
  rcases h with h | ⟨-, h⟩
  · exact h
  · rw [h, skipSemicolon_of_ne hne]

/-- What may follow a statement. -/
structure Followed (semis : Bool) (s : Stmt) (rest : List Lexeme) : Prop where
  stays : semis = false → s.isBlock = false → Stays rest
  noElse : s.endsOpen = true → ∀ rest', Left semis rest rest' →
    ∀ l ∈ rest'.head?, l.token ≠ .word "else"

/-- Lexemes are read as a statement with the braces that it needs. -/
def Keeps (semis : Bool) (s : Stmt) (ls : List Lexeme) : Prop :=
  ∀ rest, Followed semis s rest → ∃ s' rest', Reads .one (ls ++ rest) [s'] rest' ∧
    Agrees tidy semis s' s.braced ∧ Left semis rest rest'

/-- Lexemes are never read as a statement. -/
def Loses (s : Stmt) (ls : List Lexeme) : Prop :=
  ∀ rest s' rest', Reads .one (ls ++ rest) [s'] rest' → s'.tidy ≠ s.braced.tidy

/-- **What lexemes tell of a statement**: they are read as it, or never if it is spoiled. -/
def Tells (semis : Bool) : Bool → Stmt → List Lexeme → Prop
  | false => Keeps semis
  | true => Loses

/-- What lexemes tell of a statement before others of which they take none. -/
def TellsBefore (semis : Bool) (s : Stmt) (ls rest : List Lexeme) : Bool → Prop
  | false => ∃ s', Reads .one (ls ++ rest) [s'] rest ∧ Agrees tidy semis s' s
  | true => ∀ s' rest', Reads .one (ls ++ rest) [s'] rest' → s'.tidy ≠ s.tidy

/-- A statement that ends with a statement of which it is made. -/
structure Wraps (build : Stmt → Stmt) : Prop where
  braced : ∀ s, (build s).braced = build s.braced
  tidy : ∀ s, (build s).tidy = build s.tidy
  endsOpen : ∀ s, (build s).endsOpen = s.endsOpen
  isBlock : ∀ s, (build s).isBlock = false
  injective : Function.Injective build

theorem wraps_whileLoop (e : Expr) : Wraps (.whileLoop e) :=
  ⟨fun _ => rfl, fun _ => rfl, fun _ => rfl, fun _ => rfl, fun _ _ h => by cases h; rfl⟩

theorem wraps_forLoop (init : Option Init) (test update : Option Expr) :
    Wraps (.forLoop init test update) :=
  ⟨fun _ => rfl, fun _ => rfl, fun _ => rfl, fun _ => rfl, fun _ _ h => by cases h; rfl⟩

theorem wraps_labeled (x : String) : Wraps (.labeled x) :=
  ⟨fun _ => rfl, fun _ => rfl, fun _ => rfl, fun _ => rfl, fun _ _ h => by cases h; rfl⟩

theorem tells_before (wraps : Wraps build)
    (h : Then (Leading (.before build)) (Tells semis spoils s) ls) :
    Tells semis spoils (build s) ls := by
  obtain ⟨before, after, rfl, hlead, hbody⟩ := h
  cases spoils with
  | false =>
    intro rest hrest
    obtain ⟨s', rest', hreads, hagrees, hleft⟩ := hbody rest
      ⟨fun hsemis _ => hrest.stays hsemis (wraps.isBlock s),
        fun hopen => hrest.noElse ((wraps.endsOpen s).trans hopen)⟩
    refine ⟨build s', rest', ?_, ?_, hleft⟩
    · rw [List.append_assoc]
      exact .before (hlead _) hreads
    · rw [wraps.braced]
      exact hagrees.congr wraps.tidy
  | true =>
    intro rest t rest' hreads
    rw [List.append_assoc] at hreads
    obtain ⟨s', hs', hbody'⟩ := hreads.of_before (hlead _)
    cases hs'
    rw [wraps.braced, wraps.tidy, wraps.tidy]
    exact fun heq => hbody _ _ _ hbody' (wraps.injective heq)

theorem tells_ifThen (h : Then (Leading (.branch e)) (Tells semis spoils s) ls) :
    Tells semis spoils (.ifThen e s) ls := by
  obtain ⟨before, after, rfl, hlead, hbody⟩ := h
  cases spoils with
  | false =>
    intro rest hrest
    obtain ⟨s', rest', hreads, hagrees, hleft⟩ := hbody rest
      ⟨fun hsemis _ => hrest.stays hsemis rfl, fun _ => hrest.noElse rfl⟩
    refine ⟨.ifThen e s', rest', ?_, hagrees.congr fun _ => rfl, hleft⟩
    rw [List.append_assoc]
    exact .ifThen (hlead _) hreads (hrest.noElse rfl rest' hleft)
  | true =>
    intro rest t rest' hreads
    rw [List.append_assoc] at hreads
    obtain ⟨s', after', hbody', hs' | ⟨_, _, _, -, hs', -⟩⟩ := hreads.of_branch (hlead _)
    · cases hs'
      exact fun heq => hbody _ _ _ hbody' (Stmt.ifThen.inj heq).2
    · cases hs'
      rintro ⟨⟩

/-- Lexemes of a statement before a word, and what follows the word. -/
def Parted (word : String) (P : Lexeme → List Lexeme → Prop) (Q : List Lexeme → Prop)
    (ls : List Lexeme) : Prop :=
  ∃ before l after, ls = before ++ l :: after ∧ l.token = .word word ∧ P l before ∧ Q after

theorem tells_ifElse (h : Then (Leading (.branch e)) (Parted "else"
      (fun l before => ∀ more, TellsBefore semis (s.braced.braceIf s.endsOpen) before (l :: more)
        spoils) (Tells semis spoils' s')) ls) :
    Tells semis (spoils || spoils') (.ifElse e s s') ls := by
  obtain ⟨first, _, rfl, hlead, before, l, after, rfl, hl, hconsequent, halternate⟩ := h
  have hsplit (rest : List Lexeme) : first ++ (before ++ l :: after) ++ rest =
      first ++ (before ++ l :: (after ++ rest)) := by
    rw [List.append_assoc, List.append_assoc, List.cons_append]
  cases spoils with
  | true =>
    intro rest t rest' hreads
    rw [hsplit] at hreads
    obtain ⟨t', mid, hfirst, ht | ⟨_, _, _, -, ht, -⟩⟩ := hreads.of_branch (hlead _)
    · cases ht
      rintro ⟨⟩
    · cases ht
      exact fun heq => hconsequent _ _ _ hfirst (Stmt.ifElse.inj heq).2.1
  | false =>
    cases spoils' with
    | false =>
      intro rest hrest
      obtain ⟨t, hfirst, hagrees⟩ := hconsequent (after ++ rest)
      obtain ⟨t', rest', hlast, hagrees', hleft⟩ := halternate rest
        ⟨fun hsemis _ => hrest.stays hsemis rfl, hrest.noElse⟩
      refine ⟨.ifElse e t t', rest', ?_, ⟨?_, fun hsemis => ?_⟩, hleft⟩
      · rw [hsplit]
        exact .ifElse (hlead _) hfirst hl hlast
      · show Stmt.ifElse e t.tidy t'.tidy = .ifElse e _ _
        rw [hagrees.tidy, hagrees'.tidy]
      · rw [hagrees.same hsemis, hagrees'.same hsemis]
        rfl
    | true =>
      intro rest t rest' hreads
      rw [hsplit] at hreads
      obtain ⟨t₁, hfirst, -⟩ := hconsequent (after ++ rest)
      obtain ⟨t₂, mid, hfirst', ht | ⟨_, _, t', rfl, ht, hlast⟩⟩ := hreads.of_branch (hlead _)
      · cases ht
        rintro ⟨⟩
      · cases ht
        obtain ⟨-, hmid⟩ := hfirst'.unique hfirst
        cases hmid
        exact fun heq => halternate _ _ _ hlast (Stmt.ifElse.inj heq).2.2

theorem left_skipSemicolon (semis : Bool) (rest : List Lexeme) :
    Left semis rest (skipSemicolon (onLine (closing semis) ++ rest)) := by
  cases semis with
  | true => exact .inl rfl
  | false => exact .inr ⟨rfl, rfl⟩

theorem tells_doLoop (h : Then (Leading .doLoop) (Parted "while"
      (fun l before => ∀ more, TellsBefore semis s.braced before (l :: more) spoils)
      (fun after => ∀ rest, Grouped (after ++ rest) e (onLine (closing semis) ++ rest))) ls) :
    Tells semis spoils (.doLoop s e) ls := by
  obtain ⟨first, _, rfl, hlead, before, l, after, rfl, hl, hbody, htail⟩ := h
  have hsplit (rest : List Lexeme) : first ++ (before ++ l :: after) ++ rest =
      first ++ (before ++ l :: (after ++ rest)) := by
    rw [List.append_assoc, List.append_assoc, List.cons_append]
  cases spoils with
  | false =>
    intro rest hrest
    obtain ⟨t, hfirst, hagrees⟩ := hbody (after ++ rest)
    refine ⟨.doLoop t e, _, ?_, hagrees.congr (f := (Stmt.doLoop · e)) (g := (Stmt.doLoop · e))
      fun _ => rfl, left_skipSemicolon semis rest⟩
    rw [hsplit]
    exact .doLoop (hlead _) hfirst hl (htail rest)
  | true =>
    intro rest t rest' hreads
    rw [hsplit] at hreads
    obtain ⟨t', _, _, ht, hfirst⟩ := hreads.of_doLoop (hlead _)
    cases ht
    exact fun heq => hbody _ _ _ hfirst (Stmt.doLoop.inj heq).1

/-- Before a word that is no `else` of its own, a statement is read to its end. -/
theorem tellsBefore_of_tells (h : Tells semis spoils s ls) (hl : l.token.IsFresh)
    (hbroken : semis = false → s.isBlock = false → l.broken = true)
    (hopen : s.endsOpen = true → l.token ≠ .word "else") (more : List Lexeme) :
    TellsBefore semis s.braced ls (l :: more) spoils := by
  have hne : ∀ m ∈ (l :: more).head?, m.token ≠ .mark ";" := by
    rintro _ ⟨⟩
    exact hl.ne_semicolon
  cases spoils with
  | false =>
    obtain ⟨s', rest', hreads, hagrees, hleft⟩ := h (l :: more)
      ⟨fun hsemis hblock => stays_fresh (hbroken hsemis hblock) hl, fun ho rest' hleft => by
        rw [hleft.eq_of_ne hne]
        rintro _ ⟨⟩
        exact hopen ho⟩
    exact ⟨s', hleft.eq_of_ne hne ▸ hreads, hagrees⟩
  | true => exact fun s' rest' hreads => h _ _ _ hreads

/-! ### Statements of one line -/

theorem exists_ends {kind : List Lexeme → Prop} (hrest : semis = false → Stays rest)
    (hkind : ∀ (l : Lexeme) (more : List Lexeme), l.token.IsFresh → ¬ kind (ls ++ l :: more)) :
    ∃ rest', Ends kind ls (onLine (closing semis) ++ rest) rest' ∧ Left semis rest rest' := by
  cases semis with
  | true => exact ⟨rest, .semicolon rfl, .inl rfl⟩
  | false => exact ⟨_, (hrest rfl).ends hkind, .inr ⟨rfl, rfl⟩⟩

theorem keeps_expression {ts : List Token} (h : Derives .expression ts e)
    (hlet : e.leadingName ≠ some "let") (semis broken : Bool) :
    Keeps semis (.expression e) (lexed broken ts ++ onLine (closing semis)) := by
  intro rest hrest
  have hexpresses := expresses_lexed h broken
  obtain ⟨rest', hends, hleft⟩ := exists_ends (fun hsemis => hrest.stays hsemis rfl)
    fun l more hl => not_isExpression hexpresses hl
  obtain ⟨k, ks, rfl⟩ := List.exists_cons_of_ne_nil h.ne_nil
  have hplain : form k = .plain := (opensAs_of_derives h).plain hlet k rfl
  refine ⟨.expression e, rest', .whole ⟨⟨k, broken⟩, rfl, ?_⟩, ⟨rfl, fun _ => rfl⟩, hleft⟩
  rw [hplain]
  exact .expression (List.append_assoc ..) hexpresses hends

theorem keeps_declare {l : Lexeme} {kind : String} {bs : Bindings}
    (hl : form l.token = .declaration kind)
    (h : Binds ls bs) (semis : Bool) :
    Keeps semis (.declare kind bs) (l :: ls ++ onLine (closing semis)) := by
  intro rest hrest
  obtain ⟨rest', hends, hleft⟩ := exists_ends (fun hsemis => hrest.stays hsemis rfl)
    fun l more hl => not_isBindings h hl
  refine ⟨.declare kind bs, rest', .whole ⟨l, rfl, ?_⟩, ⟨rfl, fun _ => rfl⟩, hleft⟩
  rw [hl]
  exact .declaration (List.append_assoc ..) h hends

/-! ### Lists of statements -/

/-- Lexemes where a list of statements ends. -/
def AtEnd (rest : List Lexeme) : Prop := ∀ l ∈ rest.head?, l.token = .mark "\x7d"

/-- Lexemes after which statements may stand: where a list of them goes on, or ends. -/
structure Resumes (semis : Bool) (rest : List Lexeme) : Prop where
  stays : semis = false → Stays rest
  noElse : ∀ rest', Left semis rest rest' → ∀ l ∈ rest'.head?, l.token ≠ .word "else"

theorem Resumes.followed (h : Resumes semis rest) (s : Stmt) : Followed semis s rest :=
  ⟨fun hsemis _ => h.stays hsemis, fun _ => h.noElse⟩

/-- What lexemes tell of statements that are read to the end of a list. -/
def TellsList (semis : Bool) (ss : List Stmt) (rest ls : List Lexeme) : Bool → Prop
  | false => ∃ ss', Reads .many ls ss' rest ∧ Agrees tidyAll semis ss' (bracedAll ss)
  | true => ∀ ss' rest', Reads .many ls ss' rest' → tidyAll ss' ≠ tidyAll (bracedAll ss)

/-- **What lexemes tell of a list of statements**, also after a semicolon that they begin with. -/
structure TellsAll (semis spoils : Bool) (ss : List Stmt) (ls : List Lexeme) : Prop where
  resumes : ∀ rest, AtEnd rest → Resumes semis (ls ++ rest)
  reads : ∀ rest, AtEnd rest → ∀ all, Left semis (ls ++ rest) all →
    TellsList semis ss rest all spoils

theorem AtEnd.left (h : AtEnd rest) (hleft : Left semis rest rest') : rest' = rest :=
  hleft.eq_of_ne fun l hl heq => absurd ((h l hl).symm.trans heq) (by decide)

theorem tellsAll_nil (semis : Bool) : TellsAll semis false [] [] where
  resumes rest hrest := by
    refine ⟨fun _ => stays_of_end hrest, fun rest' hleft l hl heq => ?_⟩
    rw [hrest.left hleft] at hl
    rw [hrest l hl] at heq
    cases heq
  reads rest hrest all hall := by
    rw [hrest.left hall]
    exact ⟨[], .none hrest, rfl, fun _ => rfl⟩

/-- One statement is read, and the others from what it leaves. -/
theorem TellsList.cons {all r : List Lexeme} (hs : s.isEmpty = false)
    (hfirst : Reads .one all [s'] r) (hagrees : Agrees tidy semis s' s.braced)
    (h : TellsList semis ss rest r spoils) : TellsList semis (s :: ss) rest all spoils := by
  have hs' : s'.isEmpty = false := (isEmpty_of_tidy_eq hagrees.tidy).trans hs
  have hbraced : tidyAll (bracedAll (s :: ss)) = s.braced.tidy :: tidyAll (bracedAll ss) :=
    tidyAll_cons ((isEmpty_braced s).trans hs) _
  cases spoils with
  | false =>
    obtain ⟨ss', hreads, hothers⟩ := h
    refine ⟨s' :: ss', .some hfirst hreads, ?_, fun hsemis => ?_⟩
    · rw [hbraced, tidyAll_cons hs', hagrees.tidy, hothers.tidy]
    · rw [hagrees.same hsemis, hothers.same hsemis]
      rfl
  | true =>
    intro ss' rest' hreads
    cases hreads with
    | none hend => exact (hfirst.not_end hend).elim
    | some first others =>
      obtain ⟨heq, rfl⟩ := first.unique hfirst
      cases heq
      rw [hbraced, tidyAll_cons hs', hagrees.tidy]
      exact fun heq => h _ _ others (List.cons.inj heq).2

/-- What is lost at the first statement is lost. -/
theorem TellsList.lost {all : List Lexeme} (hs : s.isEmpty = false) (hl : l ∈ all.head?)
    (hsemicolon : l.token ≠ .mark ";") (hstop : l.token ∉ stops)
    (h : ∀ s' r, Reads .one all [s'] r → s'.tidy ≠ s.braced.tidy) :
    TellsList semis (s :: ss) rest all true := by
  intro ss' rest' hreads
  cases hreads with
  | none hend => exact absurd (hend l hl ▸ List.mem_cons_self) hstop
  | @some _ _ _ s' _ first others =>
    have hs' : s'.isEmpty = false := first.isEmpty_eq_false fun m hm =>
      Option.mem_unique hl hm ▸ hsemicolon
    rw [tidyAll_cons hs', bracedAll, tidyAll_cons ((isEmpty_braced s).trans hs)]
    exact fun heq => h _ _ first (List.cons.inj heq).1

/-- A semicolon before a list of statements does not matter. -/
theorem TellsList.semicolon {b : Bool} (h : TellsList false ss rest ls spoils) :
    TellsList false ss rest (⟨.mark ";", b⟩ :: ls) spoils := by
  have hempty (ss' : List Stmt) : tidyAll (.empty :: ss') = tidyAll ss' := rfl
  cases spoils with
  | false =>
    obtain ⟨ss', hreads, hothers⟩ := h
    exact ⟨.empty :: ss', .some (reads_empty ls) hreads, (hempty ss').trans hothers.tidy, nofun⟩
  | true =>
    intro ss' rest' hreads
    cases hreads with
    | none hend => exact ((reads_empty ls).not_end hend).elim
    | some first others =>
      obtain ⟨heq, rfl⟩ := first.unique (reads_empty ls)
      cases heq
      rw [hempty]
      exact h _ _ others

/-- Members in braces are read up to the brace that closes. -/
theorem tellsBefore_block (h : InBraces (TellsAll semis spoils ss) ls) (rest : List Lexeme) :
    TellsBefore semis (.block (bracedAll ss)) ls rest spoils := by
  obtain ⟨l, r, mid, rfl, hl, hr, hmid⟩ := h
  have hbegins : Begins (form (.mark "\x7b")) (l :: (mid ++ r :: rest)) .block (mid ++ r :: rest) :=
    .block
  have hlead : Leads (l :: (mid ++ [r]) ++ rest) .block (mid ++ r :: rest) := by
    rw [List.cons_append, List.append_assoc, List.singleton_append]
    exact ⟨l, rfl, hl ▸ hbegins⟩
  have hlist := hmid.reads (r :: rest) (by rintro _ ⟨⟩; exact hr) _ (.inl rfl)
  cases spoils with
  | false =>
    obtain ⟨ss', hreads, hagrees⟩ := hlist
    exact ⟨.block ss', .block hlead hreads hr, hagrees.congr (g := Stmt.block) fun _ => rfl⟩
  | true =>
    intro s' rest' hreads
    obtain ⟨ss', _, hs', hmembers⟩ := hreads.of_block hlead
    cases hs'
    exact fun heq => hlist _ _ hmembers (Stmt.block.inj heq)

theorem tells_block (h : InBraces (TellsAll semis spoils ss) ls) :
    Tells semis spoils (.block ss) ls := by
  cases spoils with
  | false =>
    intro rest _
    obtain ⟨s', hreads, hagrees⟩ := tellsBefore_block h rest
    exact ⟨s', rest, hreads, hagrees, .inl rfl⟩
  | true => exact fun rest => tellsBefore_block h rest

/-- **What the script of a statement writes**: a semicolon in front of an expression, or lexemes
that begin a statement and tell of it. -/
inductive Own (semis : Bool) (s : Stmt) : Bool → Bool → List Lexeme → Prop where
  | guarded {b : Bool} {e : Expr} {ls : List Lexeme} (hsemis : semis = false)
      (expression : s = .expression e) (keeps : Keeps semis s ls) :
    Own semis s true false (⟨.mark ";", b⟩ :: ls)
  | plain {spoils : Bool} {ls : List Lexeme} {l : Lexeme} (hl : l ∈ ls.head?)
      (begins : l.token ∉ .mark ";" :: stops) (fresh : semis = false → l.token.IsFresh)
      (tells : Tells semis spoils s ls) : Own semis s false spoils ls

/-- As the body of another, a statement is spoiled by a semicolon in front of it. -/
theorem Own.tells {guarded : Bool} (h : Own semis s guarded spoils ls) :
    Tells semis (guarded || spoils) s ls := by
  cases h with
  | guarded _ expression =>
    subst expression
    intro rest s' rest' hreads
    obtain ⟨heq, -⟩ := hreads.unique (reads_empty _)
    cases heq
    rintro ⟨⟩
  | plain _ _ _ tells => exact tells

/-- An expression goes on to the end of the line. -/
theorem Keeps.exists_head (h : Keeps semis s ls) : ∃ l ∈ ls.head?, l.token ∉ stops := by
  obtain ⟨s', rest', hreads, -, -⟩ := h [] ⟨fun _ _ => nofun, fun _ rest' hleft => by
    rw [hleft.eq_of_ne nofun]
    nofun⟩
  rw [List.append_nil] at hreads
  exact hreads.not_stop

theorem tellsAll_cons {guarded : Bool} (hs : s.isEmpty = false)
    (h : Then (fun before => Own semis s guarded spoils before ∧
      ∀ l ∈ before.head?, l.broken = true) (TellsAll semis spoils' ss) ls) :
    TellsAll semis (spoils || spoils') (s :: ss) ls := by
  obtain ⟨_, after, rfl, ⟨hown, hbroken⟩, hothers⟩ := h
  cases hown with
  | @guarded b e inner hsemis _ keeps =>
    obtain ⟨m, hm, hstop⟩ := keeps.exists_head
    obtain ⟨more, hmore⟩ := List.head?_eq_some_iff.mp hm
    subst hsemis hmore
    refine ⟨fun rest hrest => ⟨fun _ => ?_, ?_⟩, fun rest hrest all hall => ?_⟩
    · rintro _ ⟨⟩
      exact .inl List.mem_cons_self
    · rintro _ (rfl | ⟨-, rfl⟩)
      · rintro _ ⟨⟩ ⟨⟩
      · rintro _ ⟨⟩ helse
        exact hstop (helse ▸ by decide)
    · obtain ⟨s', r, hreads, hagrees, hleft⟩ :=
        keeps (after ++ rest) ((hothers.resumes rest hrest).followed s)
      rw [← List.append_assoc] at hreads
      have htells := (hothers.reads rest hrest r hleft).cons hs hreads hagrees
      rw [Bool.false_or]
      rcases hall with rfl | ⟨-, rfl⟩
      · exact htells.semicolon
      · exact htells
  | @plain _ _ l hl begins fresh tells =>
    obtain ⟨more, rfl⟩ := List.head?_eq_some_iff.mp hl
    obtain ⟨hsemicolon, hstop⟩ := not_or.mp (mt List.mem_cons.mpr begins)
    have hne (rest : List Lexeme) :
      ∀ m ∈ (l :: more ++ after ++ rest).head?, m.token ≠ .mark ";" := by
      rintro _ ⟨⟩
      exact hsemicolon
    refine ⟨fun rest hrest => ⟨fun hsemis => stays_fresh (hbroken l rfl) (fresh hsemis),
      fun rest' hleft => ?_⟩, fun rest hrest all hall => ?_⟩
    · rw [hleft.eq_of_ne (hne rest)]
      rintro _ ⟨⟩ helse
      exact hstop (helse ▸ by decide)
    · obtain rfl := hall.eq_of_ne (hne rest)
      cases spoils with
      | false =>
        obtain ⟨s', r, hreads, hagrees, hleft⟩ :=
          tells (after ++ rest) ((hothers.resumes rest hrest).followed s)
        rw [← List.append_assoc] at hreads
        exact (hothers.reads rest hrest r hleft).cons hs hreads hagrees
      | true =>
        refine TellsList.lost hs (l := l) rfl hsemicolon hstop fun s' r hreads => ?_
        rw [List.append_assoc] at hreads
        exact tells _ _ _ hreads

end Tells

end Typeshift.Statement
