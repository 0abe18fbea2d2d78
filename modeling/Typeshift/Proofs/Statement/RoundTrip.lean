import Typeshift.Proofs.Statement.Heads

/-! # Printed statements parse back

Every `else` stays with its `if`. The text of a tree that stands for a statement is read as that
statement and no other, up to the braces around what stands before an `else`. The grammar gives an
`else` to the nearest `if` that has none. So a statement that ends with an open `if` is read as
itself before anything but an `else`, and a statement that does not before an `else` too.

* `Reading`: lexemes are read as a statement with the braces that it needs.
* `Denotes.lays`: every tree that stands for a statement writes such lexemes.
* `printText_keepsElse`: its text is read as the statement and no other. -/

namespace Typeshift.Statement

open Expression Print Script

/-! ### How a statement is read -/

/-- **Lexemes are read as a statement** with the braces that it needs, whatever follows them, but
for an `else` that would be attached to it. -/
def Reading (s : Stmt) (ls : List Lexeme) : Prop :=
  ∀ rest, (s.endsOpen = true → ∀ l ∈ rest.head?, l.token ≠ .word "else") →
    Reads .one (ls ++ rest) [s.braced] rest

/-- Lexemes are read as what stands before an `else`, whatever follows them. -/
def ReadingFirst (s : Stmt) (ls : List Lexeme) : Prop :=
  ∀ rest, Reads .one (ls ++ rest) [s.braced.braceIf s.endsOpen] rest

/-- Lexemes are read as statements, before a brace that closes and at the end. -/
def ReadingAll (ss : List Stmt) (ls : List Lexeme) : Prop :=
  ∀ rest, (∀ l ∈ rest.head?, l.token = .mark "\x7d") →
    Reads .many (ls ++ rest) (Stmt.bracedAll ss) rest

section Reading

variable {ls : List Lexeme} {e : Expr} {s s' : Stmt} {ss : List Stmt}

/-- No list of statements begins with `else`. -/
theorem Reads.head_ne_else {rest : List Lexeme} (h : Reads .many ls ss rest)
    (hrest : ∀ l ∈ rest.head?, l.token = .mark "\x7d") :
    ∀ l ∈ ls.head?, l.token ≠ .word "else" := by
  cases h with
  | none =>
    intro l hl heq
    rw [hrest l hl] at heq
    cases heq
  | some first =>
    obtain ⟨m, hm, hstop⟩ := first.not_stop
    intro l hl heq
    rw [Option.mem_unique hm hl, heq] at hstop
    exact hstop (by decide)

theorem readingAll_nil : ReadingAll [] [] := fun _ hrest => .none hrest

theorem readingAll_cons (h : Then (Reading s) (ReadingAll ss) ls) : ReadingAll (s :: ss) ls := by
  obtain ⟨before, after, rfl, hfirst, hothers⟩ := h
  intro rest hrest
  have hmany := hothers rest hrest
  rw [List.append_assoc]
  exact .some (hfirst _ fun _ => hmany.head_ne_else hrest) hmany

/-- A statement of which a whole is made. -/
theorem reading_before {build : Stmt → Stmt} (hbraced : (build s).braced = build s.braced)
    (hends : (build s).endsOpen = s.endsOpen) (h : Then (Leading (.before build)) (Reading s) ls) :
    Reading (build s) ls := by
  obtain ⟨before, after, rfl, hlead, hbody⟩ := h
  intro rest hrest
  rw [hends] at hrest
  rw [List.append_assoc, hbraced]
  exact .before (hlead _) (hbody rest hrest)

theorem reading_ifThen (h : Then (Leading (.branch e)) (Reading s) ls) :
    Reading (.ifThen e s) ls := by
  obtain ⟨before, after, rfl, hlead, hbody⟩ := h
  intro rest hrest
  rw [List.append_assoc]
  exact .ifThen (hlead _) (hbody rest fun _ => hrest rfl) (hrest rfl)

/-- The word `else`. -/
def IsElse (ls : List Lexeme) : Prop := ∃ b, ls = [⟨.word "else", b⟩]

theorem reading_ifElse
    (h : Then (Then (Leading (.branch e)) (ReadingFirst s)) (Then IsElse (Reading s')) ls) :
    Reading (.ifElse e s s') ls := by
  obtain ⟨_, _, rfl, ⟨before, after, rfl, hlead, hfirst⟩, _, last, rfl, ⟨b, rfl⟩, hlast⟩ := h
  intro rest hrest
  simp only [List.append_assoc, List.singleton_append]
  exact .ifElse (hlead _) (hfirst _) rfl (hlast rest hrest)

/-- The test of a loop after its body. -/
def IsTail (e : Expr) (ls : List Lexeme) : Prop :=
  ∀ rest, ∃ r mid l, ls ++ rest = r :: mid ∧ r.token = .word "while" ∧ Grouped mid e (l :: rest) ∧
    l.token = .mark ";"

theorem reading_doLoop (h : Then (Then (Leading .doLoop) (Reading s)) (IsTail e) ls) :
    Reading (.doLoop s e) ls := by
  obtain ⟨_, tail, rfl, ⟨before, after, rfl, hlead, hbody⟩, htail⟩ := h
  intro rest _
  obtain ⟨r, mid, l, heq, hr, hgroup, hl⟩ := htail rest
  have hbody : Reads .one (after ++ r :: mid) [s.braced] (r :: mid) := by
    refine hbody _ fun _ => ?_
    rintro _ ⟨⟩ helse
    exact absurd (hr.symm.trans helse) (by decide)
  have hwhole := Reads.doLoop (hlead _) hbody hr hgroup
  rw [skipSemicolon, if_pos hl] at hwhole
  rw [List.append_assoc, heq, List.append_assoc]
  exact hwhole

/-- Lexemes in braces. -/
def InBraces (P : List Lexeme → Prop) (ls : List Lexeme) : Prop :=
  ∃ l r mid, ls = l :: (mid ++ [r]) ∧ l.token = .mark "\x7b" ∧ r.token = .mark "\x7d" ∧ P mid

theorem reads_block (h : InBraces (ReadingAll ss) ls) (rest : List Lexeme) :
    Reads .one (ls ++ rest) [.block (Stmt.bracedAll ss)] rest := by
  obtain ⟨l, r, mid, rfl, hl, hr, hmid⟩ := h
  have hlead : Leads (l :: (mid ++ r :: rest)) .block (mid ++ r :: rest) := by
    refine ⟨l, rfl, ?_⟩
    rw [hl]
    exact .block
  have hmany : Reads .many (mid ++ r :: rest) (Stmt.bracedAll ss) (r :: rest) :=
    hmid _ (by rintro _ ⟨⟩; exact hr)
  have hwhole := Reads.block hlead hmany hr
  simpa using hwhole

theorem reading_block (h : InBraces (ReadingAll ss) ls) : Reading (.block ss) ls :=
  fun rest _ => reads_block h rest

/-- What ends with an open `if` is put in braces before an `else`. -/
theorem readingFirst_open (hopen : s.endsOpen = true) (h : InBraces (ReadingAll [s]) ls) :
    ReadingFirst s ls := by
  intro rest
  rw [hopen]
  exact reads_block h rest

theorem readingFirst_closed (hclosed : s.endsOpen = false) (h : Reading s ls) :
    ReadingFirst s ls := by
  intro rest
  rw [hclosed]
  exact h rest fun hopen => nomatch hclosed.symm.trans hopen

end Reading

/-! ### What statements write -/

section Scripts

variable {A : Alphabet} {o : Options} {t u v w : Node} {e : Expr} {s s' : Stmt} {x : String}
  {P : List Lexeme → Prop}

/-- One token. -/
theorem lays_token {k : Token} (hk : k.isSpelled A = true) (hP : ∀ b, P [⟨k, b⟩]) :
    Lays A (text k.text) P := lays_strip (Strip.token hk) hP

theorem lays_braces {script : Script} (h : SetOff A script P) :
    Lays A (braces script) (InBraces P) := by
  have hopen : Lays A (text "\x7b") fun ls => ∃ b, ls = [⟨.mark "\x7b", b⟩] :=
    lays_token (k := .mark "\x7b") rfl fun b => ⟨b, rfl⟩
  have hclose : Lays A (text "\x7d") fun ls => ∃ b, ls = [⟨.mark "\x7d", b⟩] :=
    lays_token (k := .mark "\x7d") rfl fun b => ⟨b, rfl⟩
  have hall := (hopen.append h.indented).append hclose.onNewLine
  rw [← List.append_assoc] at hall
  refine hall.imp ?_
  rintro ls ⟨_, _, rfl, ⟨_, mid, rfl, ⟨b, rfl⟩, hmid⟩, ⟨c, rfl⟩⟩
  exact ⟨_, _, mid, rfl, rfl, rfl, hmid⟩

/-- Two braces with nothing between them. -/
theorem lays_emptyBraces (hP : P []) : Lays A (text "\x7b\x7d") (InBraces P) := by
  have hstrip : Strip A (text "\x7b\x7d") [.token (.mark "\x7b"), .token (.mark "\x7d")] := by
    refine ⟨writes_text _, ?_, ?_⟩
    · simp [Item.IsSpelled, Token.isSpelled, marks]
    · simp only [List.isChain_cons_cons, List.isChain_singleton, and_true]
      rintro _ ⟨⟩
      rfl
  exact lays_strip hstrip fun b => ⟨_, _, [], rfl, rfl, rfl, hP⟩

/-- Members of a block, each on lines of its own. -/
theorem setOff_members {parts : List (Node × Stmt)}
    (h : ∀ part ∈ parts, SetOff A (printed o part.1 .statement) (Reading part.2)) :
    SetOff A ((parts.map Prod.fst).flatMap (printed o · .statement))
      (ReadingAll (parts.map Prod.snd)) := by
  induction parts with
  | nil => exact .nil readingAll_nil
  | cons part rest ih =>
    obtain ⟨hpart, hrest⟩ := List.forall_mem_cons.mp h
    exact (hpart.append (ih hrest)).imp fun _ => readingAll_cons

/-- An expression as a statement, without its semicolon. -/
theorem exists_strip_statement (h : Expression.Denotes A u e) (o : Options) : ∃ l, Strip A
      (parenIf (needsStatementParens (u.annotate (printedRule o)))
        (printed o u (.expression .comma false))) l ∧
      Derives .expression (tokensOf l) e ∧ Back l True := by
  have hlaid := (h.sound o).loose .comma false (by decide)
  cases needsStatementParens (u.annotate (printedRule o)) with
  | false =>
    obtain ⟨l, hl, hderives, -, hback⟩ := hlaid
    exact ⟨l, hl, hderives, hback⟩
  | true =>
    have hparen : Laid A _ .primary e (fun _ => True) True := hlaid.paren
    obtain ⟨l, hl, hderives, -, hback⟩ := hparen
    exact ⟨l, hl, hderives.within (by decide), hback⟩

/-- An expression and its semicolon. -/
theorem lays_expressionStatement (h : Expression.Denotes A u e) (hlet : e.leadingName ≠ some "let")
    (ho : o.semicolons = true) :
    Lays A (expressionStatementText o (u.annotate (printedRule o))) (Reading (.expression e)) := by
  obtain ⟨l, hl, hderives, hback⟩ := exists_strip_statement h o
  have hscript : expressionStatementText o (u.annotate (printedRule o)) =
      parenIf (needsStatementParens (u.annotate (printedRule o)))
        (printed o u (.expression .comma false)) ++ semicolon o := by
    simp [expressionStatementText, when, ho, expression_annotate]
  rw [hscript]
  refine lays_strip (strip_closed hl (shut_back hback) o) fun broken rest _ => ?_
  rw [tokensOf_append, tokensOf_closing, lexed_append hderives.ne_nil, ho, List.append_assoc]
  obtain ⟨k, ks, hks⟩ := List.exists_cons_of_ne_nil hderives.ne_nil
  have hplain : form k = .plain :=
    (opensAs_of_derives hderives).plain hlet k (by rw [hks]; rfl)
  refine .whole ⟨⟨k, broken⟩, by simp [hks, lexed], ?_⟩
  rw [hplain]
  exact .expression rfl (expresses_lexed hderives broken) (.semicolon rfl)

/-- Statements in braces. -/
theorem lays_membersBlock {ts : List Node} {h : Head} (hc : h.comments = .none)
    (hnil : ts = [] → P []) (hts : SetOff A (ts.flatMap (printed o · .statement)) P) :
    Lays A (membersBlock h (ts.map (Tree.annotate (printedRule o))) .statement .none)
      (InBraces P) := by
  have hinner : h.comments.inner = [] := by rw [hc]; rfl
  cases ts with
  | nil =>
    rw [membersBlock, hinner]
    exact lays_emptyBraces (hnil rfl)
  | cons t rest =>
    have hmembers :
        SetOff A ((t :: rest).flatMap (printed o · .statement) ++ comments .lines []) P :=
      hts.of_same (((Same.refl _).append (same_comments_nil _)).trans (.of_eq (List.append_nil _)))
    have hscript :
        membersBlock h ((t :: rest).map (Tree.annotate (printedRule o))) .statement .none =
        braces ((t :: rest).flatMap (printed o · .statement) ++ comments .lines []) := by
      rw [membersBlock, List.flatMap_map]
      rfl
    rw [hscript]
    exact lays_braces hmembers

theorem lays_block {parts : List (Node × Stmt)} {h : Head} (hc : h.comments = .none)
    (hparts : ∀ part ∈ parts, SetOff A (printed o part.1 .statement) (Reading part.2)) :
    Lays A
      (membersBlock h ((parts.map Prod.fst).map (Tree.annotate (printedRule o))) .statement .none)
      (Reading (.block (parts.map Prod.snd))) := by
  refine (lays_membersBlock hc (fun hnil => ?_) (setOff_members hparts)).imp fun _ => reading_block
  rw [List.map_eq_nil_iff.mp hnil]
  exact readingAll_nil

/-- A branch before an `else`. -/
theorem setOff_consequent (h : Lays A (ownScript o v) (Reading s)) (hv : Bare v)
    (hends : Print.endsOpen v = s.endsOpen) :
    SetOff A (if Print.endsOpen (v.annotate (printedRule o)) then
        space ++ braces (printed o v .statement) else printed o v .body) (ReadingFirst s) := by
  have hannotate : Print.endsOpen (v.annotate (printedRule o)) = s.endsOpen := by
    rw [← hends]
    exact Tree.synthesize_annotate ..
  rw [hannotate]
  cases hopen : s.endsOpen with
  | true =>
    have hone : SetOff A (printed o v .statement) (ReadingAll [s]) := by
      refine (h.statement hv).imp fun ls hls => readingAll_cons ⟨ls, [], ?_, hls, readingAll_nil⟩
      exact (List.append_nil ls).symm
    exact (lays_braces hone).spaced.imp fun _ => readingFirst_open hopen
  | false => exact (h.body hv).imp fun _ => readingFirst_closed hopen

theorem setOff_else : SetOff A [.apart "else"] IsElse := by
  have helse : Strip A (text "else") [.token (.word "else")] := Strip.token (t := .word "else") rfl
  refine setOff_apart (s := []) (l := []) (by rfl) (List.cons_ne_nil _ _) helse .nil (by nofun)
    fun b => ⟨b, rfl⟩

/-- The test of a loop after its body, and the semicolon of the loop. -/
def IsTest (semis : Bool) (e : Expr) (ls : List Lexeme) : Prop :=
  ∃ l after, ls = l :: after ∧ l.token = .word "while" ∧
    ∀ rest, Grouped (after ++ rest) e (onLine (closing semis) ++ rest)

theorem setOff_test (h : Expression.Denotes A u e) (o : Options) :
    SetOff A (.apart "while (" ::
      (expression (u.annotate (printedRule o)) .comma ++ text ")" ++ semicolon o))
      (IsTest o.semicolons e) := by
  obtain ⟨l, hl, hderives, -, hback⟩ := (h.sound o).loose .comma false (by decide)
  have hopen : Strip A (text "while (") (opening ["while"]) :=
    strip_opening (List.forall_mem_singleton.mpr rfl) rfl
  have hshut : Shut A [.token (.mark ")")] := shut_mark fun _ => rfl
  have hparen := hl.append (Strip.token (t := .mark ")") rfl) (shut_back hback ")" (by decide))
  have hclose := strip_closed hparen ((shut_back hback).append hshut) o
  refine setOff_apart (by rfl) (by simp [opening]) hopen hclose (meet_token fun _ _ _ _ => rfl)
    fun b => ?_
  rw [tokensOf_append, tokensOf_opening]
  refine ⟨⟨.word "while", b⟩, _, rfl, rfl, fun rest => ?_⟩
  simpa using grouped_onLine hderives (onLine (closing o.semicolons) ++ rest)

theorem IsTest.isTail {ls : List Lexeme} (h : IsTest true e ls) : IsTail e ls := by
  obtain ⟨l, after, rfl, hl, hgroup⟩ := h
  exact fun rest => ⟨l, _, _, rfl, hl, hgroup rest, rfl⟩

/-- A label before what it names. -/
def IsLabel (x : String) (ls : List Lexeme) : Prop :=
  Leading (.before (.labeled x)) ls ∧ ∃ l ∈ ls.head?, l.token = .word x

/-- A label and its statement. -/
theorem lays_label {body : Script} (label : IsName A u x) (hx : x ∉ "let" :: reserved)
    (h : Lays A body P) :
    Lays A (expression (u.annotate (printedRule o)) .primary ++ text ": " ++ body)
      (Then (IsLabel x) P) := by
  obtain ⟨hlet, hx⟩ := not_or.mp (mt List.mem_cons.mpr hx)
  have hcolon : Strip A (text ": ") ([Item.token (.mark ":")] ++ [Item.gap ' ']) :=
    Strip.tokenSpace rfl (writes_text ": ")
  have hname : Strip A (expression (u.annotate (printedRule o)) .primary) [.token (.word x)] :=
    label.strip
  have hhead := hname.append hcolon (meet_of_stops (t := .word x) (c := ':') rfl rfl
    (by rintro _ ⟨⟩; rfl))
  obtain ⟨cells, hcells, hbody⟩ := h
  refine ⟨_, (typeset_strip hhead).append hcells (.inl (by rintro _ ⟨⟩; rfl)), fun broken => ?_⟩
  rw [lexemesOf_append, lexemesOf_items]
  refine ⟨_, _, rfl, ⟨fun rest => ⟨⟨.word x, broken⟩, rfl, ?_⟩, _, rfl, rfl⟩, hbody _⟩
  rw [show form (.word x) = .plain from form_word hx hlet]
  exact .label (c := ⟨.mark ":", false⟩) rfl hx rfl

end Scripts

/-! ### Trees -/

section Trees

variable {A : Alphabet} {o : Options} {t : Node} {s : Stmt}

theorem bare_of_built {tag : Tag} {parts : List Node} (h : Built t tag parts)
    (hfamily : tag.family = .statement) : Bare t := ⟨h.family.trans hfamily, h.comments⟩

theorem Denotes.bare {Q : Node → Prop} (h : Denotes A Q t s) : Bare t := by
  cases h with
  | expression built | block built | ifThen built | ifElse built | whileLoop built | doLoop built
  | forLoop built | forIn built | forOf built | withObject built | labeled built =>
    exact bare_of_built built rfl

/-- A statement that ends with its body. -/
theorem Lays.before {head : Script} {v : Node} {build : Stmt → Stmt}
    (h : Lays A head (Leading (.before build))) (hbody : Lays A (ownScript o v) (Reading s))
    (hv : Bare v) (hbraced : (build s).braced = build s.braced)
    (hends : (build s).endsOpen = s.endsOpen) :
    Lays A (head ++ printed o v .body) (Reading (build s)) :=
  (h.append (hbody.body hv)).imp fun _ => reading_before hbraced hends

/-- **Every tree that stands for a statement** writes lexemes that are read as it. -/
theorem Denotes.lays (h : Denotes A (exposesIn · = false) t s) (ho : o.semicolons = true) :
    Lays A (ownScript o t) (Reading s) := by
  induction h with
  | expression built hu value hlet =>
    rw [ownScript, statementText, built.tag]
    dsimp only
    rw [Slots.child_annotateSlots _ hu]
    exact lays_expressionStatement value hlet ho
  | block built plain hparts members ihs =>
    rw [ownScript, statementText, built.tag]
    dsimp only
    rw [blockText, Slots.children_annotateSlots, Slots.children_annotateSlots, plain, hparts]
    exact lays_block built.comments fun part hpart =>
      (ihs part hpart).statement (members part hpart).bare
  | ifThen built hu hv single test consequent ih =>
    rw [ownScript, statementText, built.tag]
    dsimp only
    rw [ifText, Slots.child_annotateSlots _ hu, Slots.child_annotateSlots _ hv,
      Slots.child?_annotateSlots, single]
    have hhead := lays_group (o := o) "if" rfl (rfl : "if (".toList = _) test .branch
    have hwhole := (hhead.append (ih.body consequent.bare)).imp fun _ => reading_ifThen
    simpa [note_printed] using hwhole
  | ifElse built hu hv hw test consequent alternate ih ih' =>
    rw [ownScript, statementText, built.tag]
    dsimp only
    rw [ifText, Slots.child_annotateSlots _ hu, Slots.child_annotateSlots _ hv,
      Slots.child?_annotateSlots, hw]
    have hhead := lays_group (o := o) "if" rfl (rfl : "if (".toList = _) test .branch
    have hfirst := setOff_consequent ih consequent.bare consequent.endsOpen_eq
    have hlast := setOff_else.append (ih'.otherwise alternate.bare)
    exact ((hhead.append hfirst).append hlast).imp fun _ => reading_ifElse
  | whileLoop built hu hv test body ih =>
    rw [ownScript, statementText, built.tag]
    dsimp only
    rw [Slots.child_annotateSlots _ hu, Slots.child_annotateSlots _ hv]
    exact (lays_group "while" rfl rfl test .whileLoop).before ih body.bare rfl rfl
  | doLoop built hu hv test body ih =>
    rw [ownScript, statementText, built.tag]
    dsimp only
    rw [Slots.child_annotateSlots _ hu, Slots.child_annotateSlots _ hv]
    have hdo : Lays A (text "do") (Leading .doLoop) :=
      lays_token (k := .word "do") rfl fun b rest => ⟨⟨.word "do", b⟩, rfl, .doLoop⟩
    have htest := (setOff_test test o).imp fun ls hls => IsTest.isTail (ho ▸ hls)
    have hwhole := ((hdo.append (ih.body body.bare)).append htest).imp fun _ => reading_doLoop
    simpa [note_printed] using hwhole
  | forLoop built hi hc hu hv first hidden second third body ih =>
    rw [ownScript, statementText, built.tag]
    dsimp only
    rw [Slots.child?_annotateSlots, hi, Slots.child?_annotateSlots, hc, Slots.child?_annotateSlots,
      hu, Slots.child_annotateSlots _ hv]
    exact (lays_forLoop first hidden second third).before ih body.bare rfl rfl
  | forIn built hu hv hw left object body ih =>
    rw [ownScript, statementText, built.tag]
    dsimp only
    rw [Slots.child_annotateSlots _ hu, Slots.child_annotateSlots _ hv,
      Slots.child_annotateSlots _ hw]
    exact (lays_forIn left object).before ih body.bare rfl rfl
  | forOf built hu hv hw left items body hasync ih =>
    rw [ownScript, statementText, built.tag]
    dsimp only
    rw [Slots.child_annotateSlots _ hu, Slots.child_annotateSlots _ hv,
      Slots.child_annotateSlots _ hw]
    exact (lays_forOf left items hasync).before ih body.bare rfl rfl
  | withObject built hu hv object body ih =>
    rw [ownScript, statementText, built.tag]
    dsimp only
    rw [Slots.child_annotateSlots _ hu, Slots.child_annotateSlots _ hv]
    exact (lays_group "with" rfl rfl object .withObject).before ih body.bare rfl rfl
  | labeled built hu hv label hx body ih =>
    rw [ownScript, statementText, built.tag]
    dsimp only
    rw [Slots.child_annotateSlots _ hu, Slots.child_annotateSlots _ hv]
    refine (lays_label label hx (ih.inline body.bare)).imp fun _ hls => reading_before rfl rfl ?_
    obtain ⟨before, after, heq, hlabel, hafter⟩ := hls
    exact ⟨before, after, heq, hlabel.1, hafter⟩

/-- A statement that stands alone is written as in a list of statements. -/
theorem script_statement (ht : Bare t) (o : Options) : script o t = printed o t .statement := by
  obtain ⟨n, h, slots⟩ := t
  have hf : h.family = .statement := ht.family
  have hc : h.comments = .none := ht.comments
  show familyText o (.mk (fun _ => []) h (Tree.annotateSlots (printedRule o) slots)) h.comments =
    statementFrame h h.comments (content o _ [.statement])
  simp [familyText, content, hf, hc]

/-- **Every `else` stays with its `if`.** The text of a tree that stands for a statement is read as
that statement and no other, up to the braces around what stands before an `else`, if no loop shows
an `in` before its first semicolon. The trees are those of `Denotes`: expressions are of the
expression grammar only, none begins with `let` where a declaration may stand, no label is `let` or
reserved, and a loop over items sets the variable `async` only if it has an `await`. -/
theorem printText_keepsElse (h : Denotes A (exposesIn · = false) t s) (ho : o.semicolons = true) :
    ∃ text, printText o t = .ok text ∧ ReadsAs A text [s.braced] ∧
      ∀ ss, ReadsAs A text ss → ss = [s.braced] := by
  have hprint : printText o t =
      .ok (Script.run (Printer.new o).sheet (script o t)).page.finish := by
    unfold printText Printer.print
    rw [h.printError?_eq_none]
    rfl
  obtain ⟨cells, hcells, -, hreading⟩ := (h.lays ho).statement h.bare
  rw [← script_statement h.bare] at hcells
  have hreads :
      ReadsAs A (Script.run (Printer.new o).sheet (script o t)).page.finish [s.braced] := by
    refine ⟨_, lexemes_finish hcells o, ?_⟩
    have hone := hreading true [] fun _ => nofun
    rw [List.append_nil] at hone
    exact .some hone (.none nofun)
  exact ⟨_, hprint, hreads, fun ss hss => hss.unique hreads⟩

end Trees

/-! ### Branches in branches -/

/-- `e;`. -/
def expressionNode (e : Node) : Node := .of .expressionStatement [] [(.expression, .one e)]

/-- `if (test) consequent else alternate`. -/
def ifNode (test consequent : Node) (alternate : Option Node) : Node :=
  .of .ifStatement []
    [(.test, .one test), (.consequent, .one consequent), (.alternate, .maybe alternate)]

/-- `for (init;;) body`. -/
def forNode (init : Option Node) (body : Node) : Node :=
  .of .forStatement []
    [(.body, .one body), (.init, .maybe init), (.test, .maybe none), (.update, .maybe none)]

/-- `if (a) for (;;) l: if (b) c; else d;`, where the `else` is that of the first `if`. -/
def looseElse : Node :=
  ifNode (Source.ident "a")
    (forNode none
      (.of .labeledStatement []
        [(.label, .one (Source.ident "l")),
          (.body, .one (ifNode (Source.ident "b") (expressionNode (Source.ident "c")) none))]))
    (some (expressionNode (Source.ident "d")))

/-- The statement of `looseElse`. -/
def looseElseStmt : Stmt :=
  .ifElse (.name "a")
    (.forLoop none none none (.labeled "l" (.ifThen (.name "b") (.expression (.name "c")))))
    (.expression (.name "d"))

theorem denotes_expressionNode {A : Alphabet} {Q : Node → Prop} {x : String}
    (hx : A.isName x = true) (hr : x ∉ "let" :: reserved) :
    Denotes A Q (expressionNode (Source.ident x)) (.expression (.name x)) := by
  obtain ⟨hlet, hr⟩ := not_or.mp (mt List.mem_cons.mpr hr)
  exact .expression ⟨rfl, rfl, List.Subset.refl _⟩ rfl (denotes_ident hx hr)
    fun heq => hlet (Option.some.inj heq)

theorem denotes_looseElse (A : Alphabet) (Q : Node → Prop) :
    Denotes A Q looseElse looseElseStmt := by
  refine .ifElse ⟨rfl, rfl, List.Subset.refl _⟩ rfl rfl rfl (denotes_ident rfl (by decide)) ?_
    (denotes_expressionNode rfl (by decide))
  refine .forLoop ⟨rfl, rfl, List.Subset.refl _⟩ rfl rfl rfl rfl .none nofun .none .none ?_
  refine .labeled ⟨rfl, rfl, List.Subset.refl _⟩ rfl rfl
    ⟨⟨rfl, rfl, List.Subset.refl _⟩, rfl, rfl, rfl⟩ (by decide) ?_
  exact .ifThen ⟨rfl, rfl, List.Subset.refl _⟩ rfl rfl rfl (denotes_ident rfl (by decide))
    (denotes_expressionNode rfl (by decide))

theorem printText_keepsElse_looseElse :
    Denotes asciiNames (exposesIn · = false) looseElse looseElseStmt ∧
      Options.standard.semicolons = true ∧
      ∃ text, printText .standard looseElse = .ok text ∧
        ReadsAs asciiNames text [looseElseStmt.braced] ∧
        ∀ ss, ReadsAs asciiNames text ss → ss = [looseElseStmt.braced] :=
  ⟨denotes_looseElse _ _, rfl, printText_keepsElse (denotes_looseElse _ _) rfl⟩

example : printText .standard looseElse =
    .ok "if (a) \x7b\n  for (;;)\n    l: if (b)\n      c;\n\x7d else\n  d;\n" := by rfl

/-- `if (x) for ((a in b);;) c; else d;`, without the parentheses around `a in b`. -/
def exposedIn : Node :=
  ifNode (Source.ident "x")
    (forNode (some (infixNode .binaryExpression "in" (Source.ident "a") (Source.ident "b")))
      (expressionNode (Source.ident "c")))
    (some (expressionNode (Source.ident "d")))

/-- The statement of `exposedIn`. -/
def exposedInStmt : Stmt :=
  .ifElse (.name "x")
    (.forLoop (some (.expression (.binary "in" (.name "a") (.name "b")))) none none
      (.expression (.name "c")))
    (.expression (.name "d"))

theorem denotes_exposedIn (A : Alphabet) : Denotes A (fun _ => True) exposedIn exposedInStmt := by
  refine .ifElse ⟨rfl, rfl, List.Subset.refl _⟩ rfl rfl rfl (denotes_ident rfl (by decide)) ?_
    (denotes_expressionNode rfl (by decide))
  refine .forLoop ⟨rfl, rfl, List.Subset.refl _⟩ rfl rfl rfl rfl
    (.some (.expression ?_ (by decide))) (fun _ _ => trivial) .none .none
    (denotes_expressionNode rfl (by decide))
  exact .binary ⟨rfl, rfl, List.Subset.refl _⟩ rfl (by decide) rfl rfl
    (denotes_ident rfl (by decide)) (denotes_ident rfl (by decide))

/-- The head of a loop with two semicolons has no bare `in`, and that of a loop over keys has no
semicolon. -/
theorem not_leads_exposedIn (broken : Bool) (more : List Lexeme) {lead : Lead}
    {rest : List Lexeme} :
    ¬ Leads (⟨.word "for", broken⟩ ::
      (onLine [.mark "(", .word "a", .word "in", .word "b", .mark ";"] ++ more)) lead rest := by
  have haims : Aims (onLine [.word "a"]) (.expression (.name "a")) :=
    .expression (.name_within (by decide) (by decide)) (unbroken_onLine _) (by rintro _ ⟨⟩; rfl)
  rintro ⟨_, ⟨⟩, h⟩
  cases h with
  | forLoop head =>
    obtain ⟨-, first, ha, -, -, -, -, split⟩ := head
    have hinner : Inner (onLine [.word "a", .word "in", .word "b"]) := by
      unfold Inner
      decide
    obtain ⟨rfl, -⟩ := split_semicolon (l := ⟨.mark ";", false⟩) hinner first.inner rfl ha
      (List.cons.inj split).2
    generalize hinit : onLine _ = ls at first
    cases first with
    | none => cases hinit
    | expression _ _ hin =>
      subst hinit
      cases hin
    | declaration hl =>
      cases hinit
      cases hl
  | forIn head =>
    obtain ⟨-, first, hw, derives, -, hr, split⟩ := head
    obtain ⟨-, -, hrest⟩ := haims.unique_before (w := ⟨.word "in", false⟩) first rfl hw (by decide)
      (by decide) (List.cons.inj split).2
    -- nothing goes on after `b`, where there is no parenthesis
    have hname : Derives .expression (tokens (onLine [.word "b"])) (.name "b") :=
      .name_within (by decide) (by decide)
    have hends : Follows .expression (tokens (⟨.mark ";", false⟩ :: more)) := follows_cons nofun
    obtain ⟨-, hcons⟩ := derives_unique_before hname derives (by decide) hends
      (follows_close hr) hrest
    rw [← (List.cons.inj hcons).1] at hr
    exact absurd hr (by decide)
  | forOf wait head =>
    obtain ⟨-, first, hw, -, -, -, split⟩ := head
    cases wait with
    | no =>
      obtain ⟨-, hof, -⟩ := haims.unique_before (w := ⟨.word "in", false⟩) first rfl hw (by decide)
        (by decide) (List.cons.inj split).2
      rw [← hof] at hw
      exact absurd hw (by decide)
    | yes hl => cases hl

/-- The `in` in the head of the loop has no parentheses around it, and the text is read in no
way. -/
theorem not_readsAs_exposedIn (ss : List Stmt) :
    ¬ ReadsAs asciiNames "if (x)\n  for (a in b;;)\n    c;\nelse\n  d;\n" ss := by
  rintro ⟨ls, hls, hreads⟩
  have hlexemes : lexemes asciiNames "if (x)\n  for (a in b;;)\n    c;\nelse\n  d;\n" =
      some (⟨.word "if", true⟩ :: (onLine [.mark "(", .word "x", .mark ")"] ++
        ⟨.word "for", true⟩ :: (onLine [.mark "(", .word "a", .word "in", .word "b", .mark ";"] ++
          (onLine [.mark ";", .mark ")"] ++
            [⟨.word "c", true⟩, ⟨.mark ";", false⟩, ⟨.word "else", true⟩, ⟨.word "d", true⟩,
              ⟨.mark ";", false⟩])))) := by rfl
  cases hlexemes.symm.trans hls
  have hx : Derives .expression [.word "x"] (.name "x") := .name_within (by decide) (by decide)
  cases hreads with
  | some first =>
    obtain ⟨s, rest, hbranch⟩ :=
      first.exists_branch ⟨_, rfl, .branch (grouped_onLine hx (⟨.word "for", true⟩ :: _))⟩
    obtain ⟨lead, mid, hleads⟩ := hbranch.exists_leads
    exact not_leads_exposedIn true _ hleads

theorem not_printText_keepsElse :
    ¬ ∀ (A : Alphabet) (o : Options) (t : Node) (s : Stmt), Denotes A (fun _ => True) t s →
      o.semicolons = true → ∃ text, printText o t = .ok text ∧ ReadsAs A text [s.braced] := by
  intro h
  obtain ⟨text, htext, hreads⟩ := h asciiNames .standard exposedIn exposedInStmt
    (denotes_exposedIn _) rfl
  have hprinted : printText .standard exposedIn =
      .ok "if (x)\n  for (a in b;;)\n    c;\nelse\n  d;\n" := by rfl
  cases hprinted.symm.trans htext
  exact not_readsAs_exposedIn _ hreads

end Typeshift.Statement
