import Typeshift.Proofs.Print.Programs
import Typeshift.Proofs.Statement.Tidy

/-! # Programs printed without semicolons

A program is printed with semicolons or without. Without them the reader ends a statement where a
line ends, if the statement cannot go on. The printer sees to that with a semicolon in front of a
statement that would continue the line before. In a list such a semicolon does no harm. As the body
of a loop or a branch it is read in place of the statement.

* `Conveys.own`: what the script of a statement writes, with semicolons or without.
* `Comprises.tells`: what the text of a program tells.
* `printText_sameStatements_iff`: without semicolons the statements are the same exactly if no body
  begins with a semicolon. -/

namespace Typeshift.Statement

open Expression Print Script

/-! ### Statements of one line -/

section Lines

variable {A : Alphabet} {o : Options} {t u : Node} {e : Expr}

theorem begins_of_derives {p : Phrase} {k : Token} {ks : List Token} (h : Derives p (k :: ks) e) :
    k ∉ .mark ";" :: stops := by
  have hinner := h.inner k List.mem_cons_self
  have helse : k ≠ .word "else" := (opensAs_of_derives h).ne_word (by decide) (by decide) k rfl
  simp only [stops, List.mem_cons, List.not_mem_nil, or_false, not_or]
  refine ⟨?_, ?_, helse⟩ <;> rintro rfl <;> cases hinner

/-- An expression as a statement: with a semicolon in front of it, or not. -/
theorem lays_ownExpression (h : Expression.Denotes A u e) (hlet : e.leadingName ≠ some "let")
    (o : Options) :
    Lays A (expressionStatementText o (u.annotate (printedRule o)))
      (Own o.semicolons (.expression e) (!o.semicolons && continuesLine u) false) := by
  obtain ⟨l, hl, hderives, hback⟩ := exists_strip_statement h o
  have hclosed := strip_closed hl (shut_back hback) o
  unfold expressionStatementText
  rw [continuesLine_annotate, expression_annotate, List.append_assoc]
  cases hguard : !o.semicolons && continuesLine u with
  | true =>
    have hsemis : o.semicolons = false := by simpa using (Bool.and_eq_true_iff.mp hguard).1
    have hstrip := (Strip.token (t := .mark ";") rfl).append hclosed
      (meet_token (l := []) fun _ _ _ _ => rfl)
    refine lays_strip hstrip fun broken => ?_
    rw [tokensOf_append, tokensOf_append, tokensOf_closing]
    refine .guarded hsemis rfl ?_
    have hkeeps := keeps_expression hderives hlet o.semicolons false
    rwa [lexed_false, ← onLine_append] at hkeeps
  | false =>
    refine lays_strip hclosed fun broken => ?_
    rw [tokensOf_append, tokensOf_closing, lexed_append hderives.ne_nil]
    have hkeeps := keeps_expression hderives hlet o.semicolons broken
    obtain ⟨k, ks, hks⟩ := List.exists_cons_of_ne_nil hderives.ne_nil
    refine .plain (l := ⟨k, broken⟩) ?_ (begins_of_derives (hks ▸ hderives))
      (fun hsemis => ?_) hkeeps
    · rw [hks]
      rfl
    · have hline : continuesLine u = false := by simpa [hsemis] using hguard
      have hparens : needsStatementParens u = false := (Bool.or_eq_false_iff.mp hline).1
      rw [needsStatementParens_annotate, hparens] at hl
      obtain ⟨_, _, hfirst, hfresh⟩ := h.exists_fresh hline hl hderives
      rw [hks] at hfirst
      obtain ⟨rfl, -⟩ := List.cons.inj hfirst
      exact hfresh

theorem lays_ownDeclare {word : Word} {parts : List (Node × (String × Option Expr))}
    (declaration : IsVariables t word (parts.map Prod.fst))
    (bindings : ∀ part ∈ parts, Declares A part.1 part.2) (o : Options) :
    Lays A (variablesText t.head (Tree.annotateSlots (printedRule o) t.slots) ++ semicolon o)
      (Own o.semicolons (.declare word.text (parts.map Prod.snd)) false false) := by
  have hne : parts ≠ [] := mt (congrArg (List.map Prod.fst)) declaration.nonempty
  obtain ⟨l, phrases, hl, hback, hne, htokens, hphrases, hall⟩ := exists_bindings hne bindings o
  have hclosed := strip_closed (declaration.strip_text hl) (shut_back (hback.append _)) o
  have hform := form_kind declaration.known
  obtain ⟨hfresh, hbegins⟩ := isFresh_of_form (t := .word word.text) (by rw [hform]; simp)
  refine lays_strip hclosed fun broken => ?_
  rw [tokensOf_append, tokensOf_closing, lexed_append (by simp)]
  exact .plain (l := ⟨.word word.text, broken⟩) rfl hbegins (fun _ => hfresh)
    (keeps_declare hform (hphrases ▸ binds_onLine hne hall htokens) o.semicolons)

end Lines

/-! ### Statements made of others -/

section Leads

variable {semis spoils : Bool} {s : Stmt} {lead : Lead} {ls : List Lexeme} {Q : List Lexeme → Prop}
  {build : Stmt → Stmt}

/-- The first token tells what is led. -/
def HasForm (lead : Lead) : Prop :=
  ∀ {f : Form} {ls rest : List Lexeme}, Begins f ls lead rest → f ∉ [.plain, .empty]

theorem hasForm_branch (e : Expr) : HasForm (.branch e) := by
  intro f ls rest h
  cases h
  decide

theorem hasForm_doLoop : HasForm .doLoop := by
  intro f ls rest h
  cases h
  decide

theorem hasForm_before (hlabel : ∀ x, build ≠ .labeled x) : HasForm (.before build) := by
  intro f ls rest h
  cases h with
  | label => exact absurd rfl (hlabel _)
  | whileLoop | forLoop | forIn | forOf | withObject => decide

theorem own_of_leading (h : Then (Leading lead) Q ls) (hlead : HasForm lead)
    (htells : Tells semis spoils s ls) : Own semis s false spoils ls := by
  obtain ⟨before, after, rfl, hleading, -⟩ := h
  obtain ⟨l, hl, hbegins⟩ := hleading []
  rw [List.append_nil] at hl
  obtain ⟨hfresh, hbegins⟩ := isFresh_of_form (hlead hbegins)
  refine .plain (l := l) ?_ hbegins (fun _ => hfresh) htells
  rw [List.head?_append, hl]
  rfl

end Leads

section Parts

variable {A : Alphabet} {o : Options} {t v w : Node} {e : Expr} {s s' : Stmt} {ss : List Stmt}
  {Q : List Lexeme → Prop} {semis spoils : Bool}

/-- Members of a list, each on lines of its own. -/
theorem setOff_tellsAll (parts : List (Node × Stmt)) (g b : Node → Bool)
    (h : ∀ part ∈ parts, part.2.isEmpty = false ∧ SetOff A (printed o part.1 .statement)
      (OnNewLine (Own semis part.2 (g part.1) (b part.1)))) :
    SetOff A ((parts.map Prod.fst).flatMap (printed o · .statement))
      (TellsAll semis ((parts.map Prod.fst).any b) (parts.map Prod.snd)) := by
  induction parts with
  | nil => exact .nil (tellsAll_nil semis)
  | cons part rest ih =>
    obtain ⟨⟨hne, hpart⟩, hrest⟩ := List.forall_mem_cons.mp h
    exact (hpart.append (ih hrest)).imp fun _ => tellsAll_cons hne

theorem Conveys.bare (h : Conveys A t s) : Bare t := by
  cases h with
  | declare declaration => exact bare_of_built declaration.built rfl
  | expression built | block built | ifThen built | ifElse built | whileLoop built | doLoop built
  | forLoop built | labeled built => exact bare_of_built built rfl

theorem Conveys.isEmpty_eq_false (h : Conveys A t s) : s.isEmpty = false := by
  cases h <;> rfl

/-- Only blocks stand for blocks. -/
theorem Conveys.tag_ne_block (h : Conveys A t s) (hs : s.isBlock = false) :
    t.head.tag? ≠ some .blockStatement := by
  cases h with
  | block => cases hs
  | declare declaration =>
    rw [declaration.built.tag]
    decide
  | expression built | ifThen built | ifElse built | whileLoop built | doLoop built
  | forLoop built | labeled built =>
    rw [built.tag]
    decide

/-- Only a statement that is closed begins with a semicolon. -/
theorem Conveys.isGuarded_of_endsOpen (h : Conveys A t s) (hs : s.endsOpen = true) :
    isGuarded t = false := by
  cases h with
  | expression => cases hs
  | declare declaration => exact isGuarded_eq_false declaration.built.tag (by decide)
  | block built | ifThen built | ifElse built | whileLoop built | doLoop built | forLoop built
  | labeled built => exact isGuarded_eq_false built.tag (by decide)

/-- A word after a body. -/
def Worded (word : String) (Q : List Lexeme → Prop) (ls : List Lexeme) : Prop :=
  ∃ l after, ls = l :: after ∧ l.token = .word word ∧ Q after

theorem worded_else {ls : List Lexeme} (h : Then IsElse Q ls) : Worded "else" Q ls := by
  obtain ⟨_, after, rfl, ⟨b, rfl⟩, hafter⟩ := h
  exact ⟨_, after, rfl, rfl, hafter⟩

/-- A body before a word that goes on with the statement. -/
theorem setOff_body {script : Script} {word : String} (h : Conveys A v s)
    (hv : Lays A (ownScript o v) (Tells semis spoils s)) (hword : (Token.word word).IsFresh)
    (hopen : s.endsOpen = true → word ≠ "else") (hs : SetOff A script (Worded word Q)) :
    SetOff A (printed o v .body ++ script) (Parted word
      (fun l before => ∀ more, TellsBefore semis s.braced before (l :: more) spoils) Q) := by
  refine (hv.body_append h.bare hs).imp ?_
  rintro _ ⟨before, _, rfl, htells, ⟨l, after, rfl, hl, hafter⟩, hbroken⟩
  refine ⟨before, l, after, rfl, hl, tellsBefore_of_tells htells (hl ▸ hword) ?_ ?_, hafter⟩
  · exact fun _ hblock => hbroken (h.tag_ne_block hblock) l rfl
  · intro ho heq
    exact hopen ho (Token.word.inj (hl.symm.trans heq))

/-- A branch in braces before a word. -/
theorem setOff_braced {script : Script} {word : String}
    (hv : SetOff A (printed o v .statement) (TellsAll semis spoils [s]))
    (hs : SetOff A script (Worded word Q)) :
    SetOff A (space ++ braces (printed o v .statement) ++ script) (Parted word (fun l before =>
      ∀ more, TellsBefore semis (.block [s.braced]) before (l :: more) spoils) Q) := by
  refine ((lays_braces hv).spaced.append hs).imp ?_
  rintro _ ⟨before, _, rfl, hbraces, l, after, rfl, hl, hafter⟩
  exact ⟨before, l, after, rfl, hl, fun more => tellsBefore_block hbraces _, hafter⟩

/-- A statement that ends with its body. -/
theorem lays_before {head : Script} {build : Stmt → Stmt} (wraps : Wraps build)
    (hlabel : ∀ x, build ≠ .labeled x) (hhead : Lays A head (Leading (.before build)))
    (hv : Lays A (ownScript o v) (Tells semis spoils s)) (hbare : Bare v) :
    Lays A (head ++ printed o v .body) (Own semis (build s) false spoils) :=
  (hhead.append (hv.body hbare)).imp fun _ hls =>
    own_of_leading hls (hasForm_before hlabel) (tells_before wraps hls)

/-- Members in braces. -/
theorem own_block {ls : List Lexeme} (h : InBraces (TellsAll semis spoils ss) ls) :
    Own semis (.block ss) false spoils ls := by
  have htells := tells_block h
  obtain ⟨l, r, mid, rfl, hl, -⟩ := h
  obtain ⟨hfresh, hbegins⟩ := isFresh_of_form (t := .mark "\x7b") (by decide)
  exact .plain (l := l) rfl (hl ▸ hbegins) (fun _ => hl ▸ hfresh) htells

theorem own_labeled {ls : List Lexeme} {x : String} (hname : A.isName x = true)
    (hx : x ∉ "let" :: reserved) (h : Then (IsLabel x) (Tells semis spoils s) ls) :
    Own semis (.labeled x s) false spoils ls := by
  obtain ⟨before, after, rfl, ⟨hleading, l, hl, hlx⟩, htells⟩ := h
  have hr : x ∉ reserved := mt (List.mem_cons_of_mem _) hx
  have hbegins : l.token ∉ .mark ";" :: stops := by
    rw [hlx]
    simp only [stops, List.mem_cons, List.not_mem_nil, or_false, reduceCtorEq, false_or,
      Token.word.injEq]
    rintro rfl
    exact hr (by decide)
  refine .plain (l := l) ?_ hbegins (fun _ => hlx ▸ isFresh_name hname hr)
    (tells_before (wraps_labeled x) ⟨before, after, rfl, hleading, htells⟩)
  rw [List.head?_append, hl]
  rfl

/-- As the body of another, a statement is spoiled by a semicolon in front of it. -/
theorem lays_tells (h : Lays A (ownScript o v)
      (Own semis s (!semis && isGuarded v) (!semis && guardsBody v))) :
    Lays A (ownScript o v) (Tells semis (!semis && (isGuarded v || guardsBody v)) s) := by
  rw [Bool.and_or_distrib_left]
  exact h.imp fun _ => Own.tells

theorem lays_own {tag : Tag} (htag : t.head.tag? = some tag) (hne : tag ≠ .expressionStatement)
    (h : Lays A (ownScript o t) (Own semis s false spoils)) :
    Lays A (ownScript o t) (Own semis s (!semis && isGuarded t) spoils) := by
  rwa [isGuarded_eq_false htag hne, Bool.and_false]

/-- A branch before `else`, in braces if it ends with an open `if`. -/
theorem setOff_branch {script : Script} (h : Conveys A v s)
    (hv : Lays A (ownScript o v) (Own semis s (!semis && isGuarded v) (!semis && guardsBody v)))
    (hs : SetOff A script (Worded "else" Q)) :
    SetOff A ((if Print.endsOpen (v.annotate (printedRule o)) then
        space ++ braces (printed o v .statement) else printed o v .body) ++ script)
      (Parted "else" (fun l before => ∀ more, TellsBefore semis (s.braced.braceIf s.endsOpen) before
        (l :: more) (!semis && (isGuarded v || guardsBody v))) Q) := by
  have hannotate : Print.endsOpen (v.annotate (printedRule o)) = s.endsOpen := by
    rw [← h.endsOpen_eq]
    exact Tree.synthesize_annotate ..
  rw [hannotate]
  cases hopen : s.endsOpen with
  | true =>
    have hone := setOff_tellsAll [(v, s)] (fun v => !semis && isGuarded v)
      (fun v => !semis && guardsBody v) (List.forall_mem_singleton.mpr
        ⟨h.isEmpty_eq_false, hv.ownStatement h.bare⟩)
    rw [h.isGuarded_of_endsOpen hopen, Bool.false_or]
    exact setOff_braced (by simpa using hone) hs
  | false =>
    exact setOff_body h (lays_tells hv) (by decide) (fun ho => nomatch hopen.symm.trans ho) hs

/-- **What the script of a statement writes**, with semicolons or without. -/
theorem Conveys.own (h : Conveys A t s) (o : Options) :
    Lays A (ownScript o t)
      (Own o.semicolons s (!o.semicolons && isGuarded t) (!o.semicolons && guardsBody t)) := by
  induction h with
  | @expression t u e built hu value hlet =>
    have hguarded : isGuarded t = continuesLine u := by
      simp [isGuarded, Head.is, built.tag, hu]
    have hbody : guardsBody t = false := by rw [guardsBody_eq, guardsBodyRule, built.tag]
    rw [hguarded, hbody, Bool.and_false, ownScript, statementText, built.tag]
    dsimp only
    rw [Slots.child_annotateSlots _ hu]
    exact lays_ownExpression value hlet o
  | @declare t word parts declaration bindings =>
    have hbody : guardsBody t = false := by
      rw [guardsBody_eq, guardsBodyRule, declaration.built.tag]
    refine lays_own declaration.built.tag (by decide) ?_
    rw [hbody, Bool.and_false, ownScript, statementText, declaration.built.tag]
    exact lays_ownDeclare declaration bindings o
  | @block t parts built plain hparts members ihs =>
    refine lays_own built.tag (by decide) ?_
    rw [guardsBody_list built.tag (by decide) hparts, List.and_any_distrib_left, ownScript,
      statementText, built.tag]
    dsimp only
    rw [blockText, Slots.children_annotateSlots, Slots.children_annotateSlots, plain, hparts]
    have hmembers := setOff_tellsAll parts (fun v => !o.semicolons && isGuarded v)
      (fun v => !o.semicolons && guardsBody v) fun part hpart =>
        ⟨(members part hpart).isEmpty_eq_false,
          (ihs part hpart).ownStatement (members part hpart).bare⟩
    refine (lays_membersBlock built.comments (fun hnil => ?_) hmembers).imp fun _ => own_block
    rw [List.map_eq_nil_iff.mp hnil]
    exact tellsAll_nil _
  | @ifThen t u v e s built hu hv single test consequent ih =>
    have hbody : guardsBody t = (isGuarded v || guardsBody v) := by
      rw [guardsBody_eq, guardsBodyRule, built.tag]
      dsimp only
      rw [bodyAt_annotateSlots hv, Slots.child?_annotateSlots, single]
      exact Bool.or_false _
    refine lays_own built.tag (by decide) ?_
    rw [hbody, ownScript, statementText, built.tag]
    dsimp only
    rw [ifText, Slots.child_annotateSlots _ hu, Slots.child_annotateSlots _ hv,
      Slots.child?_annotateSlots, single]
    have hhead := lays_group (o := o) "if" rfl (rfl : "if (".toList = _) test .branch
    have hwhole := (hhead.append ((lays_tells ih).body consequent.bare)).imp fun _ hls =>
      own_of_leading hls (hasForm_branch e) (tells_ifThen hls)
    simpa [note_printed] using hwhole
  | @ifElse t u v w e s s' built hu hv hw test consequent alternate ih ih' =>
    have hbody :
      guardsBody t = ((isGuarded v || guardsBody v) || (isGuarded w || guardsBody w)) := by
      rw [guardsBody_eq, guardsBodyRule, built.tag]
      dsimp only
      rw [bodyAt_annotateSlots hv, bodyAt_annotateSlots hw]
    refine lays_own built.tag (by decide) ?_
    rw [hbody, Bool.and_or_distrib_left, ownScript, statementText, built.tag]
    dsimp only
    rw [ifText, Slots.child_annotateSlots _ hu, Slots.child_annotateSlots _ hv,
      Slots.child?_annotateSlots, hw]
    have hhead := lays_group (o := o) "if" rfl (rfl : "if (".toList = _) test .branch
    have hlast := (setOff_else.append ((lays_tells ih').otherwise alternate.bare)).imp
      fun _ => worded_else
    have hwhole := (hhead.append (setOff_branch consequent ih hlast)).imp fun _ hls =>
      own_of_leading hls (hasForm_branch e) (tells_ifElse hls)
    simpa [note_printed] using hwhole
  | @whileLoop t u v e s built hu hv test body ih =>
    refine lays_own built.tag (by decide) ?_
    rw [guardsBody_body built.tag (by decide) hv, ownScript, statementText, built.tag]
    dsimp only
    rw [Slots.child_annotateSlots _ hu, Slots.child_annotateSlots _ hv]
    exact lays_before (wraps_whileLoop e) (fun x heq => by cases congrFun heq .empty)
      (lays_group "while" rfl rfl test .whileLoop) (lays_tells ih) body.bare
  | @doLoop t u v e s built hu hv test body ih =>
    refine lays_own built.tag (by decide) ?_
    rw [guardsBody_body built.tag (by decide) hv, ownScript, statementText, built.tag]
    dsimp only
    rw [Slots.child_annotateSlots _ hu, Slots.child_annotateSlots _ hv]
    have hdo : Lays A (text "do") (Leading .doLoop) :=
      lays_token (k := .word "do") rfl fun b rest => ⟨⟨.word "do", b⟩, rfl, .doLoop⟩
    have hbody := setOff_body body (lays_tells ih) (by decide) (fun _ => by decide)
      (setOff_test test o)
    have hwhole := (hdo.append hbody).imp fun _ hls =>
      own_of_leading hls hasForm_doLoop (tells_doLoop hls)
    simpa [note_printed] using hwhole
  | @forLoop t v i c d init test update s built hi hc hu hv first hidden second third body ih =>
    refine lays_own built.tag (by decide) ?_
    rw [guardsBody_body built.tag (by decide) hv, ownScript, statementText, built.tag]
    dsimp only
    rw [Slots.child?_annotateSlots, hi, Slots.child?_annotateSlots, hc, Slots.child?_annotateSlots,
      hu, Slots.child_annotateSlots _ hv]
    exact lays_before (wraps_forLoop init test update) (fun x heq => by cases congrFun heq .empty)
      (lays_forLoop first hidden second third) (lays_tells ih) body.bare
  | @labeled t u v x s built hu hv label hx body ih =>
    refine lays_own built.tag (by decide) ?_
    rw [guardsBody_body built.tag (by decide) hv, ownScript, statementText, built.tag]
    dsimp only
    rw [Slots.child_annotateSlots _ hu, Slots.child_annotateSlots _ hv]
    exact (lays_label label hx ((lays_tells ih).inline body.bare)).imp fun _ =>
      own_labeled label.spelled hx

end Parts

/-! ### Programs -/

section Programs

variable {A : Alphabet} {p : Node} {ss : List Stmt}

theorem Comprises.setOff (h : Comprises A p ss) (o : Options) :
    SetOff A (script o p) (TellsAll o.semicolons (!o.semicolons && guardsBody p) ss) := by
  cases h with
  | @mk parts built bare plain hparts members =>
    rw [guardsBody_list built.tag (by decide) hparts, List.and_any_distrib_left]
    have hmembers := setOff_tellsAll parts (fun v => !o.semicolons && isGuarded v)
      (fun v => !o.semicolons && guardsBody v) fun part hpart =>
        ⟨(members part hpart).isEmpty_eq_false,
          ((members part hpart).own o).ownStatement (members part hpart).bare⟩
    refine hmembers.of_same ?_
    obtain ⟨_, head, slots⟩ := p
    have hcomments : head.comments = .none := built.comments
    have htag : head.tag? = some .program := built.tag
    have bare : Slots.child? slots .interpreter = none := bare
    have plain : Slots.children slots .directives = [] := plain
    have hparts : Slots.children slots .body = parts.map Prod.fst := hparts
    rw [script_program htag rfl, programText, htag, hcomments]
    dsimp only
    rw [Slots.child?_annotateSlots, bare, Slots.children_annotateSlots, plain,
      Slots.children_annotateSlots, hparts]
    have hbody := (Same.refl (statements ((parts.map Prod.fst).map
      (Tree.annotate (printedRule o))))).append (same_comments_nil .lines)
    have hwhole := ((same_comments_nil .lines).append hbody).append (same_comments_nil .afterLine)
    exact hwhole.trans (.of_eq (by simp [statements, List.flatMap_map, note_printed]))

/-- **What the text of a program tells**, with semicolons or without. -/
theorem Comprises.tells (h : Comprises A p ss) (o : Options) :
    ∃ text ls, printText o p = .ok text ∧ lexemes A text = some ls ∧
      TellsList o.semicolons ss [] ls (!o.semicolons && guardsBody p) := by
  have hprint : printText o p =
      .ok (Script.run (Printer.new o).sheet (script o p)).page.finish := by
    unfold printText Printer.print
    rw [h.printError?_eq_none]
    rfl
  obtain ⟨cells, hcells, -, htells⟩ := h.setOff o
  refine ⟨_, _, hprint, lexemes_finish hcells o, ?_⟩
  exact (htells true).reads [] nofun _ (.inl (List.append_nil _).symm)

/-- **Without semicolons the statements are the same** up to empty ones exactly if no statement that
begins with a semicolon is the body of another. With semicolons the text of a program is read as its
statements. The programs are those of `Conveys`: expressions are of the expression grammar only,
none begins with `let` where a declaration may stand, no label is `let` or reserved, and no loop
goes over keys or items or shows an `in` before its first semicolon. -/
theorem printText_sameStatements_iff (h : Comprises A p ss) (o : Options) :
    ∃ text text', printText { o with semicolons := true } p = .ok text ∧
      printText { o with semicolons := false } p = .ok text' ∧
      ReadsAs A text (Stmt.bracedAll ss) ∧
      ((∃ ss', ReadsAs A text' ss' ∧ Stmt.tidyAll ss' = Stmt.tidyAll (Stmt.bracedAll ss)) ↔
        guardsBody p = false) := by
  obtain ⟨text, ls, htext, hls, ss₁, hreads, hagrees⟩ := h.tells { o with semicolons := true }
  obtain ⟨text', ls', htext', hls', htells⟩ := h.tells { o with semicolons := false }
  refine ⟨text, text', htext, htext', ⟨ls, hls, hagrees.same rfl ▸ hreads⟩, ?_⟩
  have htells : TellsList false ss [] ls' (guardsBody p) := htells
  cases hbody : guardsBody p with
  | false =>
    rw [hbody] at htells
    obtain ⟨ss₂, hreads', hagrees'⟩ := htells
    exact iff_of_true ⟨ss₂, ⟨ls', hls', hreads'⟩, hagrees'.tidy⟩ rfl
  | true =>
    rw [hbody] at htells
    refine iff_of_false ?_ (by decide)
    rintro ⟨ss₂, ⟨ls₂, hls₂, hreads'⟩, heq⟩
    cases hls'.symm.trans hls₂
    exact htells _ _ hreads' heq

end Programs

/-! ### Semicolons in front of statements -/

/-- `++x`. -/
def incrementNode (x : String) : Node :=
  .of .updateExpression [(.operator, .text "++"), (.operatorFirst, .flag true)]
    [(.argument, .one (Source.ident x))]

/-- `while (test) body`. -/
def whileNode (test body : Node) : Node :=
  .of .whileStatement [] [(.test, .one test), (.body, .one body)]

/-- `a; while (b) { c; ++d; } ++e;`. -/
def guardedMembers : Node :=
  Target.program [expressionNode (Source.ident "a"),
    whileNode (Source.ident "b") (Target.block [expressionNode (Source.ident "c"),
      expressionNode (incrementNode "d")]),
    expressionNode (incrementNode "e")]

/-- `while (a) ++b;`. -/
def guardedBody : Node :=
  Target.program [whileNode (Source.ident "a") (expressionNode (incrementNode "b"))]

section Examples

variable {A : Alphabet} {x : String}

theorem conveys_name (hx : A.isName x = true) (hr : x ∉ "let" :: reserved) :
    Conveys A (expressionNode (Source.ident x)) (.expression (.name x)) := by
  obtain ⟨hlet, hr⟩ := not_or.mp (mt List.mem_cons.mpr hr)
  exact .expression ⟨rfl, rfl, List.Subset.refl _⟩ rfl (denotes_ident hx hr)
    fun heq => hlet (Option.some.inj heq)

theorem conveys_increment (hx : A.isName x = true) (hr : x ∉ reserved) :
    Conveys A (expressionNode (incrementNode x)) (.expression (.update "++" true (.name x))) :=
  .expression ⟨rfl, rfl, List.Subset.refl _⟩ rfl
    (.update ⟨rfl, rfl, List.Subset.refl _⟩ rfl (by decide) rfl (denotes_ident hx hr)) nofun

/-- What `guardedMembers` stands for. -/
def guardedMembersStmts : List Stmt :=
  [.expression (.name "a"),
    .whileLoop (.name "b")
      (.block [.expression (.name "c"), .expression (.update "++" true (.name "d"))]),
    .expression (.update "++" true (.name "e"))]

theorem comprises_guardedMembers (A : Alphabet) :
    Comprises A guardedMembers guardedMembersStmts := by
  have hblock : Conveys A _ (.block _) := @Conveys.block A
    (Target.block [expressionNode (Source.ident "c"), expressionNode (incrementNode "d")])
    [(_, _), (_, _)] ⟨rfl, rfl, List.Subset.refl _⟩ rfl rfl
    (List.forall_mem_cons.mpr ⟨conveys_name rfl (by decide),
      List.forall_mem_singleton.mpr (conveys_increment rfl (by decide))⟩)
  have hloop : Conveys A _ (.whileLoop (.name "b") _) :=
    .whileLoop (t := whileNode (Source.ident "b") _) ⟨rfl, rfl, List.Subset.refl _⟩ rfl rfl
      (denotes_ident rfl (by decide)) hblock
  exact @Comprises.mk A guardedMembers [(_, _), (_, _), (_, _)] ⟨rfl, rfl, List.Subset.refl _⟩
    rfl rfl rfl (List.forall_mem_cons.mpr ⟨conveys_name rfl (by decide), List.forall_mem_cons.mpr
      ⟨hloop, List.forall_mem_singleton.mpr (conveys_increment rfl (by decide))⟩⟩)

theorem printText_sameStatements_guardedMembers :
    Comprises asciiNames guardedMembers guardedMembersStmts ∧
      ∃ text text',
        printText { Options.standard with semicolons := true } guardedMembers = .ok text ∧
        printText { Options.standard with semicolons := false } guardedMembers = .ok text' ∧
        ReadsAs asciiNames text (Stmt.bracedAll guardedMembersStmts) ∧
        ∃ ss', ReadsAs asciiNames text' ss' ∧
          Stmt.tidyAll ss' = Stmt.tidyAll (Stmt.bracedAll guardedMembersStmts) := by
  obtain ⟨text, text', htext, htext', hreads, hiff⟩ :=
    printText_sameStatements_iff (comprises_guardedMembers asciiNames) .standard
  exact ⟨comprises_guardedMembers _, text, text', htext, htext', hreads, hiff.mpr rfl⟩

example : printText { Options.standard with semicolons := false } guardedMembers =
    .ok "a\nwhile (b) \x7b\n  c\n  ;++d\n\x7d\n;++e\n" := by rfl

theorem comprises_guardedBody (A : Alphabet) : Comprises A guardedBody
    [.whileLoop (.name "a") (.expression (.update "++" true (.name "b")))] := by
  have hloop : Conveys A _ (.whileLoop (.name "a") _) :=
    .whileLoop (t := whileNode (Source.ident "a") _) ⟨rfl, rfl, List.Subset.refl _⟩ rfl rfl
      (denotes_ident rfl (by decide)) (conveys_increment (x := "b") rfl (by decide))
  exact @Comprises.mk A guardedBody [(_, _)] ⟨rfl, rfl, List.Subset.refl _⟩ rfl rfl rfl
    (List.forall_mem_singleton.mpr hloop)

theorem not_printText_sameStatements :
    ¬ ∀ (A : Alphabet) (o : Options) (p : Node) (ss : List Stmt), Comprises A p ss →
      ∃ text text' ss₁ ss₂, printText { o with semicolons := true } p = .ok text ∧
        printText { o with semicolons := false } p = .ok text' ∧ ReadsAs A text ss₁ ∧
        ReadsAs A text' ss₂ ∧ Stmt.tidyAll ss₂ = Stmt.tidyAll ss₁ := by
  intro h
  obtain ⟨text, text', ss₁, ss₂, htext, htext', hreads, ⟨ls₂, hls₂, hreads'⟩, heq⟩ :=
    h asciiNames .standard guardedBody _ (comprises_guardedBody _)
  obtain ⟨text₁, ls, hprinted, hls, ss, hmany, hagrees⟩ :=
    (comprises_guardedBody asciiNames).tells { Options.standard with semicolons := true }
  obtain ⟨text₂, ls', hprinted', hls', htells⟩ :=
    (comprises_guardedBody asciiNames).tells { Options.standard with semicolons := false }
  cases htext.symm.trans hprinted
  cases htext'.symm.trans hprinted'
  cases hls₂.symm.trans hls'
  rw [hreads.unique ⟨ls, hls, hmany⟩, hagrees.tidy] at heq
  exact htells _ _ hreads' heq

example : printText { Options.standard with semicolons := false } guardedBody =
    .ok "while (a)\n  ;++b\n" := by rfl

end Examples

end Typeshift.Statement
