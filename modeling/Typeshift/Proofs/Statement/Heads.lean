import Typeshift.Proofs.Statement.Denotes
import Typeshift.Proofs.Statement.Places
import Typeshift.Proofs.Statement.Unambiguous

/-! # The heads of statements

What a statement writes before its body stands on one line, and is read as the grammar reads the
beginning of such a statement, whatever follows.

* `Leading`: how lexemes are read that begin a statement.
* `lays_group`: a keyword with an expression in parentheses.
* `lays_forLoop`, `lays_forIn`, `lays_forOf`: the heads of loops. -/

namespace Typeshift.Statement

open Expression Print Script

/-! ### Declared names -/

section Declares

variable {A : Alphabet} {o : Options} {t d : Node}

theorem Declares.isDeclarator {b : String × Option Expr} (h : Declares A d b) :
    IsDeclarator A d := by
  cases h with
  | bare built hu unset name hx => exact .bare built hu unset name hx
  | set built hu hv name hx value => exact .set built hu hv name hx value

/-- A declared name is laid out as the grammar reads it. -/
theorem Declares.exists_strip {b : String × Option Expr} (h : Declares A d b) (o : Options) :
    ∃ l, Strip A (printed o d (.expression .assignment false)) l ∧ Back l True ∧
      Binding (tokensOf l) b := by
  have hprec {parts : List Node} (built : Built d .variableDeclarator parts) :
      (Precedence.ofHead d.head).looser .assignment = false := by
    rw [Precedence.ofHead, built.tag]
    rfl
  cases h with
  | @bare u x built hu unset name hx =>
    refine ⟨[.token (.word x)], ?_, back_token trivial, .bare hx⟩
    refine strip_place ?_ (built.family.trans rfl) built.comments (hprec built)
    rw [body, expressionText, built.tag]
    dsimp only
    rw [Slots.child_annotateSlots _ hu, Slots.child?_annotateSlots, unset, Option.map_none, after,
      List.append_nil]
    exact name.strip
  | @set u v x e built hu hv name hx value =>
    obtain ⟨l, hl, hderives, -, hback⟩ := (value.sound o).loose .assignment false (by decide)
    have hname : Strip A (printed o u (.expression .leftHandSide false)) [Item.token (.word x)] :=
      name.strip
    have hend : Back [Item.token (.word x)] True := back_token trivial
    have hset := hname.spaced (t := .mark "=") hend hl rfl rfl (writes_text " = ")
    have hbinding : Binding
        (tokensOf ([Item.token (.word x)] ++ [Item.gap ' ', .token (.mark "="), .gap ' '] ++ l))
        (x, some e) := by simpa using Binding.valued hx hderives
    refine ⟨_, strip_place ?_ (built.family.trans rfl) built.comments (hprec built),
      hback.append _, hbinding⟩
    rw [body, expressionText, built.tag]
    dsimp only
    rw [Slots.child_annotateSlots _ hu, Slots.child?_annotateSlots, hv, Option.map_some, after,
      ← List.append_assoc]
    exact hset

/-- Declared names with commas between them. -/
theorem exists_bindings {parts : List (Node × (String × Option Expr))} (hne : parts ≠ [])
    (h : ∀ part ∈ parts, Declares A part.1 part.2) (o : Options) : ∃ l phrases,
      Strip A
        (expressions ((parts.map Prod.fst).map (Tree.annotate (printedRule o))) .assignment) l ∧
      Back l True ∧ phrases ≠ [] ∧ tokensOf l = separated (phrases.map Prod.fst) ∧
      phrases.map Prod.snd = parts.map Prod.snd ∧
      ∀ phrase ∈ phrases, Binding phrase.1 phrase.2 := by
  rw [expressions, List.map_map, List.map_map]
  induction parts with
  | nil => exact absurd rfl hne
  | cons part rest ih =>
    obtain ⟨l, hl, hback, hbinding⟩ := (h part List.mem_cons_self).exists_strip o
    cases rest with
    | nil =>
      refine ⟨l, [(tokensOf l, part.2)], ?_, hback, List.cons_ne_nil _ _, ?_, rfl,
        List.forall_mem_singleton.mpr hbinding⟩
      · simpa [commas, Script.separated, List.intercalate, expression_annotate] using hl
      · rw [List.map_singleton, separated_singleton]
    | cons next rest =>
      obtain ⟨l', phrases, hl', hback', hne', htokens, hphrases, hall⟩ :=
        ih (List.cons_ne_nil _ _) fun part hmem => h part (List.mem_cons_of_mem _ hmem)
      obtain ⟨phrase, phrases, rfl⟩ := List.exists_cons_of_ne_nil hne'
      refine ⟨l ++ [Item.token (.mark ","), .gap ' '] ++ l',
        (tokensOf l, part.2) :: phrase :: phrases, ?_, hback'.append _, List.cons_ne_nil _ _, ?_,
        congrArg (part.2 :: ·) hphrases,
        List.forall_mem_cons.mpr ⟨hbinding, hall⟩⟩
      · rw [List.map_cons, List.map_cons, commas_cons_cons, Function.comp_apply,
          Function.comp_apply, expression_annotate]
        exact strip_comma hl hback hl'
      · simp [htokens, separated_cons_cons]

/-- A declaration of variables, without what ends a statement. -/
theorem IsVariables.strip_text {word : Word} {ds : List Node} {l : List Item}
    (h : IsVariables t word ds)
    (hl : Strip A (expressions (ds.map (Tree.annotate (printedRule o))) .assignment) l) :
    Strip A (variablesText t.head (Tree.annotateSlots (printedRule o) t.slots))
      ([Item.token (.word word.text), .gap ' '] ++ l) := by
  have hword : A.isName word.text = true := by
    have hknown := h.known
    simp only [List.mem_cons, List.not_mem_nil, or_false] at hknown
    rcases hknown with rfl | rfl | rfl <;> rfl
  have hkind : Strip A (text word.text ++ space)
      ([Item.token (.word word.text)] ++ [Item.gap ' ']) :=
    Strip.tokenSpace (t := .word word.text) hword ((writes_text _).append writes_space)
  have htext : variablesText t.head (Tree.annotateSlots (printedRule o) t.slots) =
      (text word.text ++ space) ++
        expressions (ds.map (Tree.annotate (printedRule o))) .assignment := by
    rw [variablesText, flagged, h.plain, h.kind, Slots.children_annotateSlots, h.declarations]
    rfl
  rw [htext]
  exact hkind.append hl (meet_gap [Item.token (.word word.text)] l ' ')

theorem IsVariables.strip {word : Word} {ds : List Node} {l : List Item}
    (h : IsVariables t word ds)
    (hl : Strip A (expressions (ds.map (Tree.annotate (printedRule o))) .assignment) l) :
    Strip A (printed o t .loopHead) ([Item.token (.word word.text), .gap ' '] ++ l) := by
  rw [printed_loopHead_variables h.built.tag h.built.comments]
  exact (h.strip_text hl).silent (writes_comments_nil _) writes_nil

end Declares

/-! ### Phrases on one line -/

section OnLine

variable {p : Phrase} {ts : List Token} {e : Expr}

theorem unbroken_onLine (ts : List Token) : Unbroken (onLine ts) :=
  lexed_false ts ▸ unbroken_lexed false ts

theorem expresses_onLine (h : Derives .expression ts e) : Expresses (onLine ts) e :=
  lexed_false ts ▸ expresses_lexed h false

theorem plain_onLine (h : Derives p ts e) (hlet : e.leadingName ≠ some "let") :
    ∀ l ∈ (onLine ts).head?, form l.token = .plain := by
  cases ts with
  | nil => exact absurd rfl h.ne_nil
  | cons t ts =>
    rintro _ ⟨⟩
    exact (opensAs_of_derives h).plain hlet t rfl

theorem binds_onLine {phrases : List (List Token × (String × Option Expr))} (hne : phrases ≠ [])
    (h : ∀ phrase ∈ phrases, Binding phrase.1 phrase.2)
    (hts : ts = separated (phrases.map Prod.fst)) :
    Binds (onLine ts) (phrases.map Prod.snd) :=
  ⟨⟨phrases, hne, by rw [tokens_onLine, hts], rfl, h⟩, unbroken_onLine ts⟩

theorem covers_bindings {phrases : List (List Token × (String × Option Expr))}
    (h : ∀ phrase ∈ phrases, Binding phrase.1 phrase.2) :
    ∃ c, Covers (separated (phrases.map Prod.fst)) c := by
  induction phrases with
  | nil => exact ⟨_, finds_covers.nil⟩
  | cons phrase rest ih =>
    obtain ⟨hphrase, hrest⟩ := List.forall_mem_cons.mp h
    obtain ⟨c, hc⟩ := hphrase.covers
    obtain ⟨d, hd⟩ := ih hrest
    cases rest with
    | nil =>
      rw [List.map_singleton, separated_singleton]
      exact ⟨c, hc⟩
    | cons next more =>
      rw [List.map_cons, List.map_cons, separated_cons_cons]
      exact ⟨_, finds_covers.append hc
        (finds_covers.append (finds_covers.mark (m := ",") (by decide)) hd)⟩

end OnLine

/-! ### The first parts of the heads of loops -/

section First

variable {A : Alphabet} {o : Options} {t : Node} {e : Expr}

theorem form_kind {word : Word} (known : word ∈ [Word.var, .letWord, .const]) :
    form (.word word.text) = .declaration word.text := by
  simp only [List.mem_cons, List.not_mem_nil, or_false] at known
  rcases known with rfl | rfl | rfl <;> rfl

theorem Initializes.isInit {init : Init} (h : Initializes A t init) : IsInit A t := by
  cases h with
  | expression value => exact .expression value
  | declare declaration bindings =>
    exact .declaration declaration.built declaration.kind declaration.known declaration.declarations
      declaration.nonempty (List.forall_mem_map.mpr fun part hpart =>
        (bindings part hpart).isDeclarator)

/-- **What stands before the first semicolon** in the head of a loop, if it shows no `in`. -/
theorem Initializes.exists_strip {init : Init} (h : Initializes A t init)
    (hidden : exposesIn t = false) (o : Options) :
    ∃ l, Strip A (printed o t .loopHead) l ∧ Back l True ∧
      Opens (onLine (tokensOf l)) (some init) := by
  obtain ⟨l', hl', hback', hshows⟩ := h.isInit.shown o
  -- the same tokens, in whatever way the script is cut
  have hopen {l : List Item} (hl : Strip A (printed o t .loopHead) l) (hback : Back l True) :
      openIn 0 (tokensOf l) = false := by
    rw [hl.tokens_unique hl' hback hback', hshows.openIn_eq, hidden]
  cases h with
  | expression value hlet =>
    have hsound := value.sound o
    obtain ⟨l, hl, hderives, -, hback⟩ := hsound.loose .comma false (by decide)
    rw [← printed_loopHead_expression hsound.family] at hl
    obtain ⟨c, hcovers, -⟩ := hderives.finds finds_covers
    refine ⟨l, hl, hback, .expression (expresses_onLine hderives) (plain_onLine hderives hlet) ?_⟩
    rw [tokens_onLine]
    exact hcovers.not_hasBareIn (hopen hl hback)
  | @declare word parts declaration bindings =>
    have hne : parts ≠ [] := mt (congrArg (List.map Prod.fst)) declaration.nonempty
    obtain ⟨l, phrases, hl, hback, hne, htokens, hphrases, hall⟩ := exists_bindings hne bindings o
    have hstrip := declaration.strip hl
    have hback := hback.append [.token (.word word.text), .gap ' ']
    obtain ⟨c, hcovers⟩ := covers_bindings hall
    refine ⟨_, hstrip, hback, .declaration (form_kind declaration.known)
      (hphrases ▸ binds_onLine hne hall htokens) ?_⟩
    have hvalues : openIn 0 (tokensOf l) = false := (Bool.or_eq_false_iff.mp (hopen hstrip hback)).2
    show hasBareIn (tokens (onLine (tokensOf l))) = false
    rw [tokens_onLine, htokens]
    exact hcovers.not_hasBareIn (htokens ▸ hvalues)

theorem home_within_leftHandSide (h : Expression.Denotes A t e) (htarget : e.IsTarget) :
    (home t).Within .leftHandSide := by
  have hofHead : Precedence.ofHead t.head ∈ [.primary, .member] := by
    unfold Precedence.ofHead
    cases h with
    | name name =>
      rw [name.built.tag]
      exact List.mem_cons_self
    | paren built =>
      rw [built.tag]
      exact List.mem_cons_self
    | member built | index built =>
      rw [built.tag]
      exact List.mem_cons_of_mem _ List.mem_cons_self
    | numeral | call | new | unary | update | binary | logical | conditional | assign | sequence =>
      cases htarget
  unfold home
  cases containsCall t with
  | true => exact (by decide : Phrase.call.Within .leftHandSide)
  | false =>
    simp only [Bool.false_eq_true, if_false]
    revert hofHead
    generalize Precedence.ofHead t.head = p
    cases p <;> decide

/-- **What a loop over keys or items sets.** -/
theorem Targets.exists_strip {target : LoopTarget} (h : Targets A t target) (o : Options) :
    ∃ l, Strip A (printed o t .loopHead) l ∧ Back l True ∧ Aims (onLine (tokensOf l)) target := by
  cases h with
  | expression value htarget hlet =>
    have hsound := value.sound o
    have hhome : false = false → (Precedence.ofHead t.head).looser .comma = false →
        (home t).Within .leftHandSide := fun _ _ => home_within_leftHandSide value htarget
    obtain ⟨l, hl, hderives, -, hback⟩ := hsound.at (fun _ => by decide) hhome
    rw [← printed_loopHead_expression hsound.family] at hl
    refine ⟨l, hl, hback.mono fun _ => trivial, .expression ?_ (unbroken_onLine _)
      (plain_onLine hderives hlet)⟩
    rwa [tokens_onLine]
  | @declare d word x declaration binding =>
    obtain ⟨l, hl, hback, hbinding⟩ := binding.exists_strip o
    generalize hts : tokensOf l = ts at hbinding
    cases hbinding with
    | bare hx =>
      have hone :
          Strip A (expressions ([d].map (Tree.annotate (printedRule o))) .assignment) l := by
        simpa [expressions, commas, Script.separated, List.intercalate, expression_annotate]
          using hl
      refine ⟨_, declaration.strip hone, hback.append _, ?_⟩
      rw [tokensOf_append, hts]
      exact .declaration (form_kind declaration.known) rfl hx

end First

/-! ### Before semicolons and parentheses -/

section Shut

variable {A : Alphabet} {l l' : List Item} {s s' : Script}

/-- Items that a semicolon or a parenthesis may stand after. -/
def Shut (A : Alphabet) (l : List Item) : Prop := ∀ m ∈ [";", ")"], Meet A l [.token (.mark m)]

theorem shut_nil : Shut A [] := fun _ _ => nofun

theorem shut_back (h : Back l True) : Shut A l := by
  intro m hm
  simp only [List.mem_cons, List.not_mem_nil, or_false] at hm
  rcases hm with rfl | rfl
  · exact h.meet (c := ';') (by decide) (by rintro _ ⟨⟩; rfl)
  · exact h.meet (c := ')') (by decide) (by rintro _ ⟨⟩; rfl)

theorem shut_mark {m : String} (hm : ∀ c, (Token.mark m).stops A c = true) :
    Shut A [.token (.mark m)] :=
  fun _ _ => meet_token (l := []) fun _ _ c _ => hm c

theorem Shut.append (h : Shut A l) (h' : Shut A l') : Shut A (l ++ l') := by
  intro m hm i hi
  rw [List.getLast?_append] at hi
  cases hlast : l'.getLast? with
  | none =>
    rw [hlast] at hi
    exact h m hm i hi
  | some j =>
    rw [hlast] at hi
    exact h' m hm i (hlast.trans hi)

@[simp] theorem tokensOf_closing (semis : Bool) :
    tokensOf ((closing semis).map .token) = closing semis := by cases semis <;> rfl

/-- A statement before its semicolon, if it has one. -/
theorem strip_closed (h : Strip A s l) (hl : Shut A l) (o : Options) :
    Strip A (s ++ semicolon o) (l ++ (closing o.semicolons).map .token) := by
  unfold semicolon closing
  cases o.semicolons with
  | true => exact h.append (Strip.token (t := .mark ";") rfl) (hl ";" (by decide))
  | false => exact h.append .nil (by nofun)

/-- Two parts with a semicolon between them. -/
theorem strip_semicolon (h : Strip A s l) (hl : Shut A l) (h' : Strip A s' l') :
    Strip A (s ++ text ";" ++ s') (l ++ [Item.token (.mark ";")] ++ l') :=
  (h.append (Strip.token (t := .mark ";") rfl) (hl ";" (by decide))).append h'
    (meet_token fun _ _ _ _ => rfl)

/-- Words before a parenthesis that opens. -/
def opening (ws : List String) : List Item :=
  ws.flatMap (fun w => [.token (.word w), .gap ' ']) ++ [.token (.mark "(")]

theorem tokensOf_opening (ws : List String) :
    tokensOf (opening ws) = ws.map .word ++ [Token.mark "("] := by
  rw [opening, tokensOf_append]
  congr 1
  induction ws with
  | nil => rfl
  | cons w ws ih => exact congrArg (_ :: ·) ih

theorem strip_opening {ws : List String} {start : String} (hws : ∀ w ∈ ws, A.isName w = true)
    (hstart : start.toList = spell (opening ws)) : Strip A (text start) (opening ws) := by
  refine ⟨hstart ▸ writes_text start, ?_, ?_⟩
  · intro i hi
    rcases List.mem_append.mp hi with hi | hi
    · obtain ⟨w, hw, hi⟩ := List.mem_flatMap.mp hi
      simp only [List.mem_cons, List.not_mem_nil, or_false] at hi
      rcases hi with rfl | rfl
      · exact hws w hw
      · rfl
    · rw [List.mem_singleton.mp hi]
      rfl
  · clear hstart hws
    induction ws with
    | nil => exact .singleton _
    | cons w ws ih =>
      refine .cons_cons (by rintro _ ⟨⟩; rfl) (List.isChain_cons.mpr ⟨fun _ _ => trivial, ih⟩)

/-- Words with a part in parentheses. -/
theorem strip_headed {ws : List String} {start : String} (hws : ∀ w ∈ ws, A.isName w = true)
    (hstart : start.toList = spell (opening ws)) (h : Strip A s l) (hl : Shut A l) :
    Strip A (between start ")" s) (opening ws ++ l ++ [Item.token (.mark ")")]) := by
  have hopen : Shut A (opening ws) := fun _ _ => meet_token fun _ _ _ _ => rfl
  exact ((strip_opening hws hstart).append h (meet_token fun _ _ _ _ => rfl)).append
    (Strip.token (t := .mark ")") rfl) (hopen.append hl ")" (by decide))

end Shut

/-! ### The heads -/

/-- Lexemes begin a statement, whatever follows them. -/
def Leading (lead : Lead) (ls : List Lexeme) : Prop := ∀ rest, Leads (ls ++ rest) lead rest

section Heads

variable {A : Alphabet} {o : Options} {u v : Node} {e : Expr} {start : String} {lead : Lead}

/-- Words with a part in parentheses that is read as the head of a statement. -/
theorem lays_headed (w : String) (ws : List String) {s : Script} {l : List Item}
    (hws : ∀ x ∈ w :: ws, A.isName x = true) (hstart : start.toList = spell (opening (w :: ws)))
    (h : Strip A s l) (hl : Shut A l)
    (hlead : ∀ first rest, Begins (form (.word w)) (⟨.word w, first⟩ ::
      (onLine (ws.map .word ++ .mark "(" :: tokensOf l ++ [Token.mark ")"]) ++ rest)) lead rest) :
    Lays A (between start ")" s) (Leading lead) := by
  refine lays_strip (strip_headed hws hstart h hl) fun broken rest => ?_
  refine ⟨⟨.word w, broken⟩, ?_, ?_⟩
  · rw [tokensOf_append, tokensOf_append, tokensOf_opening]
    rfl
  · rw [tokensOf_append, tokensOf_append, tokensOf_opening]
    simpa [lexed] using hlead broken rest

theorem grouped_onLine {ts : List Token} (h : Derives .expression ts e) (rest : List Lexeme) :
    Grouped (onLine (.mark "(" :: ts ++ [Token.mark ")"]) ++ rest) e rest :=
  .mk (l := ⟨.mark "(", false⟩) (r := ⟨.mark ")", false⟩) rfl (expresses_onLine h) rfl (by simp)

/-- A keyword with an expression in parentheses. -/
theorem lays_group (w : String) (hw : A.isName w = true)
    (hstart : start.toList = spell (opening [w]))
    (h : Expression.Denotes A u e)
    (hlead : ∀ {l ls rest}, Grouped ls e rest → Begins (form (.word w)) (l :: ls) lead rest) :
    Lays A (between start ")" (expression (u.annotate (printedRule o)) .comma)) (Leading lead) := by
  obtain ⟨l, hl, hderives, -, hback⟩ := (h.sound o).loose .comma false (by decide)
  exact lays_headed w [] (List.forall_mem_singleton.mpr hw) hstart hl (shut_back hback)
    fun _ rest => hlead (grouped_onLine hderives rest)

/-! #### Loops with two semicolons -/

theorem exists_first {i : Option Node} {init : Option Init} (h : Option.Rel (Initializes A) i init)
    (hidden : ∀ n ∈ i, exposesIn n = false) (o : Options) :
    ∃ l, Strip A (after "" (i.map (Tree.annotate (printedRule o))) .loopHead) l ∧ Shut A l ∧
      Opens (onLine (tokensOf l)) init := by
  cases h with
  | none => exact ⟨[], .nil, shut_nil, .none⟩
  | some h =>
    obtain ⟨l, hl, hback, hopens⟩ := h.exists_strip (hidden _ rfl) o
    have hwhole := hl.silent (writes_text "") writes_nil
    rw [List.append_nil] at hwhole
    exact ⟨l, hwhole, shut_back hback, hopens⟩

theorem exists_part {n : Option Node} {value : Option Expr}
    (h : Option.Rel (Expression.Denotes A) n value) (o : Options) :
    ∃ l, Strip A (after " " (n.map (Tree.annotate (printedRule o))) (.expression .comma false)) l ∧
      Shut A l ∧ Maybe (onLine (tokensOf l)) value := by
  cases h with
  | none => exact ⟨[], .nil, shut_nil, .none⟩
  | some h =>
    obtain ⟨l, hl, hderives, -, hback⟩ := (h.sound o).loose .comma false (by decide)
    have hspace : Strip A (text " ") [.gap ' '] :=
      ⟨writes_text " ", Strip.space.spelled, .singleton _⟩
    exact ⟨_, hspace.append hl (meet_gap [] l ' '), shut_back (hback.append _),
      .some (expresses_onLine hderives)⟩

/-- **The head of a loop with two semicolons.** -/
theorem lays_forLoop {i c d : Option Node} {init : Option Init} {test update : Option Expr}
    (first : Option.Rel (Initializes A) i init) (hidden : ∀ n ∈ i, exposesIn n = false)
    (second : Option.Rel (Expression.Denotes A) c test)
    (third : Option.Rel (Expression.Denotes A) d update) :
    Lays A (between "for (" ")"
      (after "" (i.map (Tree.annotate (printedRule o))) .loopHead ++ text ";" ++
        after " " (c.map (Tree.annotate (printedRule o))) (.expression .comma false) ++ text ";" ++
        after " " (d.map (Tree.annotate (printedRule o))) (.expression .comma false)))
      (Leading (.before (.forLoop init test update))) := by
  obtain ⟨l₁, h₁, hshut₁, hfirst⟩ := exists_first first hidden o
  obtain ⟨l₂, h₂, hshut₂, hsecond⟩ := exists_part second o
  obtain ⟨l₃, h₃, hshut₃, hthird⟩ := exists_part third o
  have hsemicolon : Shut A [.token (.mark ";")] := shut_mark fun _ => rfl
  have hshut := (hshut₁.append hsemicolon).append hshut₂
  have hall := strip_semicolon (strip_semicolon h₁ hshut₁ h₂) hshut h₃
  refine lays_headed "for" [] (List.forall_mem_singleton.mpr rfl) rfl hall
    ((hshut.append hsemicolon).append hshut₃) fun _ rest => .forLoop ?_
  exact .mk (l := ⟨.mark "(", false⟩) (a := ⟨.mark ";", false⟩) (b := ⟨.mark ";", false⟩)
    (r := ⟨.mark ")", false⟩) rfl hfirst rfl hsecond rfl hthird rfl (by simp)

/-! #### Loops over keys and items -/

/-- What a loop sets and what it goes over. -/
theorem exists_traversal (word : String) (least : Precedence) {target : LoopTarget} {mid : Script}
    (hword : A.isName word = true) (hmid : Writes mid (' ' :: word.toList ++ [' ']))
    (hleast : least.rank ≤ 17) (left : Targets A u target) (right : Expression.Denotes A v e)
    (o : Options) :
    ∃ l ts us, Strip A (printed o u .loopHead ++ mid ++ printed o v (.expression least false)) l ∧
      Shut A l ∧ tokensOf l = ts ++ .word word :: us ∧ Aims (onLine ts) target ∧
      Derives (placeOf least) us e := by
  obtain ⟨l, hl, hback, haims⟩ := left.exists_strip o
  obtain ⟨l', hl', hderives, -, hback'⟩ := (right.sound o).loose least false hleast
  have hstop : (Token.word word).stops A ' ' = true := stops_blank (.inl rfl) _
  exact ⟨_, _, _, hl.spaced (t := .word word) hback hl' hword hstop hmid,
    shut_back (hback'.append _), by simp, haims, hderives⟩

theorem traverses_onLine {p : Phrase} {word : String} {target : LoopTarget} {ts us : List Token}
    (haims : Aims (onLine ts) target) (hderives : Derives p us e) (rest : List Lexeme) :
    Traverses p word
      (onLine (.mark "(" :: (ts ++ .word word :: us) ++ [Token.mark ")"]) ++ rest) target
      e rest :=
  .mk (l := ⟨.mark "(", false⟩) (w := ⟨.word word, false⟩) (r := ⟨.mark ")", false⟩) rfl haims rfl
    (by rwa [tokens_onLine]) (unbroken_onLine us) rfl (by simp)

/-- **The head of a loop over keys.** -/
theorem lays_forIn {target : LoopTarget} (left : Targets A u target)
    (right : Expression.Denotes A v e) :
    Lays A (between "for (" ")" (printed o u .loopHead ++ text " in " ++
      printed o v (.expression .comma false))) (Leading (.before (.forIn target e))) := by
  obtain ⟨l, ts, us, hl, hshut, htokens, haims, hderives⟩ :=
    exists_traversal "in" .comma rfl (writes_text " in ") (by decide) left right o
  refine lays_headed "for" [] (List.forall_mem_singleton.mpr rfl) rfl hl hshut
    fun _ rest => ?_
  rw [htokens]
  exact .forIn (traverses_onLine haims hderives rest)

/-- What a loop sets begins with `async` before `of` only if it is that name. -/
theorem Aims.not_async {ls : List Lexeme} {target : LoopTarget} (h : Aims ls target)
    (hasync : target ≠ .expression (.name "async")) (more : List Token) :
    ¬ [.word "async", .word "of"] <+: tokens ls ++ .word "of" :: more := by
  rintro ⟨rest, heq⟩
  cases h with
  | expression derives =>
    have hname : Derives .leftHandSide [.word "async"] (.name "async") :=
      .name_within (by decide) (by decide)
    have hends {us : List Token} : Follows .leftHandSide (.word "of" :: us) := follows_cons nofun
    exact hasync (congrArg _ (hname.unique_before derives (by decide) hends hends heq).1.symm)
  | declaration hl =>
    rw [← (List.cons.inj heq).1] at hl
    cases hl

/-- **The head of a loop over items.** -/
theorem lays_forOf {isAwait : Bool} {target : LoopTarget} (left : Targets A u target)
    (right : Expression.Denotes A v e)
    (hasync : isAwait = false → target ≠ .expression (.name "async")) :
    Lays A (between (if isAwait then "for await (" else "for (") ")"
      (printed o u .loopHead ++ text " of " ++ printed o v (.expression .assignment false)))
      (Leading (.before (.forOf isAwait target e))) := by
  obtain ⟨l, ts, us, hl, hshut, htokens, haims, hderives⟩ :=
    exists_traversal "of" .assignment rfl (writes_text " of ") (by decide) left right o
  cases isAwait with
  | true =>
    have hwords : ∀ w ∈ ["for", "await"], A.isName w = true :=
      List.forall_mem_cons.mpr ⟨rfl, List.forall_mem_singleton.mpr rfl⟩
    refine lays_headed "for" ["await"] hwords rfl hl hshut fun _ rest => ?_
    rw [htokens]
    exact .forOf (.yes rfl) (traverses_onLine haims hderives rest) nofun
  | false =>
    refine lays_headed "for" [] (List.forall_mem_singleton.mpr rfl) rfl hl hshut
      fun _ rest => ?_
    rw [htokens]
    refine .forOf .no (traverses_onLine haims hderives rest) fun _ hprefix => ?_
    have hnot := haims.not_async (hasync rfl) (us ++ .mark ")" :: tokens rest)
    rw [tokens_onLine] at hnot
    exact hnot (by simpa [List.cons_prefix_cons] using hprefix)

end Heads

end Typeshift.Statement
