import Typeshift.Proofs.Expression.Constructs
import Typeshift.Proofs.TypeText.Denotes
import Typeshift.Proofs.TypeText.Layout

/-! # The constructs of types

For each construct: if its parts are sound, then so is the whole. A part that binds looser than its
place asks for is put in parentheses; otherwise it is a phrase that may stand there. A wrapper binds
as what it holds, and is nothing in the text.

* `phraseOf`: the kind of phrase that a type of a precedence is.
* `Sound`: the text of a node is laid out as a phrase of its precedence.
* `Sound.at`: so it is at every place of a type, in parentheses if need be. -/

namespace Typeshift.TypeText

open Print Script
open Expression (Alphabet Built IsName printed afterSteps keeps_afterSteps)

/-! ### Types at their places -/

/-- The kind of phrase that a type of a precedence is, and that a place for it asks for. -/
def phraseOf : TypePrecedence → Phrase
  | .function => .whole
  | .union => .union
  | .intersection => .intersection
  | .operator => .operator
  | .access => .access
  | .primary => .primary

theorem Derives.widened {p q : Phrase} {n : Nat} {ts : List Token} {τ : Typ} (h : Derives p ts τ)
    (hn : afterSteps Phrase.wider n p = some q) : Derives q ts τ :=
  keeps_afterSteps (P := (Derives · ts τ)) (fun _ _ hnext hp => hp.wider hnext) h hn

theorem exists_widened {p least : TypePrecedence} (h : p.looser least = false) :
    ∃ n < 6, afterSteps Phrase.wider n (phraseOf p) = some (phraseOf least) := by
  revert h
  cases p <;> cases least <;> decide

/-- The script of a node in itself. -/
def body (o : Options) (t : Node) : Script :=
  typeKind t.head (Tree.annotateSlots (printedRule o) t.slots) .none

/-- **The text of a node is laid out as a phrase of its precedence.** -/
structure Sound (A : Alphabet) (o : Options) (t : Node) (τ : Typ) : Prop where
  family : t.head.family = .type
  comments : t.head.comments = .none
  laid : Laid A (body o t) (phraseOf (.ofTree t)) τ

theorem printed_type {t : Node} (hf : t.head.family = .type) (hc : t.head.comments = .none)
    (o : Options) (least : TypePrecedence) :
    printed o t (.type least) =
      inlineFrame (t.head.isAny [.tsTypeLiteral, .tsInterfaceBody])
        ((TypePrecedence.ofTree t).looser least) .none
        ⟨true, typeKind t.head (Tree.annotateSlots (printedRule o) t.slots)⟩ := by
  obtain ⟨n, h, s⟩ := t
  have hf : h.family = .type := hf
  have hc : h.comments = .none := hc
  have hprec : TypePrecedence.ofTree (.mk (fun _ => []) h (Tree.annotateSlots (printedRule o) s)) =
      .ofTree (.mk n h s) :=
    Tree.synthesize_annotate TypePrecedence.rule (printedRule o) (.mk n h s)
  have hown : ownText o (.mk (fun _ => []) h (Tree.annotateSlots (printedRule o) s)) =
      typeKind h (Tree.annotateSlots (printedRule o) s) := by
    funext pending
    rw [ownText, show (Tree.mk _ h _).head.family = .type from hf]
    rfl
  show typeFrame (.mk (fun _ => []) h _) least h.comments (content o (.mk _ h _) [.type]) = _
  rw [typeFrame, hprec, content, if_pos (by simp [hf]), hown, hc]
  rfl

variable {A : Alphabet} {o : Options} {t u v : Node} {τ κ : Typ} {tag : Tag} {parts : List Node}

theorem Sound.bare (h : Sound A o t τ) {least : TypePrecedence}
    (hl : (TypePrecedence.ofTree t).looser least = false) :
    Laid A (printed o t (.type least)) (phraseOf (.ofTree t)) τ := by
  have hinner := fun b => h.laid.silent (Expression.writes_when_comments b) writes_nil
  simp only [List.append_nil] at hinner
  rw [printed_type h.family h.comments, Expression.inlineFrame_none, hl]
  exact (hinner _).silent (writes_comments_nil _) (writes_comments_nil _)

/-- **A sound node at a place** is put in parentheses, or binds as tightly as is asked for. -/
theorem Sound.at (h : Sound A o t τ) (least : TypePrecedence) :
    Laid A (printed o t (.type least)) (phraseOf least) τ := by
  cases hl : (TypePrecedence.ofTree t).looser least with
  | false =>
    obtain ⟨n, -, hn⟩ := exists_widened hl
    exact (h.bare hl).imp fun ts hd => hd.widened hn
  | true =>
    have hfunction : (TypePrecedence.ofTree t).looser .function = false := by
      cases TypePrecedence.ofTree t <;> rfl
    have hprimary : TypePrecedence.primary.looser least = false := by cases least <;> rfl
    obtain ⟨n, -, hn⟩ := exists_widened hfunction
    obtain ⟨m, -, hm⟩ := exists_widened hprimary
    have hinner := fun b => (h.laid.imp fun ts hd => hd.widened hn).silent
      (Expression.writes_when_comments b) writes_nil
    simp only [List.append_nil] at hinner
    have hparen := fun b => (hinner b).paren.imp fun ts hd => hd.widened hm
    rw [printed_type h.family h.comments, Expression.inlineFrame_none, hl]
    exact (hparen _).silent (writes_comments_nil _) (writes_comments_nil _)

theorem ofTree_eq (t : Node) :
    TypePrecedence.ofTree t =
      TypePrecedence.rule t.head (Tree.annotateSlots TypePrecedence.rule t.slots) := by
  cases t
  rfl

theorem sound_of_built {p : TypePrecedence} (h : Built t tag parts) (hfamily : tag.family = .type)
    (hp : TypePrecedence.ofTree t = p) (hlaid : Laid A (body o t) (phraseOf p) τ) :
    Sound A o t τ where
  family := h.family.trans hfamily
  comments := h.comments
  laid := hp ▸ hlaid

/-! ### Names and literals -/

/-- An expression without parentheses at its place. -/
theorem spells_at {before : Char → Prop} {ts : List Token} {least : Precedence}
    (hf : u.head.family = .expression) (hc : u.head.comments = .none)
    (hl : (Precedence.ofHead u.head).looser least = false)
    (h : Spells A before (Expression.body o u) ts) :
    Spells A before (printed o u (.expression least false)) ts := by
  have hinner := fun b => h.silent (Expression.writes_when_comments b) writes_nil
  simp only [List.append_nil] at hinner
  rw [Expression.printed_expression hf hc, expressionFrame, Expression.inlineFrame_none, hl]
  exact (hinner _).silent (writes_comments_nil _) (writes_comments_nil _)

theorem spells_entity {xs : List String} (h : IsEntity A t xs) (o : Options) :
    ∃ y ys, xs = y :: ys ∧
      Spells A (fun c => A.continues c = false) (printed o t (.expression .primary false))
        (.word y :: pointed ys) := by
  induction h with
  | @plain t x name =>
    refine ⟨x, [], rfl, spells_at (name.built.family.trans rfl) name.built.comments ?_ ?_⟩
    · rw [Precedence.ofHead, name.built.tag]
      rfl
    · rw [name.body_eq]
      exact spells_word name.spelled
  | @qualified t u v xs x built hu hv _ right ih =>
    obtain ⟨y, ys, rfl, hs⟩ := ih
    refine ⟨y, ys ++ [x], rfl, spells_at (built.family.trans rfl) built.comments ?_ ?_⟩
    · rw [Precedence.ofHead, built.tag]
      rfl
    · have hbody : Expression.body o t =
          printed o u (.expression .primary false) ++ text "."
            ++ printed o v (.expression .primary false) := by
        rw [Expression.body, expressionText, built.tag]
        dsimp only
        rw [Slots.child_annotateSlots _ hu, Slots.child_annotateSlots _ hv]
        rfl
      have hname : Writes (printed o v (.expression .primary false)) x.toList := by
        simpa [Expression.spell, Expression.Item.chars, Expression.Token.text] using
          (right.strip (o := o)).writes
      have hmember := hs.member (continues_eq_false (by decide)) right.spelled hname
      rw [hbody]
      simpa [pointed] using hmember

theorem sound_literal (h : Built t .tsLiteralType [u]) (hu : t.slots.child? .literal = some u)
    (hf : u.head.family = .expression) (hc : u.head.comments = .none)
    (hp : Precedence.ofHead u.head = .primary) {ts : List Token}
    (hs : Spells A (· ∈ ends) (Expression.body o u) ts) (hd : Derives .primary ts τ) :
    Sound A o t τ := by
  refine sound_of_built h rfl (p := .primary) ?_ ?_
  · rw [ofTree_eq, TypePrecedence.rule, h.tag]
  · have hbody : body o t = printed o u (.expression .unary false) := by
      rw [body, typeKind, h.tag]
      dsimp only
      rw [Slots.child_annotateSlots _ hu]
      rfl
    rw [hbody]
    exact ⟨ts, spells_at hf hc (by rw [hp]; rfl) hs, hd⟩

theorem sound_string {s : String} (h : Built t .tsLiteralType [u])
    (hu : t.slots.child? .literal = some u) (literal : IsString u s) :
    Sound A o t (.string s) := by
  have hbody : Expression.body o u = text (u.head.raw?.getD (quote s o.singleQuote)) := by
    rw [Expression.body, expressionText, literal.built.tag, ← literal.value]
  have hread : StringLiteral.read? (u.head.raw?.getD (quote s o.singleQuote)).toList =
      some (s, []) := by
    cases hraw : u.head.raw? with
    | none => simpa using StringLiteral.read?_quote s o.singleQuote []
    | some raw => exact literal.spelled raw hraw
  refine sound_literal h hu (literal.built.family.trans rfl) literal.built.comments ?_ ?_
    (.string s)
  · rw [Precedence.ofHead, literal.built.tag]
  · rw [hbody]
    generalize u.head.raw?.getD (quote s o.singleQuote) = raw at hread
    cases hchars : raw.toList with
    | nil => rw [hchars] at hread; cases hread
    | cons c cs =>
      rw [hchars] at hread
      refine spells_text hchars ?_ fun d _ => reads_string hread d
      rcases StringLiteral.isQuote_of_read? hread with rfl | rfl <;> decide

theorem sound_numeral (h : Built t .tsLiteralType [u]) (hu : t.slots.child? .literal = some u)
    (literal : Built u .numericLiteral []) (digits : isDigits (numeralText u.head) = true) :
    Sound A o t (.numeral (numeralText u.head)) := by
  have hbody : Expression.body o u = text (numeralText u.head) := by
    rw [Expression.body, expressionText, literal.tag]
  refine sound_literal h hu (literal.family.trans rfl) literal.comments ?_ ?_ (.numeral _)
  · rw [Precedence.ofHead, literal.tag]
  · rw [hbody]
    generalize numeralText u.head = x at digits
    have hspelled : (Expression.Token.numeral x).isSpelled A = true := by
      simpa [isDigits, Expression.Token.isSpelled] using digits
    cases hchars : x.toList with
    | nil => simp [Expression.Token.isSpelled, hchars] at hspelled
    | cons c cs =>
      refine spells_text hchars ?_ fun d hd => ?_
      · have hdigit : c.isDigit = true :=
          List.all_eq_true.mp (Bool.and_eq_true_iff.mp digits).2 c (by simp [hchars])
        constructor <;> rintro rfl <;> cases hdigit
      · rw [← hchars]
        refine reads_numeral hspelled ?_
        simp only [ends, List.mem_cons, List.not_mem_nil, or_false] at hd
        rcases hd with rfl | rfl | rfl | rfl | rfl | rfl | rfl <;> rfl

/-! ### Wrappers and words -/

theorem sound_wrapper (h : Built t .tsAscription [u]) (hu : t.slots.child? .ty = some u)
    (ih : Sound A o u τ) : Sound A o t τ := by
  refine sound_of_built h rfl (p := .ofTree u) ?_ ?_
  · rw [ofTree_eq, TypePrecedence.rule, h.tag]
    dsimp only
    rw [Slots.child?_annotateSlots, hu]
    rfl
  · have hbody : body o t = printed o u (.type .function) := by
      rw [body, typeKind, h.tag]
      dsimp only
      rw [Slots.child_annotateSlots _ hu]
      rfl
    rw [hbody]
    exact ih.bare (by cases TypePrecedence.ofTree u <;> rfl)

theorem sound_keyword {w : String} (hw : (tag, w) ∈ keywordTags) (h : Built t tag []) :
    Sound A o t (.keyword w) := by
  have hfacts : ∀ k ∈ keywordTags, k.1.family = .type ∧ k.2 ∈ keywords := by decide
  have hnames : ∀ k ∈ keywordTags, A.isName k.2 = true := by
    simp only [keywordTags, List.forall_mem_cons]
    exact ⟨rfl, rfl, rfl, rfl, rfl, rfl, rfl, rfl, rfl, rfl, rfl, rfl, List.forall_mem_nil _⟩
  have htext : body o t = text w ∧ TypePrecedence.ofTree t = .primary := by
    rw [body, typeKind, ofTree_eq, TypePrecedence.rule, h.tag]
    simp only [keywordTags, List.mem_cons, List.not_mem_nil, or_false, Prod.mk.injEq] at hw
    rcases hw with ⟨rfl, rfl⟩ | ⟨rfl, rfl⟩ | ⟨rfl, rfl⟩ | ⟨rfl, rfl⟩ | ⟨rfl, rfl⟩ | ⟨rfl, rfl⟩ |
      ⟨rfl, rfl⟩ | ⟨rfl, rfl⟩ | ⟨rfl, rfl⟩ | ⟨rfl, rfl⟩ | ⟨rfl, rfl⟩ | ⟨rfl, rfl⟩ <;>
        exact ⟨rfl, rfl⟩
  obtain ⟨hfamily, hkeyword⟩ := hfacts _ hw
  refine sound_of_built h hfamily htext.2 ?_
  rw [htext.1]
  exact ⟨_, (spells_word (hnames _ hw)).mono fun c hc => continues_eq_false (List.mem_append_right _
    (List.mem_cons_of_mem ':' hc)), .keyword hkeyword⟩

/-! ### References -/

theorem continues_eq_false_of_ends {c : Char} (hc : c ∈ ends) : A.continues c = false :=
  continues_eq_false (List.mem_append_right _ (List.mem_cons_of_mem ':' hc))

theorem sound_reference {x : String} {xs : List String} (h : Built t .tsTypeReference [u])
    (hu : t.slots.child? .typeName = some u) (bare : t.slots.child? .typeParameters = none)
    (name : IsEntity A u (x :: xs)) (hx : IsReference x xs) :
    Sound A o t (.reference (x :: xs) []) := by
  obtain ⟨_, _, ⟨⟩, hs⟩ := spells_entity name o
  refine sound_of_built h rfl (p := .primary) ?_ ?_
  · rw [ofTree_eq, TypePrecedence.rule, h.tag]
  · have hbody : body o t = printed o u (.expression .primary false) := by
      rw [body, typeKind, h.tag]
      dsimp only
      rw [Slots.child_annotateSlots _ hu, Slots.child?_annotateSlots, bare]
      simp [typeArguments, angledOf, expression, printed, Tree.note_annotate_eq]
    rw [hbody]
    exact ⟨_, hs.mono fun c => continues_eq_false_of_ends, .reference hx⟩

theorem sound_query {x : String} {xs : List String} (h : Built t .tsTypeQuery [u])
    (hu : t.slots.child? .exprName = some u) (name : IsEntity A u (x :: xs))
    (hx : x ∉ Expression.reserved) : Sound A o t (.query (x :: xs)) := by
  obtain ⟨_, _, ⟨⟩, hs⟩ := spells_entity name o
  refine sound_of_built h rfl (p := .primary) ?_ ?_
  · rw [ofTree_eq, TypePrecedence.rule, h.tag]
  · have hbody : body o t = text "typeof " ++ printed o u (.expression .primary false) := by
      rw [body, typeKind, h.tag]
      dsimp only
      rw [Slots.child_annotateSlots _ hu]
      rfl
    rw [hbody]
    exact Laid.query (hs.mono fun c => continues_eq_false_of_ends) rfl hx

theorem sound_operator {w : String} (h : Built t .tsTypeOperator [u])
    (ho : t.head.text .operator = w) (known : w ∈ operators) (hu : t.slots.child? .ty = some u)
    (ih : Sound A o u τ) : Sound A o t (.operator w τ) := by
  refine sound_of_built h rfl (p := .operator) ?_ ?_
  · rw [ofTree_eq, TypePrecedence.rule, h.tag]
  · have hbody : body o t = text w ++ space ++ printed o u (.type .operator) := by
      rw [body, typeKind, h.tag]
      dsimp only
      rw [Slots.child_annotateSlots _ hu, ho]
      rfl
    rw [hbody]
    exact (ih.at .operator).operator known

theorem sound_array (h : Built t .tsArrayType [u]) (hu : t.slots.child? .elementType = some u)
    (ih : Sound A o u τ) : Sound A o t (.array τ) := by
  refine sound_of_built h rfl (p := .access) ?_ ?_
  · rw [ofTree_eq, TypePrecedence.rule, h.tag]
  · have hbody : body o t = printed o u (.type .access) ++ text "[]" := by
      rw [body, typeKind, h.tag]
      dsimp only
      rw [Slots.child_annotateSlots _ hu]
      rfl
    rw [hbody]
    exact (ih.at .access).array

theorem sound_access (h : Built t .tsIndexedAccessType [u, v])
    (hu : t.slots.child? .objectType = some u) (hv : t.slots.child? .indexType = some v)
    (ihu : Sound A o u τ) (ihv : Sound A o v κ) : Sound A o t (.access τ κ) := by
  refine sound_of_built h rfl (p := .access) ?_ ?_
  · rw [ofTree_eq, TypePrecedence.rule, h.tag]
  · have hbody : body o t =
        printed o u (.type .access) ++ between "[" "]" (printed o v (.type .function)) := by
      rw [body, typeKind, h.tag]
      dsimp only
      rw [Slots.child_annotateSlots _ hu, Slots.child_annotateSlots _ hv]
      rfl
    rw [hbody]
    exact (ihu.at .access).access (ihv.at .function)

/-! ### Lists of types -/

/-- The scripts of types, as a rule for the notes of a tree sees them. -/
theorem map_note_annotate (o : Options) (ts : List Node) (place : Place) :
    (ts.map (Tree.annotate (printedRule o))).map (fun t => t.note place) =
      ts.map fun t => printed o t place := by
  rw [List.map_map]
  rfl

/-- Types at the places of a list, with the mark of the list between them. -/
theorem exists_list {parts : List (Node × Typ)} {sep m : String} (hsep : (sep, m) ∈ separators)
    (hne : parts ≠ []) (ih : ∀ part ∈ parts, Sound A o part.1 part.2) (least : TypePrecedence) :
    ∃ phrases : List (List Token × Typ), phrases.map Prod.snd = parts.map Prod.snd ∧
      (∀ phrase ∈ phrases, Derives (phraseOf least) phrase.1 phrase.2) ∧
      Spells A (· ∈ ends)
        (separated sep ((parts.map Prod.fst).map fun t => printed o t (.type least)))
        (joined m (phrases.map Prod.fst)) := by
  obtain ⟨tokens, htokens⟩ := exists_tokens
    (fun part : Node × Typ => printed o part.1 (.type least)) Prod.snd
    fun part hp => (ih part hp).at least
  refine ⟨parts.map fun part => (tokens part, part.2), ?_, ?_, ?_⟩
  · rw [List.map_map]
    rfl
  · exact List.forall_mem_map.mpr fun part hp => (htokens part hp).2
  · rw [List.map_map, List.map_map]
    exact Spells.separated hsep hne fun part hp => (htokens part hp).1

theorem ne_nil_of_two_le {α : Type} {l : List α} (h : 2 ≤ l.length) : l ≠ [] := by
  rintro rfl
  cases h

theorem ofTree_list {parts : List (Node × Typ)} {p : TypePrecedence}
    (htag : (tag, p) ∈ [(Tag.tsUnionType, TypePrecedence.union),
      (.tsIntersectionType, .intersection)])
    (h : t.head.tag? = some tag) (hlength : 2 ≤ parts.length)
    (hparts : t.slots.children .types = parts.map Prod.fst) : TypePrecedence.ofTree t = p := by
  rw [ofTree_eq, TypePrecedence.rule, h, Slots.children_annotateSlots, hparts]
  obtain ⟨a, b, rest, rfl⟩ : ∃ a b rest, parts = a :: b :: rest := by
    match parts, hlength with
    | a :: b :: rest, _ => exact ⟨a, b, rest, rfl⟩
  simp only [List.mem_cons, List.not_mem_nil, or_false, Prod.mk.injEq] at htag
  rcases htag with ⟨rfl, rfl⟩ | ⟨rfl, rfl⟩ <;> rfl

/-- A construct that writes its members with a mark between them. -/
theorem sound_joined {p least : TypePrecedence} {sep m empty : String} {build : List Typ → Typ}
    {parts : List (Node × Typ)} (h : Built t tag (parts.map Prod.fst))
    (hfamily : tag.family = .type) (hlength : 2 ≤ parts.length)
    (hparts : t.slots.children .types = parts.map Prod.fst) (hsep : (sep, m) ∈ separators)
    (hp : TypePrecedence.ofTree t = p)
    (hbody : body o t =
      operatorList (Slots.children (Tree.annotateSlots (printedRule o) t.slots) .types) sep empty
        least)
    (hjoin : ∀ {phrases : List (List Token × Typ)}, 2 ≤ phrases.length →
      (∀ phrase ∈ phrases, Derives (phraseOf least) phrase.1 phrase.2) →
        Derives (phraseOf p) (joined m (phrases.map Prod.fst)) (build (phrases.map Prod.snd)))
    (ih : ∀ part ∈ parts, Sound A o part.1 part.2) : Sound A o t (build (parts.map Prod.snd)) := by
  have hne := ne_nil_of_two_le hlength
  refine sound_of_built h hfamily hp ?_
  obtain ⟨phrases, hphrases, hd, hs⟩ := exists_list hsep hne ih least
  have hcount : phrases.length = parts.length := by simpa using congrArg List.length hphrases
  rw [hbody, operatorList, Slots.children_annotateSlots, hparts, map_note_annotate,
    if_neg (by simp [hne]), ← hphrases]
  exact ⟨_, hs, hjoin (hcount ▸ hlength) hd⟩

theorem sound_union {parts : List (Node × Typ)} (h : Built t .tsUnionType (parts.map Prod.fst))
    (hlength : 2 ≤ parts.length) (hparts : t.slots.children .types = parts.map Prod.fst)
    (ih : ∀ part ∈ parts, Sound A o part.1 part.2) : Sound A o t (.union (parts.map Prod.snd)) := by
  have hbody : body o t = operatorList
      (Slots.children (Tree.annotateSlots (printedRule o) t.slots) .types) " | " "never"
      .intersection := by rw [body, typeKind, h.tag]
  have hsep : (" | ", "|") ∈ separators := by decide
  refine sound_joined (p := .union) h rfl hlength hparts hsep
    (ofTree_list (by decide) h.tag hlength hparts) hbody ?_ ih
  intro phrases hl hd
  have hunion : Derives .union (markIf "|" false ++ _) _ :=
    .union hd (ne_nil_of_two_le hl) fun _ => hl
  simpa [markIf, phraseOf] using hunion

theorem sound_intersection {parts : List (Node × Typ)}
    (h : Built t .tsIntersectionType (parts.map Prod.fst)) (hlength : 2 ≤ parts.length)
    (hparts : t.slots.children .types = parts.map Prod.fst)
    (ih : ∀ part ∈ parts, Sound A o part.1 part.2) :
    Sound A o t (.intersection (parts.map Prod.snd)) := by
  have hbody : body o t = operatorList
      (Slots.children (Tree.annotateSlots (printedRule o) t.slots) .types) " & " "unknown"
      .operator := by rw [body, typeKind, h.tag]
  have hsep : (" & ", "&") ∈ separators := by decide
  refine sound_joined (p := .intersection) h rfl hlength hparts hsep
    (ofTree_list (by decide) h.tag hlength hparts) hbody ?_ ih
  intro phrases hl hd
  have hmembers : Derives .intersection (markIf "&" false ++ _) _ :=
    .intersection hd (ne_nil_of_two_le hl) fun _ => hl
  simpa [markIf, phraseOf] using hmembers

theorem derives_tuple (parts : List (List Token × Typ))
    (h : ∀ part ∈ parts, Derives .whole part.1 part.2) :
    Derives .primary (.mark "[" :: joined "," (parts.map Prod.fst) ++ [Token.mark "]"])
      (.tuple (parts.map Prod.snd)) := by
  have htuple : Derives .primary (.mark "[" :: listed _ false ++ [Token.mark "]"]) _ :=
    .tuple h (by simp)
  simpa [listed, markIf] using htuple

theorem sound_tuple {parts : List (Node × Typ)}
    (h : Built t .tsTupleType (parts.map Prod.fst))
    (hparts : t.slots.children .elementTypes = parts.map Prod.fst)
    (ih : ∀ part ∈ parts, Sound A o part.1 part.2) : Sound A o t (.tuple (parts.map Prod.snd)) := by
  refine sound_of_built h rfl (p := .primary) ?_ ?_
  · rw [ofTree_eq, TypePrecedence.rule, h.tag]
  · have hbody : body o t =
        between "[" "]"
          (commas ((parts.map Prod.fst).map fun t => printed o t (.type .function))) := by
      rw [body, typeKind, h.tag]
      dsimp only
      rw [Slots.children_annotateSlots, hparts, ← map_note_annotate]
      rfl
    obtain ⟨tokens, htokens⟩ := exists_tokens
      (fun part : Node × Typ => printed o part.1 (.type .function)) Prod.snd
      fun part hp => (ih part hp).at .function
    have helements : ∀ part ∈ parts, Derives .whole (tokens part) part.2 :=
      fun part hp => (htokens part hp).2
    have htuple := derives_tuple (parts.map fun part => (tokens part, part.2))
      (List.forall_mem_map.mpr helements)
    rw [hbody, List.map_map]
    refine ⟨_, spells_bracketed (by decide) (by decide) fun part hp => (htokens part hp).1, ?_⟩
    simpa [phraseOf, Function.comp_def] using htuple

theorem sound_generic {x : String} {xs : List String} {parts : List (Node × Typ)}
    (h : Built t .tsTypeReference [u, v]) (hu : t.slots.child? .typeName = some u)
    (hv : t.slots.child? .typeParameters = some v) (name : IsEntity A u (x :: xs))
    (hx : IsReference x xs) (list : Built v .tsTypeParameterInstantiation (parts.map Prod.fst))
    (hparts : v.slots.children .params = parts.map Prod.fst) (hne : parts ≠ [])
    (ih : ∀ part ∈ parts, Sound A o part.1 part.2) :
    Sound A o t (.reference (x :: xs) (parts.map Prod.snd)) := by
  obtain ⟨_, _, ⟨⟩, hname⟩ := spells_entity name o
  have hsep : (", ", ",") ∈ separators := by decide
  obtain ⟨phrases, hphrases, hd, hs⟩ := exists_list hsep hne ih .function
  refine sound_of_built h rfl (p := .primary) ?_ ?_
  · rw [ofTree_eq, TypePrecedence.rule, h.tag]
  · have hslots :
        (v.annotate (printedRule o)).slots = Tree.annotateSlots (printedRule o) v.slots := by
      cases v
      rfl
    have hbody : body o t = printed o u (.expression .primary false) ++ between "<" ">"
        (separated ", " ((parts.map Prod.fst).map fun t => printed o t (.type .function))) := by
      rw [body, typeKind, h.tag]
      dsimp only
      rw [Slots.child_annotateSlots _ hu, Slots.child?_annotateSlots, hv, ← map_note_annotate,
        Option.map_some, typeArguments, angledOf, Tree.head_annotate, hslots,
        Slots.children_annotateSlots, hparts, Head.is, list.tag]
      rfl
    have hne' : phrases ≠ [] := by
      rintro rfl
      exact hne (List.map_eq_nil_iff.mp hphrases.symm)
    rw [hbody, ← hphrases]
    exact ⟨_, hname.angles (continues_eq_false (by decide)) hs, .generic hx hne' hd⟩

/-! ### Functions -/

/-- A parameter, with the tokens of its type. -/
theorem exists_named {p : Parameter (Node × Typ)} (h : IsNamed A t (p.map Prod.fst))
    (ih : ∀ ty ∈ p.type?, Sound A o ty.1 ty.2) :
    ∃ q : Parameter (List Token × Typ), q.name = p.name ∧ q.map Prod.snd = p.map Prod.snd ∧
      (∀ ty ∈ q.type?, Derives .whole ty.1 ty.2) ∧
      Spells A (· ∈ ends) (printed o t (.expression .assignment false))
        (q.map Prod.fst).tokens := by
  obtain ⟨name, isOptional, type?⟩ := p
  have hprec : (Precedence.ofHead t.head).looser .assignment = false := by
    rw [Precedence.ofHead, h.built.tag]
    rfl
  have hbody : Expression.body o t = text name ++ when isOptional (text "?") ++
      ascription ((type?.map Prod.fst).map (Tree.annotate (printedRule o))) := by
    have htype : t.slots.child? .ty = type?.map Prod.fst := h.type
    have hname : t.head.text .name = name := h.name
    have hoptional : t.head.flag .isOptional = isOptional := h.optional
    rw [Expression.body, expressionText, h.built.tag]
    dsimp only
    rw [Slots.child?_annotateSlots, htype, hname, flagged, hoptional]
  have hspells := fun (type? : Option (List Token)) hnone hsome =>
    spells_at (h.built.family.trans rfl) h.built.comments hprec
      (hbody ▸ spells_parameter h.spelled isOptional type? hnone hsome)
  cases type? with
  | none =>
    refine ⟨⟨name, isOptional, none⟩, rfl, rfl, by simp, ?_⟩
    exact hspells none (fun _ => rfl) (by simp)
  | some ty =>
    obtain ⟨us, hs, hd⟩ := (ih ty rfl).at .function
    refine ⟨⟨name, isOptional, some (us, ty.2)⟩, rfl, rfl, ?_, ?_⟩
    · rintro _ ⟨⟩
      exact hd
    · refine hspells (some us) (by simp) ?_
      rintro _ ⟨⟩
      exact ⟨_, rfl, hs⟩

theorem derives_function {parts : List (Parameter (List Token × Typ))} {us : List Token} {ρ : Typ}
    (hnames : ∀ part ∈ parts, IsParameter part.name)
    (htypes : ∀ part ∈ parts, ∀ ty ∈ part.type?, Derives .whole ty.1 ty.2)
    (hresult : Derives .whole us ρ) :
    Derives .whole
      ((.mark "(" :: joined "," (parts.map fun part => (part.map Prod.fst).tokens) ++
          [Token.mark ")"]) ++
        (.mark "=>" :: us)) (.function (parts.map (Parameter.map Prod.snd)) ρ) := by
  have hfunction : Derives .whole
      (.mark "(" :: listed _ false ++ .mark ")" :: .mark "=>" :: us) _ :=
    .function hnames htypes (by simp) hresult
  simpa [listed, markIf] using hfunction

theorem sound_function {ρ : Typ} {parts : List (Node × Parameter (Node × Typ))}
    (h : Built t .tsFunctionType (u :: parts.map Prod.fst))
    (plain : t.slots.child? .typeParameters = none) (hu : t.slots.child? .ty = some u)
    (hparts : t.slots.children .parameters = parts.map Prod.fst)
    (names : ∀ part ∈ parts, IsNamed A part.1 (part.2.map Prod.fst))
    (ihs : ∀ part ∈ parts, ∀ ty ∈ part.2.type?, Sound A o ty.1 ty.2) (ih : Sound A o u ρ) :
    Sound A o t (.function (parts.map fun part => part.2.map Prod.snd) ρ) := by
  refine sound_of_built h rfl (p := .function) ?_ ?_
  · rw [ofTree_eq, TypePrecedence.rule, h.tag]
  · have hbody : body o t = between "(" ")" (separated ", " ((parts.map Prod.fst).map fun t =>
        printed o t (.expression .assignment false))) ++ text " => "
          ++ printed o u (.type .function) := by
      rw [body, typeKind, h.tag]
      dsimp only
      rw [typeParameters, Slots.child?_annotateSlots, plain, Slots.child_annotateSlots _ hu,
        Slots.children_annotateSlots, hparts, ← map_note_annotate]
      rfl
    obtain ⟨us, hs, hd⟩ := ih.at .function
    have : Nonempty (Parameter (List Token × Typ)) := ⟨"", false, none⟩
    have hnamed := fun part hp => exists_named (names part hp) (ihs part hp)
    choose! q hname htype hderives hspells using hnamed
    have hallowed : ∀ part ∈ parts, IsParameter (q part).name := fun part hp => by
      rw [hname part hp]
      exact (names part hp).allowed
    have hfunction := derives_function (List.forall_mem_map.mpr hallowed)
      (List.forall_mem_map.mpr hderives) hd
    have hlist : Spells A Opens
        (between "(" ")" (separated ", " ((parts.map Prod.fst).map fun t =>
          printed o t (.expression .assignment false))) ++ text " => ")
        (.mark "(" :: joined "," ((parts.map q).map fun part => (part.map Prod.fst).tokens)
          ++ [Token.mark ")"] ++ [Token.mark "=>"]) := by
      have hbracketed := spells_bracketed (A := A) (P := (· ∈ ends)) (l := "(") (r := ")")
        (by decide) (by decide) hspells
      rw [List.map_map, List.map_map]
      exact hbracketed.andThen rfl (by decide) fun c _ =>
        reads_spaced (m := "=>") rfl (by rintro _ ⟨⟩; rfl) rfl c
    have hmap : (parts.map q).map (Parameter.map Prod.snd) =
        parts.map fun part => part.2.map Prod.snd := by
      rw [List.map_map]
      exact List.map_congr_left htype
    rw [hbody, ← hmap]
    exact ⟨_, hlist.append hs, by simpa [phraseOf] using hfunction⟩

end Typeshift.TypeText
