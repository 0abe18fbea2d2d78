import Typeshift.Proofs.Print.Opening

/-! # The first word of an expression

A node without an operand on its left begins with a text of its own: a name, a word, a literal, an
operator or a bracket. Only functions, classes and objects begin as declarations and blocks do.

* `BeginsWith`: a text begins with a word, and not with a longer one.
* `FirstText`: the first characters of a node without an operand on its left.
  `exists_firstText`: what is spelled well has such a text.
* `FirstText.not_beginsWith`, `FirstText.beginsWith_iff`: which nodes begin as declarations do. -/

namespace Typeshift.Print

open Script Expression

/-! ### Words at the beginning of a text -/

/-- A text begins with a word, and not with a longer one. -/
def BeginsWith (A : Alphabet) (cs : List Char) (word : String) : Prop :=
  ∃ rest, cs = word.toList ++ rest ∧ ∀ c ∈ rest.head?, A.continues c = false

/-- How the declarations of functions and classes begin. -/
def declarationStarts : List String := ["function", "async function", "class"]

/-- Whether one of two texts begins with the other. -/
def comparable (cs ds : List Char) : Bool := cs.isPrefixOf ds || ds.isPrefixOf cs

/-- Whether a text begins with something that is neither a blank nor a comment. -/
def opensToken : List Char → Bool
  | [] => false
  | c :: cs => !isGap c && (c != '/' || cs.head?.any fun d => d != '*' && d != '/')

/-- Whether the first characters of a text tell that it begins with a token, and neither as a
declaration nor as a block does. -/
def isPlain (cs : List Char) : Bool :=
  opensToken cs && !cs.head?.any (['\x7b', '@'].contains ·)
    && declarationStarts.all fun word => !comparable cs word.toList

theorem isPlain_of_head {c : Char} (cs : List Char)
    (hc : ['\x7b', '@', '/', 'f', 'a', 'c'].contains c = false) (hgap : isGap c = false) :
    isPlain (c :: cs) = true := by
  simp only [List.contains_cons, Bool.or_eq_false_iff, beq_eq_false_iff_ne] at hc
  obtain ⟨hbrace, hat, hslash, hf, ha, hclass, -⟩ := hc
  simp [isPlain, opensToken, declarationStarts, comparable, List.isPrefixOf, hbrace, hat,
    hslash, hf, ha, hclass, hgap, Ne.symm hf, Ne.symm ha, Ne.symm hclass]

theorem isPlain_slash {c : Char} (cs : List Char) (hc : (c != '*' && c != '/') = true) :
    isPlain ('/' :: c :: cs) = true := by
  simp only [Bool.and_eq_true, bne_iff_ne] at hc
  have hgap : isGap '/' = false := rfl
  simp [isPlain, opensToken, declarationStarts, comparable, List.isPrefixOf, hc, hgap]

theorem isPlain_digit {c : Char} (h : c.isDigit = true) (cs : List Char) :
    isPlain (c :: cs) = true := by
  obtain ⟨hlow, hhigh⟩ : 48 ≤ c.toNat ∧ c.toNat ≤ 57 := Char.isDigit_iff_toNat.mp h
  have hne (d : Char) (hd : d.toNat < 48 ∨ 57 < d.toNat) : c ≠ d := by
    rintro rfl
    omega
  refine isPlain_of_head cs ?_ ?_
  · rw [List.contains_eq_mem, decide_eq_false_iff_not]
    simpa using ⟨hne '\x7b' (by decide), hne '@' (by decide), hne '/' (by decide),
      hne 'f' (by decide), hne 'a' (by decide), hne 'c' (by decide)⟩
  · simp only [isGap, Text.isBlank, Text.blankRanges, List.any_cons, List.any_nil, Bool.or_false,
      beq_eq_false_iff_ne.mpr (hne '\ufeff' (by decide)), Bool.and_eq_false_iff,
      Bool.or_eq_false_iff, decide_eq_false_iff_not]
    omega

theorem startsNumeral_append {s : String} (h : startsNumeral s = true) (s' : String) :
    startsNumeral (s ++ s') = true := by
  unfold startsNumeral at h ⊢
  rw [String.toList_append, List.head?_append]
  cases hs : s.toList.head? with
  | none => rw [hs] at h; cases h
  | some c => rwa [hs] at h

theorem isPlain_numeral {s : String} (h : startsNumeral s = true) : isPlain s.toList = true := by
  unfold startsNumeral at h
  cases hs : s.toList with
  | nil => rw [hs] at h; cases h
  | cons c cs =>
    rw [hs, List.head?_cons, Option.any_some, Bool.or_eq_true, beq_iff_eq] at h
    rcases h with h | rfl
    · exact isPlain_digit h cs
    · exact isPlain_of_head cs rfl rfl

theorem isPlain_quoted {s : String} (h : startsQuoted s = true) : isPlain s.toList = true := by
  unfold startsQuoted at h
  cases hs : s.toList with
  | nil => rw [hs] at h; cases h
  | cons c cs =>
    rw [hs, List.head?_cons, Option.any_some, Bool.or_eq_true, beq_iff_eq, beq_iff_eq] at h
    rcases h with rfl | rfl <;> exact isPlain_of_head cs rfl rfl

theorem isPlain_quote (value : String) (singleQuote : Bool) :
    isPlain (quote value singleQuote).toList = true := by
  cases singleQuote <;> exact isPlain_quoted (by simp [startsQuoted, quote, quoteMark])

/-- Every number begins with a digit, a sign or the letter of its name. -/
theorem isPlain_numberText (x : Decimal.Binary64) : isPlain (numberText x).toList = true := by
  have hplaces (n : Nat) (p : Int) : ∃ c cs,
      Decimal.Layout.places false (Nat.toDigits 10 n) p = c :: cs ∧ c.isDigit = true := by
    have hdigits : ∀ c ∈ Nat.toDigits 10 n, c.isDigit = true := fun c hc =>
      Nat.isDigit_of_mem_toDigits (by decide) (by decide) hc
    obtain ⟨d, ds, hds⟩ := List.exists_cons_of_ne_nil (Nat.toDigits_ne_nil (n := n) (b := 10))
    have hd : d.isDigit = true := hdigits d (by rw [hds]; exact List.mem_cons_self)
    unfold Decimal.Layout.places
    rw [hds]
    split
    · exact ⟨_, _, rfl, rfl⟩
    · split
      · exact ⟨_, _, rfl, hd⟩
      · obtain ⟨k, hk⟩ : ∃ k, p.toNat = k + 1 := ⟨p.toNat - 1, by omega⟩
        rw [hk]
        exact ⟨_, _, rfl, hd⟩
  have hmagnitude (m : Nat) (e : Int) :
      ∃ c cs, numberLayout.magnitude m e = c :: cs ∧ c.isDigit = true := by
    unfold Decimal.Layout.magnitude
    split
    · exact ⟨_, _, rfl, rfl⟩
    · exact hplaces _ _
  unfold numberText
  split
  · decide
  · split <;> decide
  · next hnan hinfinite =>
    cases x with
    | nan => exact absurd rfl hnan
    | infinite negative => exact absurd rfl (hinfinite negative)
    | finite negative m e =>
      obtain ⟨c, cs, hm, hc⟩ := hmagnitude m e
      simp only [Decimal.Layout.render?, Option.getD_some, String.toList_ofList, hm]
      cases negative with
      | true => exact isPlain_of_head _ rfl rfl
      | false => exact isPlain_digit hc cs

theorem opensToken_append {cs : List Char} (h : opensToken cs = true) (ds : List Char) :
    opensToken (cs ++ ds) = true := by
  cases cs with
  | nil => cases h
  | cons c cs =>
    simp only [opensToken, Bool.and_eq_true, Bool.or_eq_true] at h
    simp only [List.cons_append, opensToken, Bool.and_eq_true, Bool.or_eq_true]
    refine ⟨h.1, h.2.imp_right fun hd => ?_⟩
    cases cs with
    | nil => cases hd
    | cons d cs => exact hd

/-- A text that is plain does not begin as a declaration does. -/
theorem not_beginsWith_of_isPlain {A : Alphabet} {cs : List Char} (h : isPlain cs = true)
    (ds : List Char) {word : String} (hword : word ∈ declarationStarts) :
    ¬ BeginsWith A (cs ++ ds) word := by
  rintro ⟨rest, heq, -⟩
  have hnot := List.all_eq_true.mp (Bool.and_eq_true_iff.mp h).2 word hword
  have hcompare := List.prefix_or_prefix_of_prefix (List.prefix_append cs ds)
    (heq ▸ List.prefix_append word.toList rest)
  simp only [← List.isPrefixOf_iff_prefix, ← Bool.or_eq_true] at hcompare
  rw [comparable, hcompare] at hnot
  cases hnot

/-- What stands after a name, up to the end of the text. -/
def Ends (A : Alphabet) (ds : List Char) : Prop := ds = [] ∨ severs A ds = true

/-- A name that is no word of a declaration does not begin one. -/
theorem not_beginsWith_name {A : Alphabet} {x : String} (hx : A.isName x = true)
    (hne : declarationWords.contains x = false) {ds : List Char} (hds : Ends A ds) {word : String}
    (hword : word ∈ declarationStarts) : ¬ BeginsWith A (x.toList ++ ds) word := by
  have hall : ∀ c ∈ x.toList, A.continues c = true :=
    List.all_eq_true.mp (Bool.and_eq_true_iff.mp hx).2
  -- a name and a word of a declaration that begin the same text are equal
  have hsame {w : String} {es : List Char} (hw : w.toList.all A.continues = true)
      (heq : x.toList ++ ds = w.toList ++ es) (hrest : ∀ c ∈ es.head?, A.continues c = false) :
      x = w ∧ ds = es := by
    have hall' : ∀ c ∈ w.toList, A.continues c = true := List.all_eq_true.mp hw
    have hds : ∀ c ∈ ds.head?, A.continues c = false := by
      rcases hds with rfl | hds
      · rintro _ ⟨⟩
      · cases ds with
        | nil => cases hds
        | cons d ds =>
          rintro _ ⟨⟩
          simpa using (Bool.and_eq_true_iff.mp hds).1
    have htake {cs ds : List Char} (hcs : ∀ c ∈ cs, A.continues c = true)
        (hds : ∀ c ∈ ds.head?, A.continues c = false) : (cs ++ ds).takeWhile A.continues = cs := by
      rw [List.takeWhile_append_of_pos hcs]
      cases ds with
      | nil => simp
      | cons d ds => rw [List.takeWhile_cons_of_neg (by simp [hds d rfl]), List.append_nil]
    have hx : x.toList = w.toList := by
      rw [← htake hall hds, heq, htake hall' hrest]
    exact ⟨String.toList_inj.mp hx, List.append_cancel_left (hx ▸ heq)⟩
  rintro ⟨rest, heq, hrest⟩
  simp only [declarationStarts, List.mem_cons, List.not_mem_nil, or_false] at hword
  rcases hword with rfl | rfl | rfl
  · obtain ⟨rfl, -⟩ := hsame (w := "function") rfl heq hrest
    exact absurd hne (by decide)
  · -- after the name `async` stands no function
    have hsplit : x.toList ++ ds = "async".toList ++ (" function".toList ++ rest) := heq
    obtain ⟨rfl, rfl⟩ := hsame rfl hsplit (by rintro _ ⟨⟩; rfl)
    rcases hds with hds | hds
    · cases hds
    · simp [severs] at hds
  · obtain ⟨rfl, -⟩ := hsame (w := "class") rfl heq hrest
    exact absurd hne (by decide)

/-! ### The first characters of a node -/

/-- The comments in front of the first part of a node, if it has no text of its own before. -/
def placedBefore {ρ : Type} (t : Option (Tree ρ)) : List Comment :=
  match t with
  | none => []
  | some t => t.head.comments.leading ++ innerBefore t.head

/-- The comments that a node without an operand on its left writes before its first character: those
of the word that a meta property begins with, and those of the first decorator of a class. -/
def ownComments {ρ : Type} (h : Head) (s : Slots ρ) : List Comment :=
  match h.tag? with
  | some .metaProperty => placedBefore (s.child? .metaName)
  | some .classExpression => placedBefore (s.children .decorators).head?
  | _ => []

/-- Whether a node begins as a declaration does: a function, or a class without decorators. -/
def isDeclaration {ρ : Type} (t : Tree ρ) : Bool :=
  t.head.is .functionExpression ||
    t.head.is .classExpression && (t.slots.children .decorators).isEmpty

/-- **The first characters of a node** without an operand on its left, given what stands after
them. -/
inductive FirstText (A : Alphabet) (v : Node) : List Char → Script → Prop where
  | name {x : String} {after : Script} (hv : isDeclaration v = false) (hx : A.isName x = true)
      (hne : declarationWords.contains x = false) (hafter : Severed A after) :
    FirstText A v x.toList after
  | plain {cs : List Char} {after : Script} (hv : isDeclaration v = false)
      (h : isPlain cs = true) : FirstText A v cs after
  | object {cs : List Char} {after : Script}
      (h : v.head.isAny [.objectExpression, .objectPattern] = true) :
    FirstText A v ('\x7b' :: cs) after
  | function {word : String} {c : Char} {after : Script}
      (h : v.head.tag? = some .functionExpression) (hword : word ∈ ["function", "async function"])
      (hc : c ∈ [' ', '*', '<', '(']) : FirstText A v (word.toList ++ [c]) after
  | bareClass {c : Char} {cs : List Char} {after : Script}
      (h : v.head.tag? = some .classExpression) (hbare : v.slots.children .decorators = [])
      (hc : c ∈ [' ', '<']) : FirstText A v ("class".toList ++ c :: cs) after
  | decorated {after : Script} (h : v.head.tag? = some .classExpression)
      (hdecorators : v.slots.children .decorators ≠ []) : FirstText A v ['@'] after

/-- A node without an operand on its left begins with some characters. -/
def StartsAs (A : Alphabet) (o : Options) (v : Node) : Prop :=
  ∃ before cs after, Same (heldText o v)
      (comments .before (ownComments v.head v.slots) ++ (before ++ after)) ∧
    Writes before cs ∧ FirstText A v cs after

section StartsAs

variable {A : Alphabet} {o : Options} {v : Node} {tag : Tag}

theorem startsAs_of_silent {before after : Script} {cs : List Char}
    (hcomments : ownComments v.head v.slots = []) (h : heldText o v = before ++ after)
    (hwrites : Writes before cs) (hfirst : FirstText A v cs after) : StartsAs A o v := by
  refine ⟨before, cs, after, ?_, hwrites, hfirst⟩
  rw [hcomments, h]
  exact (Same.append (.of_silent (writes_comments_nil .before)) (.refl _)).symm

theorem isDeclaration_eq_false (htag : v.head.tag? = some tag)
    (hne : tag ∉ [Tag.functionExpression, .classExpression]) : isDeclaration v = false := by
  simp only [List.mem_cons, List.not_mem_nil, or_false, not_or] at hne
  simp [isDeclaration, Head.is, htag, hne.1, hne.2]

/-- A node that begins with a word, an operator or a bracket of its own. -/
theorem startsAs_plain {word : String} {after : Script} (htag : v.head.tag? = some tag)
    (hne : tag ∉ [Tag.functionExpression, .classExpression, .metaProperty])
    (h : heldText o v = text word ++ after) (hplain : isPlain word.toList = true) :
    StartsAs A o v := by
  simp only [List.mem_cons, List.not_mem_nil, or_false, not_or] at hne
  have hdeclares : isDeclaration v = false :=
    isDeclaration_eq_false htag (by simp [hne.1, hne.2.1])
  have hcomments : ownComments v.head v.slots = [] := by
    rw [ownComments, htag]
    split
    · next heq => exact absurd (Option.some.inj heq) hne.2.2
    · next heq => exact absurd (Option.some.inj heq) hne.2.1
    · rfl
  exact startsAs_of_silent hcomments h (writes_text word) (.plain hdeclares hplain)

theorem startsAs_plain_only {word : String} (htag : v.head.tag? = some tag)
    (hne : tag ∉ [Tag.functionExpression, .classExpression, .metaProperty])
    (h : heldText o v = text word) (hplain : isPlain word.toList = true) : StartsAs A o v :=
  startsAs_plain htag hne (h.trans (List.append_nil _).symm) hplain

theorem angledOf_cases (t : Tag) (list : Option (Tree Printed)) :
    angledOf t list = [] ∨ ∃ after, angledOf t list = text "<" ++ after := by
  unfold angledOf
  cases list with
  | none => exact .inl rfl
  | some list =>
    dsimp only
    cases list.head.is t with
    | false => exact .inl rfl
    | true => exact .inr ⟨_, List.append_assoc ..⟩

theorem exists_signature (s : Slots Printed) :
    ∃ word ∈ ["<", "("], ∃ after, signature s = text word ++ after := by
  unfold signature typeParameters parameters between
  rcases angledOf_cases .tsTypeParameterDeclaration (s.child? .typeParameters) with h | ⟨after, h⟩
  · exact ⟨"(", by decide, _, by rw [h]; simp only [List.nil_append, List.append_assoc]; rfl⟩
  · exact ⟨"<", by decide, _, by rw [h]; simp only [List.append_assoc]; rfl⟩

theorem spacedId_cases (s : Slots Printed) :
    spacedId s = [] ∨ ∃ after, spacedId s = space ++ after := by
  unfold spacedId
  cases s.child? .id with
  | none => exact .inl rfl
  | some id => exact .inr ⟨_, rfl⟩

theorem severed_ascription (t : Option (Tree Printed)) : Severed A (ascription t) := by
  cases t with
  | none => exact .inl writes_nil
  | some t => exact severed_text (w := ": ") rfl _

theorem heldText_tag (htag : v.head.tag? = some tag) (hf : tag.family = .expression) (o : Options) :
    ∃ pending, heldText o v =
      expressionText o v.head (Tree.annotateSlots (printedRule o) v.slots) pending :=
  ⟨_, heldText_expression (by simp [Head.family, htag, hf]) o⟩

theorem startsAs_function (htag : v.head.tag? = some .functionExpression) : StartsAs A o v := by
  obtain ⟨pending, hbody⟩ := heldText_tag htag rfl o
  have hcomments : ownComments v.head v.slots = [] := by rw [ownComments, htag]
  unfold expressionText at hbody
  rw [htag] at hbody
  dsimp only at hbody
  rw [functionText] at hbody
  generalize Tree.annotateSlots (printedRule o) v.slots = s at hbody
  -- the character after the word
  obtain ⟨c, hc, script, after, hrest, hwrites⟩ : ∃ c ∈ [' ', '*', '<', '('], ∃ script after,
      text (if v.head.flag .isGenerator then "function*" else "function")
          ++ (spacedId s ++ signature s) = script ++ after ∧
        Writes script ("function".toList ++ [c]) := by
    cases v.head.flag .isGenerator with
    | true => exact ⟨'*', by decide, _, _, rfl, writes_text "function*"⟩
    | false =>
      rcases spacedId_cases s with hid | ⟨after, hid⟩
      · obtain ⟨word, hword, after, hsignature⟩ := exists_signature s
        rw [hid, hsignature]
        simp only [List.mem_cons, List.not_mem_nil, or_false] at hword
        rcases hword with rfl | rfl
        · exact ⟨'<', by decide, _, after, rfl, (writes_text "function").append (writes_text "<")⟩
        · exact ⟨'(', by decide, _, after, rfl, (writes_text "function").append (writes_text "(")⟩
      · rw [hid]
        exact ⟨' ', by decide, text "function" ++ space, after ++ signature s, by simp,
          (writes_text "function").append writes_space⟩
  have hsplit (before : Script) : before ++ text (if v.head.flag .isGenerator then "function*"
      else "function") ++ spacedId s ++ signature s ++ space ++ (s.child .body).note .block =
        before ++ script ++ (after ++ (space ++ (s.child .body).note .block)) := by
    simp only [List.append_assoc] at hrest ⊢
    rw [← List.append_assoc (spacedId s), ← List.append_assoc (text _), hrest, List.append_assoc]
  rw [hsplit] at hbody
  cases hasync : v.head.flag .isAsync with
  | true =>
    rw [flagged, hasync] at hbody
    exact startsAs_of_silent hcomments hbody ((writes_text "async ").append hwrites)
      (.function htag (by decide : "async function" ∈ _) hc)
  | false =>
    rw [flagged, hasync] at hbody
    exact startsAs_of_silent hcomments hbody (writes_nil.append hwrites)
      (.function htag (by decide : "function" ∈ _) hc)

theorem startsAs_arrow (htag : v.head.tag? = some .arrowFunctionExpression) : StartsAs A o v := by
  obtain ⟨pending, hbody⟩ := heldText_tag htag rfl o
  have hcomments : ownComments v.head v.slots = [] := by rw [ownComments, htag]
  have hdeclares : isDeclaration v = false := isDeclaration_eq_false htag (by decide)
  unfold expressionText at hbody
  rw [htag] at hbody
  dsimp only at hbody
  obtain ⟨word, hword, after, hsignature⟩ :=
    exists_signature (Tree.annotateSlots (printedRule o) v.slots)
  have hplain : ∀ word ∈ ["<", "("],
      isPlain word.toList = true ∧ isPlain ("async ".toList ++ word.toList) = true := by decide
  rw [hsignature] at hbody
  simp only [List.append_assoc] at hbody
  rw [← List.append_assoc] at hbody
  cases hasync : v.head.flag .isAsync with
  | true =>
    rw [flagged, hasync] at hbody
    exact startsAs_of_silent hcomments hbody ((writes_text "async ").append (writes_text word))
      (.plain hdeclares (hplain word hword).2)
  | false =>
    rw [flagged, hasync] at hbody
    exact startsAs_of_silent hcomments hbody (writes_nil.append (writes_text word))
      (.plain hdeclares (hplain word hword).1)

/-- A node that begins with one of its parts, which has a text of its own. -/
theorem startsAs_of_part {t : Node} {word : String} {rest more : Script}
    (hprecedence : Precedence.ofHead t.head = .primary)
    (hcomments : ownComments v.head v.slots = placedBefore (some t))
    (hbody : heldText o v = printed o t (.expression .primary false) ++ more)
    (ht : heldText o t = text word ++ rest) (hfirst : ∀ after, FirstText A v word.toList after) :
    StartsAs A o v := by
  obtain ⟨after, -, hsame⟩ := printed_held o t .primary false
  have hparen : inParens t.head .primary false = false := by
    rw [inParens, hprecedence]
    rfl
  rw [hparen, parenIf, if_neg Bool.false_ne_true, ht] at hsame
  refine ⟨text word, _, rest ++ (after ++ more), ?_, writes_text word, hfirst _⟩
  rw [hbody, hcomments]
  have hjoin := (same_comments_append t.head.comments.leading (innerBefore t.head)).append
    (.refl (text word ++ (rest ++ (after ++ more))))
  have hall := hsame.append (.refl more)
  simp only [List.append_assoc] at hjoin hall
  exact hall.trans hjoin

theorem startsAs_metaProperty (htag : v.head.tag? = some .metaProperty) {t : Node}
    (ht : v.slots.child? .metaName = some t) (hidentifier : t.head.tag? = some .identifier)
    (hname : t.head.text .name ∈ ["new", "import"]) : StartsAs A o v := by
  obtain ⟨pending, hbody⟩ := heldText_tag htag rfl o
  unfold expressionText at hbody
  rw [htag] at hbody
  dsimp only at hbody
  rw [Slots.child_annotateSlots _ ht, List.append_assoc] at hbody
  obtain ⟨pending', hword⟩ := heldText_tag hidentifier rfl o
  unfold expressionText at hword
  rw [hidentifier] at hword
  dsimp only at hword
  rw [List.append_assoc] at hword
  have hplain : ∀ word ∈ ["new", "import"], isPlain word.toList = true := by decide
  refine startsAs_of_part (t := t) ?_ ?_ hbody hword fun _ =>
    .plain (isDeclaration_eq_false htag (by decide)) (hplain _ hname)
  · rw [Precedence.ofHead, hidentifier]
  · rw [ownComments, htag]
    dsimp only
    rw [ht]

/-- After the word of a class stands a space, or a list of types. -/
theorem exists_afterClass (s : Slots Printed) : ∃ c ∈ [' ', '<'], ∃ cs script after,
    spacedId s ++ typeParameters s
        ++ (match s.child? .superClass with
          | none => []
          | some t => text " extends " ++ expression t .leftHandSide
              ++ typeArguments (s.child? .superTypeParameters))
        ++ when (!(s.children .implements).isEmpty)
            (text " implements " ++ expressions (s.children .implements) .primary)
        ++ space ++ (s.child .body).note .classBody = script ++ after ∧
      Writes script (c :: cs) := by
  simp only [List.append_assoc]
  rcases spacedId_cases s with hid | ⟨after, hid⟩
  · rw [hid, List.nil_append, typeParameters]
    rcases angledOf_cases .tsTypeParameterDeclaration (s.child? .typeParameters) with h | ⟨after, h⟩
    · rw [h, List.nil_append]
      cases s.child? .superClass with
      | some t =>
        simp only [List.append_assoc]
        exact ⟨' ', by decide, _, text " extends ", _, rfl, writes_text _⟩
      | none =>
        rw [List.nil_append]
        cases !(s.children .implements).isEmpty with
        | true =>
          simp only [when, if_true, List.append_assoc]
          exact ⟨' ', by decide, _, text " implements ", _, rfl, writes_text _⟩
        | false => exact ⟨' ', by decide, _, space, _, rfl, writes_space⟩
    · rw [h, List.append_assoc]
      exact ⟨'<', by decide, _, text "<", _, rfl, writes_text _⟩
  · rw [hid, List.append_assoc]
    exact ⟨' ', by decide, _, space, _, rfl, writes_space⟩

theorem startsAs_class (htag : v.head.tag? = some .classExpression)
    (hdeclare : v.head.flag .isDeclare = false)
    (hdecorator : ∀ t ∈ (v.slots.children .decorators).head?, t.head.tag? = some .decorator) :
    StartsAs A o v := by
  obtain ⟨pending, hbody⟩ := heldText_tag htag rfl o
  unfold expressionText at hbody
  rw [htag] at hbody
  dsimp only at hbody
  have hlines := Slots.children_annotateSlots (printedRule o) v.slots .decorators
  unfold classText decoratorLines at hbody
  rw [hlines, flagged, hdeclare] at hbody
  dsimp only at hbody
  cases hdecorators : v.slots.children .decorators with
  | nil =>
    have hcomments : ownComments v.head v.slots = [] := by
      rw [ownComments, htag]
      dsimp only
      rw [hdecorators]
      rfl
    rw [hdecorators] at hbody
    generalize Tree.annotateSlots (printedRule o) v.slots = s at hbody
    obtain ⟨c, hc, cs, script, after, hrest, hwrites⟩ := exists_afterClass s
    have hsplit : heldText o v = text "class" ++ script ++ after := by
      simp only [List.map_nil, List.flatMap_nil, when, if_neg Bool.false_ne_true, List.nil_append,
        List.append_assoc] at hbody hrest ⊢
      exact hbody.trans (congrArg (text "class" ++ ·) hrest)
    exact startsAs_of_silent hcomments hsplit ((writes_text "class").append hwrites)
      (.bareClass htag hdecorators hc)
  | cons t ts =>
    have ht : t.head.tag? = some .decorator := hdecorator t (by rw [hdecorators]; rfl)
    have hcomments : ownComments v.head v.slots = placedBefore (some t) := by
      rw [ownComments, htag]
      dsimp only
      rw [hdecorators]
      rfl
    obtain ⟨pending', hword⟩ := heldText_tag ht rfl o
    unfold expressionText at hword
    rw [ht] at hword
    dsimp only at hword
    rw [hdecorators, List.map_cons, List.flatMap_cons] at hbody
    simp only [List.append_assoc] at hbody
    refine startsAs_of_part (by rw [Precedence.ofHead, ht]) hcomments hbody hword
      fun _ => .decorated htag ?_
    rw [hdecorators]
    exact List.cons_ne_nil t ts

theorem startsAs_markup {t : Node} {f : Field} (word : String) {after : Script}
    (htag : v.head.tag? = some tag)
    (hne : tag ∉ [Tag.functionExpression, .classExpression, .metaProperty])
    (hbody : heldText o v = part (Tree.annotateSlots (printedRule o) v.slots) f ++ after)
    (ht : v.slots.child? f = some t) (hmarkup : (t.head.tag?.map Tag.isMarkup).getD false = true)
    (hword : ∀ pending, ∃ rest,
      markupText t.head (Tree.annotateSlots (printedRule o) t.slots) pending = text word ++ rest)
    (hplain : isPlain word.toList = true) : StartsAs A o v := by
  obtain ⟨rest, hrest⟩ := hword t.head.comments
  have hpart : part (Tree.annotateSlots (printedRule o) v.slots) f = text word ++ rest := by
    rw [part, Slots.child_annotateSlots _ ht, ← hrest]
    obtain ⟨n, h, s⟩ := t
    exact if_pos hmarkup
  rw [hpart, List.append_assoc] at hbody
  exact startsAs_plain htag hne hbody hplain

theorem startsAs_identifier (htag : v.head.tag? = some .identifier)
    (hname : A.isName (v.head.text .name) = true)
    (hne : declarationWords.contains (v.head.text .name) = false) : StartsAs A o v := by
  obtain ⟨pending, hbody⟩ := heldText_tag htag rfl o
  have hcomments : ownComments v.head v.slots = [] := by rw [ownComments, htag]
  unfold expressionText at hbody
  rw [htag] at hbody
  dsimp only at hbody
  rw [List.append_assoc] at hbody
  refine startsAs_of_silent hcomments hbody (writes_text _)
    (.name (isDeclaration_eq_false htag (by decide)) hname hne ?_)
  refine Severed.append ?_ (severed_ascription _)
  cases hoptional : v.head.flag .isOptional with
  | true =>
    rw [flagged, hoptional]
    exact severed_text (w := "?") rfl []
  | false =>
    rw [flagged, hoptional]
    exact .inl writes_nil

theorem startsAs_update (htag : v.head.tag? = some .updateExpression)
    (hleft : leftOperand? v.head v.slots = none)
    (hoperator : v.head.text .operator ∈ updateOperators) : StartsAs A o v := by
  obtain ⟨pending, hbody⟩ := heldText_tag htag rfl o
  have hplain : ∀ operator ∈ updateOperators, isPlain operator.toList = true := by decide
  unfold expressionText at hbody
  rw [htag] at hbody
  dsimp only at hbody
  split at hbody
  · rw [List.append_assoc] at hbody
    exact startsAs_plain htag (by decide) hbody (hplain _ hoperator)
  · next hfirst =>
    -- nothing stands in front of the operator
    have hnone : v.slots.child? .argument = none := by
      simpa [leftOperand?, htag, hfirst] using hleft
    have hchild : expression ((Tree.annotateSlots (printedRule o) v.slots).child .argument)
        .leftHandSide = [] := by
      rw [Slots.child, Slots.child?_annotateSlots, hnone]
      rfl
    rw [hchild, List.nil_append] at hbody
    exact startsAs_plain_only htag (by decide) hbody (hplain _ hoperator)

theorem startsAs_brace {word : String} {cs : List Char} {after : Script}
    (htag : v.head.tag? = some tag) (hmem : tag ∈ [Tag.objectExpression, .objectPattern])
    (h : heldText o v = text word ++ after) (hword : word.toList = '\x7b' :: cs) :
    StartsAs A o v := by
  have hobject : v.head.isAny [.objectExpression, .objectPattern] = true :=
    List.any_eq_true.mpr ⟨tag, hmem, beq_iff_eq.mpr htag⟩
  have hcomments : ownComments v.head v.slots = [] := by
    rw [ownComments, htag]
    rcases List.mem_cons.mp hmem with rfl | hmem
    · rfl
    · rw [List.mem_singleton.mp hmem]
  exact startsAs_of_silent hcomments h (hword ▸ writes_text word) (.object hobject)

theorem startsAs_object (htag : v.head.tag? = some .objectExpression) : StartsAs A o v := by
  obtain ⟨pending, hbody⟩ := heldText_tag htag rfl o
  unfold expressionText at hbody
  rw [htag] at hbody
  unfold objectText braces between at hbody
  dsimp only at hbody
  split at hbody
  all_goals
    simp only [List.append_assoc] at hbody
    exact startsAs_brace htag (by decide) hbody rfl

theorem startsAs_objectPattern (htag : v.head.tag? = some .objectPattern) : StartsAs A o v := by
  obtain ⟨pending, hbody⟩ := heldText_tag htag rfl o
  unfold expressionText at hbody
  rw [htag] at hbody
  unfold between at hbody
  dsimp only at hbody
  split at hbody
  · exact startsAs_brace htag (by decide) (hbody.trans (List.append_nil _).symm) rfl
  · simp only [List.append_assoc] at hbody
    exact startsAs_brace htag (by decide) hbody rfl

theorem exists_startsAs (hleft : leftOperand? v.head v.slots = none)
    (hwell : spelledWell A v.head v.slots = true) : StartsAs A o v := by
  have hbody (hf : v.head.family = .expression) := heldText_expression hf o
  generalize ({ v.head.comments with
    leading := [], inner := if keepsInner v.head then v.head.comments.inner else [] } : Comments)
    = pending at hbody
  unfold spelledWell at hwell
  -- the cases are the constructs that `spelledWell` lists, in its order
  split at hwell
  all_goals try cases hwell
  all_goals
    rename_i htag
    have hf : v.head.family = .expression := family_of_tag htag
    replace hbody := hbody hf
    unfold expressionText at hbody
    rw [htag] at hbody
    dsimp only at hbody
  case h_1 =>
    obtain ⟨hname, hne⟩ := Bool.and_eq_true_iff.mp hwell
    exact startsAs_identifier htag hname (by simpa using hne)
  case h_2 =>
    refine startsAs_plain_only htag (by decide) hbody ?_
    cases hraw : v.head.raw? with
    | none => exact isPlain_quote _ _
    | some raw =>
      rw [hraw] at hwell
      exact isPlain_quoted hwell
  case h_3 =>
    refine startsAs_plain_only htag (by decide) hbody ?_
    unfold numeralText
    cases hraw : v.head.raw? with
    | none => exact isPlain_numberText _
    | some raw =>
      rw [hraw] at hwell
      exact isPlain_numeral hwell
  case h_4 =>
    refine startsAs_plain_only htag (by decide) hbody ?_
    cases hraw : v.head.raw? with
    | none =>
      rw [hraw] at hwell
      exact isPlain_numeral (startsNumeral_append hwell _)
    | some raw =>
      rw [hraw] at hwell
      exact isPlain_numeral hwell
  case h_5 =>
    refine startsAs_plain_only htag (by decide) hbody ?_
    obtain ⟨c, hc, hne⟩ := (Option.any_eq_true _ _).mp hwell
    obtain ⟨cs, hcs⟩ := List.head?_eq_some_iff.mp hc
    simp only [String.toList_append, hcs]
    exact isPlain_slash _ hne
  case h_6 =>
    rw [List.append_assoc] at hbody
    have hplain : ∀ operator ∈ unaryOperators, isPlain operator.toList = true := by decide
    exact startsAs_plain htag (by decide) hbody (hplain _ (List.contains_iff_mem.mp hwell))
  case h_7 => exact startsAs_update htag hleft (List.contains_iff_mem.mp hwell)
  case h_8 =>
    obtain ⟨t, ht, hword⟩ := (Option.any_eq_true _ _).mp hwell
    obtain ⟨hidentifier, hname⟩ := Bool.and_eq_true_iff.mp hword
    exact startsAs_metaProperty htag ht (eq_of_beq hidentifier) (List.contains_iff_mem.mp hname)
  case h_9 =>
    obtain ⟨hdeclare, hdecorator⟩ := Bool.and_eq_true_iff.mp hwell
    exact startsAs_class htag (by simpa using hdeclare) fun t ht =>
      eq_of_beq ((Option.all_eq_true _ _).mp hdecorator t ht)
  case h_10 =>
    obtain ⟨t, ht, hopening⟩ := (Option.any_eq_true _ _).mp hwell
    have ht' : t.head.tag? = some .jsxOpeningElement := eq_of_beq hopening
    simp only [markupText, htag, List.append_assoc] at hbody
    refine startsAs_markup "<" htag (by decide) hbody ht (by rw [ht']; rfl) (fun _ => ?_) rfl
    simp only [markupText, ht', List.append_assoc]
    exact ⟨_, rfl⟩
  case h_11 =>
    obtain ⟨t, ht, hopening⟩ := (Option.any_eq_true _ _).mp hwell
    have ht' : t.head.tag? = some .jsxOpeningFragment := eq_of_beq hopening
    simp only [markupText, htag, List.append_assoc] at hbody
    refine startsAs_markup "<>" htag (by decide) hbody ht (by rw [ht']; rfl) (fun _ => ?_) rfl
    simp only [markupText, ht']
    exact ⟨[], (List.append_nil _).symm⟩
  case h_12.refl => exact startsAs_plain htag (by decide) hbody rfl
  case h_13.refl =>
    refine startsAs_plain_only htag (by decide) hbody ?_
    split <;> decide
  case h_14.refl => exact startsAs_plain_only htag (by decide) hbody (by decide)
  case h_15.refl =>
    rw [between, List.append_assoc] at hbody
    exact startsAs_plain htag (by decide) hbody (by decide)
  case h_16.refl | h_17.refl | h_18.refl =>
    exact startsAs_plain_only htag (by decide) hbody (by decide)
  case h_19.refl =>
    unfold elementsText between at hbody
    dsimp only at hbody
    rw [List.append_assoc] at hbody
    exact startsAs_plain htag (by decide) hbody (by decide)
  case h_20.refl =>
    unfold elementsText between at hbody
    dsimp only at hbody
    rw [List.append_assoc, List.append_assoc] at hbody
    exact startsAs_plain htag (by decide) hbody (by decide)
  case h_21.refl => exact startsAs_object htag
  case h_22.refl => exact startsAs_objectPattern htag
  case h_23.refl =>
    simp only [List.append_assoc] at hbody
    exact startsAs_plain htag (by decide) hbody (by decide)
  case h_24.refl => exact startsAs_plain htag (by decide) hbody (by decide)
  case h_25.refl =>
    refine startsAs_plain htag (by decide) hbody ?_
    split <;> decide
  case h_26.refl =>
    rw [between, List.append_assoc] at hbody
    exact startsAs_plain htag (by decide) hbody (by decide)
  case h_27.refl => exact startsAs_function htag
  case h_28.refl => exact startsAs_arrow htag

end StartsAs

/-! ### The first characters of an expression at a place -/

namespace Opening

/-- The comments that are written before the first character of an opening. -/
def ownComments : Opening → List Comment
  | paren _ => []
  | node v => Print.ownComments v.head v.slots

/-- The first characters of an opening, given what stands after them. -/
def Text (A : Alphabet) : Opening → List Char → Script → Prop
  | paren _, cs, _ => cs = ['(']
  | node v, cs, after => FirstText A v cs after

end Opening

namespace OpensAt

variable {A : Alphabet} {t : Node} {least : Precedence} {forced : Bool} {cs : List Comment}
  {opening : Opening}

/-- The node whose text comes first is spelled well. -/
theorem spelledWell {v : Node} (h : OpensAt t least forced cs (.node v))
    (hwell : opensWell A t = true) :
    leftOperand? v.head v.slots = none ∧ Print.spelledWell A v.head v.slots = true := by
  generalize hopening : Opening.node v = opening at h
  induction h with
  | paren _ => cases hopening
  | here _ hleft =>
    cases hopening
    rw [opensWell_eq, hleft] at hwell
    exact ⟨hleft, hwell⟩
  | left _ hleft _ ih =>
    rw [opensWell_eq, hleft] at hwell
    exact ih (Bool.and_eq_true_iff.mp hwell).2 hopening

theorem comments_eq_nil (h : OpensAt t least forced cs opening) (ht : Uncommented t) :
    cs = [] ∧ opening.ownComments = [] := by
  have hbefore {t : Node} (ht : Uncommented t) : placedBefore (some t) = [] := by
    simp [placedBefore, innerBefore, ht.comments, Comments.none]
  induction h with
  | paren _ => exact ⟨by rw [ht.comments]; rfl, rfl⟩
  | @here t least forced hparen hleft =>
    refine ⟨hbefore ht, ?_⟩
    show Print.ownComments t.head t.slots = []
    unfold Print.ownComments
    split
    · cases hname : t.slots.child? .metaName with
      | none => rfl
      | some u => exact hbefore (ht.below u (Slots.child?_mem hname))
    · cases hfirst : (t.slots.children .decorators).head? with
      | none => rfl
      | some u => exact hbefore (ht.below u (Slots.children_mem (List.mem_of_mem_head? hfirst)))
    · rfl
  | @left t u least least' forced forced' cs opening hparen hleft below ih =>
    obtain ⟨rfl, hown⟩ := ih (ht.below u (leftOperand?_mem hleft))
    refine ⟨?_, hown⟩
    rw [List.append_nil]
    exact hbefore ht

/-- **An expression begins with the first characters of its opening**, after the comments before
them. -/
theorem begins (h : OpensAt t least forced cs opening) (hwell : opensWell A t = true)
    (o : Options) : ∃ before ds after more,
      Same (printed o t (.expression least forced))
        (comments .before (cs ++ opening.ownComments) ++ (before ++ (after ++ more))) ∧
      Writes before ds ∧ opening.Text A ds after ∧ (Uncommented t → Severed A more) := by
  obtain ⟨more, hsame, hmore⟩ := h.same o
  have hsevered (ht : Uncommented t) : Severed A more := hmore A ht hwell
  cases opening with
  | paren u =>
    refine ⟨text "(", ['('], comments .before (innerBefore u.head) ++ heldText o u ++ text ")",
      more, ?_, writes_text "(", rfl, hsevered⟩
    rw [Opening.ownComments, List.append_nil]
    simpa [Opening.script, between] using hsame
  | node v =>
    obtain ⟨hleft, hspelled⟩ := h.spelledWell hwell
    obtain ⟨before, ds, after, hheld, hwrites, hfirst⟩ := exists_startsAs (o := o) hleft hspelled
    refine ⟨before, ds, after, more, ?_, hwrites, hfirst, hsevered⟩
    have hinner := (Same.refl (comments .before cs)).append (hheld.append (.refl more))
    have hjoin := (same_comments_append cs (Print.ownComments v.head v.slots)).append
      (.refl (before ++ (after ++ more)))
    simp only [List.append_assoc] at hinner hjoin
    exact hsame.trans (hinner.trans hjoin)

end OpensAt

end Typeshift.Print
