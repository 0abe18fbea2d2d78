import Typeshift.Proofs.Convert.Account
import Typeshift.Proofs.Normalize.Lossless

/-! # The ledger of temporaries

A temporary is assigned in one place and declared in another, after everything around it has been
converted. The *ledger* notes for every name that is given out whom it belongs to: a body that
declares it, or what a module exports as a whole. A temporary has no entry as long as the body
around it is being converted; then it waits in the state.

* `Body.Declares`: a body declares a variable by a `let` of its own, in the right place.
* `StemsFrom`: an assignment or a declaration that the source has too.
* `Accounted`: every other assignment and declaration is accounted for by the ledger.
* `ledger`: the account of a conversion in which all of them are. -/

namespace Typeshift

/-! ### Declarations of variables -/

/-- Whether a declarator declares a name. -/
def Node.binds (n : String) (d : Node) : Bool :=
  d.head.is .variableDeclarator && (d.slots.child? .id).any fun c => c.head.identifier? == some n

/-- Whether a statement declares a variable. -/
def Node.declaresVariable (n : String) (s : Node) : Bool :=
  s.head.is .variableDeclaration && (s.slots.children .declarations).any (Node.binds n)

/-- A statement declares a variable, once, by a `let` without an initial value. -/
structure LetDeclares (s : Node) (n : String) : Prop where
  isDeclaration : s.head.is .variableDeclaration = true
  isLet : s.head.word? .kind = some .letWord
  once : (s.slots.children .declarations).countP (Node.binds n) = 1
  noInitial : ∀ d ∈ s.slots.children .declarations, Node.binds n d = true →
    d.slots.child? .init = none

/-- What stands before and after the declarations of a body: nothing before them in a function, and
the first imports of a program. -/
def Body.Leads : Body → List Node → List Node → Prop
  | .function _, before, _ => before = []
  | .program _, before, after => (∀ s ∈ before, s.head.is .importDeclaration = true) ∧
      ∀ s ∈ after.head?, s.head.is .importDeclaration = false

/-- **A body declares a variable**: by one `let` without an initial value, first in a function and
directly after the first imports of a program, and by no other statement. -/
def Body.Declares (B : Body) (n : String) : Prop :=
  ∃ before declaration after, B.statements = before ++ declaration :: after ∧
    B.Leads before after ∧ LetDeclares declaration n ∧
    ∀ s ∈ before ++ after, s.declaresVariable n = false

namespace Convert

theorem binds_temporaryDeclarator (n m : String) :
    Node.binds n (temporaryDeclarator m) = (m == n) := by
  show (some m == some n) = (m == n)
  rfl

/-- A temporary is declared once, without an initial value. -/
theorem letDeclares_of_bare {names : List String} {n : String} (hn : n ∈ names)
    (hnodup : names.Nodup) {s : Node} (hs : s.bare = temporaryDeclaration names) :
    LetDeclares s n := by
  have hbare : (temporaryDeclaration names).bare = s.bare := hs.symm
  have hslots : s.slots = (temporaryDeclaration names).slots := Node.slots_eq_of_bare hbare
  have hchildren : s.slots.children .declarations = names.map temporaryDeclarator := by
    rw [hslots]
    rfl
  refine ⟨?_, ?_, ?_, fun d hd _ => ?_⟩
  · rw [Node.is_eq_of_bare hbare]
    rfl
  · unfold Head.word? Head.attr?
    rw [Node.attrs_eq_of_bare hbare]
    rfl
  · have hcount : names.countP (Node.binds n ∘ temporaryDeclarator) = names.count n := by
      refine List.countP_congr fun m _ => ?_
      rw [Function.comp_apply, binds_temporaryDeclarator]
    rw [hchildren, List.countP_map, hcount, List.count_eq_one_of_mem hnodup hn]
  · rw [hchildren] at hd
    obtain ⟨m, -, rfl⟩ := List.mem_map.mp hd
    rfl

/-! ### Where assignments and declarations come from -/

/-- A node is what an assignment or a declaration of a source tree became, its own comments and its
span apart. -/
def StemsFrom (t a : Node) : Prop :=
  ∃ s o st, Occurs s t o ∧ s.head.isAny origins = true ∧ a.bare = (convertTree s st).1.bare

/-- A node assigns a value to a variable. -/
def Assigns (a : Node) (n : String) : Prop := ∃ v, a.bare = Target.assign (Target.ident n) v

/-- Whom a name that was given out belongs to. -/
inductive Owner where
  | body (B : Body)
  | exports

/-- Whom the names that were given out belong to. -/
abbrev Ledger := String → Option Owner

/-- A temporary that waits for the body around it: it is no name of the source, and if there is a
body it is on the list of the temporaries to declare. -/
structure Pending (t : Node) (st : State) (G : Ledger) (n : String) : Prop where
  unmentioned : n ∉ t.mentions
  inUse : st.names.contains n = true
  unowned : G n = none
  listed : ∀ ts ∈ st.scopes.head?, n ∈ ts

/-- A temporary belongs to the nearest body, or waits for it. -/
def Awaits (t : Node) (st : State) (G : Ledger) : Option Body → String → Prop
  | some B, n => G n = some (.body B)
  | none, n => Pending t st G n

/-- What is said of a declaration of variables that the source does not have. -/
def Introduced (G : Ledger) (a : Node) (o : Option Body) : Prop :=
  (∃ n ty isDeclare, a.bare = exportsDeclaration n ty isDeclare ∧ G n = some .exports) ∨
    ∃ B names, o = some B ∧ a.bare = temporaryDeclaration names ∧ ∀ n ∈ names, G n = some (.body B)

/-- What is said of the name of a declarator. -/
def Belongs (t : Node) (G : Ledger) (o : Option Body) (n : String) : Prop :=
  n ∈ t.mentions ∨ G n = some .exports ∨ ∃ B, o = some B ∧ G n = some (.body B)

/-- **Every assignment and declaration is accounted for**: it stems from the source or is noted in
the ledger. -/
def Accounted (t : Node) (st : State) (G : Ledger) (a : Node) (o : Option Body) : Prop :=
  match a.head.tag? with
  | some .assignmentExpression => StemsFrom t a ∨ ∃ n, Assigns a n ∧ Awaits t st G o n
  | some .variableDeclaration => StemsFrom t a ∨ Introduced G a o
  | some .variableDeclarator => ∀ n, Node.binds n a = true → Belongs t G o n
  | some .tsExportAssignment => ∃ n, a.bare = Target.exportAssignment (Target.ident n) ∧
      G n = some .exports
  | _ => True

/-- What holds of the state and the ledger. -/
structure Balanced (t : Node) (st : State) (G : Ledger) : Prop where
  mentioned : ∀ n ∈ t.mentions, st.names.contains n = true ∧ G n = none
  noted : ∀ n, G n ≠ none → st.names.contains n = true
  distinct : ∀ ts ∈ st.scopes.head?, ts.Nodup
  waiting : ∀ ts ∈ st.scopes.head?, ∀ n ∈ ts,
    n ∉ t.mentions ∧ st.names.contains n = true ∧ G n = none
  declared : ∀ n B, G n = some (.body B) → B.Declares n

/-- How the state and the ledger change: names stay in use, entries stay, names in use get no entry,
and new names are added to the temporaries. -/
structure Grown (st : State) (G : Ledger) (st' : State) (G' : Ledger) : Prop where
  names : st.names.Within st'.names
  entries : ∀ n, st.names.contains n = true ∨ G n ≠ none → G' n = G n
  scopes : ∃ new, st'.scopes = st.scopes.modifyHead (· ++ new) ∧
    ∀ n ∈ new, st.names.contains n = false

namespace Grown

variable {st st' st'' : State} {G G' G'' : Ledger}

theorem refl (st : State) (G : Ledger) : Grown st G st G := by
  refine ⟨.refl _, fun _ _ => rfl, [], ?_, nofun⟩
  cases st.scopes <;> simp

theorem entry (h : Grown st G st' G') {n : String} {x : Owner} (hn : G n = some x) :
    G' n = some x := by
  rw [h.entries n (.inr (by simp [hn])), hn]

theorem trans (h : Grown st G st' G') (h' : Grown st' G' st'' G'') : Grown st G st'' G'' := by
  obtain ⟨new, hnew, hfresh⟩ := h.scopes
  obtain ⟨new', hnew', hfresh'⟩ := h'.scopes
  refine ⟨h.names.trans h'.names, fun n hn => ?_, new ++ new', ?_, fun n hn => ?_⟩
  · have hkept : st'.names.contains n = true ∨ G' n ≠ none := by
      rcases hn with hn | hn
      · exact .inl (h.names n hn)
      · exact .inr (by rwa [h.entries n (.inr hn)])
    rw [h'.entries n hkept, h.entries n hn]
  · rw [hnew', hnew]
    cases st.scopes <;> simp
  · rcases List.mem_append.mp hn with hn | hn
    · exact hfresh n hn
    · by_contra hused
      have := h.names n (by simpa using hused)
      simp [hfresh' n hn] at this

/-- What waits keeps waiting. -/
theorem pending {t : Node} {n : String} (h : Grown st G st' G') (hn : Pending t st G n) :
    Pending t st' G' n := by
  refine ⟨hn.unmentioned, h.names n hn.inUse, ?_, fun ts hts => ?_⟩
  · rw [h.entries n (.inl hn.inUse), hn.unowned]
  · obtain ⟨new, hnew, -⟩ := h.scopes
    rw [hnew, List.head?_modifyHead] at hts
    obtain ⟨ts', hts', rfl⟩ := Option.map_eq_some_iff.mp hts
    exact List.mem_append_left _ (hn.listed ts' hts')

theorem awaits {t : Node} {n : String} {o : Option Body} (h : Grown st G st' G')
    (hn : Awaits t st G o n) : Awaits t st' G' o n := by
  cases o with
  | none => exact h.pending hn
  | some B => exact h.entry hn

theorem introduced {a : Node} {o : Option Body} (h : Grown st G st' G') (ha : Introduced G a o) :
    Introduced G' a o := by
  rcases ha with ⟨n, ty, b, hbare, hn⟩ | ⟨B, names, ho, hbare, hnames⟩
  · exact .inl ⟨n, ty, b, hbare, h.entry hn⟩
  · exact .inr ⟨B, names, ho, hbare, fun n hn => h.entry (hnames n hn)⟩

theorem belongs {t : Node} {n : String} {o : Option Body} (h : Grown st G st' G')
    (hn : Belongs t G o n) : Belongs t G' o n := by
  rcases hn with hn | hn | ⟨B, ho, hn⟩
  · exact .inl hn
  · exact .inr (.inl (h.entry hn))
  · exact .inr (.inr ⟨B, ho, h.entry hn⟩)

theorem accounted {t a : Node} {o : Option Body} (h : Grown st G st' G')
    (ha : Accounted t st G a o) : Accounted t st' G' a o := by
  unfold Accounted at ha ⊢
  split at ha
  · exact ha.imp_right fun ⟨n, hassigns, hn⟩ => ⟨n, hassigns, h.awaits hn⟩
  · exact ha.imp_right h.introduced
  · exact fun n hn => h.belongs (ha n hn)
  · obtain ⟨n, hbare, hn⟩ := ha
    exact ⟨n, hbare, h.entry hn⟩
  · exact True.intro

end Grown

section Accounted

variable {t a a' : Node} {st : State} {G : Ledger} {o : Option Body}

theorem accounted_dress (h : a.bare = a'.bare) (ha : Accounted t st G a o) :
    Accounted t st G a' o := by
  have hbinds (n : String) : Node.binds n a' = Node.binds n a := by
    unfold Node.binds
    rw [Node.is_eq_of_bare h, Node.slots_eq_of_bare h]
  unfold Accounted StemsFrom Assigns Introduced at ha ⊢
  rw [Node.tag?_eq_of_bare h]
  simp only [← h, hbinds]
  exact ha

theorem accounted_of_tag {tag : Tag} (ht : a.head.tag? = some tag) (hw : tag ∉ watched) :
    Accounted t st G a o := by
  unfold Accounted
  rw [ht]
  split <;> rename_i heq
  · cases heq
    exact absurd (by decide) hw
  · cases heq
    exact absurd (by decide) hw
  · cases heq
    exact absurd (by decide) hw
  · cases heq
    exact absurd (by decide) hw
  · exact True.intro

end Accounted

/-! ### Names that are given out -/

section Fresh

variable {t : Node} {st : State} {G : Ledger} {n : String}

theorem freshName_free (base : String) (st : State) :
    st.names.contains (freshName base st).1 = false := Names.contains_freshName _ _

theorem contains_freshName_snd (base : String) (st : State) (m : String) :
    (freshName base st).2.names.contains m = true ↔
      st.names.contains m = true ∨ m = (freshName base st).1 := by
  show (st.names.fresh base).2.contains m = true ↔ _
  rw [Names.contains_fresh_snd, Bool.or_eq_true, beq_iff_eq]
  rfl

/-- A name that is not in use is no name of the source, and has no entry. -/
theorem Balanced.free (h : Balanced t st G) (hn : st.names.contains n = false) :
    n ∉ t.mentions ∧ G n = none := by
  constructor
  · intro hmem
    rw [(h.mentioned n hmem).1] at hn
    cases hn
  · by_contra hne
    rw [h.noted n hne] at hn
    cases hn

/-- A fresh temporary waits for the body around it. -/
theorem Balanced.temporary (h : Balanced t st G) : Balanced t (freshTemporary st).2 G ∧
    Grown st G (freshTemporary st).2 G ∧
      Pending t (freshTemporary st).2 G (freshTemporary st).1 := by
  have hfresh : st.names.contains (freshTemporary st).1 = false := freshName_free _ _
  have hused : ∀ m, (freshTemporary st).2.names.contains m = true ↔
      st.names.contains m = true ∨ m = (freshTemporary st).1 :=
    contains_freshName_snd temporaryBase st
  have hscopes : (freshTemporary st).2.scopes =
      st.scopes.modifyHead (· ++ [(freshTemporary st).1]) := rfl
  obtain ⟨hunmentioned, hunowned⟩ := h.free hfresh
  have hlisted {ts : List String} (hts : ts ∈ (freshTemporary st).2.scopes.head?) :
      ∃ ts' ∈ st.scopes.head?, ts = ts' ++ [(freshTemporary st).1] := by
    rw [hscopes, List.head?_modifyHead] at hts
    obtain ⟨ts', hts', rfl⟩ := Option.map_eq_some_iff.mp hts
    exact ⟨ts', hts', rfl⟩
  have hin := (hused (freshTemporary st).1).mpr (.inr rfl)
  refine ⟨⟨fun m hm => ?_, fun m hm => ?_, fun ts hts => ?_, fun ts hts m hm => ?_, h.declared⟩,
    ⟨fun m hm => (hused m).mpr (.inl hm), fun _ _ => rfl, _, hscopes, ?_⟩,
    ⟨hunmentioned, hin, hunowned, fun ts hts => ?_⟩⟩
  · exact ⟨(hused m).mpr (.inl (h.mentioned m hm).1), (h.mentioned m hm).2⟩
  · exact (hused m).mpr (.inl (h.noted m hm))
  · obtain ⟨ts', hts', rfl⟩ := hlisted hts
    refine List.nodup_append.mpr ⟨h.distinct ts' hts', List.nodup_singleton _, ?_⟩
    intro m hm m' hm' heq
    have hold := (h.waiting ts' hts' m hm).2.1
    rw [heq, List.mem_singleton.mp hm', hfresh] at hold
    cases hold
  · obtain ⟨ts', hts', rfl⟩ := hlisted hts
    rcases List.mem_append.mp hm with hm | hm
    · obtain ⟨hun, hold, hno⟩ := h.waiting ts' hts' m hm
      exact ⟨hun, (hused m).mpr (.inl hold), hno⟩
    · rw [List.mem_singleton.mp hm]
      exact ⟨hunmentioned, hin, hunowned⟩
  · exact List.forall_mem_singleton.mpr hfresh
  · obtain ⟨ts', -, rfl⟩ := hlisted hts
    exact List.mem_append_right _ (List.mem_singleton_self _)

/-- The ledger with an entry for some names. -/
def Ledger.enter (G : Ledger) (names : List String) (x : Owner) : Ledger :=
  fun n => if n ∈ names then some x else G n

theorem Ledger.enter_of_mem {names : List String} (hn : n ∈ names) (G : Ledger) (x : Owner) :
    G.enter names x n = some x := if_pos hn

theorem Ledger.enter_of_not_mem {names : List String} (hn : n ∉ names) (G : Ledger) (x : Owner) :
    G.enter names x n = G n := if_neg hn

/-- A fresh name stands for what a module exports. -/
theorem Balanced.exports (h : Balanced t st G) :
    Balanced t (freshName exportsBase st).2 (G.enter [(freshName exportsBase st).1] .exports) ∧
    Grown st G (freshName exportsBase st).2
      (G.enter [(freshName exportsBase st).1] .exports) := by
  have hused := contains_freshName_snd exportsBase st
  have hother {m : String} (hm : st.names.contains m = true) :
      G.enter [(freshName exportsBase st).1] .exports m = G m := by
    refine Ledger.enter_of_not_mem (fun hmem => ?_) G _
    rw [List.mem_singleton.mp hmem, freshName_free] at hm
    cases hm
  refine ⟨⟨fun m hm => ?_, fun m hm => ?_, h.distinct, fun ts hts m hm => ?_, fun m B hm => ?_⟩,
    ⟨fun m hm => (hused m).mpr (.inl hm), fun m hm => ?_, (Grown.refl st G).scopes⟩⟩
  · obtain ⟨hin, hno⟩ := h.mentioned m hm
    exact ⟨(hused m).mpr (.inl hin), (hother hin).trans hno⟩
  · by_cases hmem : m ∈ [(freshName exportsBase st).1]
    · exact (hused m).mpr (.inr (List.mem_singleton.mp hmem))
    · rw [Ledger.enter_of_not_mem hmem] at hm
      exact (hused m).mpr (.inl (h.noted m hm))
  · obtain ⟨hun, hin, hno⟩ := h.waiting ts hts m hm
    exact ⟨hun, (hused m).mpr (.inl hin), (hother hin).trans hno⟩
  · by_cases hmem : m ∈ [(freshName exportsBase st).1]
    · rw [Ledger.enter_of_mem hmem] at hm
      cases hm
    · rw [Ledger.enter_of_not_mem hmem] at hm
      exact h.declared m B hm
  · rcases hm with hm | hm
    · exact hother hm
    · exact hother (h.noted m hm)

end Fresh

/-! ### Leaving a body -/

section Leave

variable {t x : Node} {xs : List Node} {B : Body} {st st' : State} {G : Ledger} {n : String}
  {names : List String}

/-- What declares a variable has a declarator of it. -/
theorem exists_occurs_of_declaresVariable {s : Node} (hs : s.declaresVariable n = true) :
    ∃ d, Occurs d s none ∧ Node.binds n d = true := by
  obtain ⟨d, hd, hbinds⟩ := List.any_eq_true.mp (Bool.and_eq_true_iff.mp hs).2
  obtain ⟨slot, hslot, hmem⟩ := Slots.children_mem_slot hd
  refine ⟨d, ?_, hbinds⟩
  cases s with
  | mk u h slots =>
    have hnone : bodyAt h.tag? .declarations slot d = none := bodyAt_of_ne (by decide) _ _
    have hin : Occurs d (.mk u h slots) (none.or (bodyAt h.tag? .declarations slot d)) :=
      .within hslot hmem .here
    rwa [hnone] at hin

/-- The name of a declarator is accounted for. -/
theorem belongs_of_binds {d : Node} {o : Option Body} (hd : Accounted t st G d o)
    (hbinds : Node.binds n d = true) : Belongs t G o n := by
  unfold Accounted at hd
  rw [show d.head.tag? = some .variableDeclarator from
    beq_iff_eq.mp (Bool.and_eq_true_iff.mp hbinds).1] at hd
  exact hd n hbinds

/-- A statement does not declare a name that waits for its body. -/
theorem not_declaresVariable {s : Node} (hs : s.Each (Accounted t st G)) (hun : n ∉ t.mentions)
    (hno : G n = none) : s.declaresVariable n = false := by
  by_contra hdeclares
  obtain ⟨d, hd, hbinds⟩ :=
    exists_occurs_of_declaresVariable (Bool.not_eq_false _ |>.mp hdeclares)
  rcases belongs_of_binds (hs d none hd) hbinds with hn | hn | ⟨B, ho, -⟩
  · exact hun hn
  · cases hno.symm.trans hn
  · cases ho

/-- The statements of a block in which temporaries are declared. -/
theorem statements_declareInBody {cs : List Node} (hne : names.isEmpty = false)
    (hb : x.head.is .blockStatement = true) (hcs : x.slots.get? .body = some (.many cs)) :
    (Body.function (declareInBody names x)).statements = temporaryDeclaration names :: cs := by
  have hbody : declareInBody names x =
      .mk () x.head (x.slots.map (Normalize.onBody (temporaryDeclaration names :: ·))) := by
    have hsome : ¬ names.isEmpty = true := by
      rw [hne]
      exact Bool.false_ne_true
    unfold declareInBody
    exact (if_neg hsome).trans (if_pos hb)
  rw [hbody]
  show (if x.head.is .blockStatement then Slots.children _ .body else []) = _
  rw [if_pos hb]
  unfold Slots.children
  rw [Tree.slots_mk, Normalize.get?_map_onBody _ hcs]

/-- A function body declares the temporaries that waited for it. -/
theorem declares_declareInBody (hx : x.Each (Accounted t st G)) (hformed : Formed x)
    (hnodup : names.Nodup) (hnames : ∀ m ∈ names, m ∉ t.mentions ∧ G m = none) (hn : n ∈ names) :
    (Body.function (declareInBody names x)).Declares n := by
  have hne : names.isEmpty = false := List.isEmpty_eq_false_iff.mpr (List.ne_nil_of_mem hn)
  obtain ⟨hun, hno⟩ := hnames n hn
  have hlet := letDeclares_of_bare hn hnodup (s := temporaryDeclaration names) rfl
  by_cases hb : x.head.is .blockStatement = true
  · obtain ⟨cs, hcs⟩ := hformed.block hb
    refine ⟨[], _, cs, statements_declareInBody hne hb hcs, rfl, hlet, fun s hs => ?_⟩
    refine not_declaresVariable (hx.child (Slots.get?_mem hcs) (.inr ?_) hs) hun hno
    rw [show x.head.tag? = some .blockStatement from beq_iff_eq.mp hb]
    rfl
  · refine ⟨[], temporaryDeclaration names, [Target.returnStatement (some x)], ?_, rfl, hlet, ?_⟩
    · unfold declareInBody
      rw [hne, if_neg Bool.false_ne_true, if_neg hb]
      rfl
    · exact List.forall_mem_singleton.mpr rfl

/-- A program declares the temporaries that waited for it. -/
theorem declares_declareInProgram (hxs : ∀ x ∈ xs, x.Each (Accounted t st G))
    (hnodup : names.Nodup) (hnames : ∀ m ∈ names, m ∉ t.mentions ∧ G m = none) (hn : n ∈ names) :
    (Body.program (declareInProgram names xs)).Declares n := by
  have hne : names.isEmpty = false := List.isEmpty_eq_false_iff.mpr (List.ne_nil_of_mem hn)
  obtain ⟨hun, hno⟩ := hnames n hn
  have hnot {s : Node} (hs : s.Each (Accounted t st G)) : s.declaresVariable n = false :=
    not_declaresVariable hs hun hno
  obtain ⟨imports, rest, hspan, happend, himports, hrest⟩ :
      ∃ imports rest, xs.span (·.head.is .importDeclaration) = (imports, rest) ∧
        imports ++ rest = xs ∧ (∀ s ∈ imports, s.head.is .importDeclaration = true) ∧
        ∀ s ∈ rest.head?, s.head.is .importDeclaration = false := by
    refine ⟨_, _, List.span_eq_takeWhile_dropWhile _ _, List.takeWhile_append_dropWhile, ?_, ?_⟩
    · exact List.all_eq_true.mp List.all_takeWhile
    · intro s hs
      have hhead := List.head?_dropWhile_not (·.head.is .importDeclaration) xs
      rw [Option.mem_def.mp hs] at hhead
      simpa using hhead
  have hold {s : Node} (hs : s ∈ imports ++ rest) : s.Each (Accounted t st G) :=
    hxs s (happend ▸ hs)
  unfold declareInProgram
  rw [hne, if_neg Bool.false_ne_true]
  dsimp only
  rw [hspan]
  split
  · next first rest heq =>
    cases heq
    have hfirst : first.bare = (dropLeading first).bare := (first.bare_withComments _).symm
    refine ⟨[], _, _, rfl, ⟨nofun, ?_⟩, letDeclares_of_bare hn hnodup (Node.bare_withComments _ _),
      fun s hs => ?_⟩
    · rintro s ⟨⟩
      rw [Node.is_eq_of_bare hfirst]
      exact hrest first rfl
    · rcases List.mem_cons.mp hs with rfl | hs
      · refine hnot (Node.Each.dress (fun a a' o h ha => ?_) hfirst (hold List.mem_cons_self))
        exact accounted_dress h ha
      · exact hnot (hold (List.mem_cons_of_mem _ hs))
  · next imports rest _ heq =>
    cases heq
    exact ⟨_, _, _, rfl, ⟨himports, hrest⟩, letDeclares_of_bare hn hnodup rfl,
      fun s hs => hnot (hold hs)⟩

/-- A body declares the temporaries that waited for it. -/
theorem declares_of_encloses (henc : Encloses names xs B)
    (hxs : ∀ x ∈ xs, x.Each (Accounted t st G)) (hnodup : names.Nodup)
    (hnames : ∀ m ∈ names, m ∉ t.mentions ∧ G m = none) (hn : n ∈ names) : B.Declares n := by
  cases henc with
  | function formed =>
    exact declares_declareInBody (hxs _ (List.mem_singleton_self _)) formed hnodup hnames hn
  | program => exact declares_declareInProgram hxs hnodup hnames hn

/-- What was accounted for inside a body is accounted for by the body. -/
theorem accounted_leave {a : Node} {o ts} (hnew : ∀ m ∈ names, G m = none)
    (hlisted : names ∈ st.scopes.head?) (ha : Accounted t st G a o) :
    Accounted t { st with scopes := ts } (G.enter names (.body B)) a (o.or (some B)) := by
  have hentry {m : String} {y : Owner} (hm : G m = some y) :
    G.enter names (.body B) m = some y := by
    refine (Ledger.enter_of_not_mem (fun hmem => ?_) G _).trans hm
    cases (hnew m hmem).symm.trans hm
  unfold Accounted at ha ⊢
  split at ha
  · refine ha.imp_right fun ⟨m, hassigns, hm⟩ => ⟨m, hassigns, ?_⟩
    cases o with
    | none => exact Ledger.enter_of_mem (hm.listed names hlisted) G _
    | some B' => exact hentry hm
  · refine ha.imp_right fun hintroduced => ?_
    rcases hintroduced with ⟨m, ty, b, hbare, hm⟩ | ⟨B', ms, rfl, hbare, hms⟩
    · exact .inl ⟨m, ty, b, hbare, hentry hm⟩
    · exact .inr ⟨B', ms, rfl, hbare, fun m hm => hentry (hms m hm)⟩
  · intro m hbinds
    rcases ha m hbinds with hm | hm | ⟨B', rfl, hm⟩
    · exact .inl hm
    · exact .inr (.inl (hentry hm))
    · exact .inr (.inr ⟨B', rfl, hentry hm⟩)
  · obtain ⟨m, hbare, hm⟩ := ha
    exact ⟨m, hbare, hentry hm⟩
  · exact True.intro

/-- **Leaving a body**: the names that waited for it belong to it, and it declares them. -/
theorem Balanced.leave {G' : Ledger} (h : Balanced t st G) (h' : Balanced t st' G')
    (hgrown : Grown { st with scopes := [] :: st.scopes } G st' G')
    (henc : Encloses names xs B) (hlisted : names ∈ st'.scopes.head?)
    (hxs : ∀ x ∈ xs, x.Each (Accounted t st' G')) :
    Balanced t { st' with scopes := st'.scopes.tail } (G'.enter names (.body B)) ∧
      Grown st G { st' with scopes := st'.scopes.tail } (G'.enter names (.body B)) := by
  have hwaiting := h'.waiting names hlisted
  obtain ⟨new, hnew, hfree⟩ := hgrown.scopes
  have houter : st'.scopes.tail = st.scopes := by
    rw [hnew]
    rfl
  have hfresh {m : String} (hm : m ∈ names) : st.names.contains m = false := by
    rw [hnew] at hlisted
    cases hlisted
    exact hfree m hm
  have hused {m : String} (hm : st.names.contains m = true) :
      G'.enter names (.body B) m = G m := by
    refine (Ledger.enter_of_not_mem (fun hmem => ?_) G' _).trans (hgrown.entries m (.inl hm))
    cases hm.symm.trans (hfresh hmem)
  rw [houter]
  refine ⟨⟨fun m hm => ?_, fun m hm => ?_, h.distinct, fun ts hts m hm => ?_, fun m B' hm => ?_⟩,
    ⟨hgrown.names, fun m hm => ?_, (Grown.refl st G).scopes⟩⟩
  · exact ⟨(h'.mentioned m hm).1, (hused (h.mentioned m hm).1).trans (h.mentioned m hm).2⟩
  · by_cases hmem : m ∈ names
    · exact (hwaiting m hmem).2.1
    · rw [Ledger.enter_of_not_mem hmem] at hm
      exact h'.noted m hm
  · obtain ⟨hun, hin, hno⟩ := h.waiting ts hts m hm
    exact ⟨hun, hgrown.names m hin, (hused hin).trans hno⟩
  · by_cases hmem : m ∈ names
    · rw [Ledger.enter_of_mem hmem] at hm
      cases hm
      exact declares_of_encloses henc hxs (h'.distinct names hlisted)
        (fun k hk => ⟨(hwaiting k hk).1, (hwaiting k hk).2.2⟩) hmem
    · rw [Ledger.enter_of_not_mem hmem] at hm
      exact h'.declared m B' hm
  · rcases hm with hm | hm
    · exact hused hm
    · exact hused (h.noted m hm)

end Leave

/-! ### The account -/

theorem mem_mentions_of_occurs {t c : Node} {o : Option Body} {n : String} (hc : Occurs c t o)
    (hn : c.head.identifier? = some n) : n ∈ t.mentions := by
  refine List.mem_filterMap.mpr ⟨c.head, hc.head_mem_preorder, ?_⟩
  unfold Head.identifier? at hn
  split_ifs at hn with hi
  cases hn
  exact if_pos (isAny_of_tag (beq_iff_eq.mp hi) (by decide))

/-- What an assignment or a declaration of the source becomes stems from it. -/
theorem stemsFrom_convertNode {t : Node} {h : Head} {s : Slots Unit} {o : Option Body}
    (hs : Occurs (.mk () h s) t o) (hany : h.isAny origins = true) (st : State) :
    StemsFrom t (convertNode h (Tree.annotateSlots outcome s) st).1 := by
  refine ⟨_, o, st, hs, hany, ?_⟩
  show _ = (attach h (convertNode h (Tree.annotateSlots outcome s) st).1).bare
  simp [attach]

/-- **The account of temporaries**: every assignment and declaration that the source does not have
is noted in the ledger. -/
def ledger (t₀ : Node) : Account Ledger where
  Inv := Balanced t₀
  Le := Grown
  source t := t.Every Sourced ∧ ∃ o, Occurs t t₀ o
  mentioned n := n ∈ t₀.mentions
  chains := True
  Ok := Accounted t₀
  refl := Grown.refl
  trans := Grown.trans
  lasts := Grown.accounted
  dress := accounted_dress
  fits ht := by
    cases ht.1 with
    | mk here _ => exact here.1
  parts := by
    rintro ⟨⟨⟩, h, s⟩ ⟨hevery, o, ho⟩ c hc
    cases hevery with
    | mk _ below =>
      obtain ⟨o', ho'⟩ := Occurs.child hc
      exact ⟨below c hc, _, ho'.trans ho⟩
  name ht hn := mem_mentions_of_occurs ht.2.choose_spec hn
  chain _ _ := True.intro
  report _ h := ⟨⟨h.mentioned, h.noted, h.distinct, h.waiting, h.declared⟩,
    ⟨.refl _, fun _ _ => rfl, (Grown.refl _ default).scopes⟩⟩
  ambient _ h := ⟨h.mentioned, h.noted, h.distinct, h.waiting, h.declared⟩
  ambient_le _ _ h := ⟨h.names, h.entries, h.scopes⟩
  enter h := ⟨h.mentioned, h.noted, by simp, by simp, h.declared⟩
  leave {st st' G G' xs B} h h' hgrown henc hxs := by
    obtain ⟨new, hnew, -⟩ := hgrown.scopes
    have hlisted : st'.scopes.headD [] ∈ st'.scopes.head? := by
      rw [hnew]
      rfl
    obtain ⟨hkept, hle⟩ := h.leave h' hgrown henc hlisted hxs
    refine ⟨_, hkept, hle, fun a o ha => ?_, .inr (.inr ⟨B, _, rfl, rfl, fun n hn => ?_⟩), ?_⟩
    · exact accounted_leave (fun m hm => (h'.waiting _ hlisted m hm).2.2) hlisted ha
    · exact Ledger.enter_of_mem hn G' _
    · intro n hn m hm
      rw [binds_temporaryDeclarator] at hm
      cases beq_iff_eq.mp hm
      exact .inr (.inr ⟨B, rfl, Ledger.enter_of_mem hn G' _⟩)
  temporary {st G} _ h := by
    obtain ⟨hkept, hle, hpending⟩ := h.temporary
    exact ⟨G, hkept, hle, fun v => .inr ⟨_, ⟨v, rfl⟩, hpending⟩⟩
  exports {st G} h := by
    obtain ⟨hkept, hle⟩ := h.exports
    have hentry := Ledger.enter_of_mem (List.mem_singleton_self (freshName exportsBase st).1) G
      .exports
    refine ⟨_, hkept, hle, fun o => ⟨fun ty b => ?_, fun ty m hm => ?_, _, rfl, hentry⟩⟩
    · exact .inr (.inl ⟨_, ty, b, rfl, hentry⟩)
    · cases beq_iff_eq.mp (show (some _ == some m) = true from hm)
      exact .inr (.inl hentry)
  unsupported _ _ := True.intro
  plain _ _ _ hw := accounted_of_tag rfl hw
  declarator {_ _ _ _ s} hs n hn := by
    obtain ⟨c, hc, hn⟩ := (Option.any_eq_true _ _).mp (Bool.and_eq_true_iff.mp hn).2
    exact .inl (hs c n hc (beq_iff_eq.mp hn))
  origin {_ _ _ h s} st₀ hsource hany := by
    obtain ⟨hevery, o, ho⟩ := hsource
    have hstems := stemsFrom_convertNode ho hany st₀
    obtain ⟨tag, hmem, htag⟩ := List.any_eq_true.mp hany
    have htag : h.tag? = some tag := beq_iff_eq.mp htag
    have hside : tag.isIn .source = true := by
      cases hevery with
      | mk here _ => exact here.2 tag htag
    have hresult := tag?_convertNode_origin hany (Tree.annotateSlots outcome s) st₀
    unfold Head.is at hresult
    rw [htag] at hresult
    unfold Accounted
    rw [hresult]
    simp only [origins, List.mem_cons, List.not_mem_nil, or_false] at hmem
    rcases hmem with rfl | rfl | rfl | rfl
    · exact .inl hstems
    · exact .inl hstems
    · exact .inl hstems
    · cases hside

/-- At the start nothing has been given out. -/
theorem kept_start (t : Node) : Balanced t (.start t.names) fun _ => none where
  mentioned n hn := ⟨(t.contains_names n).mpr hn, rfl⟩
  noted _ h := absurd rfl h
  distinct := nofun
  waiting := nofun
  declared := nofun

end Convert

end Typeshift
