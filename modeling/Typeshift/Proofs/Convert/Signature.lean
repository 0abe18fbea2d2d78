import Typeshift.Proofs.Convert.Invented

/-! # The parameters of a signature

The signature of a function type has one parameter for each of the source, first the receiver, then
the parameters and last the rest parameter. They get their names from left to right: a parameter
with a name keeps it, and one without gets the first of `a`, `a2`, `a3`, … that neither a parameter
of the source nor one to its left has. The state goes through the conversion of the types in between
and has no say in this.

* `Names.Listed`: the names in use, as a list.
* `Naming`: names given from left to right.
* `FromReceiver`, `FromParameter`, `FromRest`: what a parameter of the source keeps.
* `signature_parameters`: the parameters of a signature. -/

namespace Typeshift

/-- The names in use are those of a list. -/
def Names.Listed (names : Names) (taken : List String) : Prop :=
  ∀ n, names.contains n = true ↔ n ∈ taken

theorem Names.listed_ofList (taken : List String) : (Names.ofList taken).Listed taken := by
  intro n
  rw [contains_ofList, List.contains_iff_mem]

theorem Names.Listed.fresh {names : Names} {taken : List String} (h : names.Listed taken)
    (base : String) : (names.fresh base).2.Listed (names.freshName base :: taken) := by
  intro n
  rw [contains_fresh_snd, Bool.or_eq_true_iff, h n, beq_iff_eq, List.mem_cons, or_comm]

namespace Convert

/-! ### Names from left to right -/

/-- **Parameters get their names from left to right**, when some names are taken. One that has a
name keeps it. One without gets the first name of the base that is not taken, and takes it; at the
end `taken'` are taken. -/
inductive Naming : List String → List Part → List String → List String → Prop where
  | nil {taken : List String} : Naming taken [] [] taken
  | own {taken taken' names : List String} {t : Part} {ts : List Part} {name : String}
      (has : parameterName? t = some name) (rest : Naming taken ts names taken') :
      Naming taken (t :: ts) (name :: names) taken'
  | made {taken taken' names : List String} {t : Part} {ts : List Part} {k : Nat}
      (hasNone : parameterName? t = none)
      (free : Names.trial parameterBase k ∉ taken)
      (least : ∀ j < k, Names.trial parameterBase j ∈ taken)
      (rest : Naming (Names.trial parameterBase k :: taken) ts names taken') :
      Naming taken (t :: ts) (Names.trial parameterBase k :: names) taken'

/-- The names of the parameters that had none. -/
def madeNames (ts : List Part) (names : List String) : List String :=
  (ts.zip names).filterMap fun e => if (parameterName? e.1).isNone then some e.2 else none

theorem madeNames_cons (t : Part) (ts : List Part) (name : String) (names : List String) :
    madeNames (t :: ts) (name :: names) =
      if (parameterName? t).isNone then name :: madeNames ts names else madeNames ts names := by
  unfold madeNames
  rw [List.zip_cons_cons, List.filterMap_cons]
  cases parameterName? t <;> rfl

namespace Naming

variable {taken taken' taken'' names names' : List String} {ts ts' : List Part}

theorem append (h : Naming taken ts names taken') (h' : Naming taken' ts' names' taken'') :
    Naming taken (ts ++ ts') (names ++ names') taken'' := by
  induction h with
  | nil => exact h'
  | own has rest ih => exact .own has (ih h')
  | made hasNone free least rest ih => exact .made hasNone free least (ih h')

/-- **The names that are made up are distinct, and none of them was taken.** -/
theorem distinct (h : Naming taken ts names taken') :
    (madeNames ts names).Nodup ∧ ∀ n ∈ madeNames ts names, n ∉ taken := by
  induction h with
  | nil => exact ⟨List.nodup_nil, nofun⟩
  | own has rest ih =>
    rw [madeNames_cons, has]
    exact ih
  | @made taken _ names _ ts k hasNone free least rest ih =>
    obtain ⟨hnodup, hfree⟩ := ih
    rw [madeNames_cons, hasNone, Option.isNone_none, if_pos rfl]
    constructor
    · exact List.nodup_cons.mpr ⟨fun hk => hfree _ hk List.mem_cons_self, hnodup⟩
    · exact List.forall_mem_cons.mpr
        ⟨free, fun n hn htaken => hfree n hn (List.mem_cons_of_mem _ htaken)⟩

end Naming

/-- A parameter gets its name from the supply. -/
theorem naming_parameterName {names : Names} {taken : List String} (h : names.Listed taken)
    (t : Part) : ∃ taken', (parameterName names t).2.Listed taken' ∧
      Naming taken [t] [(parameterName names t).1] taken' := by
  unfold parameterName
  cases hname : parameterName? t with
  | some name => exact ⟨taken, h, .own hname .nil⟩
  | none =>
    obtain ⟨k, hk, hfree, hbefore⟩ := Names.exists_trial_freshName names parameterBase
    have hlisted := h.fresh parameterBase
    rw [hk] at hlisted
    refine ⟨_, hlisted, ?_⟩
    rw [Names.fresh_fst, hk]
    refine .made hname (fun hmem => ?_) (fun j hj => (h _).mp (hbefore j hj)) .nil
    rw [(h _).mpr hmem] at hfree
    cases hfree

/-! ### What the parameters keep -/

/-- The type of a parameter is the conversion of a type of the source. -/
def HasType (u : Node) (ty : Part) : Prop := ∃ st, u.slots.child? .ty = some (ascribed ty st).1

/-- A receiver became a parameter `this`. -/
structure FromReceiver (t : Part) (u : Node) : Prop where
  name : u.head.identifier? = some "this"
  required : u.head.flag .isOptional = false
  span : u.head.span = t.head.span
  type : HasType u (if t.head.is .functionTypeParam then t.slots.child .ty else t)

/-- A parameter of a function type became one of a signature, under some name. -/
structure FromParameter (t : Part) (u : Node) : Prop where
  tag : u.head.is .identifier = true
  isOptional : u.head.flag .isOptional = t.head.flag .isOptional
  comments : u.head.comments = t.head.comments
  span : u.head.span = t.head.span
  type : HasType u (t.slots.child .ty)

/-- A rest parameter of a function type became one of a signature, under some name. -/
structure FromRest (t : Part) (u : Node) : Prop where
  tag : u.head.is .restElement = true
  comments : u.head.comments = t.head.comments
  span : u.head.span = t.head.span
  type : HasType u (t.slots.child .ty)

/-- The parameters of a list became those of a signature: each keeps what `Q` says, and together
they get their names from left to right. -/
def Becomes (Q : Part → Node → Prop) (names : Names) (ts : List Part) (us : List Node)
    (names' : Names) : Prop :=
  List.Forall₂ Q ts us ∧ ∀ taken, names.Listed taken →
    ∃ given taken', us.map boundName? = given.map some ∧ names'.Listed taken' ∧
      Naming taken ts given taken'

theorem Becomes.nil (Q : Part → Node → Prop) (names : Names) : Becomes Q names [] [] names :=
  ⟨.nil, fun taken h => ⟨[], taken, rfl, h, .nil⟩⟩

theorem Becomes.one {Q : Part → Node → Prop} {names : Names} {t : Part} {u : Node} (hQ : Q t u)
    (hu : boundName? u = some (parameterName names t).1) :
    Becomes Q names [t] [u] (parameterName names t).2 := by
  refine ⟨.cons hQ .nil, fun taken h => ?_⟩
  obtain ⟨taken', hlisted, hnaming⟩ := naming_parameterName h t
  exact ⟨_, taken', by rw [List.map_singleton, hu, List.map_singleton], hlisted, hnaming⟩

/-- The names go on where those of the first list end. -/
theorem Becomes.naming {Q Q' : Part → Node → Prop} {names names' names'' : Names}
    {ts ts' : List Part} {us us' : List Node} (h : Becomes Q names ts us names')
    (h' : Becomes Q' names' ts' us' names'') {taken : List String} (htaken : names.Listed taken) :
    ∃ given taken', (us ++ us').map boundName? = given.map some ∧ names''.Listed taken' ∧
      Naming taken (ts ++ ts') given taken' := by
  obtain ⟨given, taken', hgiven, hlisted, hnaming⟩ := h.2 taken htaken
  obtain ⟨given', taken'', hgiven', hlisted', hnaming'⟩ := h'.2 taken' hlisted
  refine ⟨given ++ given', taken'', ?_, hlisted', hnaming.append hnaming'⟩
  rw [List.map_append, hgiven, hgiven', List.map_append]

theorem Becomes.append {Q : Part → Node → Prop} {names names' names'' : Names}
    {ts ts' : List Part} {us us' : List Node} (h : Becomes Q names ts us names')
    (h' : Becomes Q names' ts' us' names'') : Becomes Q names (ts ++ ts') (us ++ us') names'' :=
  ⟨List.rel_append h.1 h'.1, fun _ => h.naming h'⟩

/-! ### Going through a function type -/

/-- The conversion of a type gives what it gives in some state. -/
theorem ascribed_inSomeState (ty : Part) :
    Ensures (fun _ => True) (ascribed ty) fun u => ∃ st, u = (ascribed ty st).1 :=
  fun st _ => ⟨True.intro, st, rfl⟩

theorem becomes_convertParameters : ∀ (ts : List Part) (names : Names),
    (∀ t ∈ ts, t.head.is .functionTypeParam = true) →
    Ensures (fun _ => True) (convertParameters names ts) fun r =>
      Becomes FromParameter names ts r.1 r.2
  | [], names, _ => .pure (.nil _ names)
  | t :: ts, names, hall => by
    obtain ⟨ht, hts⟩ := List.forall_mem_cons.mp hall
    unfold convertParameters
    rw [if_pos ht]
    refine (ascribed_inSomeState _).bind ?_
    rintro ty ⟨st, rfl⟩
    refine (becomes_convertParameters ts _ hts).bind fun r hr => .pure ?_
    exact (Becomes.one ⟨rfl, rfl, rfl, rfl, st, rfl⟩ (boundName?_param _ _ _ _)).append hr

theorem becomes_convertRest (names : Names) {t? : Option Part}
    (h : ∀ t ∈ t?, t.head.is .functionTypeParam = true) :
    Ensures (fun _ => True) (convertRest names t?) fun r =>
      ∃ us names', r = some us ∧ Becomes FromRest names t?.toList us names' := by
  cases t? with
  | none => exact .pure ⟨[], names, rfl, .nil _ names⟩
  | some t =>
    simp only [convertRest]
    rw [if_pos (h t rfl)]
    refine (ascribed_inSomeState _).bind ?_
    rintro ty ⟨st, rfl⟩
    exact .pure ⟨_, _, rfl, .one ⟨rfl, rfl, rfl, st, rfl⟩ (boundName?_rest _ _ _)⟩

theorem isReceiver_convertReceiver (t? : Option Part) :
    Ensures (fun _ => True) (convertReceiver t?) (List.Forall₂ FromReceiver t?.toList) := by
  cases t? with
  | none => exact .pure .nil
  | some t =>
    refine (ascribed_inSomeState _).bind ?_
    rintro ty ⟨st, rfl⟩
    exact .pure (.cons ⟨rfl, rfl, rfl, st, rfl⟩ .nil)

theorem head_of_mem_parts {t : Node} {tag : Tag}
    (h : ∀ p ∈ t.slots.children .params ++ (t.slots.child? .rest).toList, p.head.is tag = true) :
    ∀ p ∈ parts (t.annotate outcome), p.head.is tag = true := by
  intro p hp
  unfold parts at hp
  obtain ⟨n, head, s⟩ := t
  simp only [Tree.annotate, Tree.slots_mk, Slots.children_annotateSlots, Slots.child?_annotateSlots,
    Option.toList_map, ← List.map_append] at hp
  obtain ⟨q, hq, rfl⟩ := List.mem_map.mp hp
  rw [Tree.head_annotate]
  exact h q hq

/-- **The parameters of a signature.** A function type whose parameters and rest parameter are such
has a signature in every state. Its parameters are those of the source one by one: the receiver as
`this`, then the parameters with their optional flags, comments and spans, then the rest parameter
with its comments and span. From left to right, the rest parameter last, those with a name keep it
and the others get the first of `a`, `a2`, `a3`, … that is neither the name of a parameter nor was
given before. So the names that are made up are distinct, and differ from those of all named
parameters. -/
theorem signature_parameters (t : Node) (ht : t.head.is .functionType = true)
    (hparts : ∀ p ∈ t.slots.children .params ++ (t.slots.child? .rest).toList,
      p.head.is .functionTypeParam = true) (st : State) :
    let part := t.annotate outcome
    let own := (parts part).filterMap parameterName?
    ∃ sig receiver parameters rest names taken,
      (signature? part st).1 = some sig ∧
      sig.parameters = receiver ++ parameters ++ rest ∧
      List.Forall₂ FromReceiver (part.slots.child? .receiver).toList receiver ∧
      List.Forall₂ FromParameter (part.slots.children .params) parameters ∧
      List.Forall₂ FromRest (part.slots.child? .rest).toList rest ∧
      (parameters ++ rest).map boundName? = names.map some ∧
      Naming own (parts part) names taken ∧
      (madeNames (parts part) names).Nodup ∧ ∀ n ∈ madeNames (parts part) names, n ∉ own := by
  intro part own
  have hall := head_of_mem_parts hparts
  have hpart : part.head.is .functionType = true := by rwa [Tree.head_annotate]
  have hparams := fun p hp => hall p (List.mem_append_left _ hp)
  have hrest := fun p hp => hall p (List.mem_append_right _ (Option.mem_toList.mpr hp))
  -- the names that are taken are handed from the parameters to the rest parameter, past the state
  have hsignature : Ensures (fun _ => True) (signature? part) fun r =>
      ∃ sig receiver parameters rest names' names'', r = some sig ∧
        sig.parameters = receiver ++ parameters ++ rest ∧
        List.Forall₂ FromReceiver (part.slots.child? .receiver).toList receiver ∧
        Becomes FromParameter (.ofList own) (part.slots.children .params) parameters names' ∧
        Becomes FromRest names' (part.slots.child? .rest).toList rest names'' := by
    unfold signature?
    rw [hpart]
    refine (isReceiver_convertReceiver _).bind fun receiver hreceiver => ?_
    refine (becomes_convertParameters _ _ hparams).bind fun r hr => ?_
    refine (becomes_convertRest _ hrest).bind ?_
    rintro _ ⟨rest, names'', rfl, hus⟩
    refine (ensures_true _).bind fun ps _ => ?_
    refine (ensures_true _).bind fun ty _ => .pure ?_
    exact ⟨_, receiver, r.1, rest, r.2, names'', rfl, rfl, hreceiver, hr, hus⟩
  obtain ⟨-, sig, receiver, parameters, rest, names', names'', hsig, hlist, hreceiver, hparameters,
    hus⟩ := hsignature st True.intro
  obtain ⟨names, taken, hnames, -, hnaming⟩ := hparameters.naming hus (Names.listed_ofList own)
  exact ⟨sig, receiver, parameters, rest, names, taken, hsig, hlist, hreceiver,
    hparameters.1, hus.1,
    hnames, hnaming, hnaming.distinct⟩

/-- `(this: T, x?: A, B, a: C, ...D) => void`. -/
def mixedNames : Node :=
  let param (name : Option String) (type : String) (isOptional : Bool) : Node :=
    .of .functionTypeParam [(.isOptional, .flag isOptional)]
      [(.name, .maybe (name.map Source.ident)), (.ty, .one (Source.generic type []))]
  .of .functionType []
    [(.typeParameters, .maybe none), (.receiver, .maybe (some (param none "T" false))),
      (.params,
        .many [param (some "x") "A" true, param none "B" false, param (some "a") "C" false]),
      (.rest, .maybe (some (param none "D" false))), (.returnType, .one (Node.leaf .voidType))]

/-- `(this: T, x?: A, a2: B, a: C, ...a3: D) => void`: the name of a later parameter is not free for
an earlier one. -/
theorem signature_parameters_mixedNames :
    mixedNames.head.is .functionType = true ∧
      (∀ p ∈ mixedNames.slots.children .params ++ (mixedNames.slots.child? .rest).toList,
        p.head.is .functionTypeParam = true) ∧
      ∃ sig names taken, (signature? (mixedNames.annotate outcome) (.start .empty)).1 = some sig ∧
        sig.parameters.map boundName? = some "this" :: names.map some ∧
        names = ["x", "a2", "a", "a3"] ∧
        Naming ["x", "a"] (parts (mixedNames.annotate outcome)) names taken := by
  have hparts : ∀ p ∈ mixedNames.slots.children .params ++ (mixedNames.slots.child? .rest).toList,
      p.head.is .functionTypeParam = true := by decide
  have hbound : (signature? (mixedNames.annotate outcome) (.start .empty)).1.map
      (·.parameters.map boundName?) =
        some [some "this", some "x", some "a2", some "a", some "a3"] := by decide
  obtain ⟨sig, receiver, parameters, rest, names, taken, hsig, hlist, hreceiver, -, -, hnames,
    hnaming, -⟩ := signature_parameters mixedNames rfl hparts (.start .empty)
  obtain ⟨u, rfl⟩ := List.length_eq_one_iff.mp hreceiver.length_eq.symm
  rw [hsig, Option.map_some, Option.some.injEq, hlist, List.append_assoc, List.singleton_append,
    List.map_cons, hnames] at hbound
  obtain ⟨hthis, hgiven⟩ := List.cons.inj hbound
  refine ⟨rfl, hparts, sig, names, taken, hsig, ?_, ?_, hnaming⟩
  · rw [hlist, List.append_assoc, List.singleton_append, List.map_cons, hnames, hthis]
  · exact List.map_injective_iff.mpr (fun _ _ => Option.some.inj) hgiven

end Convert

end Typeshift
