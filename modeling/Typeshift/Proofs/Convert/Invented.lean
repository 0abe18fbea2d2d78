import Typeshift.Convert.Basic
import Typeshift.Proofs.Ensures
import Typeshift.Proofs.Names
import Typeshift.Tree.Source

/-! # The names of anonymous parameters

A function type may leave its parameters without names; its signature cannot. The names that are
made up for them are the first ones of `a`, `a2`, `a3`, … that no named parameter of the signature
has. A `typeof` in the signature may ask for a value of such a name from outside, which then is a
parameter.

* `Names.trial`, `Names.untaken`: the names of a base in the order in which they are tried, and
  those among the first ones that are free.
* `Names.Given`: what a supply has given out for one base so far.
* `Node.queried`: the names that `typeof` queries mention.
* `signature_invents`: the names that are made up, and when a query mentions one of them. -/

namespace Typeshift

namespace Names

/-! ### Fresh names for one base -/

/-- The names of a base in the order in which they are tried: the base, and then the base with a
number from `2` up. -/
def trial (base : String) : Nat → String
  | 0 => base
  | k + 1 => base ++ Nat.repr (k + 2)

theorem trial_injective (base : String) : Function.Injective (trial base) := by
  have hnumber (k : Nat) : base ≠ base ++ Nat.repr k := by
    intro h
    have hlength := congrArg String.length h
    rw [String.length_append] at hlength
    have : 0 < (Nat.repr k).length := Nat.length_repr_pos
    omega
  intro j k h
  cases j with
  | zero =>
    cases k with
    | zero => rfl
    | succ k => exact absurd h (hnumber _)
  | succ j =>
    cases k with
    | zero => exact absurd h.symm (hnumber _)
    | succ k =>
      have := numbered_injective base h
      omega

/-- **A fresh name is the first one that is free.** -/
theorem exists_trial_freshName (s : Names) (base : String) :
    ∃ k, s.freshName base = trial base k ∧ s.contains (trial base k) = false ∧
      ∀ j < k, s.contains (trial base j) = true := by
  have hfree := contains_freshName s base
  unfold freshName at hfree ⊢
  split_ifs with hbase
  · rw [if_pos hbase] at hfree
    obtain ⟨n, hn, hunused⟩ := exists_free_candidate s base
    obtain ⟨x, hx⟩ := Option.isSome_iff_exists.mp
      (List.find?_isSome (p := fun n => !s.contains n).mpr ⟨n, hn, by rw [hunused]; rfl⟩)
    rw [hx, Option.getD_some] at hfree ⊢
    obtain ⟨-, i, hi, hget, hbefore⟩ := List.find?_eq_some_iff_getElem.mp hx
    have hat (j : Nat) (hj : j < (s.candidates base).length) :
        (s.candidates base)[j] = trial base (j + 1) := by
      simp [candidates, trial, Nat.add_comm]
    refine ⟨i + 1, by rw [← hget, hat], by rw [← hat i hi, hget, hfree], fun j hj => ?_⟩
    cases j with
    | zero => exact hbase
    | succ j =>
      have := hbefore j (by omega)
      rwa [hat, Bool.not_not] at this
  · exact ⟨0, rfl, Bool.eq_false_iff.mpr hbase, fun j hj => absurd hj (by omega)⟩

/-- The names among the first `m` of a base that are not in use. -/
def untaken (s : Names) (base : String) (m : Nat) : List String :=
  ((List.range m).map (trial base)).filter fun n => !s.contains n

theorem untaken_succ (s : Names) (base : String) (m : Nat) :
    s.untaken base (m + 1) =
      s.untaken base m ++ (if s.contains (trial base m) then [] else [trial base m]) := by
  unfold untaken
  rw [List.range_succ, List.map_append, List.filter_append]
  cases h : s.contains (trial base m) <;> simp [h]

theorem trial_mem_untaken {s : Names} {base : String} {k m : Nat} :
    trial base k ∈ s.untaken base m ↔ k < m ∧ s.contains (trial base k) = false := by
  simp [untaken, (trial_injective base).eq_iff]

/-- No name of a stretch is free. -/
theorem untaken_eq {s : Names} {base : String} {m k : Nat} (hk : m ≤ k)
    (h : ∀ j, m ≤ j → j < k → s.contains (trial base j) = true) :
    s.untaken base k = s.untaken base m := by
  induction hk with
  | refl => rfl
  | @step k hk ih =>
    rw [untaken_succ, h k hk (Nat.lt_succ_self k), if_pos rfl, List.append_nil]
    exact ih fun j hm hj => h j hm (Nat.lt_succ_of_lt hj)

theorem untaken_mono (s : Names) (base : String) {k m : Nat} (h : k ≤ m) :
    (s.untaken base k).length ≤ (s.untaken base m).length := by
  induction h with
  | refl => exact Nat.le_refl _
  | step _ ih =>
    rw [untaken_succ, List.length_append]
    omega

/-- A free name is among the first ones exactly if there are more of these than before it. -/
theorem trial_mem_untaken_iff {s : Names} {base : String} {k m : Nat}
    (hk : s.contains (trial base k) = false) :
    trial base k ∈ s.untaken base m ↔ (s.untaken base k).length < (s.untaken base m).length := by
  rw [trial_mem_untaken, and_iff_left hk]
  constructor
  · intro hm
    have hstep : (s.untaken base (k + 1)).length = (s.untaken base k).length + 1 := by
      rw [untaken_succ, hk]
      simp
    have := untaken_mono s base (show k + 1 ≤ m from hm)
    omega
  · intro hlength
    by_contra hm
    have := untaken_mono s base (Nat.le_of_not_lt hm)
    omega

/-- From a supply that had the names of `s` in use, some names were given out for one base: the
first ones that were free, and now they are in use too. -/
def Given (s : Names) (base : String) (given : List String) (s' : Names) : Prop :=
  (∃ m, given = s.untaken base m) ∧ ∀ n, s'.contains n = true ↔ s.contains n = true ∨ n ∈ given

theorem Given.refl (s : Names) (base : String) : s.Given base [] s :=
  ⟨⟨0, rfl⟩, fun n => by simp⟩

/-- One more name is given out. -/
theorem Given.fresh {s s' : Names} {base : String} {given : List String}
    (h : s.Given base given s') :
    s.Given base (given ++ [s'.freshName base]) (s'.fresh base).2 := by
  obtain ⟨⟨m, rfl⟩, hused⟩ := h
  obtain ⟨k, hname, hfree, hbefore⟩ := exists_trial_freshName s' base
  have hopen : s.contains (trial base k) = false ∧ trial base k ∉ s.untaken base m := by
    rw [← Bool.not_eq_true, ← not_or, ← hused, hfree]
    exact Bool.false_ne_true
  have hk : m ≤ k := by
    by_contra hlt
    exact hopen.2 (trial_mem_untaken.mpr ⟨by omega, hopen.1⟩)
  constructor
  · refine ⟨k + 1, ?_⟩
    rw [untaken_succ, hopen.1, if_neg Bool.false_ne_true, hname, untaken_eq hk]
    intro j hm hj
    rcases (hused _).mp (hbefore j hj) with h | h
    · exact h
    · exact absurd (trial_mem_untaken.mp h).1 (by omega)
  · intro n
    rw [contains_fresh_snd, Bool.or_eq_true_iff, hused, beq_iff_eq, List.mem_append,
      List.mem_singleton, or_assoc]

end Names

/-! ### Queries -/

/-- The names that a tree mentions, and those that the `typeof` queries in it mention, given those
of the parts. -/
def queryRule (h : Head) (s : Slots (List String × List String)) : List String × List String :=
  let mentioned := h.mention?.toList ++ s.toList.flatMap (·.note.1)
  (mentioned, if h.is .typeofType then mentioned else s.toList.flatMap (·.note.2))

/-- The names that `typeof` queries in a tree mention, at any depth. -/
def Node.queried (t : Node) : List String := (t.synthesize queryRule).2

namespace Convert

/-! ### Signatures -/

/-- The parameters of a function type, the rest parameter being the last one. -/
def parts (t : Part) : List Part := t.slots.children .params ++ (t.slots.child? .rest).toList

/-- The names in use for the parameters without one: those of the named parameters. -/
def named (t : Part) : Names := .ofList ((parts t).filterMap parameterName?)

/-- Whether a part is a parameter without a name. -/
def isAnonymous (t : Part) : Bool := t.head.is .functionTypeParam && (parameterName? t).isNone

/-- The name that a parameter of a signature binds. -/
def boundName? (u : Node) : Option String :=
  if u.head.is .restElement then (u.slots.child? .argument).bind (·.head.identifier?)
  else u.head.identifier?

/-- The names that parameters got which had none. -/
def inventedNames (ts : List Part) (us : List Node) : List String :=
  (ts.zip us).filterMap fun e => if isAnonymous e.1 then boundName? e.2 else none

/-- The names made up in the signature of a function type. -/
def Signature.invented (sig : Signature) (t : Part) : List String :=
  inventedNames (parts t) (sig.parameters.drop (t.slots.child? .receiver).toList.length)

/-- The names that queries mention in the types of the parameters, the rest parameter, the receiver
and the result of a function type. -/
def signatureQueries (t : Node) : List String :=
  (t.slots.children .params ++ (t.slots.child? .rest).toList ++
    (t.slots.child? .receiver).toList ++ [t.slots.child .returnType]).flatMap Node.queried

@[simp] theorem inventedNames_nil (us : List Node) : inventedNames [] us = [] := rfl

@[simp] theorem inventedNames_cons (t : Part) (ts : List Part) (u : Node) (us : List Node) :
    inventedNames (t :: ts) (u :: us) =
      (if isAnonymous t then (boundName? u).toList else []) ++ inventedNames ts us := by
  unfold inventedNames
  rw [List.zip_cons_cons, List.filterMap_cons]
  cases isAnonymous t <;> cases boundName? u <;> rfl

theorem inventedNames_append {ts ts' : List Part} {us us' : List Node}
    (h : ts.length = us.length) :
    inventedNames (ts ++ ts') (us ++ us') = inventedNames ts us ++ inventedNames ts' us' := by
  unfold inventedNames
  rw [List.zip_append h, List.filterMap_append]

theorem boundName?_param (h : Head) (name : String) (ty : Option Node) (isOptional : Bool) :
    boundName? (atOrigin h (Target.param name ty isOptional)) = some name := rfl

theorem boundName?_rest (h : Head) (name : String) (ty : Option Node) :
    boundName? (atOrigin h (Target.rest (Target.ident name) ty)) = some name := rfl

/-- **From `names` to `names'` parameters got their names**: those without one got the next free
names of the base. -/
structure Invents (names : Names) (ts : List Part) (us : List Node) (names' : Names) : Prop where
  length : ts.length = us.length
  count : (inventedNames ts us).length = ts.countP isAnonymous
  given : ∀ s given, Names.Given s parameterBase given names →
    Names.Given s parameterBase (given ++ inventedNames ts us) names'

theorem Invents.nil (names : Names) : Invents names [] [] names :=
  ⟨rfl, rfl, fun _ _ h => by rwa [inventedNames_nil, List.append_nil]⟩

theorem Invents.append {names names' names'' : Names} {ts ts' : List Part} {us us' : List Node}
    (h : Invents names ts us names') (h' : Invents names' ts' us' names'') :
    Invents names (ts ++ ts') (us ++ us') names'' where
  length := by rw [List.length_append, List.length_append, h.length, h'.length]
  count := by
    rw [inventedNames_append h.length, List.length_append, h.count, h'.count, List.countP_append]
  given s given hs := by
    rw [inventedNames_append h.length, ← List.append_assoc]
    exact h'.given s _ (h.given s given hs)

/-- A part that has a name, or is no parameter, is not named. -/
theorem Invents.skip {names : Names} {t : Part} (u : Node) (ht : isAnonymous t = false) :
    Invents names [t] [u] names := by
  have hnone : inventedNames [t] [u] = [] := by simp [ht]
  refine ⟨rfl, by simp [hnone, ht], fun s given hs => ?_⟩
  rwa [hnone, List.append_nil]

/-- A parameter gets its own name or a fresh one. -/
theorem invents_parameterName {names : Names} {t : Part} {u : Node}
    (ht : t.head.is .functionTypeParam = true)
    (hu : boundName? u = some (parameterName names t).1) :
    Invents names [t] [u] (parameterName names t).2 := by
  unfold parameterName at hu ⊢
  cases hname : parameterName? t with
  | some name =>
    refine Invents.skip u ?_
    rw [isAnonymous, hname]
    exact Bool.and_false _
  | none =>
    have hanonymous : isAnonymous t = true := by rw [isAnonymous, ht, hname]; rfl
    rw [hname] at hu
    have hone : inventedNames [t] [u] = [names.freshName parameterBase] := by
      simp [hanonymous, hu]
    refine ⟨rfl, by simp [hone, hanonymous], fun s given hs => ?_⟩
    rw [hone]
    exact hs.fresh

theorem ensures_true {α : Type} (p : Pass α) : Ensures (fun _ => True) p fun _ => True :=
  fun _ _ => ⟨True.intro, True.intro⟩

theorem invents_convertParameters : ∀ (ts : List Part) (names : Names),
    Ensures (fun _ => True) (convertParameters names ts) fun r => Invents names ts r.1 r.2
  | [], names => .pure (.nil names)
  | t :: ts, names => by
    unfold convertParameters
    split_ifs with ht
    · refine (ensures_true _).bind fun ty _ => ?_
      refine (invents_convertParameters ts _).bind fun r hr => .pure ?_
      exact (invents_parameterName ht (boundName?_param _ _ _ _)).append hr
    · refine (ensures_true _).bind fun u _ => ?_
      refine (invents_convertParameters ts names).bind fun r hr => .pure ?_
      exact (Invents.skip u (by simp [isAnonymous, ht])).append hr

/-- There are as many receivers as the function type has. -/
theorem length_convertReceiver (t? : Option Part) :
    Ensures (fun _ => True) (convertReceiver t?) fun us => us.length = t?.toList.length := by
  cases t? with
  | none => exact .pure rfl
  | some t =>
    exact (ensures_true _).bind fun _ _ => .pure rfl

/-- The rest parameter is named last; it has to be a parameter. -/
theorem invents_convertRest (names : Names) (t? : Option Part) :
    Ensures (fun _ => True) (convertRest names t?) fun r =>
      r.isSome = t?.all (·.head.is .functionTypeParam) ∧
        ∀ us ∈ r, ∃ names', Invents names t?.toList us names' := by
  cases t? with
  | none =>
    refine .pure ⟨rfl, ?_⟩
    rintro _ ⟨⟩
    exact ⟨names, .nil names⟩
  | some t =>
    simp only [convertRest]
    split_ifs with ht
    · refine (ensures_true _).bind fun ty _ => .pure ⟨ht.symm, ?_⟩
      rintro _ ⟨⟩
      exact ⟨_, invents_parameterName ht (boundName?_rest _ _ _)⟩
    · exact .pure ⟨by simpa using ht, nofun⟩

/-- The names of a signature. -/
theorem invents_signature {t : Part} (ht : t.head.is .functionType = true) :
    Ensures (fun _ => True) (signature? t) fun r =>
      r.isSome = (t.slots.child? .rest).all (·.head.is .functionTypeParam) ∧
        ∀ sig ∈ r, ∃ names', Invents (named t) (parts t)
          (sig.parameters.drop (t.slots.child? .receiver).toList.length) names' := by
  unfold signature?
  rw [ht]
  refine (length_convertReceiver _).bind fun receiver hreceiver => ?_
  refine (invents_convertParameters _ _).bind fun r hr => ?_
  refine (invents_convertRest _ _).bind ?_
  rintro (_ | rest) ⟨hsome, hrest⟩
  · exact .pure ⟨hsome, nofun⟩
  · obtain ⟨names', hrest⟩ := hrest rest rfl
    refine (ensures_true _).bind fun ps _ => ?_
    refine (ensures_true _).bind fun ty _ => .pure ⟨hsome, ?_⟩
    rintro _ ⟨⟩
    refine ⟨names', ?_⟩
    rw [← hreceiver, List.append_assoc, List.drop_left]
    exact hr.append hrest

/-- **The names of anonymous parameters.** A function type has a signature unless its rest parameter
is none. The names that are made up in it are the first ones of `a`, `a2`, `a3`, … that no named
parameter has, as many as there are parameters without a name. So a query in the signature mentions
one of them exactly if it mentions a name of that form that no named parameter has, with fewer such
names before it than there are parameters without a name. -/
theorem signature_invents (t : Node) (ht : t.head.is .functionType = true) (st : State) :
    let part := t.annotate outcome
    let names := named part
    let count := (parts part).countP isAnonymous
    (signature? part st).1.isSome = (part.slots.child? .rest).all (·.head.is .functionTypeParam) ∧
      ∀ sig ∈ (signature? part st).1,
        (∃ m, sig.invented part = names.untaken parameterBase m) ∧
        (sig.invented part).length = count ∧
        ((∃ x ∈ sig.invented part, x ∈ signatureQueries t) ↔
          ∃ k, Names.trial parameterBase k ∈ signatureQueries t ∧
            names.contains (Names.trial parameterBase k) = false ∧
            (names.untaken parameterBase k).length < count) := by
  intro part names count
  have hpart : part.head.is .functionType = true := by rwa [Tree.head_annotate]
  obtain ⟨-, hsome, hsig⟩ := invents_signature hpart st True.intro
  refine ⟨hsome, fun sig hmem => ?_⟩
  obtain ⟨names', hinvents⟩ := hsig sig hmem
  obtain ⟨⟨m, hm⟩, -⟩ := hinvents.given names [] (.refl names parameterBase)
  rw [List.nil_append, ← Signature.invented] at hm
  have hcount : (sig.invented part).length = count := hinvents.count
  refine ⟨⟨m, hm⟩, hcount, ?_⟩
  rw [← hcount, hm]
  constructor
  · rintro ⟨x, hx, hquery⟩
    obtain ⟨k, -, rfl⟩ := List.mem_map.mp (List.mem_of_mem_filter hx)
    obtain ⟨-, hfree⟩ := Names.trial_mem_untaken.mp hx
    exact ⟨k, hquery, hfree, (Names.trial_mem_untaken_iff hfree).mp hx⟩
  · rintro ⟨k, hquery, hfree, hlength⟩
    exact ⟨_, (Names.trial_mem_untaken_iff hfree).mpr hlength, hquery⟩

/-- `typeof name`. -/
def queryOf (name : String) : Node :=
  .of .typeofType [] [(.argument, .one (Source.generic name []))]

/-- `(a: typeof b, B) => typeof a`. -/
def namedFirst : Node :=
  Source.functionType
    [Source.functionParam (some "a") (queryOf "b"),
      Source.functionParam none (Source.generic "B" [])]
    (queryOf "a")

/-- The second parameter gets the name `a2`; the query for `a` is one for the first. -/
theorem signature_invents_namedFirst :
    namedFirst.head.is .functionType = true ∧
      ∃ sig, (signature? (namedFirst.annotate outcome) (.start .empty)).1 = some sig ∧
        sig.invented (namedFirst.annotate outcome) = ["a2"] ∧
        signatureQueries namedFirst = ["b", "a"] ∧
        ¬ ∃ k, Names.trial parameterBase k ∈ signatureQueries namedFirst ∧
          (named (namedFirst.annotate outcome)).contains (Names.trial parameterBase k) = false ∧
          ((named (namedFirst.annotate outcome)).untaken parameterBase k).length < 1 := by
  have hinvented : (signature? (namedFirst.annotate outcome) (.start .empty)).1.map
      (·.invented (namedFirst.annotate outcome)) = some ["a2"] := by decide
  obtain ⟨sig, hsig, hnames⟩ := Option.map_eq_some_iff.mp hinvented
  obtain ⟨-, hall⟩ := signature_invents namedFirst rfl (.start .empty)
  obtain ⟨-, -, hiff⟩ := hall sig hsig
  refine ⟨rfl, sig, hsig, hnames, by decide, fun hk => ?_⟩
  have hasked := hiff.mpr hk
  rw [hnames] at hasked
  exact absurd hasked (by decide)

/-- `(typeof a) => void`. -/
def asksOutside : Node :=
  Source.functionType [Source.functionParam none (queryOf "a")] (.leaf .voidType)

/-- In `(typeof a) => void` the parameter gets the name that its own type asks for. -/
theorem not_invented_avoidsQueries :
    ¬ ∀ (t : Node) (st : State), t.head.is .functionType = true →
      ∀ sig ∈ (signature? (t.annotate outcome) st).1,
        ∀ x ∈ sig.invented (t.annotate outcome), x ∉ signatureQueries t := by
  intro h
  have hinvented : (signature? (asksOutside.annotate outcome) (.start .empty)).1.map
      (·.invented (asksOutside.annotate outcome)) = some ["a"] := by decide
  obtain ⟨sig, hsig, hnames⟩ := Option.map_eq_some_iff.mp hinvented
  refine h asksOutside (.start .empty) rfl sig hsig "a" ?_ (by decide)
  rw [hnames]
  exact List.mem_singleton_self "a"

end Convert

end Typeshift
