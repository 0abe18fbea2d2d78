import Mathlib.Data.List.Count
import Mathlib.Data.List.Infix
import Mathlib.Logic.Function.Basic
import Typeshift.Diagnostic.Basic

/-! # Arguments in the places of a message

The arguments of a message belong into the places of its template. Here the template is cut into
places and single characters first, and then every place is filled, so that nothing that comes from
an argument is looked at again. The messages are made in another way: the place of one argument is
filled after the other, each time in what came out before, and an argument, or the text around its
place, may make a new place. Both ways come to the same exactly as long as that does not happen.

* `Template.items`: the places and the characters of a text.
* `Template.substitute`: all arguments put into a template at once.
* `Template.fill_update_iff`: one more place is filled, and no other text is taken for it.
* `formatMessage_substitutes_iff`: when a message has its arguments put in at once. -/

namespace Typeshift

namespace Template

/-! ### Places -/

/-- The place that a text begins with. -/
def placeAt? (cs : List Char) : Option Nat :=
  let i := Nat.ofDigitChars 10 (cs.tail.takeWhile Char.isDigit) 0
  if (place i).toList.isPrefixOf cs then some i else none

/-- A single character of a text, or a place. -/
inductive Item where
  | char (c : Char)
  | place (i : Nat)
  deriving DecidableEq

/-- The items of a text. The first `skip` characters belong to a place that is already cut off. -/
def itemsFrom : Nat → List Char → List Item
  | _, [] => []
  | skip + 1, _ :: cs => itemsFrom skip cs
  | 0, c :: cs =>
    match placeAt? (c :: cs) with
    | some i => .place i :: itemsFrom ((place i).toList.length - 1) cs
    | none => .char c :: itemsFrom 0 cs

/-- **The places and the characters of a text.** -/
abbrev items (cs : List Char) : List Item := itemsFrom 0 cs

/-- An item with the text for its place, if there is one. -/
def Item.fill (v : Nat → Option (List Char)) : Item → List Char
  | .char c => [c]
  | .place i => (v i).getD (Typeshift.place i).toList

/-- Items with their places filled. -/
def fill (v : Nat → Option (List Char)) (is : List Item) : List Char := is.flatMap (Item.fill v)

/-- The texts for the places of arguments. -/
def arguments (args : List String) (i : Nat) : Option (List Char) := args[i]?.map String.toList

/-- **All arguments put into a template at once.** A place without an argument stays. -/
def substitute (template : String) (args : List String) : String :=
  .ofList (fill (arguments args) (items template.toList))

/-- How often the place of an argument is in a text. -/
def occurrences (i : Nat) (s : String) : Nat := (items s.toList).count (.place i)

theorem toList_place (i : Nat) :
    (place i).toList = '\x7b' :: (Nat.toDigits 10 i ++ ['\x7d']) := by
  unfold place
  rw [String.toList_append, String.toList_append, Nat.toList_repr]
  rfl

theorem isDigit_of_mem {i : Nat} {c : Char} (hc : c ∈ Nat.toDigits 10 i) : c.isDigit = true :=
  Nat.isDigit_of_mem_toDigits (by decide) (by decide) hc

/-- A place does not begin inside of a place. -/
theorem brace_not_mem (i : Nat) : '\x7b' ∉ Nat.toDigits 10 i ++ ['\x7d'] := by
  rw [List.mem_append, not_or]
  exact ⟨fun h => absurd (isDigit_of_mem h) (by decide), by decide⟩

theorem placeAt?_eq_some {cs : List Char} {i : Nat} :
    placeAt? cs = some i ↔ (place i).toList <+: cs := by
  unfold placeAt?
  constructor
  · intro h
    dsimp only at h
    split at h
    · next hi =>
      cases h
      exact List.isPrefixOf_iff_prefix.mp hi
    · cases h
  · rintro ⟨rest, rfl⟩
    have hdigits : ((place i).toList ++ rest).tail.takeWhile Char.isDigit = Nat.toDigits 10 i := by
      rw [toList_place, List.cons_append, List.tail_cons, List.append_assoc,
        List.takeWhile_append_of_pos fun _ => isDigit_of_mem]
      simp [Char.isDigit]
    rw [hdigits, Nat.ofDigitChars_toDigits (by decide) (by decide)]
    exact if_pos (List.isPrefixOf_iff_prefix.mpr (List.prefix_append _ _))

theorem placeAt?_of_ne {c : Char} (hc : c ≠ '\x7b') (cs : List Char) :
    placeAt? (c :: cs) = none := by
  refine Option.eq_none_iff_forall_ne_some.mpr fun i hi => hc ?_
  rw [placeAt?_eq_some, toList_place, List.cons_prefix_cons] at hi
  exact hi.1.symm

/-- A place that begins before another one ends before it. -/
theorem prefix_of_append_place {i j : Nat} {c : Char} {xs ys : List Char}
    (h : (place i).toList <+: c :: (xs ++ ((place j).toList ++ ys))) :
    (place i).toList <+: c :: xs := by
  rw [toList_place, List.cons_prefix_cons] at h ⊢
  refine ⟨h.1, ?_⟩
  have hbrace : xs ++ ['\x7b'] <+: xs ++ ((place j).toList ++ ys) := by
    rw [toList_place]
    exact (List.prefix_append_right_inj xs).mpr ⟨_, rfl⟩
  rcases List.prefix_or_prefix_of_prefix h.2 hbrace with hle | hle
  · refine (List.prefix_concat_iff.mp hle).resolve_left fun heq => brace_not_mem i ?_
    rw [heq]
    exact List.mem_append_right _ (List.mem_singleton_self _)
  · exact absurd (hle.subset (List.mem_append_right _ (List.mem_singleton_self _)))
      (brace_not_mem i)

/-! ### Items -/

@[simp] theorem items_nil : items [] = [] := rfl

theorem itemsFrom_skip (a cs : List Char) : itemsFrom a.length (a ++ cs) = items cs := by
  induction a with
  | nil => rfl
  | cons c a ih => exact ih

theorem items_place (i : Nat) (cs : List Char) :
    items ((place i).toList ++ cs) = .place i :: items cs := by
  have hplace : placeAt? ((place i).toList ++ cs) = some i :=
    placeAt?_eq_some.mpr (List.prefix_append _ _)
  have hlength : (place i).toList.length - 1 = (Nat.toDigits 10 i ++ ['\x7d']).length := by
    rw [toList_place, List.length_cons, Nat.add_sub_cancel]
  rw [toList_place, List.cons_append] at hplace ⊢
  rw [items, itemsFrom, hplace]
  dsimp only
  rw [hlength, itemsFrom_skip]

theorem items_char {c : Char} {cs : List Char} (h : placeAt? (c :: cs) = none) :
    items (c :: cs) = .char c :: items cs := by
  rw [items, itemsFrom, h]

/-- Going through a text item by item. -/
theorem items_induct {motive : List Char → Prop} (nil : motive [])
    (place : ∀ i cs, motive cs → motive ((place i).toList ++ cs))
    (char : ∀ c cs, placeAt? (c :: cs) = none → motive cs → motive (c :: cs)) :
    ∀ cs, motive cs := by
  intro cs
  induction hn : cs.length using Nat.strongRecOn generalizing cs with
  | ind n ih =>
    cases cs with
    | nil => exact nil
    | cons c cs =>
      cases h : placeAt? (c :: cs) with
      | none => exact char c cs h (ih _ (by rw [← hn, List.length_cons]; omega) cs rfl)
      | some i =>
        obtain ⟨rest, hrest⟩ := placeAt?_eq_some.mp h
        rw [← hrest]
        refine place i rest (ih _ ?_ rest rfl)
        rw [← hn, ← hrest, toList_place, List.length_append, List.length_cons]
        omega

/-- If a place begins at every opening brace, no brace is an item. -/
theorem brace_not_mem_items {cs : List Char}
    (h : ∀ s ∈ cs.tails, s.head? = some '\x7b' → (placeAt? s).isSome) :
    .char '\x7b' ∉ items cs := by
  induction cs using items_induct with
  | nil => exact List.not_mem_nil
  | place i cs ih =>
    rw [items_place, List.mem_cons, not_or]
    refine ⟨Item.noConfusion, ih fun s hs => h s ?_⟩
    rw [List.mem_tails] at hs ⊢
    exact hs.trans (List.suffix_append _ _)
  | char c cs hnone ih =>
    rw [items_char hnone, List.mem_cons, not_or]
    refine ⟨fun hc => ?_, ih fun s hs => h s ?_⟩
    · cases hc
      have hplace := h _ ((List.mem_tails _ _).mpr List.suffix_rfl) rfl
      rw [hnone] at hplace
      cases hplace
    · rw [List.mem_tails] at hs ⊢
      exact hs.trans (List.suffix_cons _ _)

/-- A place is an item wherever it stands. -/
theorem items_append_place (j : Nat) (xs ys : List Char) :
    items (xs ++ ((place j).toList ++ ys)) = items xs ++ .place j :: items ys := by
  induction xs using items_induct with
  | nil => exact items_place j ys
  | place i xs ih => rw [List.append_assoc, items_place, items_place, ih, List.cons_append]
  | char c xs h ih =>
    have hnone : placeAt? (c :: (xs ++ ((place j).toList ++ ys))) = none := by
      refine Option.eq_none_iff_forall_ne_some.mpr fun i hi => ?_
      have hhere := placeAt?_eq_some.mpr (prefix_of_append_place (placeAt?_eq_some.mp hi))
      exact Option.some_ne_none i (hhere.symm.trans h)
    rw [List.cons_append, items_char hnone, items_char h, ih, List.cons_append]

/-- A text without an opening brace has no place. -/
theorem items_append_of_not_mem {xs : List Char} (hxs : '\x7b' ∉ xs) (ys : List Char) :
    items (xs ++ ys) = xs.map .char ++ items ys := by
  induction xs with
  | nil => rfl
  | cons c xs ih =>
    rw [List.mem_cons, not_or] at hxs
    rw [List.cons_append, items_char (placeAt?_of_ne (Ne.symm hxs.1) _), ih hxs.2, List.map_cons,
      List.cons_append]

/-! ### Filling places -/

section Fill

variable {v w : Nat → Option (List Char)} {is js : List Item} {k : Nat} {text : List Char}

@[simp] theorem fill_nil : fill v [] = [] := rfl

@[simp] theorem fill_cons (x : Item) : fill v (x :: is) = x.fill v ++ fill v is := rfl

@[simp] theorem fill_append : fill v (is ++ js) = fill v is ++ fill v js := List.flatMap_append

theorem fill_congr (h : ∀ x ∈ is, x.fill v = x.fill w) : fill v is = fill w is :=
  congrArg List.flatten (List.map_congr_left h)

theorem Item.fill_update_of_ne {x : Item} (hx : x ≠ .place k) :
    x.fill (Function.update v k (some text)) = x.fill v := by
  cases x with
  | char c => rfl
  | place i => rw [fill, fill, Function.update_of_ne fun h => hx (congrArg Item.place h)]

theorem fill_update_of_not_mem (hk : .place k ∉ is) :
    fill (Function.update v k (some text)) is = fill v is :=
  fill_congr fun _ hx => Item.fill_update_of_ne fun h => hk (h ▸ hx)

/-- A place that is filled with itself stays. -/
theorem fill_update_place (hv : v k = none) (is : List Item) :
    fill (Function.update v k (some (place k).toList)) is = fill v is := by
  refine fill_congr fun x _ => ?_
  by_cases hx : x = .place k
  · rw [hx, Item.fill, Item.fill, Function.update_self, hv]
    rfl
  · exact Item.fill_update_of_ne hx

/-- A text is made of its items. -/
theorem fill_items (cs : List Char) : fill (fun _ => none) (items cs) = cs := by
  induction cs using items_induct with
  | nil => rfl
  | place i cs ih => rw [items_place, fill_cons, ih]; rfl
  | char c cs h ih => rw [items_char h, fill_cons, ih]; rfl

/-- Replacing the place of one argument fills it wherever it stands. -/
theorem replaceFrom_place (k : Nat) (text cs : List Char) :
    Text.replaceFrom (place k).toList text 0 cs =
      fill (Function.update (fun _ => none) k (some text)) (items cs) := by
  induction cs using items_induct with
  | nil => exact Text.replaceFrom_nil _ _ _
  | place i cs ih =>
    rw [items_place, fill_cons, Item.fill, ← ih]
    by_cases hi : i = k
    · rw [hi, Function.update_self, Option.getD_some, toList_place, List.cons_append,
        Text.replaceFrom_occurrence]
    · have hnot : ¬(place k).toList <+: (place i).toList ++ cs := fun h => by
        have hk := placeAt?_eq_some.mpr h
        rw [placeAt?_eq_some.mpr (List.prefix_append _ _)] at hk
        exact hi (Option.some.inj hk)
      rw [Function.update_of_ne hi, Option.getD_none]
      rw [toList_place i, List.cons_append] at hnot ⊢
      rw [Text.replaceFrom_cons hnot, toList_place k, Text.replaceFrom_append (brace_not_mem i),
        List.cons_append]
  | char c cs h ih =>
    have hnot : ¬(place k).toList <+: c :: cs := fun hk =>
      Option.some_ne_none k ((placeAt?_eq_some.mpr hk).symm.trans h)
    rw [items_char h, fill_cons, ← ih, Text.replaceFrom_cons hnot]
    rfl

/-! ### One more place -/

/-- Filling one more place changes the length by what its text is longer or shorter, once for each
time that the place is there. -/
theorem length_fill_update (hv : v k = none) (text : List Char) (is : List Item) :
    (fill (Function.update v k (some text)) is).length +
        is.count (.place k) * (place k).toList.length =
      (fill v is).length + is.count (.place k) * text.length := by
  induction is with
  | nil => simp
  | cons x is ih =>
    rw [fill_cons, fill_cons, List.length_append, List.length_append]
    by_cases hx : x = .place k
    · subst hx
      rw [List.count_cons_self, Item.fill, Item.fill, Function.update_self, hv, Option.getD_some,
        Option.getD_none, Nat.add_mul, Nat.add_mul, Nat.one_mul, Nat.one_mul]
      omega
    · rw [List.count_cons_of_ne hx, Item.fill_update_of_ne hx]
      omega

/-- Items up to the first time that a place is there. -/
theorem items_cut {motive : List Item → Prop} (k : Nat)
    (without : ∀ is, .place k ∉ is → motive is)
    (cut : ∀ is js, .place k ∉ is → motive js → motive (is ++ .place k :: js)) :
    ∀ is, motive is := by
  intro is
  induction hn : is.length using Nat.strongRecOn generalizing is with
  | ind n ih =>
    by_cases hk : Item.place k ∈ is
    · obtain ⟨front, back, rfl, hfront⟩ := List.eq_append_cons_of_mem hk
      refine cut front back hfront (ih _ ?_ back rfl)
      rw [← hn, List.length_append, List.length_cons]
      omega
    · exact without is hk

/-- A place that is not filled is there as often as before, or more often. -/
theorem count_le_count_fill (hv : v k = none) (is : List Item) :
    is.count (.place k) ≤ (items (fill v is)).count (.place k) := by
  induction is using items_cut k with
  | without is hk => rw [List.count_eq_zero_of_not_mem hk]; exact Nat.zero_le _
  | cut is js hk ih =>
    rw [fill_append, fill_cons, Item.fill, hv, Option.getD_none, items_append_place,
      List.count_append, List.count_append, List.count_cons_self, List.count_cons_self,
      List.count_eq_zero_of_not_mem hk]
    omega

/-- A text that stays when a place in it is filled has no such place, if the length of the place
is that of the text for it. -/
theorem count_eq_zero_of_fill_eq (htext : text ≠ (place k).toList)
    (hlength : text.length = (place k).toList.length) (is : List Item)
    (heq : fill (Function.update (fun _ => none) k (some text)) is = fill (fun _ => none) is) :
    is.count (.place k) = 0 := by
  induction is with
  | nil => rfl
  | cons x is ih =>
    rw [fill_cons, fill_cons] at heq
    by_cases hx : x = .place k
    · rw [hx, Item.fill, Function.update_self] at heq
      exact absurd (List.append_inj_left heq hlength) htext
    · rw [Item.fill_update_of_ne hx] at heq
      rw [List.count_cons_of_ne hx, ih (List.append_cancel_left heq)]

/-- A place in items of which it divides the text. -/
theorem fill_cut (hv : v k = none) (is js : List Item) :
    fill v (is ++ .place k :: js) = fill v is ++ ((place k).toList ++ fill v js) := by
  rw [fill_append, fill_cons, Item.fill, hv, Option.getD_none]

theorem fill_update_cut (is js : List Item) :
    fill (Function.update v k (some text)) (is ++ .place k :: js) =
      fill (Function.update v k (some text)) is ++
        (text ++ fill (Function.update v k (some text)) js) := by
  rw [fill_append, fill_cons, Item.fill, Function.update_self, Option.getD_some]

/-- If one more place is filled with a text of its own length as if it were filled together with
the others, no other text is taken for it. -/
theorem count_of_fill_eq (hv : v k = none) (htext : text ≠ (place k).toList)
    (hlength : text.length = (place k).toList.length) (is : List Item)
    (heq : fill (Function.update (fun _ => none) k (some text)) (items (fill v is)) =
      fill (Function.update v k (some text)) is) :
    (items (fill v is)).count (.place k) = is.count (.place k) := by
  induction is using items_cut k with
  | without is hk =>
    rw [fill_update_of_not_mem hk] at heq
    rw [List.count_eq_zero_of_not_mem hk]
    exact count_eq_zero_of_fill_eq htext hlength _ (heq.trans (fill_items _).symm)
  | cut is js hk ih =>
    rw [fill_cut hv, items_append_place] at heq ⊢
    have hplain : fill (Function.update v k (some text)) is = fill v is := fill_update_of_not_mem hk
    rw [fill_update_cut, fill_update_cut, hplain] at heq
    have hfront : (fill (Function.update (fun _ => none) k (some text))
        (items (fill v is))).length = (fill v is).length := by
      have hupdate := length_fill_update (v := fun _ => none) (k := k) rfl text
        (items (fill v is))
      rw [fill_items, hlength] at hupdate
      omega
    obtain ⟨hfront, hback⟩ := List.append_inj heq hfront
    have hzero := count_eq_zero_of_fill_eq htext hlength _ (hfront.trans (fill_items _).symm)
    rw [List.count_append, List.count_append, List.count_cons_self, List.count_cons_self, hzero,
      ih (List.append_cancel_left hback), List.count_eq_zero_of_not_mem hk]

/-- If no other text is taken for it, one more place is filled as if it were filled together with
the others. -/
theorem fill_eq_of_count (hv : v k = none) (is : List Item)
    (hcount : (items (fill v is)).count (.place k) = is.count (.place k)) :
    fill (Function.update (fun _ => none) k (some text)) (items (fill v is)) =
      fill (Function.update v k (some text)) is := by
  induction is using items_cut k with
  | without is hk =>
    rw [List.count_eq_zero_of_not_mem hk] at hcount
    rw [fill_update_of_not_mem hk, fill_update_of_not_mem (List.count_eq_zero.mp hcount),
      fill_items]
  | cut is js hk ih =>
    have hle := count_le_count_fill hv js
    rw [fill_cut hv, items_append_place, List.count_append, List.count_append, List.count_cons_self,
      List.count_cons_self, List.count_eq_zero_of_not_mem hk] at hcount
    have hfront : .place k ∉ items (fill v is) := List.count_eq_zero.mp (by omega)
    rw [fill_cut hv, items_append_place, fill_update_cut, fill_update_cut, ih (by omega),
      fill_update_of_not_mem hfront, fill_items, fill_update_of_not_mem hk]

/-- **One more place is filled**, in a text in which other places are filled already. This is as if
it were filled together with them, exactly if no text that was put in before is taken for it, or if
it is filled with itself. -/
theorem fill_update_iff (hv : v k = none) (text : List Char) (is : List Item) :
    fill (Function.update (fun _ => none) k (some text)) (items (fill v is)) =
        fill (Function.update v k (some text)) is ↔
      text = (place k).toList ∨ (items (fill v is)).count (.place k) = is.count (.place k) := by
  constructor
  · intro heq
    by_cases htext : text = (place k).toList
    · exact .inl htext
    by_cases hlength : text.length = (place k).toList.length
    · exact .inr (count_of_fill_eq hv htext hlength is heq)
    -- otherwise the lengths tell how often the place is filled
    have hleft := length_fill_update (v := fun _ => none) (k := k) rfl text (items (fill v is))
    have hright := length_fill_update hv text is
    obtain ⟨more, hmore⟩ := Nat.exists_eq_add_of_le (count_le_count_fill hv is)
    rw [fill_items, heq, hmore, Nat.add_mul, Nat.add_mul] at hleft
    have hzero : more * (place k).toList.length = more * text.length := by omega
    rcases Nat.eq_zero_or_pos more with h | h
    · exact .inr (by rw [hmore, h, Nat.add_zero])
    · exact absurd (Nat.eq_of_mul_eq_mul_left h hzero).symm hlength
  · rintro (rfl | hcount)
    · rw [fill_update_place hv, fill_update_place rfl, fill_items]
    · exact fill_eq_of_count hv is hcount

/-- If the template has no brace but those of its places, and no text for a place has one, then the
places that are not filled are as many as before. -/
theorem count_fill_of_not_mem (hv : v k = none) (htexts : ∀ i text, v i = some text → '\x7b' ∉ text)
    (his : .char '\x7b' ∉ is) : (items (fill v is)).count (.place k) = is.count (.place k) := by
  induction is with
  | nil => rfl
  | cons x is ih =>
    rw [List.mem_cons, not_or] at his
    rw [fill_cons]
    cases x with
    | char c =>
      have hc : c ≠ '\x7b' := fun h => his.1 (congrArg Item.char h.symm)
      rw [Item.fill, List.singleton_append, items_char (placeAt?_of_ne hc _),
        List.count_cons_of_ne Item.noConfusion, List.count_cons_of_ne Item.noConfusion, ih his.2]
    | place i =>
      rw [Item.fill]
      cases hi : v i with
      | none => rw [Option.getD_none, items_place, List.count_cons, List.count_cons, ih his.2]
      | some text =>
        have hne : Item.place i ≠ .place k := fun h => by
          cases h
          rw [hv] at hi
          cases hi
        have htext : (text.map Item.char).count (.place k) = 0 := List.count_eq_zero.mpr fun h => by
          obtain ⟨_, -, h⟩ := List.mem_map.mp h
          cases h
        rw [Option.getD_some, items_append_of_not_mem (htexts i text hi), List.count_append, htext,
          Nat.zero_add, ih his.2, List.count_cons_of_ne hne]

end Fill

/-! ### One more argument -/

section Arguments

variable {template : String} {args : List String} {a : String}

theorem arguments_length (args : List String) : arguments args args.length = none := by
  rw [arguments, List.getElem?_eq_none (Nat.le_refl _), Option.map_none]

theorem arguments_append (args : List String) (a : String) :
    arguments (args ++ [a]) =
      Function.update (arguments args) args.length (some a.toList) := by
  funext i
  rcases Nat.lt_trichotomy i args.length with h | rfl | h
  · rw [Function.update_of_ne (Nat.ne_of_lt h), arguments, arguments, List.getElem?_append_left h]
  · rw [Function.update_self, arguments, List.getElem?_concat_length, Option.map_some]
  · rw [Function.update_of_ne (Nat.ne_of_gt h), arguments, arguments,
      List.getElem?_eq_none (Nat.le_of_lt h),
      List.getElem?_eq_none (by rwa [List.length_append, List.length_singleton])]

/-- The texts for places are those of arguments. -/
theorem exists_mem_of_arguments {i : Nat} {text : List Char} (h : arguments args i = some text) :
    ∃ a ∈ args, text = a.toList := by
  obtain ⟨a, ha, rfl⟩ := Option.map_eq_some_iff.mp h
  exact ⟨a, List.mem_of_getElem? ha, rfl⟩

theorem fill_place (args : List String) (i : Nat) :
    (Item.place i).fill (arguments args) = (args[i]?.getD (place i)).toList := by
  rw [Item.fill, arguments, Option.getD_map]

theorem substitute_place (args : List String) (i : Nat) (t : String) :
    substitute (place i ++ t) args = (args[i]?.getD (place i)) ++ substitute t args := by
  unfold substitute
  rw [String.toList_append, items_place, fill_cons, fill_place, String.ofList_append,
    String.ofList_toList]

theorem substitute_append_place (args : List String) (s : String) (i : Nat) (t : String) :
    substitute (s ++ (place i ++ t)) args =
      substitute s args ++ ((args[i]?.getD (place i)) ++ substitute t args) := by
  unfold substitute
  rw [String.toList_append, String.toList_append, items_append_place, fill_append, fill_cons,
    fill_place, String.ofList_append, String.ofList_append, String.ofList_toList]

/-- A text without an opening brace has nothing to fill. -/
theorem substitute_of_not_mem {s : String} (hs : '\x7b' ∉ s.toList) (args : List String) :
    substitute s args = s := by
  have hitems := items_append_of_not_mem hs []
  rw [List.append_nil, items_nil, List.append_nil] at hitems
  have hfill : fill (arguments args) (items s.toList) = fill (fun _ => none) (items s.toList) :=
    fill_congr fun x hx => by
      rw [hitems] at hx
      obtain ⟨c, -, rfl⟩ := List.mem_map.mp hx
      rfl
  rw [substitute, hfill, fill_items, String.ofList_toList]

theorem substitute_nil (template : String) : substitute template [] = template := by
  have hnone : arguments [] = fun _ => none := by
    funext i
    rfl
  rw [substitute, hnone, fill_items, String.ofList_toList]

theorem fillFrom_append (template : String) (args : List String) (a : String) (i : Nat) :
    fillFrom i template (args ++ [a]) =
      Text.replaceAll (place (i + args.length)) a (fillFrom i template args) := by
  induction args generalizing i template with
  | nil => rfl
  | cons b args ih =>
    rw [List.cons_append, fillFrom, ih, fillFrom, List.length_cons, Nat.add_right_comm i 1,
      Nat.add_assoc i]

/-- The place of one more argument is filled in the message of those before it. -/
theorem formatMessage_append (template : String) (args : List String) (a : String) :
    formatMessage template (args ++ [a]) =
      Text.replaceAll (place args.length) a (formatMessage template args) := by
  rw [formatMessage, fillFrom_append, Nat.zero_add, formatMessage]

/-- **One more argument.** If the arguments before it are put in at once, so is this one exactly if
no other text is taken for its place, or if it is that place itself. -/
theorem formatMessage_append_iff (heq : formatMessage template args = substitute template args) :
    formatMessage template (args ++ [a]) = substitute template (args ++ [a]) ↔
      a = place args.length ∨
        occurrences args.length (substitute template args) =
          occurrences args.length template := by
  have hstep := fill_update_iff (arguments_length args) a.toList (items template.toList)
  rw [String.toList_inj] at hstep
  rw [formatMessage_append, heq, Text.replaceAll, replaceFrom_place]
  unfold occurrences substitute
  rw [arguments_append, String.toList_ofList, String.ofList_inj]
  exact hstep

/-- The arguments up to one are put in at once exactly if each of them is. -/
theorem formatMessage_take_iff (template : String) (args : List String) :
    (∀ n ≤ args.length, formatMessage template (args.take n) = substitute template (args.take n)) ↔
      ∀ n (h : n < args.length), args[n] = place n ∨
        occurrences n (substitute template (args.take n)) = occurrences n template := by
  have hstep {n : Nat} (h : n < args.length)
      (heq : formatMessage template (args.take n) = substitute template (args.take n)) :
      formatMessage template (args.take (n + 1)) = substitute template (args.take (n + 1)) ↔
        args[n] = place n ∨
          occurrences n (substitute template (args.take n)) = occurrences n template := by
    have hiff := formatMessage_append_iff (a := args[n]) heq
    rwa [List.take_append_getElem h, List.length_take_of_le (Nat.le_of_lt h)] at hiff
  constructor
  · exact fun hall n h => (hstep h (hall n (Nat.le_of_lt h))).mp (hall (n + 1) h)
  · intro hplaces n
    induction n with
    | zero => exact fun _ => (substitute_nil template).symm
    | succ n ih => exact fun h => (hstep h (ih (Nat.le_of_succ_le h))).mpr (hplaces n h)

/-- Arguments without an opening brace, the last one apart, are put in at once into a template whose
opening braces are those of its places. -/
theorem formatMessage_of_not_mem (htemplate : .char '\x7b' ∉ items template.toList)
    (hargs : ∀ a ∈ args.dropLast, '\x7b' ∉ a.toList) :
    formatMessage template args = substitute template args := by
  have hall := (formatMessage_take_iff template args).mpr fun n h => .inr ?_
  · have := hall args.length (Nat.le_refl _)
    rwa [List.take_length] at this
  · have hn : (args.take n).length = n := List.length_take_of_le (Nat.le_of_lt h)
    have hnone := arguments_length (args.take n)
    rw [hn] at hnone
    unfold occurrences substitute
    rw [String.toList_ofList]
    refine count_fill_of_not_mem hnone (fun i text hi => ?_) htemplate
    obtain ⟨a, ha, rfl⟩ := exists_mem_of_arguments hi
    have hearlier : args.take n <+: args.dropLast := by
      rw [List.dropLast_eq_take]
      exact List.take_prefix_take_left (by omega)
    exact hargs a (hearlier.subset ha)

end Arguments

end Template

open Template

/-- The braces of the messages of the table are those of their places. -/
theorem Finding.brace_not_mem_template (f : Finding) : .char '\x7b' ∉ items f.template.toList := by
  refine brace_not_mem_items ?_
  cases f <;> decide +kernel

theorem Diagnostic.text_ofFinding (f : Finding) (span : Option Span) (args : List String) :
    (Diagnostic.ofFinding f span args).text = formatMessage f.template args := by
  cases f <;> rfl

/-- **When arguments are inserted verbatim.** The arguments up to any of them are put into a
template at once exactly if each of them fills its place only where the template has it, or is that
place. It is enough that the template has no opening brace but those of its places, and no argument
but the last has one; so every message of the table is right for such arguments. -/
theorem formatMessage_substitutes_iff (template : String) (args : List String) :
    ((∀ n ≤ args.length, formatMessage template (args.take n) = substitute template (args.take n)) ↔
      ∀ n (h : n < args.length), args[n] = place n ∨
        occurrences n (substitute template (args.take n)) = occurrences n template) ∧
    ((∀ a ∈ args.dropLast, '\x7b' ∉ a.toList) →
      (.char '\x7b' ∉ items template.toList →
        formatMessage template args = substitute template args) ∧
      ∀ (f : Finding) (span : Option Span),
        (Diagnostic.ofFinding f span args).text = substitute f.template args) := by
  refine ⟨formatMessage_take_iff template args, fun hargs =>
    ⟨fun htemplate => ?_, fun f span => ?_⟩⟩
  · exact formatMessage_of_not_mem htemplate hargs
  · rw [Diagnostic.text_ofFinding]
    exact formatMessage_of_not_mem f.brace_not_mem_template hargs

/-- A mixin of a declared class is named in its message. The name of the class may look like a
place. -/
theorem formatMessage_substitutes_iff_mixin :
    (∀ a ∈ ["Mixin", "Base", "\x7b0\x7d"].dropLast, '\x7b' ∉ a.toList) ∧
      formatMessage Finding.classHeritageDropped.template ["Mixin", "Base", "\x7b0\x7d"] =
        "Mixin 'Base' of declared class '\x7b0\x7d' " ++
          "cannot be expressed on a TypeScript class and was dropped." := by
  have hargs : ∀ a ∈ ["Mixin", "Base", "\x7b0\x7d"].dropLast, '\x7b' ∉ a.toList := by decide
  refine ⟨hargs, ?_⟩
  rw [((formatMessage_substitutes_iff _ _).2 hargs).1 (Finding.brace_not_mem_template _)]
  decide +kernel

/-- An argument is taken for the place of the next one. -/
theorem not_formatMessage_verbatim :
    ¬∀ (template : String) (args : List String),
      formatMessage template args = substitute template args := by
  intro hall
  have h := hall "\x7b0\x7d \x7b1\x7d" ["\x7b1\x7d", "x"]
  revert h
  decide +kernel

end Typeshift
