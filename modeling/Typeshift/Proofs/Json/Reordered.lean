import Mathlib.Data.List.Forall2
import Mathlib.Data.List.Perm.Basic
import Typeshift.Json.Basic
import Typeshift.Proofs.Lookup

/-! # Values that differ in the order of keys

Two JSON values say the same if they differ in the order of keys only, in any of their objects. What
is read from the entries of an object one after the other is the same for both, if the entries that
are looked at do not get in each other's way.

* `Json.Reordered`: values that differ in the order of keys.
* `Concur`: two attempts that both fail, or both succeed with related results.
* `Reorders.foldlM`: attempts that go through the entries of an object. -/

namespace Typeshift

/-! ### Attempts -/

/-- Two attempts both fail, or both succeed with related results. -/
inductive Concur {ε α β : Type} (R : α → β → Prop) : Except ε α → Except ε β → Prop where
  | ok {a : α} {b : β} (h : R a b) : Concur R (.ok a) (.ok b)
  | error {e e' : ε} : Concur R (.error e) (.error e')

namespace Concur

variable {ε ε' α β γ δ : Type} {R : α → β → Prop} {S : γ → δ → Prop} {x : Except ε α}
  {y : Except ε β} {f : α → Except ε γ} {g : β → Except ε δ}

theorem refl {R : α → α → Prop} (h : ∀ a, R a a) (x : Except ε α) : Concur R x x := by
  cases x with
  | ok a => exact .ok (h a)
  | error e => exact .error

theorem trans {z : Except ε γ} {T : β → γ → Prop} {U : α → γ → Prop} (h : Concur R x y)
    (h' : Concur T y z) (himp : ∀ a b c, R a b → T b c → U a c) : Concur U x z := by
  cases h with
  | ok h => cases h' with | ok h' => exact .ok (himp _ _ _ h h')
  | error => cases h' with | error => exact .error

theorem imp {R' : α → β → Prop} (h : Concur R x y) (himp : ∀ a b, R a b → R' a b) :
    Concur R' x y := by
  cases h with
  | ok h => exact .ok (himp _ _ h)
  | error => exact .error

theorem bind (h : Concur R x y) (hf : ∀ a b, R a b → Concur S (f a) (g b)) :
    Concur S (x >>= f) (y >>= g) := by
  cases h with
  | ok h => exact hf _ _ h
  | error => exact .error

theorem and_eq (h : Concur R x y) : Concur (fun a b => x = .ok a ∧ y = .ok b ∧ R a b) x y := by
  cases h with
  | ok h => exact .ok ⟨rfl, rfl, h⟩
  | error => exact .error

theorem map {f : α → γ} {g : β → δ} (h : Concur R x y) (hf : ∀ a b, R a b → S (f a) (g b)) :
    Concur S (f <$> x) (g <$> y) := by
  cases h with
  | ok h => exact .ok (hf _ _ h)
  | error => exact .error

theorem mapError {k k' : ε → ε'} (h : Concur R x y) : Concur R (x.mapError k) (y.mapError k') := by
  cases h with
  | ok h => exact .ok h
  | error => exact .error

theorem mapM {as : List α} {bs : List β}
    (h : List.Forall₂ (fun a b => Concur S (f a) (g b)) as bs) :
    Concur (List.Forall₂ S) (as.mapM f) (bs.mapM g) := by
  induction h with
  | nil => exact .ok .nil
  | cons hab _ ih =>
    rw [List.mapM_cons, List.mapM_cons]
    exact hab.bind fun c d hcd => ih.bind fun cs ds hcs => .ok (.cons hcd hcs)

/-- Attempts on the members of a list, in another order. -/
theorem mapM_perm {as bs : List α} (h : as.Perm bs) :
    Concur List.Perm (as.mapM f) (bs.mapM f) := by
  induction h with
  | nil => exact .ok .nil
  | cons a _ ih =>
    rw [List.mapM_cons, List.mapM_cons]
    exact (refl (fun _ => rfl) (f a)).bind fun c d hcd => ih.bind fun cs ds hcs =>
      .ok (hcd ▸ hcs.cons c)
  | swap a b as =>
    simp only [List.mapM_cons, bind_assoc]
    cases f a <;> cases f b <;> cases as.mapM f <;>
      first | exact .error | exact .ok (.swap _ _ _)
  | trans _ _ ih ih' => exact ih.trans ih' fun _ _ _ => List.Perm.trans

/-- Steps that do not get in each other's way may be taken in any order. -/
theorem foldlM_perm {step : α → β → Except ε α} {es es' : List β} (h : es.Perm es')
    (hcomm : ∀ e ∈ es, ∀ e' ∈ es, ∀ a,
      Concur Eq (step a e >>= (step · e')) (step a e' >>= (step · e))) (a : α) :
    Concur Eq (es.foldlM step a) (es'.foldlM step a) := by
  induction h generalizing a with
  | nil => exact .ok rfl
  | cons e _ ih =>
    rw [List.foldlM_cons, List.foldlM_cons]
    refine (refl (fun _ => rfl) (step a e)).bind fun b _ hb => hb ▸ ih (fun e he e' he' => ?_) b
    exact hcomm e (List.mem_cons_of_mem _ he) e' (List.mem_cons_of_mem _ he')
  | swap e e' es =>
    simp only [List.foldlM_cons, ← bind_assoc]
    refine (hcomm e' ?_ e ?_ a).bind fun b _ hb => hb ▸ refl (fun _ => rfl) _
    · exact List.mem_cons_self
    · exact List.mem_cons_of_mem _ List.mem_cons_self
  | trans h _ ih ih' =>
    have hcomm' := fun e he e' he' => hcomm e (h.mem_iff.mpr he) e' (h.mem_iff.mpr he')
    exact (ih hcomm a).trans (ih' hcomm' a) fun _ _ _ => Eq.trans

theorem foldlM_forall₂ {step : α → β → Except ε α} {es es' : List β}
    (h : List.Forall₂ (fun e e' => ∀ a, Concur Eq (step a e) (step a e')) es es') (a : α) :
    Concur Eq (es.foldlM step a) (es'.foldlM step a) := by
  induction h generalizing a with
  | nil => exact .ok rfl
  | cons he _ ih =>
    rw [List.foldlM_cons, List.foldlM_cons]
    exact (he a).bind fun b _ hb => hb ▸ ih b

theorem ok_eq_pure (a : α) : (Except.ok a : Except ε α) = pure a := rfl

/-- Two attempts of which neither needs the result of the other. -/
theorem comm {F G : α → β → Except ε γ} {R : γ → γ → Prop} (h : ∀ a b, Concur R (F a b) (G a b)) :
    Concur R (x >>= fun a => y >>= fun b => F a b) (y >>= fun b => x >>= fun a => G a b) := by
  cases x with
  | error => cases y <;> exact .error
  | ok a =>
    cases y with
    | error => exact .error
    | ok b => exact h a b

end Concur

/-! ### Entries -/

section Entries

variable {κ α β : Type} {R : α → β → Prop} {es : List (κ × α)} {es' : List (κ × β)}

/-- Entries of one key with related values. -/
def Entry (R : α → β → Prop) (e : κ × α) (e' : κ × β) : Prop := e.1 = e'.1 ∧ R e.2 e'.2

theorem keys_eq (h : List.Forall₂ (Entry R) es es') : es.map Prod.fst = es'.map Prod.fst :=
  List.forall₂_eq_eq_eq ▸ List.forall₂_map_left_iff.mpr
    (List.forall₂_map_right_iff.mpr (h.imp fun _ _ he => he.1))

theorem rel_lookup [BEq κ] [LawfulBEq κ] (h : List.Forall₂ (Entry R) es es') (key : κ) :
    Option.Rel R (es.lookup key) (es'.lookup key) := by
  induction h with
  | nil => exact .none
  | @cons e e' es es' he _ ih =>
    obtain ⟨k, a⟩ := e
    obtain ⟨_, b⟩ := e'
    obtain ⟨rfl, hab⟩ := he
    rw [List.lookup_cons, List.lookup_cons]
    cases key == k with
    | true => exact .some hab
    | false => exact ih

/-- **The same entries in another order**: each key once, with related values. -/
structure Reorders (R : α → β → Prop) (es : List (κ × α)) (es' : List (κ × β)) : Prop where
  keys : (es.map Prod.fst).Perm (es'.map Prod.fst)
  nodup : (es.map Prod.fst).Nodup
  values : ∀ key a b, (key, a) ∈ es → (key, b) ∈ es' → R a b

namespace Reorders

theorem of_aligned [BEq κ] [LawfulBEq κ] {between : List (κ × β)} (hn : (es.map Prod.fst).Nodup)
    (h : List.Forall₂ (Entry R) es between) (hperm : between.Perm es') : Reorders R es es' := by
  have hkeys := keys_eq h
  refine ⟨hkeys ▸ hperm.map Prod.fst, hn, fun key a b ha hb => ?_⟩
  have hR := rel_lookup h key
  rw [lookup_of_nodup hn ha, lookup_of_nodup (hkeys ▸ hn) (hperm.mem_iff.mpr hb)] at hR
  cases hR with
  | some hR => exact hR

variable (h : Reorders R es es')
include h

theorem nodup_right : (es'.map Prod.fst).Nodup := h.keys.nodup_iff.mp h.nodup

/-- The entries of the second list in the order of the first one. -/
theorem exists_aligned :
    ∃ between, List.Forall₂ (Entry R) es between ∧ between.Perm es' := by
  have hself : List.Forall₂ (fun key e => key = e.1) (es'.map Prod.fst) es' := by
    rw [List.forall₂_map_left_iff]
    exact List.forall₂_same.mpr fun _ _ => rfl
  obtain ⟨between, hkeys, hperm⟩ := List.perm_comp_forall₂ h.keys hself
  refine ⟨between, ?_, hperm⟩
  rw [List.forall₂_map_left_iff, List.forall₂_iff_zip] at hkeys
  rw [List.forall₂_iff_zip]
  refine ⟨hkeys.1, fun {e b} hzip => ?_⟩
  have hkey : e.1 = b.1 := hkeys.2 hzip
  obtain ⟨he, hb⟩ := List.of_mem_zip hzip
  refine ⟨hkey, h.values e.1 _ _ he ?_⟩
  rw [hkey]
  exact hperm.mem_iff.mp hb

theorem lookup [BEq κ] [LawfulBEq κ] (key : κ) :
    Option.Rel R (es.lookup key) (es'.lookup key) := by
  by_cases hkey : key ∈ es.map Prod.fst
  · obtain ⟨a, ha⟩ := exists_lookup_of_mem hkey
    obtain ⟨b, hb⟩ := exists_lookup_of_mem (h.keys.mem_iff.mp hkey)
    rw [ha, hb]
    exact .some (h.values key a b (mem_of_lookup ha) (mem_of_lookup hb))
  · have hnone {γ : Type} {l : List (κ × γ)} (hl : key ∉ l.map Prod.fst) : l.lookup key = none :=
      Option.eq_none_iff_forall_ne_some.mpr fun a ha =>
        hl (List.mem_map_of_mem (mem_of_lookup ha))
    rw [hnone hkey, hnone (fun hkey' => hkey (h.keys.mem_iff.mpr hkey'))]
    exact .none

end Reorders

/-- **Reading the entries one after the other** comes to the same in any order, if an entry is read
alike in both lists, and entries of different keys do not get in each other's way. -/
theorem Reorders.foldlM {ε γ : Type} {R : α → α → Prop} {es es' : List (κ × α)}
    (h : Reorders R es es') {step : γ → κ × α → Except ε γ}
    (hread : ∀ c e e', Entry R e e' → Concur Eq (step c e) (step c e'))
    (hcomm : ∀ c e e', e.1 ≠ e'.1 →
      Concur Eq (step c e >>= (step · e')) (step c e' >>= (step · e))) (c : γ) :
    Concur Eq (es.foldlM step c) (es'.foldlM step c) := by
  obtain ⟨between, haligned, hperm⟩ := h.exists_aligned
  refine (Concur.foldlM_forall₂ (haligned.imp fun e e' he c => hread c e e' he) c).trans
    (Concur.foldlM_perm hperm (fun e he e' he' c => ?_) c) fun _ _ _ => Eq.trans
  by_cases hkey : e.1 = e'.1
  · have hnodup := (hperm.map Prod.fst).nodup_iff.mpr h.nodup_right
    rw [List.inj_on_of_nodup_map hnodup he he' hkey]
    exact Concur.refl (fun _ => rfl) _
  · exact hcomm c e e' hkey

end Entries

/-! ### Values -/

namespace Json

/-- **Values that differ in the order of keys**, at any depth. An object has each key once. -/
inductive Reordered : Json → Json → Prop where
  | null : Reordered .null .null
  | bool (b : Bool) : Reordered (.bool b) (.bool b)
  | int (i : Int) : Reordered (.int i) (.int i)
  | float (x : Decimal.Binary64) : Reordered (.float x) (.float x)
  | str (s : String) : Reordered (.str s) (.str s)
  | arr {vs ws : List Json} (length : vs.length = ws.length)
    (items : ∀ v w, (v, w) ∈ vs.zip ws → Reordered v w) : Reordered (.arr vs) (.arr ws)
  | obj {es es' : List (String × Json)} (keys : (es.map Prod.fst).Perm (es'.map Prod.fst))
    (nodup : (es.map Prod.fst).Nodup)
    (values : ∀ key v w, (key, v) ∈ es → (key, w) ∈ es' → Reordered v w) :
    Reordered (.obj es) (.obj es')

theorem lookup_eq (key : String) (entries : List (String × Json)) :
    lookup key entries = entries.lookup key := by
  induction entries with
  | nil => rfl
  | cons e rest ih =>
    obtain ⟨k, v⟩ := e
    rw [List.lookup_cons, ← ih, lookup, List.find?_cons, BEq.comm (a := key)]
    cases k == key <;> rfl

end Json

end Typeshift
