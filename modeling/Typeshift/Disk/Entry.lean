/-! # Entries of a file system

A file system is a tree. A directory holds entries under names, a file holds bytes, and a device
stands for something that is neither.

* `Entry.get?`: the entry at a place below another one.
* `Entry.put`: put an entry at a place. What was there is replaced (`get?_put`), other places that
  do not lie below it stay as they are (`get?_put_of_ne`).
* `Entry.files`: the files at and below an entry. -/

namespace Typeshift.Disk

/-- The devices. Both read as empty. -/
inductive Device where
  /-- Takes what is written and forgets it. -/
  | null
  /-- Has no room for anything. -/
  | full
  deriving DecidableEq, Repr

/-- What stands at a place. Links are not modelled: a search for files follows them, and with a link
one file would stand at several places. -/
inductive Entry where
  | directory (entries : List (String × Entry))
  | file (contents : ByteArray)
  | device (d : Device)

namespace Entry

instance : Inhabited Entry := ⟨.directory []⟩

/-- Set the entry under a name: an old name keeps its place, a new one comes last. -/
def insertName (name : String) (x : Entry) : List (String × Entry) → List (String × Entry)
  | [] => [(name, x)]
  | (k, y) :: rest => if k = name then (k, x) :: rest else (k, y) :: insertName name x rest

/-- The entry under a name. -/
def child? (name : String) : Entry → Option Entry
  | .directory entries => entries.lookup name
  | _ => none

/-- **The entry at a place**, given by the names that lead to it. -/
def get? : List String → Entry → Option Entry
  | [], e => some e
  | name :: rest, e => (e.child? name).bind (get? rest)

/-- **Put an entry at a place**, with the directories that lead to it. Files and devices on the way
stay as they are. -/
def put (x : Entry) : List String → Entry → Entry
  | [], _ => x
  | name :: rest, .directory entries =>
    .directory (insertName name (put x rest ((entries.lookup name).getD default)) entries)
  | _ :: _, e => e

mutual

/-- **The files at and below an entry**, each with the names that lead to it. -/
def files : Entry → List (List String × ByteArray)
  | .directory entries => filesOfAll entries
  | .file contents => [([], contents)]
  | .device _ => []

/-- The files of the entries of a directory. -/
def filesOfAll : List (String × Entry) → List (List String × ByteArray)
  | [] => []
  | (name, e) :: rest => (files e).map (fun f => (name :: f.1, f.2)) ++ filesOfAll rest

end

theorem lookup_insertName (name : String) (x : Entry) (entries : List (String × Entry)) :
    (insertName name x entries).lookup name = some x := by
  induction entries with
  | nil => simp [insertName]
  | cons e rest ih =>
    obtain ⟨k, y⟩ := e
    by_cases h : k = name
    · simp [insertName, h]
    · have hb : (name == k) = false := beq_false_of_ne (Ne.symm h)
      simp [insertName, h, List.lookup_cons, hb, ih]

theorem lookup_insertName_of_ne {name other : String} (x : Entry) (h : other ≠ name)
    (entries : List (String × Entry)) :
    (insertName name x entries).lookup other = entries.lookup other := by
  have hb : (other == name) = false := beq_false_of_ne h
  induction entries with
  | nil => simp [insertName, List.lookup_cons, hb]
  | cons e rest ih =>
    obtain ⟨k, y⟩ := e
    by_cases hk : k = name
    · subst hk; simp [insertName, List.lookup_cons, hb]
    · simp [insertName, hk, List.lookup_cons, ih]

/-- An entry that was put below a directory, through directories or missing ones, is there. -/
theorem get?_put (x : Entry) (place : List String) (e : Entry)
    (h : ∀ n, n < place.length → ∀ y, e.get? (place.take n) = some y → ∃ es, y = .directory es) :
    (put x place e).get? place = some x := by
  induction place generalizing e with
  | nil => rfl
  | cons name rest ih =>
    obtain ⟨es, rfl⟩ := h 0 (by simp) e rfl
    simp only [put, get?, child?, lookup_insertName, Option.bind_some]
    apply ih
    intro n hn y hy
    cases hl : es.lookup name with
    | none =>
      cases n with
      | zero =>
        simp only [hl, Option.getD_none, List.take_zero, get?, Option.some.injEq] at hy
        exact ⟨[], hy.symm⟩
      | succ n =>
        cases rest with
        | nil => simp at hn
        | cons r rs => simp [hl, get?, child?, default] at hy
    | some z =>
      rw [hl, Option.getD_some] at hy
      exact h (n + 1) (by simpa using hn) y (by simpa [get?, child?, hl] using hy)

/-- Putting an entry changes nothing at a place that lies neither on the way to it nor below it. -/
theorem get?_put_of_ne (x : Entry) {place other : List String} (hp : ¬ place <+: other)
    (ho : ¬ other <+: place) (e : Entry) : (put x place e).get? other = e.get? other := by
  induction place generalizing other e with
  | nil => exact absurd List.nil_prefix hp
  | cons name rest ih =>
    cases other with
    | nil => exact absurd List.nil_prefix ho
    | cons o os =>
      cases e with
      | file _ => rfl
      | device _ => rfl
      | directory es =>
        by_cases hn : o = name
        · subst hn
          simp only [List.cons_prefix_cons, true_and] at hp ho
          simp only [put, get?, child?, lookup_insertName, Option.bind_some]
          rw [ih hp ho]
          cases hl : es.lookup o with
          | some z => simp
          | none =>
            cases os with
            | nil => exact absurd List.nil_prefix ho
            | cons r rs => simp [get?, child?, default]
        · simp [put, get?, child?, lookup_insertName_of_ne _ hn]

end Entry

end Typeshift.Disk
