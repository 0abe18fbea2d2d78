import Typeshift.Tree.Basic

/-! # Ambient contexts

The body of a declared module and a declared default export are ambient. The converter counts the
contexts around it, so at every part of a tree the count says where the part stands.

* `encloses`: the fields that are ambient.
* `depthAt`: the number of contexts around a field. -/

namespace Typeshift.Ambient

/-- The constructs that declare variables, functions, classes, types or modules. -/
def declarationTags : List Tag :=
  [.variableDeclaration, .functionDeclaration, .classDeclaration, .tsDeclareFunction,
    .tsTypeAliasDeclaration, .tsInterfaceDeclaration, .tsModuleDeclaration]

/-- The constructs of the source that declare what is defined elsewhere. -/
def declareTags : List Tag :=
  [.declareVariable, .declareFunction, .declareClass, .declareModule, .declareModuleExports,
    .declareTypeAlias, .declareOpaqueType, .declareInterface]

/-- The constructs that have a field which is ambient. -/
def openers : List Tag := [.declareModule, .declareExportDeclaration]

/-- **Whether a field is ambient by its construct**: the body of a declared module, and all of a
declared default export. -/
def encloses (h : Head) (f : Field) : Bool :=
  h.is .declareModule && f == .body || h.is .declareExportDeclaration && h.flag .default

/-- The depth at which a field stands, given that of its construct. -/
def depthAt (d : Nat) (h : Head) (f : Field) : Nat := if encloses h f then d + 1 else d

theorem not_mem_of_tag? {h : Head} {t : Tag} {ts : List Tag} (ht : h.tag? = some t)
    (hmem : t ∉ ts) : ∀ t ∈ h.tag?, t ∉ ts := by
  rw [ht]
  rintro _ ⟨⟩
  exact hmem

theorem depthAt_eq {h : Head} (hh : ∀ t ∈ h.tag?, t ∉ openers) (d : Nat) (f : Field) :
    depthAt d h f = d := by
  have hother {t : Tag} (ht : t ∈ openers) : h.is t = false := by
    cases hi : h.is t with
    | false => rfl
    | true => exact absurd ht (hh t (beq_iff_eq.mp hi))
  unfold depthAt encloses
  rw [hother (t := .declareModule) (by decide), hother (t := .declareExportDeclaration) (by decide)]
  rfl

/-- The body of a module stands inside of it, and its name does not. -/
theorem depthAt_module {h : Head} (ht : h.tag? = some .declareModule) (d : Nat) (f : Field) :
    depthAt d h f = if f = .body then d + 1 else d := by
  unfold depthAt encloses Head.is
  rw [ht]
  by_cases hf : f = .body
  · subst hf
    rfl
  · rw [if_neg hf, beq_false_of_ne hf]
    rfl

/-- All of a default export stands inside of it. -/
theorem depthAt_export {h : Head} (ht : h.tag? = some .declareExportDeclaration) (d : Nat)
    (f : Field) : depthAt d h f = if h.flag .default then d + 1 else d := by
  unfold depthAt encloses Head.is
  rw [ht]
  rfl

end Typeshift.Ambient
