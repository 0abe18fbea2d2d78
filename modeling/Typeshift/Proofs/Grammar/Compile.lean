import Typeshift.Print.Printer
import Typeshift.Proofs.Convert.Vocabulary
import Typeshift.Proofs.Grammar.Convert
import Typeshift.Proofs.Grammar.Normalize

/-! # Grammatical programs compile

A well-formed grammatical program is normalized, converted and printed without a node that has no
counterpart: nothing is reported as unsupported, nothing is passed through, all that is left are
constructs of the target, and the printer succeeds whatever its choices are.

* `compiles_of_grammatical`: the main result. -/

namespace Typeshift

theorem every_stands {t : Node} (hw : t.WellFormed .source) (hg : t.Every Grammatical) :
    t.Every Stands := Node.Every.imp₂ hw hg fun _ _ hfits hgram => ⟨hgram, hfits.hasRequired⟩

/-- Every node of a clean tree is known. -/
theorem Convert.Clean.tag?_isSome {t : Node} (ht : Convert.Clean t) :
    ∀ h ∈ t.preorder, h.tag?.isSome = true := fun _ hh =>
  (ht.imp₂ ht fun _ _ hknown _ => hknown.1).of_mem_preorder (Q := fun h => h.tag?.isSome = true) hh

/-- A tree of known nodes can be printed. -/
theorem exists_printText {t : Node} (ht : ∀ h ∈ t.preorder, h.tag?.isSome = true)
    (o : Print.Options) : ∃ text, printText o t = .ok text := by
  have herror : t.printError? = none := by
    refine List.findSome?_eq_none_iff.mpr fun h hh => ?_
    have hsome := ht h hh
    unfold Head.tag? at hsome
    unfold Head.printError?
    cases hkind : h.kind with
    | known tag => rfl
    | foreign name raw =>
      rw [hkind] at hsome
      cases hsome
  unfold printText Printer.print
  rw [herror]
  exact ⟨_, rfl⟩

/-- **Grammatical programs compile.** No node of a well-formed grammatical program or file is
reported as unsupported or passed through, every node of the result is a construct of the target,
and the result can be printed. -/
theorem compiles_of_grammatical {t : Node} (hroot : t.head.isAny [.program, .file] = true)
    (hw : t.WellFormed .source) (hg : t.Every Grammatical) (o : Print.Options) :
    (∀ d ∈ t.normalize.1.convert.diagnostics, d.code ≠ Finding.unsupportedNode.code) ∧
      (∀ h ∈ t.normalize.1.convert.tree.preorder, h.tag?.isSome = true) ∧
      (∀ h ∈ t.normalize.1.convert.tree.preorder, ∀ tag ∈ h.tag?, tag.isIn .target = true) ∧
      ∃ text, printText o t.normalize.1.convert.tree = .ok text := by
  obtain ⟨hstands, hhead⟩ := Normalize.every_stands_normalize (every_stands hw hg)
  have htag : t.normalize.1.head.tag? = some .program ∨ t.normalize.1.head.tag? = some .file := by
    simp only [Head.isAny, List.any_cons, List.any_nil, Bool.or_false, Bool.or_eq_true] at hroot
    rw [← hhead .program (by decide) (by decide), ← hhead .file (by decide) (by decide)] at hroot
    exact hroot.imp beq_iff_eq.mp beq_iff_eq.mp
  have hind : Convert.isDependent t.normalize.1 = false := by
    unfold Convert.isDependent isExportsBlock Head.isAny Head.is
    rcases htag with htag | htag <;> rw [htag] <;> rfl
  obtain ⟨hclean, htidy⟩ := Convert.clean_convert hstands hind
  exact ⟨htidy, hclean.tag?_isSome, Convert.isIn_convert _, exists_printText hclean.tag?_isSome o⟩

/-- `declare module m { declare module.exports: { ...A, p: (A) => B }; declare function f(g: (A) =>
B): B }`: dependent constructs, each in its place, and a function type that is hoisted. -/
def declaredModule : Node :=
  let callback := Source.functionType [Source.functionParam none (Source.generic "A" [])]
    (Source.generic "B" [])
  let signature := Source.functionType [Source.functionParam (some "g") callback]
    (Source.generic "B" [])
  let spread := Node.of .objectTypeSpreadProperty [] [(.argument, .one (Source.generic "A" []))]
  let exported := Source.ascribe
    (Source.objectType [spread, Source.property "p" callback false] false)
  Source.file [.of .declareModule [(.kind, .textOrNone none)]
    [(.id, .one (Source.ident "m")), (.body, .one (Source.block
      [.of .declareModuleExports [] [(.ty, .one exported)],
        .of .declareFunction []
          [(.id, .one (Source.typedIdent "f" signature)), (.predicate, .maybe none)]]))]]

theorem compiles_declaredModule :
    declaredModule.WellFormed .source ∧ declaredModule.Every Grammatical ∧
      (∀ d ∈ declaredModule.normalize.1.convert.diagnostics,
        d.code ≠ Finding.unsupportedNode.code) ∧
      (∀ h ∈ declaredModule.normalize.1.convert.tree.preorder, h.tag?.isSome = true) ∧
      (∀ h ∈ declaredModule.normalize.1.convert.tree.preorder, ∀ tag ∈ h.tag?,
        tag.isIn .target = true) ∧
      ∃ text, printText .standard declaredModule.normalize.1.convert.tree = .ok text :=
  ⟨by decide +kernel, by decide +kernel,
    compiles_of_grammatical (by decide) (by decide +kernel) (by decide +kernel) .standard⟩

end Typeshift
