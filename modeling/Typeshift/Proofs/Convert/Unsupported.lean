import Typeshift.Print.Printer
import Typeshift.Proofs.Convert.Account
import Typeshift.Proofs.Diagnostic.Substitution

/-! # Nodes that are passed through

A construct without a counterpart is passed through as it is. It does not get lost: a diagnostic
names it wherever it ends up in the converted tree, also if the tree around it was copied, wrapped
or taken apart, and a tree that holds it is not printed.

* `passedThrough`: the account in which every node that is not known has a diagnostic.
* `Printer.printing`: printing as a step on a printer, which looks at the whole tree first.
* `unsupported_reported_refused`: such nodes are reported, and refused by every printer. -/

namespace Typeshift

open Print (Script script)

/-! ### Reports -/

namespace Convert

/-- A diagnostic says of a name that nodes of that name are passed through. -/
def Reported (name : String) (ds : List Diagnostic) : Prop :=
  ∃ span, Diagnostic.ofFinding .unsupportedNode span [name] ∈ ds

/-- A known node meets any condition on nodes that are not. -/
theorem known_of {p : Prop} {t : Tag} {h : Head} (ht : h.tag? = some t) (hn : h.tag? = none) :
    p := by
  rw [ht] at hn
  cases hn

/-- **The account of what is passed through**: it has a diagnostic. -/
def passedThrough : Account Unit where
  Inv _ _ := True
  Le st _ st' _ := st.diagnostics ⊆ st'.diagnostics
  source t := t.WellFormed .source
  mentioned _ := True
  chains := True
  Ok st _ a _ := a.head.tag? = none → Reported a.head.name st.diagnostics
  refl st _ := List.Subset.refl st.diagnostics
  trans h h' := List.Subset.trans h h'
  lasts hle h hn := by
    obtain ⟨span, hd⟩ := h hn
    exact ⟨span, hle hd⟩
  dress hbare h hn := by
    unfold Head.name
    rw [Node.kind_eq_of_bare hbare]
    exact h (Node.tag?_eq_of_bare hbare ▸ hn)
  fits ht := by
    cases ht with
    | mk here _ => exact here
  parts ht := by
    cases ht with
    | mk _ below => exact below
  name _ _ := True.intro
  chain _ _ := True.intro
  report d _ := ⟨True.intro, List.subset_append_left _ _⟩
  ambient _ _ := True.intro
  ambient_le _ _ hle := hle
  enter _ := True.intro
  leave _ _ hle _ _ :=
    ⟨(), True.intro, hle, fun _ _ h => h, known_of rfl, fun _ _ => known_of rfl⟩
  temporary _ _ := ⟨(), True.intro, List.Subset.refl _, fun _ => known_of rfl⟩
  exports _ := ⟨(), True.intro, List.Subset.refl _, fun _ =>
    ⟨fun _ _ => known_of rfl, fun _ => known_of rfl, known_of rfl⟩⟩
  unsupported {_ _ h _} _ _ _ := ⟨h.span, List.mem_append_right _ (List.mem_singleton_self _)⟩
  plain _ _ _ _ := known_of rfl
  declarator _ := known_of rfl
  origin {_ _ _ h s} st₀ _ hany := by
    obtain ⟨t, -, ht⟩ := List.any_eq_true.mp hany
    have htag := tag?_convertNode_origin hany (Tree.annotateSlots outcome s) st₀
    split_ifs at htag
    · exact known_of htag
    · exact known_of (htag.trans (beq_iff_eq.mp ht))

/-- The nodes of a converted tree that are not known are reported. -/
theorem reported_convert {t : Node} (ht : t.WellFormed .source) {h : Head}
    (hh : h ∈ t.convert.tree.preorder) (hn : h.tag? = none) :
    Reported h.name t.convert.diagnostics := by
  obtain ⟨_, -, -, hwhole⟩ :=
    passedThrough.convertTree ht (.start t.names) (g := ()) True.intro
  obtain ⟨a, o, ha, rfl⟩ := exists_occurs_of_mem_preorder hh
  exact hwhole.fine a o ha hn

theorem code_unsupported (span : Option Span) (args : List String) :
    (Diagnostic.ofFinding .unsupportedNode span args).code = 1001 := rfl

/-- The text of the diagnostic names the construct. -/
theorem text_unsupported (span : Option Span) (name : String) :
    (Diagnostic.ofFinding .unsupportedNode span [name]).text =
      "Node type '" ++ name ++
        "' has no TypeScript conversion and was passed through unchanged." := by
  have hargs : ∀ a ∈ [name].dropLast, '\x7b' ∉ a.toList := fun _ h => absurd h List.not_mem_nil
  rw [Diagnostic.text_ofFinding,
   Template.formatMessage_of_not_mem (Finding.brace_not_mem_template _) hargs]
  unfold Finding.template
  simp only [String.append_assoc]
  rw [Template.substitute_append_place, Template.substitute_of_not_mem (by decide),
    Template.substitute_of_not_mem (by decide), List.getElem?_cons_zero, Option.getD_some]

end Convert

/-! ### Refusals -/

theorem Head.printError?_eq (h : Head) : h.printError? =
    if h.tag? = none then some (.unsupported h.name (h.span.map Span.start)) else none := by
  unfold Head.printError? Head.tag? Head.name
  cases h.kind <;> rfl

theorem Head.isSome_printError? (h : Head) : h.printError?.isSome = true ↔ h.tag? = none := by
  rw [h.printError?_eq]
  split_ifs with hn <;> simp [hn]

/-- A tree has an error if it has a node that is not known, and the error is that of the first. -/
theorem Node.printError?_eq_some {t : Node} {e : PrintError} (he : t.printError? = some e) :
    ∃ before h after, t.preorder = before ++ h :: after ∧ (∀ k ∈ before, k.tag? ≠ none) ∧
      h.tag? = none ∧ e = .unsupported h.name (h.span.map Span.start) := by
  obtain ⟨before, h, after, hsplit, hh, hbefore⟩ := List.findSome?_eq_some_iff.mp he
  rw [h.printError?_eq] at hh
  split_ifs at hh with hn
  refine ⟨before, h, after, hsplit, fun k hk hkn => ?_, hn, (Option.some.inj hh).symm⟩
  have hnone := hbefore k hk
  rw [k.printError?_eq, if_pos hkn] at hnone
  cases hnone

theorem Node.isSome_printError? (t : Node) :
    t.printError?.isSome = true ↔ ∃ h ∈ t.preorder, h.tag? = none := by
  unfold Node.printError?
  rw [List.isSome_findSome?, List.any_eq_true]
  simp only [Head.isSome_printError?]

namespace Printer

/-- Printing as a step on a printer: the tree is looked at first, and then written. -/
def printing (t : Node) : ExceptT PrintError (StateM Printer) Unit := do
  match t.printError? with
  | some e => throw e
  | none => modify fun p => { p with sheet := Script.run p.sheet (script p.options t) }

/-- The step leads to the printer that printing gives, and stays where it is if that fails. -/
theorem run_printing (t : Node) (p : Printer) : (printing t).run.run p =
    match p.print t with
    | .ok p' => (.ok (), p')
    | .error e => (.error e, p) := by
  unfold printing print
  cases t.printError? <;> rfl

end Printer

/-- **What is passed through is reported and refused, never printed.** Every node of a converted
tree that is not known has a diagnostic that names it. A printer, whatever it has written, refuses a
tree exactly if it has such a node; the error names the first of them and where it starts, and the
printer stays as it was. -/
theorem unsupported_reported_refused :
    (∀ t : Node, t.WellFormed .source → ∀ h ∈ t.convert.tree.preorder, h.tag? = none →
      ∃ d ∈ t.convert.diagnostics, d.code = 1001 ∧ d.text = "Node type '" ++ h.name ++
        "' has no TypeScript conversion and was passed through unchanged.") ∧
    ∀ (t : Node) (p : Printer),
      ((∃ e, p.print t = .error e) ↔ ∃ h ∈ t.preorder, h.tag? = none) ∧
      ∀ e, p.print t = .error e →
        (∃ before h after, t.preorder = before ++ h :: after ∧ (∀ k ∈ before, k.tag? ≠ none) ∧
          h.tag? = none ∧ e = .unsupported h.name (h.span.map Span.start)) ∧
        (Printer.printing t).run.run p = (.error e, p) := by
  refine ⟨fun t ht h hh hn => ?_, fun t p => ⟨?_, fun e he => ?_⟩⟩
  · obtain ⟨span, hd⟩ := Convert.reported_convert ht hh hn
    exact ⟨_, hd, Convert.code_unsupported _ _, Convert.text_unsupported _ _⟩
  · rw [← Node.isSome_printError?]
    unfold Printer.print
    cases t.printError? <;> simp
  · refine ⟨Node.printError?_eq_some ?_, ?_⟩
    · unfold Printer.print at he
      split at he
      · next e' he' =>
        cases he
        exact he'
      · cases he
    · rw [Printer.run_printing, he]

/-- A chain on a node that is not known, `Mystery?.b`. -/
def mysteryChain : Node :=
  .of .optionalMemberExpression [(.isComputed, .flag false), (.isOptional, .flag true)]
    [(.object, .one (Node.make ⟨.foreign "Mystery" .null, [], .none, some ⟨4, 5⟩⟩ [])),
      (.property, .one (Target.ident "b"))]

/-- The node is copied, and its copies are reported and refused. -/
theorem unsupported_reported_refused_copies :
    mysteryChain.WellFormed .source ∧
      mysteryChain.convert.tree.preorder.map Head.name =
        ["LogicalExpression", "Mystery", "MemberExpression", "Mystery", "Identifier"] ∧
      (∀ h ∈ mysteryChain.convert.tree.preorder, h.tag? = none →
        ∃ d ∈ mysteryChain.convert.diagnostics, d.code = 1001 ∧ d.text = "Node type '" ++ h.name ++
          "' has no TypeScript conversion and was passed through unchanged.") ∧
      ∃ e, (Printer.new .standard).print mysteryChain.convert.tree = .error e :=
  ⟨by decide, by decide, unsupported_reported_refused.1 _ (by decide),
    (unsupported_reported_refused.2 _ _).1.mpr ⟨_, List.mem_cons_of_mem _ List.mem_cons_self, rfl⟩⟩

end Typeshift
