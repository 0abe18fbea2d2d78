import Typeshift.Proofs.Expression.RoundTrip
import Typeshift.Proofs.TypeText.Constructs
import Typeshift.Tree.Target

/-! # Printed types parse back

The text of a tree that stands for a type is read as that type and no other.

* `Denotes.sound`: every tree that stands for a type is sound.
* `printText_type_roundTrip`: its text is cut into tokens that stand for the type. -/

namespace Typeshift.TypeText

open Print Script
open Expression (Alphabet IsName printed)

/-- **Every tree that stands for a type is sound.** -/
theorem Denotes.sound {A : Alphabet} {t : Node} {τ : Typ} (h : Denotes A t τ) (o : Options) :
    Sound A o t τ := by
  induction h with
  | wrapper built hu _ ih => exact sound_wrapper built hu ih
  | keyword hw built => exact sound_keyword hw built
  | string built hu literal => exact sound_string built hu literal
  | numeral built hu literal digits => exact sound_numeral built hu literal digits
  | reference built hu bare name hx => exact sound_reference built hu bare name hx
  | generic built hu hv name hx list hparts hne _ ihs =>
    exact sound_generic built hu hv name hx list hparts hne ihs
  | query built hu name hx => exact sound_query built hu name hx
  | operator built ho known hu _ ih => exact sound_operator built ho known hu ih
  | array built hu _ ih => exact sound_array built hu ih
  | tuple built hparts _ ihs => exact sound_tuple built hparts ihs
  | access built hu hv _ _ ihu ihv => exact sound_access built hu hv ihu ihv
  | function built plain hu hparts names _ _ ihs ih =>
    exact sound_function built plain hu hparts names ihs ih
  | union built hlength hparts _ ihs => exact sound_union built hlength hparts ihs
  | intersection built hlength hparts _ ihs => exact sound_intersection built hlength hparts ihs

/-- A type that stands alone is written as where any type may stand. -/
theorem script_eq {t : Node} (hf : t.head.family = .type) (hc : t.head.comments = .none)
    (o : Options) : script o t = printed o t (.type .function) := by
  obtain ⟨n, h, s⟩ := t
  have hf : h.family = .type := hf
  have hc : h.comments = .none := hc
  show familyText o (.mk (fun _ => []) h (Tree.annotateSlots (printedRule o) s)) h.comments =
    typeFrame _ .function h.comments (content o (.mk _ h _) [.type])
  rw [familyText, content, if_pos (by simp [hf]), show (Tree.mk _ h _).head.family = .type from hf]

/-- The text of a script that writes something on one line. -/
theorem finish_writes {s : Script} {c : Char} {cs : List Char} (h : Writes s (c :: cs))
    (o : Options) :
    (Script.run (Printer.new o).sheet s).page.finish.toList = c :: cs ++ ['\n'] := by
  rw [h (Printer.new o).sheet]
  simp [Page.finish, Page.endLine, Page.append, Page.write, Page.beginLine, Page.margin, Sheet.add,
    Printer.new, Page.empty]

/-- **Printed types parse back.** The text of a tree that stands for a type is cut into tokens that
stand for that type and no other. -/
theorem printText_type_roundTrip {A : Alphabet} {t : Node} {τ : Typ} (h : Denotes A t τ)
    (o : Options) :
    ∃ text tokens, printText o t = .ok text ∧ lex A text = some tokens ∧
      Derives .whole tokens τ ∧ ∀ τ', Derives .whole tokens τ' → τ' = τ := by
  have hsound := h.sound o
  obtain ⟨tokens, ⟨c, cs, hwrites, -, hreads⟩, hderives⟩ := hsound.at .function
  rw [← script_eq hsound.family hsound.comments] at hwrites
  have hprint : printText o t =
      .ok (Script.run (Printer.new o).sheet (script o t)).page.finish := by
    unfold printText Printer.print
    rw [h.printError?_eq_none]
    rfl
  have hcut : Cut A (c :: cs ++ ['\n']) (tokens ++ []) [] :=
    (hreads '\n' (by decide) []).trans (.step (t := none) rfl (by decide) (.done []))
  have hlex := hcut.lexWithin_eq rfl (Nat.le_refl _)
  rw [List.append_nil, ← finish_writes hwrites o] at hlex
  exact ⟨_, tokens, hprint, hlex, hderives, fun τ' h' => h'.unique hderives⟩

/-! ### A tree that needs parentheses -/

/-- `"it's"` as a type, without source text. -/
def quotedNode : Node := Target.literalType (Target.stringLiteral "it's" none)

/-- `A<B<C>> | null`. -/
def nestedNode : Node :=
  Target.union
    [Target.namedReference "A" [Target.namedReference "B" [Target.namedReference "C" []]],
      Target.null]

/-- A tree that needs parentheses but has none: `keyof (A<B<C>> | null)[] | ((x?: "it's") => any)`,
with wrappers around the types that need them. -/
def wrappedNode : Node :=
  Target.union
    [Target.keyof (Target.arrayType (Target.ascribe nestedNode)),
      Target.ascribe
        (Target.functionType none [Target.param "x" (some (Target.ascribe quotedNode)) true]
          Target.any)]

/-- The type of `nestedNode`. -/
def nestedType : Typ :=
  .union
    [.reference ["A"] [.reference ["B"] [.reference ["C"] []]], .keyword "null"]

/-- The type of `wrappedNode`. -/
def wrappedType : Typ :=
  .union
    [.operator "keyof" (.array nestedType),
      .function [⟨"x", true, some (.string "it's")⟩] (.keyword "any")]

variable {A : Alphabet}

theorem isEntity_ident {x : String} (hx : A.isName x = true) : IsEntity A (Target.ident x) [x] :=
  .plain ⟨⟨rfl, rfl, List.Subset.refl _⟩, rfl, hx, rfl⟩

theorem denotes_argument {x : String} {t : Node} {τ : Typ} (hx : A.isName x = true)
    (hr : IsReference x []) (ht : Denotes A t τ) :
    Denotes A (Target.namedReference x [t]) (.reference [x] [τ]) := by
  have hparts : ∀ part ∈ [(t, τ)], Denotes A part.1 part.2 := by simpa using ht
  exact .generic ⟨rfl, rfl, List.Subset.refl _⟩ rfl rfl (isEntity_ident hx) hr
    ⟨rfl, rfl, List.Subset.refl _⟩ rfl (List.cons_ne_nil _ _) hparts

theorem denotes_keyword {tag : Tag} {w : String} (hw : (tag, w) ∈ keywordTags) :
    Denotes A (.leaf tag) (.keyword w) :=
  .keyword hw ⟨rfl, rfl, List.Subset.refl _⟩

theorem denotes_nestedNode : Denotes A nestedNode nestedType := by
  have hname : Denotes A (Target.namedReference "C" []) (.reference ["C"] []) :=
    .reference ⟨rfl, rfl, List.Subset.refl _⟩ rfl rfl (isEntity_ident rfl) (by decide)
  have hnested := denotes_argument (x := "A") rfl (by decide)
    (denotes_argument (x := "B") rfl (by decide) hname)
  have hnull : Denotes A Target.null (.keyword "null") := denotes_keyword (by decide)
  have hparts : ∀ part ∈ [(_, _), (_, _)], Denotes A part.1 part.2 :=
    List.forall_mem_cons.mpr ⟨hnested, List.forall_mem_cons.mpr ⟨hnull, List.forall_mem_nil _⟩⟩
  exact .union ⟨rfl, rfl, List.Subset.refl _⟩ (by decide) rfl hparts

theorem denotes_wrapper {t : Node} {τ : Typ} (h : Denotes A t τ)
    (ht : t.head.is .tsAscription = false) :
    Denotes A (Target.ascribe t) τ := by
  rw [Target.ascribe, ht]
  exact .wrapper ⟨rfl, rfl, List.Subset.refl _⟩ rfl h

theorem denotes_function {x : String} {t u : Node} {τ ρ : Typ} (hx : A.isName x = true)
    (hallowed : IsParameter x) (ht : Denotes A t τ) (hu : Denotes A u ρ) :
    Denotes A (Target.functionType none [Target.param x (some t) true] u)
      (.function [⟨x, true, some τ⟩] ρ) := by
  have hnames : ∀ part ∈ [(Target.param x (some t) true, Parameter.mk x true (some (t, τ)))],
      IsNamed A part.1 (part.2.map Prod.fst) := by
    simp only [List.forall_mem_singleton]
    exact ⟨⟨rfl, rfl, List.Subset.refl _⟩, rfl, hx, hallowed, rfl, rfl⟩
  refine .function ⟨rfl, rfl, ?_⟩ rfl rfl rfl hnames ?_ hu
  · exact (List.Perm.swap u (Target.param x (some t) true) []).subset
  · simpa using ht

theorem denotes_wrappedNode (A : Alphabet) : Denotes A wrappedNode wrappedType := by
  have hkeyof : Denotes A (Target.keyof (Target.arrayType (Target.ascribe nestedNode)))
      (.operator "keyof" (.array nestedType)) :=
    .operator ⟨rfl, rfl, List.Subset.refl _⟩ rfl (by decide) rfl
      (.array ⟨rfl, rfl, List.Subset.refl _⟩ rfl (denotes_wrapper denotes_nestedNode rfl))
  have hquoted : Denotes A (Target.ascribe quotedNode) (.string "it's") := by
    refine denotes_wrapper (.string ⟨rfl, rfl, List.Subset.refl _⟩ rfl ?_) rfl
    exact ⟨⟨rfl, rfl, List.Subset.refl _⟩, rfl, by rintro _ ⟨⟩⟩
  have hany : Denotes A Target.any (.keyword "any") := denotes_keyword (by decide)
  have hfunction := denotes_wrapper (denotes_function (x := "x") rfl (by decide) hquoted hany) rfl
  have hparts : ∀ part ∈ [(_, _), (_, _)], Denotes A part.1 part.2 :=
    List.forall_mem_cons.mpr ⟨hkeyof, List.forall_mem_cons.mpr ⟨hfunction, List.forall_mem_nil _⟩⟩
  exact .union ⟨rfl, rfl, List.Subset.refl _⟩ (by decide) rfl hparts

theorem printText_type_roundTrip_wrappedNode :
    Denotes Expression.asciiNames wrappedNode wrappedType ∧
      ∃ text tokens, printText .standard wrappedNode = .ok text ∧
        lex Expression.asciiNames text = some tokens ∧ Derives .whole tokens wrappedType ∧
        ∀ τ', Derives .whole tokens τ' → τ' = wrappedType :=
  ⟨denotes_wrappedNode _, printText_type_roundTrip (denotes_wrappedNode _) .standard⟩

example : printText .standard wrappedNode =
    .ok "keyof (A<B<C>> | null)[] | ((x?: \"it's\") => any)\n" := by rfl

end Typeshift.TypeText
