import Typeshift.Proofs.Chain.Flatten

/-! # Flattening where a reference is needed

A chain may stand anywhere: as an object, in parentheses, as a callee, as the operand of `delete`.
If the expression is faithful, its conversion gives the same result, the same calls with the same
receivers, the same deletions and the same state.

* `run_convert_of_faithful`: running a faithful expression and running its conversion come to the
  same.
* `events_convert_deletion`: the conversion of `delete aa?.bb` deletes nothing, and that of
  `(aa?.bb)()` calls without a receiver, so faithfulness cannot be dropped. -/

namespace Typeshift.Chain

variable {σ V ε : Type}

/-- **Flattening preserves evaluation wherever chains stand.** If every value that an optional link
tests is nullish or truthy, a faithful expression and its conversion have the same result, the same
calls with the same receivers and arguments, the same deletions, and the same final state; and the
conversion has no optional link left, so it is evaluated by the rules of plain constructs alone. -/
theorem run_convert_of_faithful (W : Realm σ V ε) {t : Node} (ht : Faithful t) (s : σ)
    (hfair : ∀ v ∈ (t.run W s).tested, W.nullish v = true ∨ W.truthy v = true) :
    (t.convert.tree.run W s).result = (t.run W s).result ∧
      (t.convert.tree.run W s).events = (t.run W s).events ∧
      (t.convert.tree.run W s).state = (t.run W s).state ∧
      ∀ h ∈ t.convert.tree.preorder, isLink h = false := by
  obtain ⟨hresult, hevents, hstate⟩ := ht.run_eq W s hfair
  exact ⟨hresult, hevents, hstate, isLink_convert t⟩

/-- `aa?.bb`. -/
def chainAccess : Node := .of .optionalMemberExpression
  [(.isComputed, .flag false), (.isOptional, .flag true)]
  [(.object, .one (Target.ident "aa")), (.property, .one (Target.ident "bb"))]

/-- `delete e`. -/
def deletion (e : Node) : Node := .of .unaryExpression
  [(.operator, .text "delete"), (.operatorFirst, .flag true)] [(.argument, .one e)]

/-- `delete (ff?.(xx)).mm[(aa?.bb)?.cc]`. -/
def deletedEntry : Node :=
  let call : Node := .of .optionalCallExpression [(.isOptional, .flag true)]
    [(.callee, .one (Target.ident "ff")), (.typeArguments, .maybe none),
      (.arguments, .many [Target.ident "xx"])]
  let key : Node := .of .optionalMemberExpression
    [(.isComputed, .flag false), (.isOptional, .flag true)]
    [(.object, .one (Target.paren chainAccess)), (.property, .one (Target.ident "cc"))]
  deletion (Target.member (Target.member (Target.paren call) (Target.ident "mm") false) key true)

theorem faithful_chainAccess : Faithful chainAccess :=
  .optionalMember rfl (.identifier rfl) (.identifier rfl) fun _ => rfl

theorem faithful_deletedEntry : Faithful deletedEntry := by
  have hv : ∀ name, Faithful (Target.ident name) := fun name => .identifier rfl
  refine .delete rfl rfl (.member rfl (.member rfl (.parenthesized rfl ?_) (hv "mm") fun _ => rfl)
    (.optionalMember rfl (.parenthesized rfl faithful_chainAccess) (hv "cc") fun _ => rfl) ?_) rfl
  · refine .optionalCall rfl (hv "ff") (fun h => by cases h) fun a ha => ?_
    rw [List.mem_singleton.mp ha]
    exact hv "xx"
  · intro h; cases h

theorem run_convert_deletedEntry :
    Faithful deletedEntry ∧ (deletedEntry.run countingRealm 0).tested = [2, 3, 4] ∧
      (deletedEntry.run countingRealm 0).events =
        [.called 2 none [2], .deleted 4 (.computed 5)] ∧
      (deletedEntry.convert.tree.run countingRealm 0).result =
        (deletedEntry.run countingRealm 0).result ∧
      (deletedEntry.convert.tree.run countingRealm 0).events =
        (deletedEntry.run countingRealm 0).events ∧
      (deletedEntry.convert.tree.run countingRealm 0).state =
        (deletedEntry.run countingRealm 0).state ∧
      ∀ h ∈ deletedEntry.convert.tree.preorder, isLink h = false := by
  have htested : (deletedEntry.run countingRealm 0).tested = [2, 3, 4] := by decide +kernel
  refine ⟨faithful_deletedEntry, htested, ?_,
    run_convert_of_faithful countingRealm faithful_deletedEntry 0 ?_⟩
  · rfl
  · rw [htested]
    decide

/-- `(aa?.bb)()`. -/
def calledChain : Node := .of .callExpression []
  [(.callee, .one (Target.paren chainAccess)), (.typeArguments, .maybe none),
    (.arguments, .many [])]

/-- A chain that is deleted, or called in parentheses, loses its reference. -/
theorem events_convert_deletion :
    ((deletion chainAccess).run countingRealm 0).tested = [2] ∧
      ((deletion chainAccess).run countingRealm 0).events = [.deleted 2 (.named "bb")] ∧
      ((deletion chainAccess).convert.tree.run countingRealm 0).events = [] ∧
      (calledChain.run countingRealm 0).events = [.called 2 (some 2) []] ∧
      (calledChain.convert.tree.run countingRealm 0).events = [.called 2 none []] := by
  refine ⟨?_, ?_, ?_, ?_, ?_⟩ <;> rfl

end Typeshift.Chain
