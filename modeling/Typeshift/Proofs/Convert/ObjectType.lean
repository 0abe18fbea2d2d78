import Mathlib.Data.List.SplitBy
import Typeshift.Convert.Basic
import Typeshift.Proofs.Tree.Slots
import Typeshift.Tree.Source

/-! # The parts of an object type

An object type is cut at its spreads. What stands between two of them becomes one type literal, a
spread becomes the type that it names, and the parts are put together by an intersection. The
conversion collects the members that are pending; here the cut comes first.

* `Item`, `Node.items`: the members and the spreads of an object type.
* `cut`, `IsCut`: the runs that the spreads divide items into.
* `pieces`: the conversion with its pending members, and `pieces_eq`: it converts run by run.
* `convertTree_objectType`: an object type is converted run by run. -/

namespace Typeshift.Convert

/-! ### Items and runs -/

/-- What an object type lists: a member, or a spread of another type. -/
inductive Item where
  | member (t : Node)
  | spread (t : Node)

namespace Item

/-- Whether an item is a member. -/
def isMember : Item → Bool
  | .member _ => true
  | .spread _ => false

/-- The node of an item. -/
def node : Item → Node
  | .member t => t
  | .spread t => t

/-- A property as an item. -/
def ofProperty (t : Node) : Item :=
  if t.head.is .objectTypeSpreadProperty then .spread t else .member t

/-- Members that follow each other stay together; a spread stands alone. -/
def together (a b : Item) : Bool := a.isMember && b.isMember

end Item

/-- **The items of an object type**: its properties, its indexers and its call properties, in this
order. -/
def items (s : Slots Unit) : List Item :=
  (s.children .properties).map .ofProperty ++
    (s.children .indexers ++ s.children .callProperties).map .member

/-- **The cut of items at the spreads.** Where there is nothing to cut there is one run of
nothing. -/
def cut (items : List Item) : List (List Item) :=
  if items.isEmpty then [[]] else items.splitBy Item.together

/-- What makes runs a cut of items at the spreads: they are the items in order, a run is one spread
or holds members only, no run of members goes on in the next run, and no run is empty unless there
are no items. -/
structure IsCut (items : List Item) (runs : List (List Item)) : Prop where
  flatten : runs.flatten = items
  kinds : ∀ run ∈ runs, (∃ t, run = [.spread t]) ∨ ∀ a ∈ run, a.isMember = true
  maximal : runs.IsChain fun run next =>
    ¬ ((∀ a ∈ run, a.isMember = true) ∧ ∀ a ∈ next, a.isMember = true)
  nil_mem : [] ∈ runs ↔ items = []

theorem isMember_of_isChain {run : List Item} (h : run.IsChain fun a b => a.together b = true) :
    (∃ t, run = [.spread t]) ∨ ∀ a ∈ run, a.isMember = true := by
  induction run with
  | nil => exact .inr fun a ha => absurd ha List.not_mem_nil
  | cons a rest ih =>
    cases rest with
    | nil =>
      cases a with
      | member t => exact .inr fun b hb => by rw [List.mem_singleton.mp hb]; rfl
      | spread t => exact .inl ⟨t, rfl⟩
    | cons b rest =>
      obtain ⟨hab, hrest⟩ := List.isChain_cons_cons.mp h
      obtain ⟨ha, hb⟩ := Bool.and_eq_true_iff.mp hab
      rcases ih hrest with ⟨t, ht⟩ | hall
      · cases ht
        cases hb
      · exact .inr (List.forall_mem_cons.mpr ⟨ha, hall⟩)

/-- **The cut is one.** -/
theorem isCut_cut (items : List Item) : IsCut items (cut items) := by
  cases items with
  | nil =>
    refine ⟨rfl, fun run hrun => .inr fun a ha => ?_, List.isChain_singleton _,
      ⟨fun _ => rfl, fun _ => List.mem_singleton_self _⟩⟩
    rw [List.mem_singleton.mp hrun] at ha
    cases ha
  | cons a rest =>
    have hcut : cut (a :: rest) = (a :: rest).splitBy Item.together := rfl
    rw [hcut]
    refine ⟨List.flatten_splitBy _ _, fun run hrun =>
      isMember_of_isChain (List.isChain_of_mem_splitBy hrun), ?_,
      ⟨fun h => absurd h (List.nil_notMem_splitBy _ _), nofun⟩⟩
    refine (List.isChain_getLast_head_splitBy Item.together (a :: rest)).imp ?_
    rintro run next ⟨hrun, hnext, hapart⟩ ⟨hmembers, hnexts⟩
    rw [Item.together, hmembers _ (List.getLast_mem hrun), hnexts _ (List.head_mem hnext)] at hapart
    cases hapart

theorem isChain_members (ts : List Node) :
    (ts.map Item.member).IsChain fun a b => a.together b = true := by
  rw [List.isChain_map]
  exact List.isChain_iff_getElem.mpr fun _ _ => rfl

/-- Members alone are one run, if there are any. -/
theorem splitBy_members (ts : List Node) :
    (ts.map Item.member).splitBy Item.together =
      if ts.isEmpty then [] else [ts.map .member] := by
  cases ts with
  | nil => rfl
  | cons t ts => exact List.splitBy_of_isChain (by simp) (isChain_members (t :: ts))

/-- Members up to a spread are a run, if there are any, and the spread is the next one. -/
theorem splitBy_spread (ts : List Node) (t : Node) (rest : List Item) :
    (ts.map Item.member ++ .spread t :: rest).splitBy Item.together =
      (if ts.isEmpty then [] else [ts.map .member]) ++
        [.spread t] :: rest.splitBy Item.together := by
  have hspread : (Item.spread t :: rest).splitBy Item.together =
      [.spread t] :: rest.splitBy Item.together := by
    have := List.splitBy_append (r := Item.together) (l := [.spread t]) (m := rest)
      (by rintro x hx y -; cases hx; rfl)
    exact this
  rw [List.splitBy_append (by rintro x hx y hy; cases hy; exact Bool.and_false _), hspread,
    splitBy_members]

/-- Up to its first spread a list holds members. -/
theorem exists_members : ∀ items : List Item, ∃ ts : List Node,
    items = ts.map .member ∨ ∃ t rest, items = ts.map .member ++ Item.spread t :: rest
  | [] => ⟨[], .inl rfl⟩
  | .spread t :: rest => ⟨[], .inr ⟨t, rest, rfl⟩⟩
  | .member a :: rest => by
    obtain ⟨ts, rfl | ⟨t, rest, rfl⟩⟩ := exists_members rest
    · exact ⟨a :: ts, .inl rfl⟩
    · exact ⟨a :: ts, .inr ⟨t, rest, rfl⟩⟩

/-! ### Converting the runs -/

/-- The conversion of the argument of a spread, with the comments of the spread around it. -/
def convertSpread (t : Node) : Pass Node := do
  let ty ← (t.slots.child? .argument).elim (pure default) convertTree
  return Node.wrapComments t.head.comments ty

/-- **The part that a run becomes.** -/
def convertRun : List Item → Pass Node
  | [.spread t] => convertSpread t
  | run => do return Target.typeLiteral (← run.mapM fun a => convertTree a.node)

/-- The parts of an object type, with members pending. -/
def pieces (members : List Node) : List Item → Pass (List Node)
  | [] => pure (literalOf members)
  | .member t :: rest => do pieces (members ++ [← convertTree t]) rest
  | .spread t :: rest => do
    let spread ← convertSpread t
    return literalOf members ++ spread :: (← pieces [] rest)

theorem convertRun_members (ts : List Node) :
    convertRun (ts.map .member) = do return Target.typeLiteral (← ts.mapM convertTree) := by
  have hrun : convertRun (ts.map .member) =
      do return Target.typeLiteral (← (ts.map Item.member).mapM fun a => convertTree a.node) := by
    cases ts <;> rfl
  rw [hrun, List.mapM_map]
  rfl

/-- Members are one run, if there are any. -/
theorem convertRuns_members (ts : List Node) :
    (if ts.isEmpty then [] else [ts.map Item.member]).mapM convertRun =
      do return literalOf (← ts.mapM convertTree) := by
  have hone (run : List Item) : [run].mapM convertRun = do return [← convertRun run] := by simp
  cases ts with
  | nil => rfl
  | cons t ts =>
    rw [List.isEmpty_cons, if_neg Bool.false_ne_true, hone, convertRun_members]
    simp [literalOf]

theorem pieces_members (members ts : List Node) :
    pieces members (ts.map .member) =
      do return literalOf (members ++ (← ts.mapM convertTree)) := by
  induction ts generalizing members with
  | nil => simp [pieces]
  | cons t ts ih => simp [pieces, ih]

theorem pieces_spread (members ts : List Node) (t : Node) (rest : List Item) :
    pieces members (ts.map .member ++ .spread t :: rest) = do
      let found ← ts.mapM convertTree
      let spread ← convertSpread t
      return literalOf (members ++ found) ++ spread :: (← pieces [] rest) := by
  induction ts generalizing members with
  | nil => simp [pieces]
  | cons a ts ih => simp [pieces, ih]

/-- **The parts are converted run by run.** -/
theorem pieces_eq (items : List Item) :
    pieces [] items = (items.splitBy Item.together).mapM convertRun := by
  -- the induction is on the number of items, since a step takes the members up to a spread with it
  induction hn : items.length using Nat.strong_induction_on generalizing items with
  | _ n ih =>
    subst hn
    obtain ⟨ts, rfl | ⟨t, rest, rfl⟩⟩ := exists_members items
    · rw [pieces_members, splitBy_members, convertRuns_members]
      rfl
    · have hlength : rest.length < (ts.map Item.member ++ .spread t :: rest).length := by
        rw [List.length_append, List.length_cons]
        omega
      rw [pieces_spread, splitBy_spread, ih _ hlength rest rfl, List.mapM_append,
        convertRuns_members, List.mapM_cons]
      simp [convertRun]

/-- With nothing to convert there is still one part, an empty literal. -/
theorem pieces_cut (items : List Item) :
    (do
      let parts ← pieces [] items
      return if parts.isEmpty then [Target.typeLiteral []] else parts) =
      (cut items).mapM convertRun := by
  cases items with
  | nil => rfl
  | cons a rest =>
    have hcut : cut (a :: rest) = (a :: rest).splitBy Item.together := rfl
    rw [pieces_eq, hcut]
    obtain ⟨run, runs, hruns⟩ := List.exists_cons_of_ne_nil
      (List.splitBy_ne_nil (r := Item.together).mpr (List.cons_ne_nil a rest))
    rw [hruns]
    simp

/-! ### The conversion of an object type -/

theorem convertPart_annotate (t : Node) : convertPart (t.annotate outcome) = convertTree t := rfl

theorem convertList_annotate (ts : List Node) :
    convertList (ts.map (Tree.annotate outcome)) = ts.mapM convertTree := by
  unfold convertList
  rw [List.mapM_map]
  rfl

theorem convertSpread_annotate (t : Node) :
    (do return Node.wrapComments t.head.comments (← child (t.annotate outcome).slots .argument)) =
      convertSpread t := by
  unfold convertSpread child Slots.child
  rw [Tree.child?_slots_annotate]
  cases t.slots.child? .argument <;> rfl

/-- Properties and then some members, from pending members on. -/
theorem convertProperties_pieces (members ts us : List Node) :
    (do
      let (parts, last) ← convertProperties members (ts.map (Tree.annotate outcome))
      return parts ++ literalOf (last ++ (← us.mapM convertTree))) =
      pieces members (ts.map .ofProperty ++ us.map .member) := by
  induction ts generalizing members with
  | nil => simp [convertProperties, pieces_members]
  | cons t ts ih =>
    rw [List.map_cons, List.map_cons, List.cons_append, convertProperties, Tree.head_annotate,
      Item.ofProperty]
    split_ifs with ht
    · rw [pieces, ← ih, ← convertSpread_annotate]
      simp
    · rw [pieces, convertPart_annotate, bind_assoc]
      exact bind_congr fun member => ih (members ++ [member])

theorem convertObject_annotate (s : Slots Unit) :
    convertObject (Tree.annotateSlots outcome s) =
      do return intersect (← (cut (items s)).mapM convertRun) := by
  have hchildren (f : Field) :
      children (Tree.annotateSlots outcome s) f = (s.children f).mapM convertTree := by
    rw [children, Slots.children_annotateSlots, convertList_annotate]
  -- an empty list of parts is one literal, and otherwise the pending members are the last part
  have hparts (parts : List Node) (members : List Node) :
      (parts ++ if parts.isEmpty then [Target.typeLiteral members] else literalOf members) =
        if (parts ++ literalOf members).isEmpty then [Target.typeLiteral []]
        else parts ++ literalOf members := by
    cases parts with
    | nil => cases members <;> rfl
    | cons part parts => rfl
  rw [← pieces_cut, items, ← convertProperties_pieces]
  unfold convertObject
  rw [Slots.children_annotateSlots, hchildren, hchildren, List.mapM_append]
  simp only [hparts, List.append_assoc, bind_assoc, pure_bind]

/-- **An object type is converted part by part.** Its properties, indexers and call properties are
cut at the spreads. In the order of the runs and in one pass, a run of members becomes one literal
of their conversions, and a spread the conversion of its argument with the comments of the spread.
The result is the only part, or the intersection of the parts. -/
theorem convertTree_objectType (t : Node) (ht : t.head.is .objectType = true) :
    convertTree t =
        (do return attach t.head (intersect (← (cut (items t.slots)).mapM convertRun))) ∧
      IsCut (items t.slots) (cut (items t.slots)) := by
  refine ⟨?_, isCut_cut (items t.slots)⟩
  obtain ⟨n, h, s⟩ := t
  have htag : h.tag? = some .objectType := beq_iff_eq.mp ht
  have hnode : convertNode h (Tree.annotateSlots outcome s) =
      convertObject (Tree.annotateSlots outcome s) := by
    unfold convertNode
    rw [htag]
    rfl
  show attach h <$> convertNode h (Tree.annotateSlots outcome s) = _
  rw [hnode, convertObject_annotate]
  simp

/-- `{ [k: string]: E, a: A, ...B, ...C, d: D }`. -/
def spreadTwice : Node :=
  let property (name type : String) : Node := Source.property name (Source.generic type []) false
  let spread (type : String) : Node :=
    .of .objectTypeSpreadProperty [] [(.argument, .one (Source.generic type []))]
  let indexer : Node := .of .objectTypeIndexer [(.isStatic, .flag false)]
    [(.id, .maybe (some (Source.ident "k"))), (.key, .one (Node.leaf .stringType)),
      (.value, .one (Source.generic "E" [])), (.variance, .maybe none)]
  .of .objectType [(.isExact, .flag false), (.isInexact, .flag false)]
    [(.properties, .many [property "a" "A", spread "B", spread "C", property "d" "D"]),
      (.indexers, .many [indexer]), (.callProperties, .many []), (.internalSlots, .many [])]

/-- `{ a: A } & B & C & { d: D; [k: string]: E }`. -/
theorem convertTree_objectType_spreadTwice :
    spreadTwice.head.is .objectType = true ∧
      ((convertTree spreadTwice (.start .empty)).1.slots.children .types).map
          (fun part => (part.head.tag?, (part.slots.children .members).length)) =
        [(some .tsTypeLiteral, 1), (some .tsTypeReference, 0), (some .tsTypeReference, 0),
          (some .tsTypeLiteral, 2)] := by
  refine ⟨rfl, ?_⟩
  rw [(convertTree_objectType spreadTwice rfl).1]
  decide

end Typeshift.Convert
