import Typeshift.Proofs.Convert.Keeps
import Typeshift.Proofs.Convert.ObjectType
import Typeshift.Proofs.Convert.Unsupported

/-! # The members of declared classes and interfaces

The body of a declared class or an interface is converted part by part: its properties, its indexers
and its call properties. A part becomes one member, or it is left out and reported. A class inherits
from its first parent; the others and the mixins are left out and reported too. So nothing is lost
without a diagnostic.

* `Logs`: what a step appends to the diagnostics.
* `Contribution`: the members and the diagnostics that come from one part of a body.
* `TypePath`, `ExprPath`: the parts of a dotted name, as a type and as an expression.
* `convertTree_declareClass`, `convertTree_interface`: the members, the parent and the
  diagnostics. -/

namespace Typeshift.Convert

variable {α β : Type}

/-! ### What a step reports -/

/-- A later state has the diagnostics of an earlier one, and then some. -/
def Appends (st st' : State) : Prop := ∃ ds, st'.diagnostics = st.diagnostics ++ ds

theorem stable_appends : Stable Appends where
  refl st := ⟨[], (List.append_nil _).symm⟩
  trans := by
    rintro a b c ⟨ds, hb⟩ ⟨ds', hc⟩
    exact ⟨ds ++ ds', by rw [hc, hb, List.append_assoc]⟩
  report _ d := ⟨[d], rfl⟩
  freshName st _ := ⟨[], (List.append_nil _).symm⟩
  temporary st _ := ⟨[], (List.append_nil _).symm⟩
  scope := id
  ambient := id

/-- In some state a step gives a result and appends diagnostics. -/
def Yields (p : Pass α) (a : α) (ds : List Diagnostic) : Prop :=
  ∃ st, (p st).1 = a ∧ (p st).2.diagnostics = st.diagnostics ++ ds

/-- In every state a step appends diagnostics only; they and the result have a property. -/
def Logs (p : Pass α) (Q : α → List Diagnostic → Prop) : Prop :=
  ∀ st, ∃ ds, (p st).2.diagnostics = st.diagnostics ++ ds ∧ Q (p st).1 ds

namespace Logs

variable {p : Pass α} {Q : α → List Diagnostic → Prop}

theorem pure {a : α} (h : Q a []) : Logs (Pure.pure a) Q :=
  fun _ => ⟨[], (List.append_nil _).symm, h⟩

theorem bind {f : α → Pass β} {R : β → List Diagnostic → Prop} (hp : Logs p Q)
    (hf : ∀ a ds, Q a ds → Logs (f a) fun b es => R b (ds ++ es)) : Logs (p >>= f) R := by
  intro st
  obtain ⟨ds, hds, ha⟩ := hp st
  obtain ⟨es, hes, hb⟩ := hf _ ds ha (p st).2
  exact ⟨ds ++ es, by rw [← List.append_assoc, ← hds]; exact hes, hb⟩

theorem imp {R : α → List Diagnostic → Prop} (hp : Logs p Q) (h : ∀ a ds, Q a ds → R a ds) :
    Logs p R := by
  intro st
  obtain ⟨ds, hds, ha⟩ := hp st
  exact ⟨ds, hds, h _ ds ha⟩

/-- A step of a conversion yields what it gives. -/
theorem yields (hp : Keeps Appends p) : Logs p (Yields p) := by
  intro st
  obtain ⟨ds, hds⟩ := hp st
  exact ⟨ds, hds, st, rfl, hds⟩

theorem report (f : Finding) (h : Head) (args : List String) :
    Logs (Convert.report f h args) fun _ ds => ds = [.ofFinding f h.span args] :=
  fun _ => ⟨_, rfl, rfl⟩

/-- A step that reports nothing. -/
theorem silent {p : Pass α} (h : ∀ st, (p st).2.diagnostics = st.diagnostics) :
    Logs p fun _ ds => ds = [] :=
  fun st => ⟨[], by rw [h, List.append_nil], rfl⟩

/-- Reporting at each part of a list gives one diagnostic for each. -/
theorem reports (f : Finding) (args : Part → List String) : ∀ ts : List Part,
    Logs (ForIn.forIn ts PUnit.unit fun t _ => do
      Convert.report f t.head (args t)
      return ForInStep.yield PUnit.unit) fun _ ds =>
        ds = ts.map fun t => .ofFinding f t.head.span (args t)
  | [] => pure rfl
  | t :: ts => by
    rw [List.forIn_cons, bind_assoc]
    refine (report f t.head (args t)).bind ?_
    rintro _ _ rfl
    refine (reports f args ts).imp ?_
    rintro _ _ rfl
    rfl

end Logs

/-! ### Contributions -/

/-- What one part of a body adds to the members and to the diagnostics. -/
structure Contribution where
  members : List Node
  diagnostics : List Diagnostic

namespace Contribution

/-- A part becomes the member that a step makes, with the diagnostics of the step. -/
def Keeps (c : Contribution) (step : Pass Node) : Prop :=
  ∃ u, c.members = [u] ∧ Yields step u c.diagnostics

/-- A part is left out, with one diagnostic. -/
def Drops (c : Contribution) (d : Diagnostic) : Prop := c.members = [] ∧ c.diagnostics = [d]

end Contribution

/-- The parts of a list contribute one after the other. -/
def Collects (Q : Node → Contribution → Prop) (ts : List Node) (us : List Node)
    (ds : List Diagnostic) : Prop :=
  ∃ cs, List.Forall₂ Q ts cs ∧ us = cs.flatMap (·.members) ∧ ds = cs.flatMap (·.diagnostics)

theorem Collects.nil (Q : Node → Contribution → Prop) : Collects Q [] [] [] := ⟨[], .nil, rfl, rfl⟩

theorem Collects.cons {Q : Node → Contribution → Prop} {t : Node} {ts : List Node}
    {c : Contribution} (hc : Q t c) {us : List Node} {ds : List Diagnostic}
    (h : Collects Q ts us ds) : Collects Q (t :: ts) (c.members ++ us) (c.diagnostics ++ ds) := by
  obtain ⟨cs, hcs, rfl, rfl⟩ := h
  exact ⟨c :: cs, .cons hc hcs, rfl, rfl⟩

/-- The diagnostic of a spread in a body. -/
def spreadDropped (t : Node) : Diagnostic := .ofCode 1001 t.head.span ["ObjectTypeSpreadProperty"]

/-- The diagnostic of a call property of a class. -/
def callDropped (className : String) (t : Node) : Diagnostic := .ofCode 1008 t.head.span [className]

/-- A property becomes the member that a step makes of it, and a spread is left out. -/
def PropertyBecomes (step : Node → Pass Node) (t : Node) (c : Contribution) : Prop :=
  if t.head.is .objectTypeSpreadProperty then c.Drops (spreadDropped t) else c.Keeps (step t)

/-- **What comes of the parts of a body**, with rules for its properties and its call properties:
they contribute in the order properties, indexers, call properties. -/
def BodyBecomes (property call : Node → Contribution → Prop) (body : Node)
    (cs : List Contribution) : Prop :=
  ∃ properties indexers calls, cs = properties ++ indexers ++ calls ∧
    List.Forall₂ property (body.slots.children .properties) properties ∧
    List.Forall₂ (fun t c => c.Keeps (convertTree t)) (body.slots.children .indexers) indexers ∧
    List.Forall₂ call (body.slots.children .callProperties) calls

/-- The property of a body as a member of a declared class. -/
def classMember (t : Node) : Pass Node := convertClassMember (t.annotate outcome)

/-- Properties are members of their kind or spreads. -/
abbrev PlainProperties (body : Node) : Prop :=
  ∀ t ∈ body.slots.children .properties,
    t.head.isAny [.objectTypeProperty, .objectTypeSpreadProperty] = true

/-! ### Steps over the parts of a body -/

theorem good_slots (t : Node) :
    ∀ c ∈ (t.annotate outcome).slots.toList, Closed.Good (Keeps Appends) c :=
  (stable_appends.closed.good_annotate t).parts

theorem logs_convertTree (t : Node) : Logs (convertTree t) (Yields (convertTree t)) :=
  .yields (stable_appends.closed.obeys_outcome t).convert

theorem logs_classMember {t : Node} (ht : t.head.is .objectTypeProperty = true) :
    Logs (classMember t) (Yields (classMember t)) :=
  .yields (stable_appends.closed.classMember ht)

theorem collects_convertList : ∀ ts : List Node,
    Logs (convertList (ts.map (Tree.annotate outcome)))
      (Collects (fun t c => c.Keeps (convertTree t)) ts)
  | [] => .pure (.nil _)
  | t :: ts => by
    rw [convertList_annotate, List.mapM_cons, ← convertList_annotate]
    refine (logs_convertTree t).bind fun u ds hu => ?_
    refine (collects_convertList ts).bind fun us es hus => .pure ?_
    rw [List.append_nil]
    exact .cons (c := ⟨[u], ds⟩) ⟨u, rfl, hu⟩ hus

/-- A member comes first. -/
theorem PropertyBecomes.kept {step : Node → Pass Node} {t u : Node} {ds : List Diagnostic}
    (ht : t.head.is .objectTypeSpreadProperty = false) (hu : Yields (step t) u ds) :
    PropertyBecomes step t ⟨[u], ds⟩ := by
  unfold PropertyBecomes
  rw [ht]
  exact ⟨u, rfl, hu⟩

theorem PropertyBecomes.dropped {step : Node → Pass Node} {t : Node}
    (ht : t.head.is .objectTypeSpreadProperty = true) :
    PropertyBecomes step t ⟨[], [spreadDropped t]⟩ := by
  unfold PropertyBecomes
  rw [ht]
  exact ⟨rfl, rfl⟩

/-- A spread is reported by its name. -/
theorem logs_spread {t : Node} (ht : t.head.is .objectTypeSpreadProperty = true) :
    Logs (report .unsupportedNode t.head [t.head.name]) fun _ ds => ds = [spreadDropped t] := by
  have hname : t.head.name = "ObjectTypeSpreadProperty" := by
    have htag : t.head.kind.tag? = some .objectTypeSpreadProperty := beq_iff_eq.mp ht
    unfold Head.name Kind.name
    cases hkind : t.head.kind with
    | known tag =>
      rw [hkind] at htag
      cases htag
      rfl
    | foreign name raw =>
      rw [hkind] at htag
      cases htag
  rw [hname]
  exact .report _ _ _

theorem collects_convertUnsplit : ∀ ts : List Node,
    Logs (convertUnsplit (ts.map (Tree.annotate outcome)))
      (Collects (PropertyBecomes convertTree) ts)
  | [] => .pure (.nil _)
  | t :: ts => by
    rw [List.map_cons, convertUnsplit, Tree.head_annotate]
    split_ifs with ht
    · refine (logs_spread ht).bind ?_
      rintro _ _ rfl
      exact (collects_convertUnsplit ts).imp fun us ds hus => .cons (.dropped ht) hus
    · refine (logs_convertTree t).bind fun u ds hu => ?_
      refine (collects_convertUnsplit ts).bind fun us es hus => .pure ?_
      rw [List.append_nil]
      exact .cons (.kept (Bool.eq_false_iff.mpr ht) hu) hus

theorem collects_convertClassProperties : ∀ {ts : List Node},
    (∀ t ∈ ts, t.head.isAny [.objectTypeProperty, .objectTypeSpreadProperty] = true) →
    Logs (convertClassProperties (ts.map (Tree.annotate outcome)))
      (Collects (PropertyBecomes classMember) ts)
  | [], _ => .pure (.nil _)
  | t :: ts, hall => by
    obtain ⟨ht, hts⟩ := List.forall_mem_cons.mp hall
    rw [List.map_cons, convertClassProperties, Tree.head_annotate]
    split_ifs with hproperty
    · have hspread : t.head.is .objectTypeSpreadProperty = false := by
        unfold Head.is at hproperty ⊢
        rw [beq_iff_eq.mp hproperty]
        rfl
      refine (logs_classMember hproperty).bind fun u ds hu => ?_
      refine (collects_convertClassProperties hts).bind fun us es hus => .pure ?_
      rw [List.append_nil]
      exact .cons (.kept hspread hu) hus
    · have hspread : t.head.is .objectTypeSpreadProperty = true := by
        simpa [Head.isAny, hproperty] using ht
      refine (logs_spread hspread).bind ?_
      rintro _ _ rfl
      exact (collects_convertClassProperties hts).imp fun us ds hus => .cons (.dropped hspread) hus

/-! ### The body -/

/-- The parts of lists that follow each other contribute in order. -/
theorem BodyBecomes.of_collects {property call : Node → Contribution → Prop} {body : Node}
    {us us' us'' : List Node} {ds ds' ds'' : List Diagnostic}
    (hp : Collects property (body.slots.children .properties) us ds)
    (hi : Collects (fun t c => c.Keeps (convertTree t)) (body.slots.children .indexers) us' ds')
    (hc : Collects call (body.slots.children .callProperties) us'' ds'') :
    ∃ cs, BodyBecomes property call body cs ∧ us ++ us' ++ us'' = cs.flatMap (·.members) ∧
      ds ++ ds' ++ ds'' = cs.flatMap (·.diagnostics) := by
  obtain ⟨ps, hps, rfl, rfl⟩ := hp
  obtain ⟨is, his, rfl, rfl⟩ := hi
  obtain ⟨fs, hfs, rfl, rfl⟩ := hc
  refine ⟨ps ++ is ++ fs, ⟨ps, is, fs, rfl, hps, his, hfs⟩, ?_, ?_⟩
  · rw [List.flatMap_append, List.flatMap_append]
  · rw [List.flatMap_append, List.flatMap_append]

theorem collects_calls (className : String) : ∀ ts : List Node,
    Collects (fun t c => c.Drops (callDropped className t)) ts [] (ts.map (callDropped className))
  | [] => .nil _
  | t :: ts => .cons (c := ⟨[], [callDropped className t]⟩) ⟨rfl, rfl⟩ (collects_calls className ts)

/-- **The members of a declared class.** -/
theorem logs_convertClassMembers (className : String) {body : Node}
    (hobject : body.head.is .objectType = true) (hproperties : PlainProperties body) :
    Logs (convertClassMembers className (body.annotate outcome)) fun us ds => ∃ cs,
      BodyBecomes (PropertyBecomes classMember)
        (fun t c => c.Drops (callDropped className t)) body cs ∧
      us = cs.flatMap (·.members) ∧ ds = cs.flatMap (·.diagnostics) := by
  unfold convertClassMembers children
  rw [Tree.head_annotate, hobject, Tree.children_slots_annotate, Tree.children_slots_annotate,
    Tree.children_slots_annotate]
  refine (collects_convertClassProperties hproperties).bind fun us ds hus => ?_
  refine (collects_convertList _).bind fun us' ds' hus' => ?_
  refine (Logs.reports .callPropertyDropped (fun _ => [className]) _).bind ?_
  rintro _ _ rfl
  refine .pure ?_
  obtain ⟨cs, hcs, hmembers, hdiagnostics⟩ := BodyBecomes.of_collects hus hus'
    (collects_calls className (body.slots.children .callProperties))
  rw [List.append_nil] at hmembers
  refine ⟨cs, hcs, hmembers, ?_⟩
  rw [List.append_nil, ← hdiagnostics, List.map_map, List.append_assoc]
  simp only [Function.comp_def, Tree.head_annotate]
  rfl

/-- **The members of an interface.** -/
theorem logs_convertMembers {body : Node} (hobject : body.head.is .objectType = true) :
    Logs (convertMembers (body.annotate outcome)) fun us ds => ∃ cs,
      BodyBecomes (PropertyBecomes convertTree) (fun t c => c.Keeps (convertTree t)) body cs ∧
      us = cs.flatMap (·.members) ∧ ds = cs.flatMap (·.diagnostics) := by
  unfold convertMembers children
  rw [Tree.head_annotate, if_pos hobject, Tree.children_slots_annotate,
    Tree.children_slots_annotate, Tree.children_slots_annotate]
  refine (collects_convertUnsplit _).bind fun us ds hus => ?_
  refine (collects_convertList _).bind fun us' ds' hus' => ?_
  refine (collects_convertList _).bind fun us'' ds'' hus'' => .pure ?_
  obtain ⟨cs, hcs, hmembers, hdiagnostics⟩ := BodyBecomes.of_collects hus hus' hus''
  exact ⟨cs, hcs, hmembers, by rw [List.append_nil, ← hdiagnostics, List.append_assoc]⟩

/-! ### Parents -/

/-- The parts of the dotted name of a type. -/
inductive TypePath : Node → List String → Prop where
  | name {t : Node} {n : String} (h : t.head.identifier? = some n) : TypePath t [n]
  | dot {t q i : Node} {p : List String} {n : String}
      (tag : t.head.is .qualifiedTypeIdentifier = true)
      (left : t.slots.child? .qualification = some q) (right : t.slots.child? .id = some i)
      (front : TypePath q p) (name : i.head.identifier? = some n) : TypePath t (p ++ [n])

/-- The parts of a dotted name as an expression: members of members of a variable. -/
inductive ExprPath : Node → List String → Prop where
  | name {t : Node} {n : String} (h : t.head.identifier? = some n) : ExprPath t [n]
  | dot {t o p : Node} {path : List String} {n : String}
      (tag : t.head.is .memberExpression = true) (plain : t.head.flag .isComputed = false)
      (left : t.slots.child? .object = some o) (right : t.slots.child? .property = some p)
      (front : ExprPath o path) (name : p.head.identifier? = some n) : ExprPath t (path ++ [n])

/-- The parts of the dotted name of a parent or a mixin. -/
def ParentPath (t : Node) (path : List String) : Prop :=
  TypePath t path ∨ t.head.is .interfaceExtends = true ∧
    ∃ id, t.slots.child? .id = some id ∧ TypePath id path

theorem TypePath.ne_nil {t : Node} {path : List String} (h : TypePath t path) : path ≠ [] := by
  cases h <;> simp

theorem parentName_mk (n : Unit) (h : Head) (s : Slots Unit) :
    parentName (Tree.annotate outcome (.mk n h s)) =
      parentNameRule h (Tree.annotateSlots parentNameRule s) := by
  unfold parentName
  rw [Tree.synthesize_annotate, Tree.synthesize_mk]

/-- The dotted name of what a field holds. -/
theorem parentName_child {s : Slots Unit} {f : Field} {c : Node} (hc : s.child? f = some c) :
    ((Slots.child? (Tree.annotateSlots parentNameRule s) f).map Tree.note).getD "" =
      parentName (c.annotate outcome) := by
  rw [Slots.child?_annotateSlots, hc]
  unfold parentName
  rw [Tree.synthesize_annotate]
  rfl

theorem parentName_identifier {t : Node} {n : String} (h : t.head.identifier? = some n) :
    parentName (t.annotate outcome) = n := by
  obtain ⟨u, head, s⟩ := t
  have htag : head.tag? = some .identifier := Head.tag?_of_identifier? h
  rw [parentName_mk]
  unfold parentNameRule
  rw [htag]
  exact congrArg (·.getD "") h

theorem parentName_qualified {t q i : Node} (tag : t.head.is .qualifiedTypeIdentifier = true)
    (left : t.slots.child? .qualification = some q) (right : t.slots.child? .id = some i) :
    parentName (t.annotate outcome) =
      parentName (q.annotate outcome) ++ "." ++ parentName (i.annotate outcome) := by
  obtain ⟨u, head, s⟩ := t
  have htag : head.tag? = some .qualifiedTypeIdentifier := beq_iff_eq.mp tag
  rw [parentName_mk, ← parentName_child left, ← parentName_child right]
  unfold parentNameRule
  rw [htag]
  rfl

theorem parentName_interfaceExtends {t c : Node} (tag : t.head.is .interfaceExtends = true)
    (hc : t.slots.child? .id = some c) :
    parentName (t.annotate outcome) = parentName (c.annotate outcome) := by
  obtain ⟨u, head, s⟩ := t
  have htag : head.tag? = some .interfaceExtends := beq_iff_eq.mp tag
  rw [parentName_mk, ← parentName_child hc]
  unfold parentNameRule
  rw [htag]
  rfl

theorem parentName_of_typePath {t : Node} {path : List String} (h : TypePath t path) :
    parentName (t.annotate outcome) = ".".intercalate path := by
  induction h with
  | name h => rw [parentName_identifier h, String.intercalate_singleton]
  | @dot t q i path n tag left right front name ih =>
    rw [parentName_qualified tag left right, ih, parentName_identifier name,
      String.intercalate_append_of_ne_nil front.ne_nil (List.cons_ne_nil n []),
      String.intercalate_singleton]

/-- **The name of a parent is dotted.** -/
theorem parentName_of_parentPath {t : Node} {path : List String} (h : ParentPath t path) :
    parentName (t.annotate outcome) = ".".intercalate path := by
  rcases h with h | ⟨tag, id, hid, h⟩
  · exact parentName_of_typePath h
  · exact (parentName_interfaceExtends tag hid).trans (parentName_of_typePath h)

/-- An identifier keeps its name. -/
theorem identifier?_convertTree {t : Node} {n : String} (h : t.head.identifier? = some n)
    (st : State) : (convertTree t st).1.head.identifier? = some n := by
  obtain ⟨u, head, s⟩ := t
  have htag : head.tag? = some .identifier := Head.tag?_of_identifier? h
  have htext : (Head.ofTag .identifier (sharedAttrs .identifier head
      (Tree.annotateSlots outcome s))).text .name = head.text .name :=
    Chain.text_of_convertAttr rfl (by decide) (by decide)
  have hhead :
    (convertShared .identifier head (Tree.annotateSlots outcome s) st).1.head.identifier? =
      some n := by
    rw [head_convertShared, ← h, Tree.head_mk]
    unfold Head.identifier?
    rw [htext, if_pos (show head.is .identifier = true from beq_iff_eq.mpr htag)]
    rfl
  show (attach head (convertNode head (Tree.annotateSlots outcome s) st).1).head.identifier? = _
  rw [Chain.convertNode_shared htag rfl, ← hhead]
  exact Node.identifier?_eq_of_bare (by simp [attach])

/-- The answer of a node for the place of a value. -/
def entity (t : Node) : Pass Node := (t.synthesize outcome).entity

theorem entity_eq (t : Node) : entity t =
    if t.head.is .qualifiedTypeIdentifier then
      entityStep t.head (t.annotate outcome).slots else convertTree t := by
  cases t
  rfl

/-- **A dotted name as an expression has the same parts.** -/
theorem exprPath_entity {t : Node} {path : List String} (h : TypePath t path) :
    ∀ st, ExprPath (entity t st).1 path := by
  induction h with
  | @name t n h =>
    intro st
    have hi : t.head.is .qualifiedTypeIdentifier = false := by
      unfold Head.is
      rw [Head.tag?_of_identifier? h]
      rfl
    rw [entity_eq, hi]
    exact .name (identifier?_convertTree h st)
  | @dot t q i path n tag left right front name ih =>
    intro st
    rw [entity_eq, if_pos tag]
    unfold entityStep child
    rw [Tree.child_slots_annotate outcome left, Tree.child_slots_annotate outcome right]
    exact .dot rfl rfl rfl rfl (ih st) (identifier?_convertTree name _)

/-! ### What a class does not inherit -/

/-- A diagnostic says that a class does not inherit from a parent or a mixin: it is number 1009,
with the dotted name. -/
structure ParentDropped (role className : String) (t : Node) (d : Diagnostic) : Prop where
  made : ∃ name, d = .ofCode 1009 t.head.span [role, name, className] ∧
    ∀ path, ParentPath t path → name = ".".intercalate path
  text : ∀ path, ParentPath t path → '\x7b' ∉ (".".intercalate path).toList →
    d.text = role ++ " '" ++ ".".intercalate path ++ "' of declared class '" ++ className ++
      "' cannot be expressed on a TypeScript class and was dropped."

/-- The text of the diagnostic, if the name does not look like a place for an argument. -/
theorem text_classHeritageDropped {role name : String} (className : String) (span : Option Span)
    (hrole : '\x7b' ∉ role.toList) (hname : '\x7b' ∉ name.toList) :
    (Diagnostic.ofCode 1009 span [role, name, className]).text =
      role ++ " '" ++ name ++ "' of declared class '" ++ className ++
        "' cannot be expressed on a TypeScript class and was dropped." := by
  have hargs : ∀ a ∈ [role, name, className].dropLast, '\x7b' ∉ a.toList :=
    List.forall_mem_cons.mpr ⟨hrole, List.forall_mem_singleton.mpr hname⟩
  refine (Diagnostic.text_ofFinding .classHeritageDropped span _).trans ?_
  rw [Template.formatMessage_of_not_mem (Finding.brace_not_mem_template _) hargs]
  unfold Finding.template
  simp only [String.append_assoc]
  rw [Template.substitute_place, Template.substitute_append_place, Template.substitute_append_place,
    Template.substitute_of_not_mem (by decide), Template.substitute_of_not_mem (by decide),
    Template.substitute_of_not_mem (by decide)]
  rfl

/-- The parents and mixins that a class does not inherit from are reported in order. -/
theorem logs_reportDropped (className : String) (parents mixins : List Node) :
    Logs (reportDropped className (parents.map (Tree.annotate outcome))
      (mixins.map (Tree.annotate outcome))) fun _ ds => ∃ extra mixed, ds = extra ++ mixed ∧
        List.Forall₂ (ParentDropped "Extended class" className) (parents.drop 1) extra ∧
        List.Forall₂ (ParentDropped "Mixin" className) mixins mixed := by
  have hdropped {role : String} (hrole : '\x7b' ∉ role.toList) (ts : List Node) :
      List.Forall₂ (ParentDropped role className) ts (ts.map (Tree.annotate outcome) |>.map fun t =>
        .ofFinding .classHeritageDropped t.head.span [role, parentName t, className]) := by
    rw [List.map_map, List.forall₂_map_right_iff, List.forall₂_same]
    intro t _
    simp only [Function.comp_apply, Tree.head_annotate]
    refine ⟨⟨_, rfl, fun path => parentName_of_parentPath⟩, fun path hpath hname => ?_⟩
    rw [parentName_of_parentPath hpath]
    exact text_classHeritageDropped className _ hrole hname
  unfold reportDropped
  rw [← List.map_drop]
  refine (Logs.reports .classHeritageDropped
    (fun t => ["Extended class", parentName t, className]) _).bind ?_
  rintro _ _ rfl
  refine (Logs.reports .classHeritageDropped
    (fun t => ["Mixin", parentName t, className]) _).bind ?_
  rintro _ _ rfl
  refine .pure ⟨_, _, ?_, hdropped (by decide) _, hdropped (by decide) _⟩
  rw [List.append_nil]

/-! ### Classes and interfaces -/

/-- The first parent of a class as an expression, with its type arguments. -/
def convertSuper : Option Node → Pass (Option Node × Option Node)
  | none => pure (none, none)
  | some p => do
    let e ← ((p.annotate outcome).slots.child .id).note.entity
    return (some e, ← child? (p.annotate outcome).slots .typeParameters)

/-- The name, the type parameters and the other parents of a declaration are converted, with these
diagnostics. -/
def FrameBecomes (t : Node) (parents : Field) (s : Slots Unit) (ds : List Diagnostic) : Prop :=
  ∃ named bounds others, ds = named ++ bounds ++ others ∧
    Yields (child (t.annotate outcome).slots .id) (s.child .id) named ∧
    Yields (child? (t.annotate outcome).slots .typeParameters) (s.child? .typeParameters)
      bounds ∧
    Yields (children (t.annotate outcome).slots parents) (s.children parents) others

/-- The name of a declared class. -/
def className (t : Node) : String := ((t.slots.child? .id).bind (·.head.identifier?)).getD ""

/-- What the parts of a declared class give: diagnostics for its parents after the first, its
mixins, its first parent and its frame, and the contributions of its body. -/
structure ClassLog where
  extra : List Diagnostic
  mixed : List Diagnostic
  inherited : List Diagnostic
  contributions : List Contribution
  frame : List Diagnostic

/-- The diagnostics of a declared class, in order. -/
def ClassLog.diagnostics (log : ClassLog) : List Diagnostic :=
  log.extra ++ log.mixed ++ log.inherited ++ log.contributions.flatMap (·.diagnostics) ++ log.frame

/-- **What becomes of a declared class.** -/
structure ClassBecomes (t body : Node) (s : Slots Unit) (log : ClassLog) : Prop where
  extra : List.Forall₂ (ParentDropped "Extended class" (className t))
    ((t.slots.children .heritage).drop 1) log.extra
  mixed : List.Forall₂ (ParentDropped "Mixin" (className t)) (t.slots.children .mixins) log.mixed
  inherited : Yields (convertSuper (t.slots.children .heritage).head?)
    (s.child? .superClass, s.child? .superTypeParameters) log.inherited
  superClass : ∀ p ∈ (t.slots.children .heritage).head?, ∃ e, s.child? .superClass = some e ∧
    ∀ path, ParentPath p path → ExprPath e path
  body : BodyBecomes (PropertyBecomes classMember)
    (fun call c => c.Drops (callDropped (className t) call)) body log.contributions
  members : (s.child .body).slots.children .body = log.contributions.flatMap (·.members)
  frame : FrameBecomes t .implements s log.frame

/-- **What becomes of an interface**, with the contributions of its body and the diagnostics of its
frame. -/
structure InterfaceBecomes (t body : Node) (s : Slots Unit) (cs : List Contribution)
    (rest : List Diagnostic) : Prop where
  body :
    BodyBecomes (PropertyBecomes convertTree) (fun call c => c.Keeps (convertTree call)) body cs
  members : (s.child .body).slots.children .body = cs.flatMap (·.members)
  frame : FrameBecomes t .heritage s rest

/-- The first parent becomes an expression with the same path. -/
theorem logs_convertSuper {p? : Option Node}
    (hp : ∀ p ∈ p?, p.head.is .interfaceExtends = true) :
    Logs (convertSuper p?) fun r ds => Yields (convertSuper p?) r ds ∧
      ∀ p ∈ p?, ∃ e, r.1 = some e ∧ ∀ path, ParentPath p path → ExprPath e path := by
  have hkeeps : Keeps Appends (convertSuper p?) := by
    cases p? with
    | none => exact stable_appends.closed.pure _
    | some p =>
      refine stable_appends.closed.bind
        (stable_appends.closed.good_child (good_slots p) .id).note.entity fun e => ?_
      exact stable_appends.closed.bind (stable_appends.closed.child? (good_slots p) _)
        fun _ => stable_appends.closed.pure _
  intro st
  obtain ⟨ds, hds, hyields⟩ := Logs.yields hkeeps st
  refine ⟨ds, hds, hyields, ?_⟩
  rintro p rfl
  refine ⟨_, rfl, fun path hpath => ?_⟩
  rcases hpath with hpath | ⟨-, id, hid, hpath⟩
  · exact absurd (hp p rfl) (by cases hpath <;> simp_all [Head.is, Head.tag?_of_identifier?])
  · rw [Tree.child_slots_annotate outcome hid]
    exact exprPath_entity hpath st

/-- A class from its first parent on. -/
theorem logs_convertClassFrom {t body : Node} (hobject : body.head.is .objectType = true)
    (hproperties : PlainProperties body) (superClass superTypeParameters : Option Node) :
    Logs (do
      let members ← convertClassMembers (className t) (body.annotate outcome)
      let id ← child (t.annotate outcome).slots .id
      let typeParameters ← child? (t.annotate outcome).slots .typeParameters
      let contracts ← children (t.annotate outcome).slots .implements
      return Target.classDeclaration (some id) superClass superTypeParameters typeParameters
        contracts
        (atOrigin (body.annotate outcome).head (Target.classBody members)) (← declares)) fun u ds =>
      ∃ cs frame, ds = cs.flatMap (·.diagnostics) ++ frame ∧
        BodyBecomes (PropertyBecomes classMember)
          (fun call c => c.Drops (callDropped (className t) call)) body cs ∧
        (u.slots.child .body).slots.children .body = cs.flatMap (·.members) ∧
        FrameBecomes t .implements u.slots frame ∧
        u.slots.child? .superClass = superClass ∧
        u.slots.child? .superTypeParameters = superTypeParameters := by
  have hgood := good_slots t
  refine (logs_convertClassMembers _ hobject hproperties).bind ?_
  rintro _ _ ⟨cs, hcs, rfl, rfl⟩
  refine (Logs.yields (stable_appends.closed.child hgood .id)).bind fun id named hid => ?_
  refine (Logs.yields (stable_appends.closed.child? hgood .typeParameters)).bind
    fun typeParameters bounds hbounds => ?_
  refine (Logs.yields (stable_appends.closed.children hgood .implements)).bind
    fun contracts others hothers => ?_
  refine (Logs.silent fun _ => rfl).bind ?_
  rintro isDeclare _ rfl
  refine .pure ⟨cs, named ++ bounds ++ others, ?_, hcs, rfl,
    ⟨named, bounds, others, rfl, hid, hbounds, hothers⟩, rfl, rfl⟩
  simp only [List.append_assoc, List.append_nil]

theorem logs_convertClass {t body : Node} (hbody : t.slots.child? .body = some body)
    (hobject : body.head.is .objectType = true) (hproperties : PlainProperties body)
    (hparents : ∀ p ∈ t.slots.children .heritage, p.head.is .interfaceExtends = true) :
    Logs (convertClass (t.annotate outcome).slots) fun u ds =>
      ∃ log : ClassLog, ds = log.diagnostics ∧ ClassBecomes t body u.slots log := by
  have hname : (((t.annotate outcome).slots.child .id).head.identifier?).getD "" = className t := by
    unfold className Slots.child
    rw [Tree.child?_slots_annotate]
    cases t.slots.child? .id with
    | none => rfl
    | some c => exact congrArg (fun h : Head => h.identifier?.getD "") (Tree.head_annotate _ _)
  have hhead : ∀ p ∈ (t.slots.children .heritage).head?, p.head.is .interfaceExtends = true :=
    fun p hp => hparents p (List.mem_of_mem_head? hp)
  unfold convertClass
  rw [hname, Tree.children_slots_annotate, Tree.children_slots_annotate,
    Tree.child_slots_annotate outcome hbody]
  refine (logs_reportDropped _ _ _).bind ?_
  rintro _ _ ⟨extra, mixed, rfl, hextra, hmixed⟩
  -- what follows the first parent is the same whether or not there is one
  have hsuper : Logs (convertSuper (t.slots.children .heritage).head? >>= fun r => do
      let members ← convertClassMembers (className t) (body.annotate outcome)
      let id ← child (t.annotate outcome).slots .id
      let typeParameters ← child? (t.annotate outcome).slots .typeParameters
      let contracts ← children (t.annotate outcome).slots .implements
      return Target.classDeclaration (some id) r.1 r.2 typeParameters contracts
        (atOrigin (body.annotate outcome).head (Target.classBody members)) (← declares)) fun u es =>
      ∃ log : ClassLog, extra ++ mixed ++ es = log.diagnostics ∧
        ClassBecomes t body u.slots log := by
    refine (logs_convertSuper hhead).bind ?_
    rintro ⟨superClass, superTypeParameters⟩ inherited ⟨hinherited, hpath⟩
    refine (logs_convertClassFrom hobject hproperties superClass superTypeParameters).imp ?_
    rintro u _ ⟨cs, frame, rfl, hcs, hmembers, hframe, rfl, rfl⟩
    refine ⟨⟨extra, mixed, inherited, cs, frame⟩, ?_,
      ⟨hextra, hmixed, hinherited, hpath, hcs, hmembers, hframe⟩⟩
    simp only [ClassLog.diagnostics, List.append_assoc]
  rw [List.head?_map]
  cases hp : (t.slots.children .heritage).head? with
  | none =>
    rw [hp] at hsuper
    exact hsuper
  | some p =>
    rw [hp] at hsuper hhead
    have htag : (p.annotate outcome).head.is .interfaceExtends = true := by
      rw [Tree.head_annotate]
      exact hhead p rfl
    rw [Option.map_some]
    dsimp only
    rw [if_pos htag]
    exact hsuper

theorem logs_convertInterface {t body : Node} (hbody : t.slots.child? .body = some body)
    (hobject : body.head.is .objectType = true) (isDeclare : Bool) :
    Logs (convertInterface (t.annotate outcome).slots isDeclare) fun u ds =>
      ∃ cs rest, ds = cs.flatMap (·.diagnostics) ++ rest ∧
        InterfaceBecomes t body u.slots cs rest := by
  have hgood := good_slots t
  unfold convertInterface
  rw [Tree.child_slots_annotate outcome hbody]
  refine (logs_convertMembers hobject).bind ?_
  rintro _ _ ⟨cs, hcs, rfl, rfl⟩
  refine (Logs.yields (stable_appends.closed.child hgood .id)).bind fun id named hid => ?_
  refine (Logs.yields (stable_appends.closed.child? hgood .typeParameters)).bind
    fun typeParameters bounds hbounds => ?_
  refine (Logs.yields (stable_appends.closed.children hgood .heritage)).bind
    fun parents others hothers => .pure ?_
  refine ⟨cs, named ++ bounds ++ others, ?_,
    ⟨hcs, rfl, named, bounds, others, rfl, hid, hbounds, hothers⟩⟩
  simp only [List.append_assoc, List.append_nil]

/-- A declaration has the slots that its rule gives it. -/
theorem slots_attach (h : Head) (t : Node) : (attach h t).slots = t.slots := by
  cases t
  rfl

/-- What a rule gives and reports is what the node gives and reports. -/
theorem convertTree_of_logs {t : Node} {p : Pass Node}
    (hnode : convertNode t.head (t.annotate outcome).slots = p)
    {Q : Slots Unit → List Diagnostic → Prop} (hp : Logs p fun u ds => Q u.slots ds) (st : State) :
    ∃ ds, (convertTree t st).2.diagnostics = st.diagnostics ++ ds ∧
      Q (convertTree t st).1.slots ds := by
  obtain ⟨n, h, s⟩ := t
  subst hnode
  obtain ⟨ds, hds, hQ⟩ := hp st
  refine ⟨ds, hds, ?_⟩
  show Q (attach h (convertNode h _ st).1).slots ds
  rwa [slots_attach]

/-- **Declared classes and interfaces drop nothing silently.** Take a declared class whose body is
an object type of properties and spreads, and whose parents are such. A property and an indexer
become one member each, in this order; a spread is left out with one diagnostic 1001, and a call
property with one diagnostic 1008. The parents after the first and the mixins give one diagnostic
1009 each, in order, with their dotted name; the first parent becomes the parent of the class, as an
expression with the same path. In the body of an interface the call properties become members too,
after the others. The diagnostics are these, and those of the parts that are converted. -/
theorem declarations_dropNothing :
    (∀ (t body : Node) (st : State), t.head.is .declareClass = true →
      t.slots.child? .body = some body → body.head.is .objectType = true → PlainProperties body →
      (∀ p ∈ t.slots.children .heritage, p.head.is .interfaceExtends = true) →
      ∃ log : ClassLog,
        (convertTree t st).2.diagnostics = st.diagnostics ++ log.diagnostics ∧
        ClassBecomes t body (convertTree t st).1.slots log) ∧
    ∀ (t body : Node) (st : State), t.head.isAny [.interfaceDeclaration, .declareInterface] = true →
      t.slots.child? .body = some body → body.head.is .objectType = true → PlainProperties body →
      ∃ cs rest,
        (convertTree t st).2.diagnostics =
          st.diagnostics ++ cs.flatMap (·.diagnostics) ++ rest ∧
        InterfaceBecomes t body (convertTree t st).1.slots cs rest := by
  constructor
  · intro t body st ht hbody hobject hproperties hparents
    have hnode : convertNode t.head (t.annotate outcome).slots =
        convertClass (t.annotate outcome).slots := by
      unfold convertNode
      rw [show t.head.tag? = some .declareClass from beq_iff_eq.mp ht]
      rfl
    obtain ⟨_, hds, log, rfl, hlog⟩ := convertTree_of_logs hnode
      (Q := fun s ds => ∃ log : ClassLog, ds = log.diagnostics ∧ ClassBecomes t body s log)
      (logs_convertClass hbody hobject hproperties hparents) st
    exact ⟨log, hds, hlog⟩
  · intro t body st ht hbody hobject hproperties
    have hnode : ∃ isDeclare : Pass Bool, convertNode t.head (t.annotate outcome).slots = (do
        convertInterface (t.annotate outcome).slots (← isDeclare)) ∧
        ∀ st, (isDeclare st).2.diagnostics = st.diagnostics := by
      unfold convertNode
      obtain ⟨tag, hmem, htag⟩ := List.any_eq_true.mp ht
      rw [show t.head.tag? = some tag from beq_iff_eq.mp htag]
      rcases List.mem_cons.mp hmem with rfl | hmem
      · exact ⟨pure false, rfl, fun _ => rfl⟩
      · rw [List.mem_singleton.mp hmem]
        exact ⟨declares, rfl, fun _ => rfl⟩
    obtain ⟨isDeclare, hnode, hsilent⟩ := hnode
    obtain ⟨_, hds, cs, rest, rfl, hlog⟩ := convertTree_of_logs hnode
      (Q := fun s ds => ∃ cs rest, ds = cs.flatMap (·.diagnostics) ++ rest ∧
        InterfaceBecomes t body s cs rest)
      ((Logs.silent hsilent).bind fun b _ hb => by
        rw [hb]
        exact logs_convertInterface hbody hobject b) st
    exact ⟨cs, rest, by rw [hds, List.append_assoc], hlog⟩

/-- `{ a: T; ...S; [string]: T; (): void }`. -/
def mixedBody : Node :=
  .of .objectType [(.isExact, .flag false), (.isInexact, .flag false)]
    [(.properties, .many [Source.property "a" (Source.generic "T" []) false,
        Node.of .objectTypeSpreadProperty [] [(.argument, .one (Source.generic "S" []))]]),
      (.indexers, .many [Node.of .objectTypeIndexer [(.isStatic, .flag false)]
        [(.variance, .maybe none), (.id, .maybe none), (.key, .one (Node.leaf .stringType)),
          (.value, .one (Source.generic "T" []))]]),
      (.callProperties, .many [Node.of .objectTypeCallProperty [(.isStatic, .flag false)]
        [(.value, .one (Source.functionType [] (Node.leaf .voidType)))]]),
      (.internalSlots, .many [])]

/-- `declare class C extends A.B, D mixins E { a: T; ...S; [string]: T; (): void }`. -/
def crowdedClass : Node :=
  let parent (id : Node) : Node :=
    .of .interfaceExtends [] [(.id, .one id), (.typeParameters, .maybe none)]
  .of .declareClass []
    [(.id, .one (Source.ident "C")), (.typeParameters, .maybe none),
      (.heritage, .many [parent (.of .qualifiedTypeIdentifier []
        [(.qualification, .one (Source.ident "A")), (.id, .one (Source.ident "B"))]),
        parent (Source.ident "D")]),
      (.mixins, .many [parent (Source.ident "E")]), (.implements, .many []),
      (.body, .one mixedBody)]

/-- `interface C { a: T; ...S; [string]: T; (): void }`. -/
def crowdedInterface : Node :=
  .of .interfaceDeclaration []
    [(.id, .one (Source.ident "C")), (.typeParameters, .maybe none), (.heritage, .many []),
      (.body, .one mixedBody)]

/-- The class has two members, inherits from `A.B`, and is reported four times; the interface has
three members and is reported once. -/
theorem declarations_dropNothing_crowded :
    (crowdedClass.head.is .declareClass = true ∧
      crowdedClass.slots.child? .body = some mixedBody ∧ mixedBody.head.is .objectType = true ∧
      PlainProperties mixedBody ∧
      (∀ p ∈ crowdedClass.slots.children .heritage, p.head.is .interfaceExtends = true) ∧
      ∃ log : ClassLog,
        log.diagnostics.map (·.code) = [1009, 1009, 1001, 1008] ∧
        (log.contributions.flatMap (·.members)).length = 2 ∧
        ClassBecomes crowdedClass mixedBody (convertTree crowdedClass (.start .empty)).1.slots log ∧
        ∃ e, (convertTree crowdedClass (.start .empty)).1.slots.child? .superClass = some e ∧
          ExprPath e ["A", "B"]) ∧
    crowdedInterface.head.isAny [.interfaceDeclaration, .declareInterface] = true ∧
      crowdedInterface.slots.child? .body = some mixedBody ∧
      ∃ cs rest, (cs.flatMap (·.diagnostics) ++ rest).map (·.code) = [1001] ∧
        (cs.flatMap (·.members)).length = 3 ∧
        InterfaceBecomes crowdedInterface mixedBody
          (convertTree crowdedInterface (.start .empty)).1.slots cs rest := by
  have hproperties : PlainProperties mixedBody := by decide
  have hparents : ∀ p ∈ crowdedClass.slots.children .heritage,
      p.head.is .interfaceExtends = true := by decide
  obtain ⟨log, hds, hclass⟩ := declarations_dropNothing.1 crowdedClass mixedBody (.start .empty) rfl
    rfl rfl hproperties hparents
  obtain ⟨cs, rest, hds', hinterface⟩ := declarations_dropNothing.2 crowdedInterface mixedBody
    (.start .empty) rfl rfl rfl hproperties
  refine ⟨⟨rfl, rfl, rfl, hproperties, hparents, log, ?_, ?_, hclass, ?_⟩, rfl, rfl, cs, rest,
    ?_, ?_, hinterface⟩
  · rw [← List.nil_append log.diagnostics]
    exact (congrArg _ hds.symm).trans (by decide)
  · rw [← hclass.members]
    decide
  · obtain ⟨e, he, hpath⟩ := hclass.superClass _ rfl
    exact ⟨e, he, hpath _ (.inr ⟨rfl, _, rfl, .dot (p := ["A"]) rfl rfl rfl (.name rfl) rfl⟩)⟩
  · rw [← List.nil_append (cs.flatMap _)]
    exact (congrArg _ hds'.symm).trans (by decide)
  · rw [← hinterface.members]
    decide

end Typeshift.Convert
