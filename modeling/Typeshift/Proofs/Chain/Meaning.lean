import Typeshift.Tree.Basic

/-! # What expressions compute

Expressions made of variables, accesses, calls, conjunctions, assignments and optional chains are
evaluated over a *realm*: the values of a program, what its variables and properties hold in a
state, and what calling a value does to the state. Reads depend on the state and do not change it;
a call may do anything to the state. `null` and `undefined` are one value.

A *store* is a state together with the temporaries that assignments have set, which no call can see.
It also keeps what happened: the calls and deletions in order, and the values that optional links
have tested.

* `Node.meaning`: the meaning of an expression, with and without the end of an optional chain.
* `Node.run`: the result of an expression in a state, and what happened on the way. -/

namespace Typeshift.Chain

/-- What a property is found by: its name, or a value. -/
inductive Key (V : Type) where
  | named (name : String)
  | computed (v : V)

/-- The values and states of a program, and how they act on each other. -/
structure Realm (σ V ε : Type) where
  undefined : V
  nullish : V → Bool
  nullish_iff : ∀ v, nullish v = true ↔ v = undefined
  truthy : V → Bool
  falsy_undefined : truthy undefined = false
  /-- What is thrown when a nullish value is called or has a property read. -/
  typeError : ε
  /-- What is thrown by a construct that this module does not describe. -/
  unknown : ε
  lookup : σ → String → V
  property : σ → V → Key V → V
  /-- Call a value, on a receiver if there is one. -/
  call : V → Option V → List V → σ → Except ε V × σ
  /-- Delete a property; an operand that is no property stays. -/
  delete : Option (V × Key V) → σ → Except ε V × σ

/-- A change that other code can observe. -/
inductive Event (V : Type) where
  | called (callee : V) (receiver : Option V) (arguments : List V)
  | deleted (object : V) (key : Key V)

/-- A state, the temporaries that are set, and what happened so far. -/
structure Store (σ V : Type) where
  state : σ
  temporaries : String → Option V
  events : List (Event V)
  /-- The values that optional links have tested. -/
  tested : List V

/-- The store in which one more value was tested. -/
def Store.record {σ V : Type} (u : Store σ V) (v : V) : Store σ V :=
  { u with tested := u.tested ++ [v] }

/-- The store in which a temporary is set. -/
def Store.set {σ V : Type} (u : Store σ V) (name : String) (v : V) : Store σ V :=
  { u with temporaries := fun n => if n = name then some v else u.temporaries n }

/-- A computation that may throw; what it did to the store stays. -/
def Eval (σ V ε α : Type) := Store σ V → Except ε α × Store σ V

namespace Eval

variable {σ V ε α β : Type}

/-- Go on with the result of a computation, unless it throws. -/
def andThen (p : Eval σ V ε α) (f : α → Eval σ V ε β) : Eval σ V ε β := fun u =>
  match p u with
  | (.ok a, u') => f a u'
  | (.error e, u') => (.error e, u')

instance : Monad (Eval σ V ε) where
  pure a := fun u => (.ok a, u)
  bind := andThen

/-- Throw. -/
def throw (e : ε) : Eval σ V ε α := fun u => (.error e, u)

/-- Set a temporary. -/
def assign (name : String) (v : V) : Eval σ V ε Unit := fun u => (.ok (), u.set name v)

/-- Take note of a value that an optional link tests. -/
def test (v : V) : Eval σ V ε Unit := fun u => (.ok (), u.record v)

end Eval

/-- A value, and the object and key of the property it was read from, if it was. -/
structure Reference (V : Type) where
  value : V
  place : Option (V × Key V)

/-- A value that was not read from a property. -/
def Reference.plain {V : Type} (v : V) : Reference V := ⟨v, none⟩

/-- What a node means to the construct around it. -/
structure Meaning (σ V ε : Type) where
  reference : Eval σ V ε (Reference V)
  /-- The same for a link of an optional chain: `none` if the chain ended before this link. -/
  chain : Eval σ V ε (Option (Reference V))

namespace Realm

variable {σ V ε : Type} (W : Realm σ V ε)

/-! ### Steps -/

/-- Read a variable: a temporary that is set, or else a variable of the program. -/
def readVariable (name : String) : Eval σ V ε V := fun u =>
  (.ok ((u.temporaries name).getD (W.lookup u.state name)), u)

/-- Read a property. -/
def readMember (object : V) (key : Key V) : Eval σ V ε (Reference V) := fun u =>
  if W.nullish object then (.error W.typeError, u)
  else (.ok ⟨W.property u.state object key, some (object, key)⟩, u)

/-- Call what a reference holds; the object it was read from is the receiver. -/
def invoke (callee : Reference V) (arguments : List V) : Eval σ V ε (Reference V) := fun u =>
  if W.nullish callee.value then (.error W.typeError, u)
  else
    let receiver := callee.place.map Prod.fst
    let (result, state) := W.call callee.value receiver arguments u.state
    (result.map Reference.plain,
      { u with
        state := state
        events := u.events ++ [.called callee.value receiver arguments] })

/-- Delete the property that a reference was read from. -/
def remove (operand : Reference V) : Eval σ V ε (Reference V) := fun u =>
  let (result, state) := W.delete operand.place u.state
  (result.map Reference.plain,
    { u with
      state := state
      events := u.events ++ operand.place.toList.map fun (object, key) => .deleted object key })

end Realm

namespace Meaning

variable {σ V ε : Type}

/-- The meaning of a node that is no link of a chain. -/
def alone (reference : Eval σ V ε (Reference V)) : Meaning σ V ε :=
  ⟨reference, do return some (← reference)⟩

/-- The value of a node. -/
def value (m : Meaning σ V ε) : Eval σ V ε V := do return (← m.reference).value

/-- The values of some nodes, from left to right. -/
def values : List (Meaning σ V ε) → Eval σ V ε (List V)
  | [] => pure []
  | m :: rest => do
    let v ← m.value
    return v :: (← values rest)

end Meaning

namespace Realm

variable {σ V ε : Type} (W : Realm σ V ε)

/-! ### Constructs -/

/-- The meaning of a link; a chain that ended has no value. -/
def linked (chain : Eval σ V ε (Option (Reference V))) : Meaning σ V ε :=
  ⟨do return (← chain).getD (.plain W.undefined), chain⟩

/-- The meaning of the part in a slot. -/
def part (s : Slots (Meaning σ V ε)) (f : Field) : Meaning σ V ε :=
  match s.child? f with
  | some t => t.note
  | none => .alone (.throw W.unknown)

/-- The key of an access. -/
def keyOf (h : Head) (s : Slots (Meaning σ V ε)) : Eval σ V ε (Key V) :=
  if h.flag .isComputed then do return .computed (← (W.part s .property).value)
  else pure (.named (((s.child? .property).map fun t => t.head.text .name).getD ""))

/-- An access to a property of a value that is there already. -/
def access (h : Head) (s : Slots (Meaning σ V ε)) (object : Reference V) :
    Eval σ V ε (Reference V) := do
  let key ← W.keyOf h s
  W.readMember object.value key

/-- A call of a value that is there already. -/
def apply (s : Slots (Meaning σ V ε)) (callee : Reference V) : Eval σ V ε (Reference V) := do
  let arguments ← Meaning.values ((s.children .arguments).map Tree.note)
  W.invoke callee arguments

/-- One link of an optional chain. An optional link ends the chain at a nullish value. -/
def link (isOptional : Bool) (before : Eval σ V ε (Option (Reference V)))
    (next : Reference V → Eval σ V ε (Reference V)) : Eval σ V ε (Option (Reference V)) := do
  match ← before with
  | none => return none
  | some r =>
    if isOptional then
      Eval.test r.value
      if W.nullish r.value then return none else return some (← next r)
    else return some (← next r)

/-- `l && r`. -/
def conjunction (l r : Meaning σ V ε) : Eval σ V ε (Reference V) := do
  let v ← l.value
  if W.truthy v then return .plain (← r.value) else return .plain v

/-- **The meaning of a construct**, given those of its parts. -/
def meaningRule (h : Head) (s : Slots (Meaning σ V ε)) : Meaning σ V ε :=
  match h.tag? with
  | some .identifier => .alone do return .plain (← W.readVariable (h.text .name))
  | some .parenthesizedExpression => .alone (W.part s .expression).reference
  | some .memberExpression => .alone do W.access h s (← (W.part s .object).reference)
  | some .callExpression => .alone do W.apply s (← (W.part s .callee).reference)
  | some .optionalMemberExpression =>
    W.linked (W.link (h.flag .isOptional) (W.part s .object).chain (W.access h s))
  | some .optionalCallExpression =>
    W.linked (W.link (h.flag .isOptional) (W.part s .callee).chain (W.apply s))
  | some .logicalExpression =>
    if h.text .operator = "&&" then .alone (W.conjunction (W.part s .left) (W.part s .right))
    else .alone (.throw W.unknown)
  | some .assignmentExpression =>
    match s.child? .left with
    | some target =>
      if h.text .operator = "=" && target.head.is .identifier then .alone do
        let v ← (W.part s .right).value
        Eval.assign (target.head.text .name) v
        return .plain v
      else .alone (.throw W.unknown)
    | none => .alone (.throw W.unknown)
  | some .unaryExpression =>
    if h.text .operator = "delete" then .alone do
      W.remove (← (W.part s .argument).reference)
    else .alone (.throw W.unknown)
  | _ => .alone (.throw W.unknown)

end Realm

/-- What a run of an expression came to. -/
structure Run (σ V ε : Type) where
  result : Except ε V
  events : List (Event V)
  state : σ
  /-- The values that optional links have tested. -/
  tested : List V

end Typeshift.Chain

namespace Typeshift

open Chain

variable {σ V ε : Type}

/-- **The meaning of an expression.** -/
def Node.meaning (W : Realm σ V ε) (t : Node) : Meaning σ V ε := t.synthesize W.meaningRule

/-- **Run an expression** in a state in which no temporary is set. -/
def Node.run (W : Realm σ V ε) (t : Node) (s : σ) : Run σ V ε :=
  let (result, u) := (t.meaning W).value ⟨s, fun _ => none, [], []⟩
  ⟨result, u.events, u.state, u.tested⟩

end Typeshift
