import Typeshift.Text.Split

/-! # Paths

A path is a text that names a file or directory. Two spellings may name the same place: repeated
separators, and `.` after the start, do not count. Paths are compared by their components.

* `Path.components`: what a path says, free of its spelling.
* `Path.le`: the order of paths.
* `Path.fileName?`, `Path.parent?`, `Path.withFileName`: the last component, and the rest. -/

namespace Typeshift.Disk

/-- A path as it is spelled. -/
structure Path where
  text : String
  deriving DecidableEq, Repr, Inhabited

/-- A component of a path. -/
inductive Component where
  | root
  | current
  | parent
  | name (s : String)
  deriving DecidableEq, Repr

namespace Component

/-- The component that a piece of a path spells, `none` if it does not count. -/
def ofPiece? (piece : List Char) : Option Component :=
  if piece = [] || piece = ['.'] then none
  else if piece = ['.', '.'] then some .parent
  else some (.name (String.ofList piece))

/-- The place of the kinds of components in the order. -/
def rank : Component → Nat
  | .root => 0
  | .current => 1
  | .parent => 2
  | .name _ => 3

/-- Whether a component comes before another one. -/
def before : Component → Component → Bool
  | .name s, .name t => s < t
  | a, b => a.rank < b.rank

end Component

namespace Path

/-- The pieces of a path between its separators. -/
def pieces (p : Path) : List (List Char) := Text.splitOn '/' p.text.toList

/-- The path that is spelled by some pieces. -/
def ofPieces (pieces : List (List Char)) : Path :=
  match pieces with
  | [[]] => ⟨"/"⟩
  | pieces => ⟨String.ofList (Text.joinWith '/' pieces)⟩

/-- The component of the first piece: an empty one before a separator is the root. -/
def firstComponent (piece : List Char) (isLast : Bool) : Option Component :=
  if piece = [] then (if isLast then none else some .root)
  else if piece = ['.'] then some .current
  else Component.ofPiece? piece

/-- **The components of a path.** -/
def components (p : Path) : List Component :=
  match p.pieces with
  | [] => []
  | first :: rest => (firstComponent first rest.isEmpty).toList ++ rest.filterMap Component.ofPiece?

/-- Whether two paths have the same components. -/
def same (p q : Path) : Bool := p.components = q.components

/-- The order of lists of components: the first difference decides. -/
def leComponents : List Component → List Component → Bool
  | [], _ => true
  | _ :: _, [] => false
  | a :: as, b :: bs => if a = b then leComponents as bs else a.before b

/-- **The order of paths.** -/
def le (p q : Path) : Bool := leComponents p.components q.components

/-- Whether the last piece of a path is followed by a separator. -/
def endsWithSeparator (p : Path) : Bool := p.text.toList.getLast? == some '/'

/-- Whether a path starts at the root. -/
def isAbsolute (p : Path) : Bool := p.text.toList.head? == some '/'

/-- Whether a path holds the null character. -/
def hasNull (p : Path) : Bool := p.text.toList.contains '\x00'

/-- The last component, if it is a name. -/
def fileName? (p : Path) : Option String :=
  match p.components.getLast? with
  | some (.name s) => some s
  | _ => none

/-- Pieces without those at the end that do not count. -/
def trimPieces (pieces : List (List Char)) : List (List Char) :=
  (pieces.reverse.dropWhile fun piece => (Component.ofPiece? piece).isNone).reverse

/-- **The path without its last component**, `none` if it has none to lose. -/
def parent? (p : Path) : Option Path :=
  match p.pieces with
  | [] => none
  | first :: rest =>
    match trimPieces rest with
    | [] => if first = [] then none else some ⟨""⟩
    | names => some (ofPieces (first :: trimPieces names.dropLast))

/-- A path below another one. -/
def push (p : Path) (name : String) : Path :=
  if name.toList.head? = some '/' then ⟨name⟩
  else if p.text = "" || p.endsWithSeparator then ⟨p.text ++ name⟩
  else ⟨p.text ++ "/" ++ name⟩

/-- The path with its last component replaced, if that is a name, and else with a name added. -/
def withFileName (p : Path) (name : String) : Path :=
  if p.fileName?.isSome then (p.parent?.getD p).push name else p.push name

/-- A path and its parents, innermost first; there are at most as many as the path has pieces. -/
def ancestors (p : Path) : List Path := go p.pieces.length p
where
  /-- At most so many parents of a path, and the path before them. -/
  go : Nat → Path → List Path
    | 0, p => [p]
    | n + 1, p =>
      match p.parent? with
      | none => [p]
      | some q => p :: go n q

/-- The path spelled by components one below the other. -/
def ofComponents (cs : List Component) : Path :=
  cs.foldl (fun p c => p.push (match c with
    | .root => "/"
    | .current => "."
    | .parent => ".."
    | .name s => s)) ⟨""⟩

end Path

end Typeshift.Disk
