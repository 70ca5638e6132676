import PathSieve.Pattern.Lexeme
import PathSieve.Text.CaseFold

namespace PathSieve.Pattern

/-!
# Arenas

A compiled pattern is a flat array of nodes that refer to their children by index; every child
stands before its parent.

* `Node`, `Arena` — the nodes and the array with its root.
* `Node.children` — the indices of the children.
* `Node.folds` — what a literal is compared by when case does not count.
* `NodeKind` — the kinds of node, for messages and listings.
-/

/-- The connectives between the operands of a group. -/
inductive Connective where
  | conj
  | disj
  deriving DecidableEq, Repr

/-- The symbol of a connective. -/
def Connective.symbol : Connective → Symbol
  | .conj => .conj
  | .disj => .disj

/-- A node of a compiled pattern; indices refer to the arena. A group is marked `multiSegment`
when its contents hold a separator. -/
inductive Node where
  | sequence (items : List Nat)
  | combine (connective : Connective) (operands : List Nat)
  | literal (text : List Text.CodePoint)
  | anyChar
  | anyChars
  | anyPath
  | split (s : Separator)
  | group (child : Nat) (inverted multiSegment : Bool)
  deriving DecidableEq, Repr

/-- The kind of a node. -/
inductive NodeKind where
  | sequence
  | conj
  | disj
  | literal
  | anyChar
  | anyChars
  | anyPath
  | split
  | group
  deriving DecidableEq, Repr

namespace Node

/-- The kind of a node. -/
def kind : Node → NodeKind
  | .sequence _ => .sequence
  | .combine .conj _ => .conj
  | .combine .disj _ => .disj
  | .literal _ => .literal
  | .anyChar => .anyChar
  | .anyChars => .anyChars
  | .anyPath => .anyPath
  | .split _ => .split
  | .group .. => .group

/-- The indices of the children of a node. -/
def children : Node → List Nat
  | .sequence items => items
  | .combine _ operands => operands
  | .group child _ _ => [child]
  | _ => []

/-- The case folds of a literal, one for each of its code points. -/
def folds : Node → List (List Text.CodePoint)
  | .literal text => text.map Text.CodePoint.fold
  | _ => []

end Node

/-- A compiled pattern. -/
structure Arena where
  nodes : Array Node
  root : Nat
  deriving DecidableEq, Repr

namespace Arena

/-- The number of nodes. -/
def size (a : Arena) : Nat := a.nodes.size

/-- The children of the root. -/
def rootItems (a : Arena) : List Nat := ((a.nodes[a.root]?).map Node.children).getD []

end Arena

end PathSieve.Pattern
