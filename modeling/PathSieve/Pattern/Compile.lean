import PathSieve.Pattern.Token
import PathSieve.Pattern.Arena

namespace PathSieve.Pattern

open Text (CodePoint)

/-!
# Compilation

Tokens are read once from left to right. Each open group is a `Level` that gathers the terms of
the current operand and the operands that are complete; closing a level joins its operands
strictly from left to right, with a run of one connective in a single node.

* `Build.step` — the effect of one token.
* `Build.close` — the expression of a level, once it is complete.
* `compile` — the arena of pattern text.
-/

/-! ### Limits -/

/-- The most code points pattern text may have. -/
def maxLength : Nat := 4096

/-- The most groups that may be open at once. -/
def maxDepth : Nat := 32

/-! ### Levels -/

/-- A group that is still open, or the whole pattern: where it starts, the terms of its current
operand, and its complete operands, each with the connective after it. -/
structure Level where
  position : Nat
  inverted : Bool := false
  items : Array Nat := #[]
  operands : Array (Nat × Connective) := #[]
  multiSegment : Bool := false

/-- Adds a term to the current operand. -/
def Level.push (l : Level) (i : Nat) : Level := { l with items := l.items.push i }

/-- The state of compilation: the nodes so far, the innermost level and those around it. -/
structure Build where
  nodes : Array Node := #[]
  level : Level := ⟨0, false, #[], #[], false⟩
  outer : List Level := []

namespace Build

/-- Adds a node that is a term of the current operand. -/
def term (b : Build) (n : Node) : Build :=
  { b with nodes := b.nodes.push n, level := b.level.push b.nodes.size }

/-- Marks the current level as one that holds a separator. -/
def markMulti (b : Build) : Build := { b with level := { b.level with multiSegment := true } }

/-! ### Closing a level -/

/-- Joins operands from left to right: `children` are the operands of the run of `op` that is
being gathered, and each further operand comes with the connective before it. -/
def join (nodes : Array Node) (op : Connective) (children : List Nat) :
    List (Connective × Nat) → Array Node × Nat
  | [] => (nodes.push (.combine op children), nodes.size)
  | (next, operand) :: rest =>
    if next = op then join nodes op (children ++ [operand]) rest
    else join (nodes.push (.combine op children)) next [nodes.size, operand] rest

/-- Pairs each operand with the connective before it; the first operand stands alone. -/
def chain (operands : List (Nat × Connective)) (last : Nat) : Nat × List (Connective × Nat) :=
  match operands with
  | [] => (last, [])
  | (first, op) :: rest =>
    let (next, tail) := chain rest last
    (first, (op, next) :: tail)

/-- The expression of a level that ends at `finish`: its nodes are added, and the index of a
sequence or of a combination is returned. -/
def close (nodes : Array Node) (l : Level) (finish : Nat) (isGroup : Bool) :
    Except FormatError (Array Node × Nat) :=
  match l.operands.back? with
  | none =>
    if isGroup && l.items.isEmpty then .error ⟨.emptyGroup, l.position⟩
    else .ok (nodes.push (.sequence l.items.toList), nodes.size)
  | some (_, lastOp) =>
    if l.items.isEmpty then .error ⟨.emptyAfter lastOp.symbol, finish⟩
    else
      let nodes' := nodes.push (.sequence l.items.toList)
      match chain l.operands.toList nodes.size with
      | (first, (op, second) :: rest) => .ok (join nodes' op [first, second] rest)
      | (only, []) => .ok (nodes', only)

/-! ### One token -/

/-- Ends the current operand at a connective. -/
def connect (b : Build) (op : Connective) (position : Nat) : Except FormatError Build :=
  if b.level.items.isEmpty then .error ⟨.emptyBefore op.symbol, position⟩
  else .ok { b with
    nodes := b.nodes.push (.sequence b.level.items.toList)
    level := { b.level with
      items := #[]
      operands := b.level.operands.push (b.nodes.size, op) } }

/-- Opens a group. -/
def openGroup (b : Build) (inverted : Bool) (position : Nat) : Except FormatError Build :=
  if maxDepth ≤ b.outer.length then .error ⟨.tooDeep, position⟩
  else .ok { b with level := ⟨position, inverted, #[], #[], false⟩, outer := b.level :: b.outer }

/-- Closes the innermost group and makes it a term of the level around it. -/
def closeGroup (b : Build) (position : Nat) : Except FormatError Build :=
  match b.outer with
  | [] => .error ⟨.unbalanced, position⟩
  | parent :: outer => do
    let (nodes, child) ← close b.nodes b.level position true
    return {
      nodes := nodes.push (.group child b.level.inverted b.level.multiSegment)
      level := { parent.push nodes.size with
        multiSegment := parent.multiSegment || b.level.multiSegment }
      outer }

/-- The effect of one token. -/
def step (b : Build) (t : Token) : Except FormatError Build :=
  match t.kind with
  | .literal text => .ok (b.term (.literal text))
  | .symbol .anyChar => .ok (b.term .anyChar)
  | .symbol .anyChars => .ok (b.term .anyChars)
  | .symbol (.split s) => .ok (b.term (.split s)).markMulti
  | .symbol (.anyPath s) => .ok ((b.term .anyPath).term (.split s)).markMulti
  | .symbol .conj => b.connect .conj t.position
  | .symbol .disj => b.connect .disj t.position
  | .symbol .openGroup => b.openGroup false t.position
  | .symbol .openInverse => b.openGroup true t.position
  | .symbol .closeGroup => b.closeGroup t.position

/-- The arena of a pattern of `length` code points whose tokens have all been read; the root is
always a sequence. -/
def finish (b : Build) (length : Nat) : Except FormatError Arena :=
  match b.outer with
  | _ :: _ => .error ⟨.unterminated, b.level.position⟩
  | [] => do
    let (nodes, top) ← close b.nodes b.level length false
    if b.level.operands.isEmpty then return ⟨nodes, top⟩
    else return ⟨nodes.push (.sequence [top]), nodes.size⟩

end Build

/-! ### Pattern text -/

/-- The arena of a list of tokens. -/
def ofTokens (tokens : List Token) (length : Nat) : Except FormatError Arena := do
  let b ← tokens.foldlM Build.step {}
  b.finish length

/-- Refuses pattern text that is too long. -/
def checkLength (text : List CodePoint) : Except FormatError Unit :=
  if maxLength < text.length then .error ⟨.tooLong, maxLength⟩ else .ok ()

/-- The arena of pattern text. -/
def compile (text : List CodePoint) : Except FormatError Arena := do
  checkLength text
  let tokens ← tokenize text
  ofTokens tokens text.length

end PathSieve.Pattern
