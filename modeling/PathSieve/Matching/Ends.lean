import PathSieve.Matching.Segment

namespace PathSieve.Matching

open Pattern

/-!
# End positions

Every node of a compiled pattern maps a start position in the candidate text to the set of
positions where a span that it accepts can end. A search asks the nodes from the root down and
remembers every answer, so that no node is worked out twice from the same start; several questions
about one text may share what is remembered.

* `Memo` — the answers that are remembered.
* `Search` — a computation that may add answers and may stumble over an index.
* `sequenceEnds`, `sharedEnds`, `nodeEnds` — the end positions of a node from those of its
  children.
* `Arena.ends` — the end positions of a node by its index.
* `Arena.accepts` — whether the whole text is a span of the root.
-/

/-! ### Answers -/

/-- The sets of end positions that are known, by node and start. -/
structure Memo where
  rows : Array (Array (Option Positions))

namespace Memo

/-- No answers about a pattern of `size` nodes. -/
def empty (size : Nat) : Memo := ⟨Array.replicate size #[]⟩

/-- The answer for a node and a start. -/
def find? (m : Memo) (index start : Nat) : Option Positions :=
  (m.rows[index]?.bind (·[start]?)).join

/-- Adds the answer for a node and a start. -/
def insert (m : Memo) (index start : Nat) (s : Positions) : Memo :=
  ⟨m.rows.modify index fun row =>
    (row ++ Array.replicate (start + 1 - row.size) none).setIfInBounds start (some s)⟩

end Memo

/-- A computation that may add answers, which stay even if it stumbles. -/
abbrev Search := ExceptT SegmentError (StateM Memo)

/-! ### One node -/

/-- The union of sets of positions. -/
def unionOf (sets : List Positions) : Positions := sets.foldl .union .empty

/-- The positions after one item of a sequence, where `ends` knows the nodes with parts. -/
def itemEnds (nodes : Array Node) (t : Subject) (ends : Nat → Nat → Search Positions)
    (row : Positions) (item : Nat) : Search Positions :=
  match nodes[item]? with
  | none => throw .outOfRange
  | some (.literal _) | some .anyChar | some .anyChars => segmentFrom nodes t row [item]
  | some .anyPath => return t.anyPath row
  | some (.split _) => return t.afterSeparator row
  | some _ => return unionOf (← row.toList.mapM (ends item))

/-- The positions after a sequence of items; a row without positions ends it, and the separator
after a path wildcard belongs to the wildcard. -/
def sequenceEnds (nodes : Array Node) (t : Subject) (ends : Nat → Nat → Search Positions)
    (row : Positions) : List Nat → Search Positions
  | [] => return row
  | [i] => if row.isEmpty then return row else itemEnds nodes t ends row i
  | i :: j :: rest =>
    if row.isEmpty then return row
    else do
      let next ← itemEnds nodes t ends row i
      if nodes[i]? = some .anyPath then sequenceEnds nodes t ends next rest
      else sequenceEnds nodes t ends next (j :: rest)

/-- The positions of a row that all operands reach; a row without positions ends the search. -/
def sharedEnds (ends : Nat → Search Positions) (row : Positions) : List Nat → Search Positions
  | [] => return row
  | i :: rest =>
    if row.isEmpty then return row
    else do sharedEnds ends (row.inter (← ends i)) rest

/-- The positions where a span from `start` may end: up to the next separator, or up to the end
of the text when the pattern itself holds a separator. -/
def reach (t : Subject) (multiSegment : Bool) (start : Nat) : Positions :=
  .interval start (if multiSegment then t.length else t.segmentEnd start)

/-- The end positions of a node from one start, where `ends` knows those of its children; a leaf
is a sequence of itself. -/
def nodeEnds (nodes : Array Node) (t : Subject) (ends : Nat → Nat → Search Positions)
    (index start : Nat) : Search Positions :=
  match nodes[index]? with
  | none => throw .outOfRange
  | some (.sequence items) => sequenceEnds nodes t ends (.single start) items
  | some (.combine .conj []) => throw .outOfRange
  | some (.combine .conj (i :: rest)) => do sharedEnds (ends · start) (← ends i start) rest
  | some (.combine .disj operands) => return unionOf (← operands.mapM (ends · start))
  | some (.group child false _) => ends child start
  | some (.group child true multi) => return (reach t multi start).diff (← ends child start)
  | some _ => sequenceEnds nodes t ends (.single start) [index]

/-- The end positions of a node from one start, remembered or worked out; no path through the
arena is longer than `fuel`. -/
def endsWithin (nodes : Array Node) (t : Subject) :
    (fuel index start : Nat) → Search Positions
  | 0, _, _ => throw .outOfRange
  | fuel + 1, index, start => do
    match (← get).find? index start with
    | some s => return s
    | none =>
      let s ← nodeEnds nodes t (endsWithin nodes t fuel) index start
      modify (·.insert index start s)
      return s

end PathSieve.Matching

namespace PathSieve.Pattern.Arena

open Matching

/-- The positions where a span from `start` that node `index` accepts can end. -/
def ends (a : Arena) (t : Subject) (index start : Nat) : Search Positions :=
  endsWithin a.nodes t a.size index start

/-- What a search that starts without answers finds. -/
def search {α : Type} (a : Arena) (s : Search α) : Except SegmentError α :=
  (s.run.run (.empty a.size)).1

/-- Whether the pattern accepts the whole text; a search that stumbles accepts nothing. -/
def accepts (a : Arena) (t : Subject) : Bool :=
  match a.search (a.ends t a.root 0) with
  | .ok s => t.length ∈ s
  | .error _ => false

end PathSieve.Pattern.Arena
