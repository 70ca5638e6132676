import PathSieve.Matching.Subject
import PathSieve.Pattern.Arena

namespace PathSieve.Matching

open Pattern

/-!
# Runs inside a segment

Literals, `?` and `*` never take a separator with them unless a literal holds one, so a run of
them is matched on a row of positions, one atom after the other.

* `segment` — the positions where a run of atoms can end.
-/

/-- What can go wrong with a run of atoms given by their indices. -/
inductive SegmentError where
  | notAnAtom (kind : NodeKind)
  | outOfRange
  deriving DecidableEq, Repr

/-- The index that `i` stands for among `n` places: a negative one counts from the end. -/
def place? (n : Nat) (i : Int) : Option Nat :=
  if 0 ≤ i then (if i < n then some i.toNat else none)
  else if 0 ≤ i + n then some (i + n).toNat else none

/-- The positions after one atom. -/
def atomStep (t : Subject) (row : Positions) : Node → Except SegmentError Positions
  | .literal cs => .ok (t.afterLiteral cs row)
  | .anyChar => .ok (t.afterChar row)
  | .anyChars => .ok (t.spread row)
  | n => .error (.notAnAtom n.kind)

/-- The positions after a list of atoms; a row without positions ends the run. -/
def segmentFrom (nodes : Array Node) (t : Subject) (row : Positions) :
    List Int → Except SegmentError Positions
  | [] => .ok row
  | i :: rest =>
    match (place? nodes.size i).bind (nodes[·]?) with
    | none => .error .outOfRange
    | some n =>
      match atomStep t row n with
      | .error e => .error e
      | .ok next => if next.isEmpty then .ok next else segmentFrom nodes t next rest

/-- The positions where a run of atoms can end when it begins at one of `starts`. -/
def segment (nodes : Array Node) (atoms : List Int) (t : Subject) (starts : List Int) :
    Except SegmentError Positions :=
  match starts.mapM (place? (t.length + 1)) with
  | none => .error .outOfRange
  | some ps => segmentFrom nodes t (.ofList ps) atoms

end PathSieve.Matching
