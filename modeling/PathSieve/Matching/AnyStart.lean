import PathSieve.Matching.Ends

namespace PathSieve.Matching

open Pattern

/-!
# Ends from any start

A node may be asked for its end positions from a start that is not in the text. A run inside a
segment and a separator count a negative start from the end and refuse one that is out of range;
a path wildcard and the complement of a group take every start as it is.

* `Arena.endsFrom` — the end positions of a node from one start.
* `Arena.endTable` — those of all nodes from some starts.
-/

/-! ### Sets of integers -/

/-- The members of a list in increasing order, each once. -/
def increasing (xs : List Int) : List Int := (xs.mergeSort (· ≤ ·)).eraseReps

/-- The members of a set of positions as integers. -/
def Positions.toInts (s : Positions) : List Int := s.toList.map Int.ofNat

@[simp] theorem Positions.mem_toInts {p : Nat} {s : Positions} : (p : Int) ∈ s.toInts ↔ p ∈ s := by
  simp [toInts, ← Int.ofNat_eq_natCast]

/-- End positions in increasing order, or why there are none. -/
abbrev AnyEnds := Search (List Int)

namespace Subject

/-! ### Leaves -/

/-- The positions of the separators as integers. -/
def separatorInts (t : Subject) : List Int := t.separators.toInts

/-- The position after a separator at `p`, if there is one. -/
def pastSeparator (t : Subject) (p : Int) : AnyEnds :=
  if t.length ≤ p then return []
  else match place? t.length p with
    | none => throw .outOfRange
    | some q => return if q ∈ t.separators then [p + 1] else []

/-- The positions of a row and those behind the separators from the least of them on. -/
def pastSegments (t : Subject) (row : List Int) : List Int :=
  increasing (row ++ (t.separatorInts.filter fun q => row.any (· ≤ q)).map (· + 1))

/-- Where a span from `p` may end at most. -/
def reachFrom (t : Subject) (multiSegment : Bool) (p : Int) : Int :=
  if multiSegment then t.length else ((t.separatorInts.find? (p ≤ ·)).getD t.length)

/-- The integers from `low` to `high`, both included. -/
def span (low high : Int) : List Int :=
  (List.range (high + 1 - low).toNat).map fun (k : Nat) => low + k

end Subject

/-! ### Nodes -/

/-- The union of what is reached from the positions of a row. -/
def reachedFrom (ends : Int → AnyEnds) (row : List Int) : AnyEnds :=
  return increasing (← row.mapM ends).flatten

/-- The positions after one item of a sequence, where `ends` knows the nodes with parts. -/
def stepFrom (nodes : Array Node) (t : Subject) (ends : Nat → Int → AnyEnds) (item : Nat)
    (row : List Int) : AnyEnds :=
  match nodes[item]? with
  | some (.literal _) | some .anyChar | some .anyChars =>
    return (← segment nodes [item] t row : Positions).toInts
  | some .anyPath => return t.pastSegments row
  | some (.split _) => reachedFrom t.pastSeparator row
  | _ => reachedFrom (ends item) row

/-- The positions after a sequence of items; the separator after a path wildcard belongs to the
wildcard. -/
def runFrom (nodes : Array Node) (t : Subject) (ends : Nat → Int → AnyEnds) (row : List Int) :
    List Nat → AnyEnds
  | [] => return row
  | [i] => if row.isEmpty then return [] else stepFrom nodes t ends i row
  | i :: j :: rest =>
    if row.isEmpty then return []
    else do
      let next ← stepFrom nodes t ends i row
      if nodes[i]? = some .anyPath then runFrom nodes t ends next rest
      else runFrom nodes t ends next (j :: rest)

/-- The positions that all operands reach; an empty set ends the search. -/
def sharedFrom (ends : Nat → AnyEnds) (row : List Int) : List Nat → AnyEnds
  | [] => return row
  | i :: rest =>
    if row.isEmpty then return []
    else do
      let other ← ends i
      sharedFrom ends (row.filter (· ∈ other)) rest

/-- The end positions of a node from one start, where `ends` knows those of its children. -/
def nodeEndsFrom (nodes : Array Node) (t : Subject) (ends : Nat → Int → AnyEnds) (index : Nat)
    (start : Int) : AnyEnds :=
  match nodes[index]? with
  | none => throw .outOfRange
  | some (.sequence items) => runFrom nodes t ends [start] items
  | some (.combine .conj []) => throw .outOfRange
  | some (.combine .conj (i :: rest)) => do sharedFrom (ends · start) (← ends i start) rest
  | some (.combine .disj operands) =>
    return increasing (← operands.mapM (ends · start)).flatten
  | some (.group child false _) => ends child start
  | some (.group child true multi) => do
    let matched ← ends child start
    return (Subject.span start (t.reachFrom multi start)).filter (· ∉ matched)
  | some _ => stepFrom nodes t ends index [start]

/-- The end positions of a node from one start, which are remembered if the start is in the text;
no path through the arena is longer than `fuel`. -/
def endsFromWithin (a : Arena) (t : Subject) : (fuel index : Nat) → (start : Int) → AnyEnds
  | 0, _, _ => throw .outOfRange
  | fuel + 1, index, start =>
    if 0 ≤ start ∧ start ≤ t.length then return (← a.ends t index start.toNat).toInts
    else nodeEndsFrom a.nodes t (endsFromWithin a t fuel) index start

end PathSieve.Matching

namespace PathSieve.Pattern.Arena

open Matching

/-- The end positions of a node from one start. -/
def endsFrom (a : Arena) (t : Subject) (index : Nat) (start : Int) : AnyEnds :=
  endsFromWithin a t (a.size + 1) index start

/-- A start in the text is asked for as it is. -/
theorem endsFrom_natCast (a : Arena) (t : Subject) (index : Nat) {start : Nat}
    (h : start ≤ t.length) :
    a.endsFrom t index start = return (← a.ends t index start).toInts := by
  simp [endsFrom, endsFromWithin, h]

/-- The end positions of all nodes from some starts, in the order of the arena; the questions
share what is remembered. -/
def endTable (a : Arena) (t : Subject) (starts : List Int) :
    Except SegmentError (List (List (List Int))) :=
  a.search ((List.range a.size).mapM fun i => starts.mapM fun p => a.endsFrom t i p)

end PathSieve.Pattern.Arena
