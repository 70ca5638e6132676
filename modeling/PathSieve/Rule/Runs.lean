namespace PathSieve

/-!
# Sorting by runs

A list whose items may lack an order is sorted by runs: the rising and falling stretches that it
already has, short ones filled up by insertion, are merged with their neighbours. The sort breaks
off at the first pair without an order, and the list stays as it is at that moment.

* `firstRun` — the run at the head of a list.
* `Merge`, `mergeRuns` — two neighbouring runs merged; where one of them wins many times in a row,
  the rest of its winning streak is looked for in growing strides.
* `sortRising` — the sort, and whether it came to its end.

A step that breaks off gives the list that it leaves behind as its error.
-/

variable {α : Type}

/-! ### Searching a run -/

/-- The first place from `low` to `high` that is not `before`, found by bisection. -/
def bisect (before : Nat → Option Bool) (low high : Nat) : Option Nat :=
  if _h : low < high then
    let middle := low + (high - low) / 2
    match before middle with
    | none => none
    | some true => bisect before (middle + 1) high
    | some false => bisect before low middle
  else some low
termination_by high - low

/-- The last stride for which `goOn` holds and the one behind it, where strides grow from `stride`
on and stop at `limit`. -/
def lastStrides (goOn : Nat → Option Bool) (limit last stride : Nat) : Option (Nat × Nat) :=
  if _h : stride < limit then
    match goOn stride with
    | none => none
    | some true => lastStrides goOn limit stride (2 * stride + 1)
    | some false => some (last, stride)
  else some (last, limit)
termination_by limit - stride

/-- The first of `size` places that is not `before`, looked for in strides away from `hint` and by
bisection between the last two of them. -/
def gallop (before : Nat → Option Bool) (size hint : Nat) : Option Nat := do
  if ← before hint then
    let (last, stride) ← lastStrides (fun n => before (hint + n)) (size - hint) 0 1
    bisect before (hint + last + 1) (hint + stride)
  else
    let (last, stride) ← lastStrides (fun n => (before (hint - n)).map (!·)) (hint + 1) 0 1
    bisect before (hint + 1 - stride) (hint - last)

/-- A test of items as a test of places in a list. -/
def atPlace (xs : List α) (test : α → Option Bool) : Nat → Option Bool :=
  let a := xs.toArray
  fun i => (a[i]?).bind test

/-- Whether an item belongs before the place of `x`, which goes behind its equals. -/
def notAbove (lt? : α → α → Option Bool) (x y : α) : Option Bool := (lt? x y).map (!·)

/-! ### Runs -/

/-- The length of the rest of a run: as long as each item compares with the one before it as the
first two did. -/
def runLength (lt? : α → α → Option Bool) (falling : Bool) (previous : α) :
    List α → Option Nat
  | [] => some 0
  | x :: rest => match lt? x previous with
    | none => none
    | some b => if b = falling then (runLength lt? falling x rest).map (· + 1) else some 0

/-- The run at the head of a list, rising or falling, in rising order, and the rest. -/
def headRun (lt? : α → α → Option Bool) : List α → Option (List α × List α)
  | [] => some ([], [])
  | [x] => some ([x], [])
  | x :: y :: rest => do
    let falling ← lt? y x
    let n ← runLength lt? falling y rest
    let run := x :: y :: rest.take n
    return (if falling then run.reverse else run, rest.drop n)

/-- Inserts items one by one, each behind those that are not above it. -/
def insertAll (lt? : α → α → Option Bool) (run : List α) : List α → Except (List α) (List α)
  | [] => .ok run
  | x :: rest =>
    match bisect (atPlace run (notAbove lt? x)) 0 run.length with
    | none => .error (run ++ x :: rest)
    | some i => insertAll lt? (run.take i ++ x :: run.drop i) rest

/-- The length of the shortest runs in a list of `n` items: below 64, and such that the number of
runs is a power of two or a little less. -/
def leastRun (rest : Bool) (n : Nat) : Nat :=
  if n < 64 then n + rest.toNat else leastRun (rest || n % 2 = 1) (n / 2)

/-- The run at the head of a list, filled up to `least` items, and the rest. -/
def firstRun (lt? : α → α → Option Bool) (least : Nat) (xs : List α) :
    Except (List α) (List α × List α) :=
  match headRun lt? xs with
  | none => .error xs
  | some (run, rest) =>
    let lacking := least - run.length
    match insertAll lt? run (rest.take lacking) with
    | .error ys => .error (ys ++ rest.drop lacking)
    | .ok run => .ok (run, rest.drop lacking)

/-! ### Merging -/

/-- Two runs while they are merged from below or from above: what is left of each, the next item
first, the items that have found their place, the latest first, and the number of wins in a row
after which a winning streak is looked for in strides. -/
structure Merge (α : Type) where
  above : Bool
  merged : List α
  left : List α
  right : List α
  patience : Nat

namespace Merge

/-- The list as it stands: what is left of the two runs stays in its order. -/
def items (m : Merge α) : List α :=
  if m.above then m.left.reverse ++ m.right.reverse ++ m.merged
  else m.merged.reverse ++ m.left ++ m.right

/-- Whether the rest needs no comparison: one run is used up, or the run that was set aside is down
to its last item, which lies beyond the other run. -/
def isDone (m : Merge α) : Bool :=
  if m.above then m.left.isEmpty || m.right.length ≤ 1 else m.right.isEmpty || m.left.length ≤ 1

/-- The list at the end: what is left of the two runs changes places. -/
def finish (m : Merge α) : List α :=
  if m.above then m.right.reverse ++ m.left.reverse ++ m.merged
  else m.merged.reverse ++ m.right ++ m.left

/-- Moves the next `n` items of the left run to their place. -/
def takeLeft (m : Merge α) (n : Nat) : Merge α :=
  { m with merged := (m.left.take n).reverse ++ m.merged, left := m.left.drop n }

/-- Moves the next `n` items of the right run to their place. -/
def takeRight (m : Merge α) (n : Nat) : Merge α :=
  { m with merged := (m.right.take n).reverse ++ m.merged, right := m.right.drop n }

/-- The number of next items of a run that go first, where those of the run that satisfy `before`
come below the others. -/
def streak (m : Merge α) (before : α → Option Bool) (xs : List α) : Option Nat :=
  if m.above then
    (gallop (atPlace xs.reverse before) xs.length (xs.length - 1)).map (xs.length - ·)
  else gallop (atPlace xs before) xs.length 0

/-- Takes the winning streak of the left run and then the next item of the right run. -/
def streakLeft (lt? : α → α → Option Bool) (m : Merge α) : Option (Merge α × Nat) :=
  match m.right with
  | [] => some (m, 0)
  | y :: _ => (m.streak (notAbove lt? y) m.left).map fun n =>
    let m' := m.takeLeft n
    (if m'.isDone then m' else m'.takeRight 1, n)

/-- Takes the winning streak of the right run and then the next item of the left run. -/
def streakRight (lt? : α → α → Option Bool) (m : Merge α) : Option (Merge α × Nat) :=
  match m.left with
  | [] => some (m, 0)
  | x :: _ => (m.streak (lt? · x) m.right).map fun n =>
    let m' := m.takeRight n
    (if m'.isDone then m' else m'.takeLeft 1, n)

/-- The streak from which on strides are kept up. -/
def longStreak : Nat := 7

/-- How a merge goes on: item by item, after some wins in a row of either run, or in strides. -/
inductive Pace where
  | single (leftWins rightWins : Nat)
  | strides

/-- The pace after a number of wins in a row. -/
def paceAfter (m : Merge α) (leftWins rightWins : Nat) : Pace :=
  if m.patience ≤ max leftWins rightWins then .strides else .single leftWins rightWins

/-- One round of a merge. -/
def round (lt? : α → α → Option Bool) (m : Merge α) : Pace → Except (List α) (Merge α × Pace)
  | .single leftWins rightWins =>
    match m.left, m.right with
    | x :: _, y :: _ => match lt? y x with
      | none => .error m.items
      | some lower =>
        if lower = m.above then .ok (m.takeLeft 1, m.paceAfter (leftWins + 1) 0)
        else .ok (m.takeRight 1, m.paceAfter 0 (rightWins + 1))
    | _, _ => .ok (m, .single 0 0)
  | .strides =>
    match m.streakLeft lt? with
    | none => .error m.items
    | some (m', n) =>
      if m'.isDone then .ok (m', .strides)
      else match m'.streakRight lt? with
        | none => .error m'.items
        | some (m'', n') =>
          if m''.isDone then .ok (m'', .strides)
          else if longStreak ≤ max n n' then
            .ok ({ m'' with patience := max (m.patience - 1) 1 }, .strides)
          else .ok ({ m'' with patience := m.patience + 1 }, .single 0 0)

/-- Merges to the end; every round takes an item, so that `fuel` may be their number. -/
def run (lt? : α → α → Option Bool) : Nat → Pace → Merge α → Except (List α) (Merge α)
  | 0, _, m => .ok m
  | fuel + 1, pace, m =>
    if m.isDone then .ok m
    else do
      let (m, pace) ← m.round lt? pace
      m.run lt? fuel pace

end Merge

/-- Two runs of which the first item of `b` is below all of `a` and the last one of `a` above all
of `b`, merged from the side of the shorter one; with the patience that is left. -/
def mergeOverlap (lt? : α → α → Option Bool) (patience : Nat) (a b : List α) :
    Except (List α) (List α × Nat) :=
  let m : Merge α :=
    if a.length ≤ b.length then (Merge.mk false [] a b patience).takeRight 1
    else (Merge.mk true [] a.reverse b.reverse patience).takeLeft 1
  (m.run lt? (a.length + b.length) (.single 0 0)).map fun m => (m.finish, m.patience)

/-- Two neighbouring runs merged; the items at the two ends that are in place stay there. -/
def mergeRuns (lt? : α → α → Option Bool) (patience : Nat) (a b : List α) :
    Except (List α) (List α × Nat) :=
  match b.head? with
  | none => .ok (a, patience)
  | some y => match gallop (atPlace a (notAbove lt? y)) a.length 0 with
    | none => .error (a ++ b)
    | some n => match (a.drop n).getLast? with
      | none => .ok (a ++ b, patience)
      | some x => match gallop (atPlace b (lt? · x)) b.length (b.length - 1) with
        | none => .error (a ++ b)
        | some 0 => .ok (a ++ b, patience)
        | some k =>
          let inPlace (xs : List α) : List α := a.take n ++ xs ++ b.drop k
          match mergeOverlap lt? patience (a.drop n) (b.take k) with
          | .error xs => .error (inPlace xs)
          | .ok (xs, patience) => .ok (inPlace xs, patience)

/-! ### Choosing runs to merge -/

/-- Runs that wait to be merged, the last one first, each with the depth of the boundary behind
it in a balanced tree of the whole list. -/
abbrev Waiting (α : Type) := List (List α × Nat)

/-- The items of the waiting runs in their order. -/
def Waiting.items (w : Waiting α) : List α := (w.reverse.map (·.1)).flatten

/-- The depth of the boundary between two runs, given by the sums of their ends: the first binary
place in which the middles of the two runs, as fractions of `n`, differ; `fuel` bounds it. -/
def boundaryDepth (n : Nat) : Nat → Nat → Nat → Nat
  | 0, _, _ => 0
  | fuel + 1, a, b =>
    if n ≤ a then boundaryDepth n fuel (2 * (a - n)) (2 * (b - n)) + 1
    else if n ≤ b then 1
    else boundaryDepth n fuel (2 * a) (2 * b) + 1

/-- Merges the last two waiting runs as long as the boundary between them lies deeper than
`depth`; `fuel` bounds their number. -/
def mergeDeeper (lt? : α → α → Option Bool) (depth : Nat) :
    Nat → Nat → Waiting α → Except (List α) (Waiting α × Nat)
  | 0, patience, w => .ok (w, patience)
  | fuel + 1, patience, w => match w with
    | (b, db) :: (a, da) :: rest =>
      if depth < da then
        match mergeRuns lt? patience a b with
        | .error xs => .error (Waiting.items rest ++ xs)
        | .ok (xs, patience) => mergeDeeper lt? depth fuel patience ((xs, da) :: rest)
      else .ok ((b, db) :: (a, da) :: rest, patience)
    | w => .ok (w, patience)

/-- Adds a run of `size` items to the waiting ones of a list of `n`, once those with a deeper
boundary are merged. -/
def makeRoom (lt? : α → α → Option Bool) (n size patience : Nat) (w : Waiting α) :
    Except (List α) (Waiting α × Nat) :=
  match w with
  | [] => .ok ([], patience)
  | (last, _) :: rest =>
    let a := 2 * (Waiting.items rest).length + last.length
    let depth := boundaryDepth n (2 * n) a (a + last.length + size)
    match mergeDeeper lt? depth w.length patience w with
    | .error xs => .error xs
    | .ok ((last, _) :: rest, patience) => .ok ((last, depth) :: rest, patience)
    | .ok ([], patience) => .ok ([], patience)

/-- Merges all waiting runs, each time the last two, or the two before the last run if the first of
these is shorter than it; `fuel` bounds their number. -/
def mergeAll (lt? : α → α → Option Bool) : Nat → Nat → Waiting α → Except (List α) (List α)
  | 0, _, w => .ok (Waiting.items w)
  | fuel + 1, patience, w => match w with
    | (c, dc) :: (b, db) :: rest =>
      if rest.head?.any fun a => a.1.length < c.length then
        match rest with
        | (a, da) :: rest => match mergeRuns lt? patience a b with
          | .error xs => .error (Waiting.items rest ++ xs ++ c)
          | .ok (xs, patience) => mergeAll lt? fuel patience ((c, dc) :: (xs, da) :: rest)
        | [] => .ok (b ++ c)
      else match mergeRuns lt? patience b c with
        | .error xs => .error (Waiting.items rest ++ xs)
        | .ok (xs, patience) => mergeAll lt? fuel patience ((xs, db) :: rest)
    | w => .ok (Waiting.items w)

/-! ### The sort -/

/-- Sorts the rest of a list of `n` items into the waiting runs before it; `fuel` bounds the number
of its items. -/
def sortRest (lt? : α → α → Option Bool) (n : Nat) :
    Nat → Nat → Waiting α → List α → Except (List α) (List α)
  | 0, patience, w, _ => mergeAll lt? w.length patience w
  | fuel + 1, patience, w, xs =>
    if xs.isEmpty then mergeAll lt? w.length patience w
    else match firstRun lt? (leastRun false n) xs with
      | .error ys => .error (Waiting.items w ++ ys)
      | .ok (run, rest) => match makeRoom lt? n run.length patience w with
        | .error ys => .error (ys ++ run ++ rest)
        | .ok (w, patience) => sortRest lt? n fuel patience ((run, 0) :: w) rest

/-- Sorts a list into rising order, equal items in their old order; `false` says that two items
without an order were met. -/
def sortRising (lt? : α → α → Option Bool) (xs : List α) : List α × Bool :=
  match sortRest lt? xs.length xs.length Merge.longStreak [] xs with
  | .error ys => (ys, false)
  | .ok ys => (ys, true)

end PathSieve
