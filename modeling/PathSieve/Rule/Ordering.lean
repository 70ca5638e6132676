import PathSieve.Rule.Runs
import PathSieve.Value.Order

namespace PathSieve

/-!
# Sorting by priority

Items are put into falling order of a priority, equal ones in their old order. Numbers have an
order among each other, and so have texts; among other values some pairs have none, and then the
list stays as far sorted as it was when such a pair was met.

* `sortFalling` — the sort, and whether it came to its end.
* `sortFalling_of_inOrder` — where any two priorities have an order it is the stable sort.
-/

/-- The kinds of value that have an order among themselves. -/
inductive OrderKind where
  | number
  | text
  deriving DecidableEq, Repr

/-- The kind of a value, if values of its kind all have an order. -/
def Value.orderKind? : Value → Option OrderKind
  | .bool _ | .int _ | .float _ => some .number
  | .text _ => some .text
  | _ => none

/-- Whether all values are of one kind that has an order. -/
def inOrder (vs : List Value) : Bool :=
  vs.all (·.orderKind? = some .number) || vs.all (·.orderKind? = some .text)

variable {α : Type}

/-- Whether `x` may stand before `y` in a falling order. -/
def notBelow (priority : α → Value) (x y : α) : Bool :=
  (priority x).lt? (priority y) ≠ some true

/-- Sorts a list into falling order of priority, equal items in their old order; `false` says that
two priorities without an order were met. -/
def sortFalling (priority : α → Value) (xs : List α) : List α × Bool :=
  if inOrder (xs.map priority) then (xs.mergeSort (notBelow priority), true)
  else
    let (sorted, done) := sortRising (fun x y => (priority x).lt? (priority y)) xs.reverse
    (sorted.reverse, done)

theorem sortFalling_of_inOrder {priority : α → Value} {xs : List α}
    (h : inOrder (xs.map priority)) :
    sortFalling priority xs = (xs.mergeSort (notBelow priority), true) := by
  simp [sortFalling, h]

end PathSieve
