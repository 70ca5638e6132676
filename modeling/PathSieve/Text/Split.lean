namespace PathSieve.Text

/-!
# Splitting

Lists are cut at separators; the pieces keep their order, and empty ones are kept.

* `splitWhere p xs` — the pieces between the items that satisfy `p`.
* `splitOnPair a b cs` — the pieces between occurrences of `a` followed by `b`, from the left.
-/

/-- Adds an item to the first piece. -/
def consFirst {α : Type} (x : α) : List (List α) → List (List α)
  | [] => [[x]]
  | s :: rest => (x :: s) :: rest

/-- The pieces between the items that satisfy `p`. -/
def splitWhere {α : Type} (p : α → Bool) : List α → List (List α)
  | [] => [[]]
  | x :: xs => if p x then [] :: splitWhere p xs else consFirst x (splitWhere p xs)

theorem splitWhere_ne_nil {α : Type} (p : α → Bool) (xs : List α) : splitWhere p xs ≠ [] := by
  cases xs with
  | nil => simp [splitWhere]
  | cons x xs =>
    unfold splitWhere
    split
    · simp
    · cases splitWhere p xs <;> simp [consFirst]

/-- The pieces between occurrences of `a` followed by `b`. -/
def splitOnPair (a b : Char) : List Char → List (List Char)
  | [] => [[]]
  | [c] => [[c]]
  | c :: d :: cs =>
    if c = a ∧ d = b then [] :: splitOnPair a b cs else consFirst c (splitOnPair a b (d :: cs))

end PathSieve.Text
