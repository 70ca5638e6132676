namespace PathSieve

/-!
# Lazy selection

Accepted items are pulled one at a time from a source that is read only as far as needed. A test
that fails ends the selection and keeps what came before.

* `select` — pulls at most `take` accepted items.
-/

/-- What has been pulled from a source, how many of its items were read, and the error that ended
the selection. -/
structure Selection (ε α : Type) where
  yielded : List α
  consumed : Nat
  failed : Option ε
  deriving Repr

/-- A selection after one more item of the source. -/
def Selection.after {ε α : Type} (s : Selection ε α) (item : Option α) : Selection ε α :=
  { s with yielded := item.toList ++ s.yielded, consumed := s.consumed + 1 }

/-- Pulls at most `take` accepted items, or all of them without a limit. -/
def select {ε α : Type} (accepts : α → Except ε Bool) : Option Nat → List α → Selection ε α
  | some 0, _ => ⟨[], 0, none⟩
  | _, [] => ⟨[], 0, none⟩
  | take, x :: rest =>
    match accepts x with
    | .error e => ⟨[], 1, some e⟩
    | .ok true => (select accepts (take.map (· - 1)) rest).after (some x)
    | .ok false => (select accepts take rest).after none

end PathSieve
