namespace PathSieve.Yaml

/-!
# Lists that grow at their end

A trail holds what has been read so far. It mostly grows at its end, and sometimes an item is put
in near there; earlier trails stay as they are, so that a reader can go back to one.

* `Trail.toList` — the items in order.
* `Trail.push`, `Trail.insert` — a further item, at the end or in front of the one at a place.
* `Trail.first` — the items in front of a place.
-/

/-- Items in order, kept with the latest first, and their number. -/
structure Trail (α : Type) where
  latest : List α
  size : Nat
  size_eq : size = latest.length
  deriving Repr

namespace Trail

variable {α : Type}

/-- The items in order. -/
def toList (t : Trail α) : List α := t.latest.reverse

/-- The trail without items. -/
def empty : Trail α := ⟨[], 0, rfl⟩

/-- Adds an item at the end. -/
def push (t : Trail α) (a : α) : Trail α :=
  ⟨a :: t.latest, t.size + 1, by simp [t.size_eq]⟩

/-- Puts an item in front of the one at a place; a place behind the last item is the end. -/
def insert (t : Trail α) (place : Nat) (a : α) : Trail α :=
  let behind := t.size - place
  ⟨t.latest.take behind ++ a :: t.latest.drop behind, t.size + 1, by
    rw [List.length_append, List.length_cons, ← Nat.add_assoc, ← List.length_append,
      List.take_append_drop, t.size_eq]⟩

/-- The items in front of a place. -/
def first (t : Trail α) (place : Nat) : List α := (t.latest.drop (t.size - place)).reverse

@[simp] theorem toList_empty : (empty : Trail α).toList = [] := rfl

@[simp] theorem toList_push (t : Trail α) (a : α) : (t.push a).toList = t.toList ++ [a] := by
  simp [push, toList]

/-- The items in front of a place are the first ones in order. -/
theorem first_eq_take (t : Trail α) (place : Nat) : t.first place = t.toList.take place := by
  rw [first, toList, List.reverse_drop, t.size_eq]
  by_cases h : place ≤ t.latest.length
  · rw [Nat.sub_sub_self h]
  · rw [List.take_of_length_le (by simp; omega), List.take_of_length_le (by simp; omega)]

/-- An item that is put in stands between the items in front of the place and the others. -/
theorem toList_insert (t : Trail α) (place : Nat) (a : α) :
    (t.insert place a).toList = t.toList.take place ++ a :: t.toList.drop place := by
  rw [← first_eq_take, first, toList, toList, insert, List.reverse_append, List.reverse_cons,
    List.append_assoc, List.singleton_append, List.reverse_take, t.size_eq]
  by_cases h : place ≤ t.latest.length
  · rw [Nat.sub_sub_self h]
  · simp [Nat.le_of_not_le h, Nat.sub_eq_zero_of_le]

end Trail

end PathSieve.Yaml
