import PathSieve.Value.Basic

namespace PathSieve

/-!
# Marked values

A map can be held at several places at once, and what is written into it is then seen at each of
them. Maps that can be held so carry a mark: those of one mark are one and the same map.

* `Marked.value`, `Marked.entries` — what is seen of a marked value.
* `Value.unmarked` — a value of which nothing is held at two places.
* `Marked.mirror` — a value in which one of its maps is rewritten at all places.
* `Marked.places` — at how many places a map is held.
-/

/-- A value whose maps may have marks. -/
inductive Marked where
  | scalar (s : Scalar)
  | list (items : List Marked)
  | map (mark : Option Nat) (fields : List (Scalar × Marked))
  deriving Repr

namespace Marked

/-! ### What is seen -/

mutual

/-- A marked value without its marks. -/
def value : Marked → Value
  | .scalar s => .scalar s
  | .list items => .list (values items)
  | .map _ fields => .map (entries fields)

/-- Marked values without their marks. -/
def values : List Marked → List Value
  | [] => []
  | u :: rest => u.value :: values rest

/-- The entries of a map whose values are marked. -/
def entries : Entries Marked → Entries
  | [] => []
  | (k, u) :: rest => (k, u.value) :: entries rest

end

@[simp] theorem entries_nil : entries [] = [] := rfl

theorem values_eq_map (items : List Marked) : values items = items.map value := by
  induction items with
  | nil => rfl
  | cons u rest ih => rw [values, ih, List.map_cons]

theorem entries_eq_map (f : Entries Marked) : entries f = f.map fun kv => (kv.1, kv.2.value) := by
  induction f with
  | nil => rfl
  | cons kv rest ih =>
    obtain ⟨k, u⟩ := kv
    rw [entries, ih, List.map_cons]

/-- What a field is seen to hold. -/
theorem field?_entries (f : Entries Marked) (name : String) :
    (entries f).field? name = (f.field? name).map value := by
  unfold Entries.field?
  induction f with
  | nil => rfl
  | cons kv rest ih =>
    obtain ⟨k, u⟩ := kv
    rw [entries, Entries.get?, Entries.get?]
    split
    · rfl
    · exact ih

/-- What is seen of a map of which a key was set. -/
theorem entries_put (k : Scalar) (u : Marked) (f : Entries Marked) :
    entries (Entries.put k u f) = Entries.put k u.value (entries f) := by
  induction f with
  | nil => rfl
  | cons kv rest ih =>
    obtain ⟨k', w⟩ := kv
    rw [Entries.put, entries, Entries.put]
    split
    · rfl
    · rw [entries, ih]

/-- What is seen of a map of which a field was set. -/
theorem entries_setField (f : Entries Marked) (name : String) (u : Marked) :
    entries (f.setField name u) = (entries f).setField name u.value := entries_put (.text name) u f

/-- What is seen of the map of a list of entries. -/
theorem entries_ofList (es : List (Scalar × Marked)) :
    entries (Entries.ofList es) = Entries.ofList (entries es) := by
  have hfold : ∀ (es : List (Scalar × Marked)) (f : Entries Marked),
      entries (es.foldl (fun f kv => Entries.put kv.1 kv.2 f) f) =
        (entries es).foldl (fun e kv => Entries.put kv.1 kv.2 e) (entries f) := by
    intro es
    induction es with
    | nil => exact fun _ => rfl
    | cons kv es ih =>
      intro f
      obtain ⟨k, u⟩ := kv
      rw [List.foldl_cons, ih, entries_put]
      rfl
  exact hfold es []

/-! ### Places -/

mutual

/-- A value in which the map of a mark has been rewritten. -/
def mirror (mark : Nat) (new : Entries Marked) : Marked → Marked
  | .scalar s => .scalar s
  | .list items => .list (mirrorItems mark new items)
  | .map own fields =>
    if own = some mark then .map own new else .map own (mirrorFields mark new fields)

/-- The items of a list in which the map of a mark has been rewritten. -/
def mirrorItems (mark : Nat) (new : Entries Marked) : List Marked → List Marked
  | [] => []
  | u :: rest => u.mirror mark new :: mirrorItems mark new rest

/-- The fields of a map in which the map of a mark has been rewritten. -/
def mirrorFields (mark : Nat) (new : Entries Marked) : Entries Marked → Entries Marked
  | [] => []
  | (k, u) :: rest => (k, u.mirror mark new) :: mirrorFields mark new rest

end

mutual

/-- At how many places in a value the map of a mark is held. -/
def places (mark : Nat) : Marked → Nat
  | .scalar _ => 0
  | .list items => itemPlaces mark items
  | .map own fields => (if own = some mark then 1 else 0) + fieldPlaces mark fields

/-- At how many places in the items of a list the map of a mark is held. -/
def itemPlaces (mark : Nat) : List Marked → Nat
  | [] => 0
  | u :: rest => u.places mark + itemPlaces mark rest

/-- At how many places in the fields of a map the map of a mark is held. -/
def fieldPlaces (mark : Nat) : Entries Marked → Nat
  | [] => 0
  | (_, u) :: rest => u.places mark + fieldPlaces mark rest

end

/-- What a field holds after a map has been rewritten. -/
theorem field?_mirrorFields (mark : Nat) (new f : Entries Marked) (name : String) :
    (mirrorFields mark new f).field? name = (f.field? name).map (mirror mark new) := by
  unfold Entries.field?
  induction f with
  | nil => rfl
  | cons kv rest ih =>
    obtain ⟨k, u⟩ := kv
    rw [mirrorFields, Entries.get?, Entries.get?]
    split
    · rfl
    · exact ih

section Places

variable {mark : Nat} (new : Entries Marked)

mutual

/-- Where a map is not held, nothing changes when it is rewritten. -/
theorem mirror_of_places_eq_zero : ∀ u : Marked, u.places mark = 0 → u.mirror mark new = u
  | .scalar _, _ => rfl
  | .list items, h => by
    rw [mirror, mirrorItems_of_places_eq_zero items h]
  | .map own fields, h => by
    rw [places] at h
    have hown : own ≠ some mark := by
      rintro rfl
      simp at h
    rw [mirror, if_neg hown, mirrorFields_of_places_eq_zero fields (by omega)]

theorem mirrorItems_of_places_eq_zero :
    ∀ items : List Marked, itemPlaces mark items = 0 → mirrorItems mark new items = items
  | [], _ => rfl
  | u :: rest, h => by
    rw [itemPlaces] at h
    rw [mirrorItems, mirror_of_places_eq_zero u (by omega),
      mirrorItems_of_places_eq_zero rest (by omega)]

theorem mirrorFields_of_places_eq_zero :
    ∀ f : Entries Marked, fieldPlaces mark f = 0 → mirrorFields mark new f = f
  | [], _ => rfl
  | (k, u) :: rest, h => by
    rw [fieldPlaces] at h
    rw [mirrorFields, mirror_of_places_eq_zero u (by omega),
      mirrorFields_of_places_eq_zero rest (by omega)]

end

end Places

end Marked

/-! ### Values without marks -/

namespace Value

mutual

/-- A value as one of which nothing is held at two places. -/
def unmarked : Value → Marked
  | .scalar s => .scalar s
  | .list items => .list (unmarkedItems items)
  | .map entries => .map none (unmarkedEntries entries)

/-- The items of a list, of which nothing is held at two places. -/
def unmarkedItems : List Value → List Marked
  | [] => []
  | v :: rest => v.unmarked :: unmarkedItems rest

/-- The entries of a map, of which nothing is held at two places. -/
def unmarkedEntries : Entries → Entries Marked
  | [] => []
  | (k, v) :: rest => (k, v.unmarked) :: unmarkedEntries rest

end

mutual

@[simp] theorem value_unmarked : ∀ v : Value, v.unmarked.value = v
  | .scalar s => rfl
  | .list items => by rw [unmarked, Marked.value, values_unmarkedItems items]
  | .map entries => by rw [unmarked, Marked.value, entries_unmarkedEntries entries]

theorem values_unmarkedItems : ∀ items : List Value,
    Marked.values (unmarkedItems items) = items
  | [] => rfl
  | v :: rest => by
    rw [unmarkedItems, Marked.values, value_unmarked v, values_unmarkedItems rest]

@[simp] theorem entries_unmarkedEntries : ∀ e : Entries, Marked.entries (unmarkedEntries e) = e
  | [] => rfl
  | (k, v) :: rest => by
    rw [unmarkedEntries, Marked.entries, value_unmarked v, entries_unmarkedEntries rest]

end

end Value

end PathSieve
