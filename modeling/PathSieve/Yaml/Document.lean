import PathSieve.Value.Marked
import PathSieve.Yaml.Node
import PathSieve.Yaml.Plain

namespace PathSieve.Yaml

/-!
# Documents

A document stands for a value. Keys must be scalars, and of two entries with one key the later
wins. The key for merging is no entry: the map behind it, or each of a list of maps, lends its
entries to the map around it, whose own entries win over them; of a list the earlier maps win. A
mapping that stands at several places is one map there, and has its start as a mark.

Of several faults the one with the fewest collections around it counts, and of those the first.

* `Node.value` — the value of a node.
* `document` — the value of a text that holds one document; a text without one stands for nothing.
-/

/-! ### Faults by depth -/

/-- A result, or a fault with the number of collections around it. -/
abbrev Valued (α : Type) := Except (Nat × Fault) α

/-- A result with its faults at a depth. -/
def atDepth {α : Type} (depth : Nat) (r : Reading α) : Valued α := r.mapError fun e => (depth, e)

/-- Two results together; of two faults the one at the lesser depth counts, or else the first. -/
def both {α β : Type} : Valued α → Valued β → Valued (α × β)
  | .ok a, .ok b => .ok (a, b)
  | .ok _, .error e => .error e
  | .error e, .ok _ => .error e
  | .error d, .error e => .error (if e.1 < d.1 then e else d)

@[simp] theorem both_ok {α β : Type} (a : α) (b : β) : both (.ok a) (.ok b) = .ok (a, b) := rfl

/-- A result in front of a list of results. -/
def consBoth {α : Type} (x : Valued α) (xs : Valued (List α)) : Valued (List α) :=
  (both x xs).map fun p => p.1 :: p.2

/-- Two lists of results one after the other. -/
def appendBoth {α : Type} (xs ys : Valued (List α)) : Valued (List α) :=
  (both xs ys).map fun p => p.1 ++ p.2

namespace Node

/-! ### Merging -/

/-- Whether a node is the key for merging. -/
def isMergeKey : Node → Bool
  | .plain text => text = mergeKey
  | _ => false

mutual

/-- Whether a node can lend its entries: it is a mapping or a sequence of mappings. -/
def lends : Node → Bool
  | .plain _ | .quoted _ => false
  | .sequence items => allLend items
  | .mapping _ entries => mergesWell entries

/-- Whether all items of a sequence are mappings that can lend their entries. -/
def allLend : List Node → Bool
  | [] => true
  | .mapping _ entries :: rest => mergesWell entries && allLend rest
  | _ :: _ => false

/-- Whether everything behind a key for merging can lend its entries. -/
def mergesWell : List (Node × Node) → Bool
  | [] => true
  | (k, v) :: rest => (!k.isMergeKey || v.lends) && mergesWell rest

end

/-! ### Values -/

/-- The scalar of a key. -/
def key (depth : Nat) : Node → Valued Scalar
  | .plain text =>
    if text = valueKey then .ok (.text text) else atDepth depth (plainScalar text)
  | .quoted text => .ok (.ofPoints text)
  | _ => .error (depth, .malformed)

mutual

/-- The value of a node at a depth. -/
def valueAt (depth : Nat) : Node → Valued Marked
  | .plain text => (atDepth depth (plainScalar text)).map .scalar
  | .quoted text => .ok (.scalar (.ofPoints text))
  | .sequence items => (itemsAt (depth + 1) items).map .list
  | .mapping start entries =>
    if mergesWell entries then
      (appendBoth (lentAt (depth + 1) entries) (ownAt (depth + 1) entries)).map
        fun es => .map (some start) (Entries.ofList es)
    else .error (depth + 1, .malformed)

/-- The values of the items of a sequence. -/
def itemsAt (depth : Nat) : List Node → Valued (List Marked)
  | [] => .ok []
  | v :: rest => consBoth (valueAt depth v) (itemsAt depth rest)

/-- The entries of a mapping that are not lent to it. -/
def ownAt (depth : Nat) : List (Node × Node) → Valued (List (Scalar × Marked))
  | [] => .ok []
  | (k, v) :: rest =>
    if k.isMergeKey then ownAt depth rest
    else consBoth (both (key depth k) (valueAt depth v)) (ownAt depth rest)

/-- The entries that are lent to a mapping. -/
def lentAt (depth : Nat) : List (Node × Node) → Valued (List (Scalar × Marked))
  | [] => .ok []
  | (k, v) :: rest =>
    if k.isMergeKey then appendBoth (lentBy depth v) (lentAt depth rest) else lentAt depth rest

/-- The entries that a node lends. -/
def lentBy (depth : Nat) : Node → Valued (List (Scalar × Marked))
  | .plain _ | .quoted _ => .ok []
  | .sequence items => lentByAll depth items
  | .mapping _ entries => appendBoth (lentAt depth entries) (ownAt depth entries)

/-- The entries that the items of a sequence lend, those of the last item first. -/
def lentByAll (depth : Nat) : List Node → Valued (List (Scalar × Marked))
  | [] => .ok []
  | v :: rest => appendBoth (lentByAll depth rest) (lentBy depth v)

end

/-- The value of a node. -/
def value (n : Node) : Reading Marked := (n.valueAt 0).mapError (·.2)

end Node

/-- The value of a text that holds at most one document. -/
def document (cs : List Char) : Reading Marked := do (← Node.ofText cs).value

end PathSieve.Yaml
