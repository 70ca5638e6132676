import PathSieve.Pattern.Compile

namespace PathSieve.Pattern

open Text (CodePoint)

/-!
# Syntax trees

An arena is read as a tree: every index is replaced by the tree of the node that stands there.

* `Tree` — the trees that arenas stand for.
* `treeAt` — the tree that is read from a node; `Arena.tree` starts from the root.
* `treeAt_push` — a node that is added behind the others leaves their trees alone.
* `WellFormed` — arenas in which every child stands before its parent, every path wildcard has its
  separator right behind it and no combination lacks operands.
-/

/-! ### Trees -/

/-- A pattern as a tree. -/
inductive Tree where
  | literal (text : List CodePoint)
  | anyChar
  | anyChars
  | anyPath
  | split (s : Separator)
  | sequence (items : List Tree)
  | combine (connective : Connective) (operands : List Tree)
  | group (child : Tree) (inverted multiSegment : Bool)

/-- The tree of a node whose children have the trees `part`. -/
def Node.tree (part : Nat → Tree) : Node → Tree
  | .sequence items => .sequence (items.map part)
  | .combine op operands => .combine op (operands.map part)
  | .literal text => .literal text
  | .anyChar => .anyChar
  | .anyChars => .anyChars
  | .anyPath => .anyPath
  | .split s => .split s
  | .group child inverted multiSegment => .group (part child) inverted multiSegment

/-- Nodes that are not made up of other nodes. -/
def Node.isLeaf : Node → Bool
  | .sequence _ | .combine .. | .group .. => false
  | _ => true

theorem Node.children_eq_nil {n : Node} (h : n.isLeaf = true) : n.children = [] := by
  cases n with
  | sequence | combine | group => cases h
  | _ => rfl

/-- The tree of a node depends on the trees of its children only. -/
theorem Node.tree_congr {f g : Nat → Tree} (n : Node) (h : ∀ j ∈ n.children, f j = g j) :
    n.tree f = n.tree g := by
  cases n with
  | sequence items => exact congrArg Tree.sequence (List.map_congr_left h)
  | combine op operands => exact congrArg (Tree.combine op) (List.map_congr_left h)
  | group child inverted multi =>
    have hchild : f child = g child := h child (by simp [Node.children])
    rw [Node.tree, Node.tree, hchild]
  | _ => rfl

/-! ### Reading an arena -/

/-- The tree that is read from node `i`; a child that does not stand before its parent, and an
index outside the arena, read as the empty sequence. -/
def treeAt (nodes : Array Node) (i : Nat) : Tree :=
  match nodes[i]? with
  | none => .sequence []
  | some n => n.tree fun j => if _h : j < i then treeAt nodes j else .sequence []
termination_by i

/-- The tree of the whole pattern. -/
def Arena.tree (a : Arena) : Tree := treeAt a.nodes a.root

theorem treeAt_eq {nodes : Array Node} {i : Nat} {n : Node} (hn : nodes[i]? = some n)
    (hlt : ∀ j ∈ n.children, j < i) : treeAt nodes i = n.tree (treeAt nodes) := by
  rw [treeAt, hn]
  exact n.tree_congr fun j hj => dif_pos (hlt j hj)

/-- Adding a node keeps the trees of those that are there. -/
theorem treeAt_push (nodes : Array Node) (n : Node) :
    ∀ i, i < nodes.size → treeAt (nodes.push n) i = treeAt nodes i := by
  intro i
  induction i using Nat.strongRecOn with
  | ind i ih =>
    intro hi
    rw [treeAt, treeAt, Array.getElem?_push_lt hi, Array.getElem?_eq_getElem hi]
    -- Both arenas have the same node at `i`; its children are read only if they stand before it.
    refine Node.tree_congr _ fun j _ => ?_
    by_cases hj : j < i
    · rw [dif_pos hj, dif_pos hj, ih j hj (by omega)]
    · rw [dif_neg hj, dif_neg hj]

/-- The tree of the node that was added last. -/
theorem treeAt_push_size {nodes : Array Node} {n : Node}
    (hlt : ∀ j ∈ n.children, j < nodes.size) :
    treeAt (nodes.push n) nodes.size = n.tree (treeAt nodes) := by
  rw [treeAt_eq Array.getElem?_push_size hlt]
  exact n.tree_congr fun j hj => treeAt_push nodes n j (hlt j hj)

/-! ### Well-formed arenas -/

/-- Every path wildcard of a sequence has its separator right behind it. -/
inductive Paired : List Tree → Prop where
  | nil : Paired []
  | pathway {s : Separator} {rest : List Tree} : Paired rest → Paired (.anyPath :: .split s :: rest)
  | item {t : Tree} {rest : List Tree} : t ≠ .anyPath → Paired rest → Paired (t :: rest)

theorem Paired.append {ts us : List Tree} (ht : Paired ts) (hu : Paired us) :
    Paired (ts ++ us) := by
  induction ht with
  | nil => exact hu
  | pathway _ ih => exact ih.pathway
  | item hne _ ih => exact ih.item hne

theorem Paired.single {t : Tree} (h : t ≠ .anyPath) : Paired [t] := Paired.nil.item h

/-- What the trees of the children of a node must be like. -/
def Node.Admits (part : Nat → Tree) : Node → Prop
  | .sequence items => Paired (items.map part)
  | .combine _ operands => operands ≠ []
  | _ => True

theorem Node.admits_congr {f g : Nat → Tree} {n : Node} (h : ∀ j ∈ n.children, f j = g j)
    (hn : n.Admits f) : n.Admits g := by
  cases n with
  | sequence items =>
    have hmap : items.map f = items.map g := List.map_congr_left h
    show Paired (items.map g)
    rw [← hmap]
    exact hn
  | _ => exact hn

/-- Arenas as compilation builds them. -/
structure WellFormed (nodes : Array Node) : Prop where
  earlier : ∀ {i : Nat} {n : Node}, nodes[i]? = some n → ∀ j ∈ n.children, j < i
  admitted : ∀ {i : Nat} {n : Node}, nodes[i]? = some n → n.Admits (treeAt nodes)

namespace WellFormed

theorem empty : WellFormed #[] := ⟨fun h => by simp at h, fun h => by simp at h⟩

theorem tree_eq {nodes : Array Node} (h : WellFormed nodes) {i : Nat} {n : Node}
    (hn : nodes[i]? = some n) : treeAt nodes i = n.tree (treeAt nodes) :=
  treeAt_eq hn (h.earlier hn)

/-- A node may be added when its children are there and are what it needs. -/
theorem push {nodes : Array Node} (h : WellFormed nodes) {n : Node}
    (hlt : ∀ j ∈ n.children, j < nodes.size) (ha : n.Admits (treeAt nodes)) :
    WellFormed (nodes.push n) := by
  -- A node needs only the trees of its children, and those of the nodes that are there stay.
  have hkeep : ∀ {i : Nat} {m : Node}, (∀ j ∈ m.children, j < i) → i ≤ nodes.size →
      m.Admits (treeAt nodes) → m.Admits (treeAt (nodes.push n)) := by
    intro i m hm hi
    refine Node.admits_congr fun j hj => (treeAt_push nodes n j ?_).symm
    exact Nat.lt_of_lt_of_le (hm j hj) hi
  constructor
  · intro i m hm
    rw [Array.getElem?_push] at hm
    split at hm
    · obtain rfl := Option.some.inj hm
      rename_i hi
      exact hi ▸ hlt
    · exact h.earlier hm
  · intro i m hm
    rw [Array.getElem?_push] at hm
    split at hm
    · obtain rfl := Option.some.inj hm
      exact hkeep hlt (Nat.le_refl _) ha
    · have hi : i < nodes.size := (Array.getElem?_eq_some_iff.1 hm).1
      exact hkeep (h.earlier hm) (Nat.le_of_lt hi) (h.admitted hm)

section Nodes

variable {nodes : Array Node} {i : Nat}

theorem child_lt (h : WellFormed nodes) {n : Node} (hn : nodes[i]? = some n) {j : Nat}
    (hj : j ∈ n.children) : j < nodes.size :=
  Nat.lt_trans (h.earlier hn j hj) (Array.getElem?_eq_some_iff.1 hn).1

theorem exists_node (h : WellFormed nodes) (hi : i < nodes.size) :
    ∃ n, nodes[i]? = some n ∧ n.tree (treeAt nodes) = treeAt nodes i := by
  have hn : nodes[i]? = some nodes[i] := Array.getElem?_eq_getElem hi
  exact ⟨nodes[i], hn, (h.tree_eq hn).symm⟩

theorem exists_combine (h : WellFormed nodes) {op : Connective} {ts : List Tree}
    (hi : i < nodes.size) (htree : treeAt nodes i = .combine op ts) :
    ∃ operands, nodes[i]? = some (.combine op operands) ∧ operands.map (treeAt nodes) = ts := by
  obtain ⟨n, hn, hread⟩ := h.exists_node hi
  rw [htree] at hread
  cases n with
  | combine op' operands =>
    obtain ⟨rfl, hmap⟩ := Tree.combine.inj hread
    exact ⟨operands, hn, hmap⟩
  | _ => cases hread

theorem exists_sequence (h : WellFormed nodes) {ts : List Tree} (hi : i < nodes.size)
    (htree : treeAt nodes i = .sequence ts) :
    ∃ items, nodes[i]? = some (.sequence items) ∧ items.map (treeAt nodes) = ts := by
  obtain ⟨n, hn, hread⟩ := h.exists_node hi
  rw [htree] at hread
  cases n with
  | sequence items => exact ⟨items, hn, Tree.sequence.inj hread⟩
  | _ => cases hread

end Nodes

end WellFormed

end PathSieve.Pattern
