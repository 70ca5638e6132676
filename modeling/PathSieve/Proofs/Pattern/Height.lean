import Mathlib.Data.List.Chain
import PathSieve.Proofs.Pattern.Tree

namespace PathSieve.Pattern

/-!
# Chains of nodes

How many nodes of an arena hang one below the other.

* `Tree.height` — the most nodes from the root of a tree down to a leaf.
* `Links`, `Chain` — child links between nodes, and nodes that are linked one after the other.
* `WellFormed.chain_length_le`, `WellFormed.exists_chain` — the longest chain from a node has as
  many nodes as its tree is high.
* `WellFormed.height_le` — the children of a node stand before it, so its tree is not higher than
  there are nodes up to it.
-/

/-! ### Heights -/

mutual

/-- The most nodes from the root of a tree down to a leaf. -/
def Tree.height : Tree → Nat
  | .sequence items => Tree.heights items + 1
  | .combine _ operands => Tree.heights operands + 1
  | .group child _ _ => child.height + 1
  | .literal _ | .anyChar | .anyChars | .anyPath | .split _ => 1

/-- The greatest height among trees. -/
def Tree.heights : List Tree → Nat
  | [] => 0
  | t :: ts => max t.height (Tree.heights ts)

end

namespace Tree

theorem height_pos (t : Tree) : 0 < t.height := by
  cases t <;> simp [height]

@[simp] theorem heights_append (ts us : List Tree) :
    heights (ts ++ us) = max (heights ts) (heights us) := by
  induction ts with
  | nil => simp [heights]
  | cons t ts ih => rw [List.cons_append, heights, ih, heights, Nat.max_assoc]

@[simp] theorem heights_singleton (t : Tree) : heights [t] = t.height := by
  simp [heights]

theorem height_le_heights {t : Tree} {ts : List Tree} (h : t ∈ ts) : t.height ≤ heights ts := by
  obtain ⟨before, after, rfl⟩ := List.append_of_mem h
  rw [heights_append, heights]
  omega

/-- One of some trees is as high as they are. -/
theorem exists_height_eq {ts : List Tree} (h : ts ≠ []) : ∃ t ∈ ts, t.height = heights ts := by
  induction ts with
  | nil => exact absurd rfl h
  | cons t ts ih =>
    rw [heights]
    by_cases hle : heights ts ≤ t.height
    · exact ⟨t, List.mem_cons_self .., (Nat.max_eq_left hle).symm⟩
    · -- The rest is higher, so it is not empty.
      have hne : ts ≠ [] := by
        rintro rfl
        exact hle (Nat.zero_le _)
      obtain ⟨u, hu, heq⟩ := ih hne
      exact ⟨u, List.mem_cons_of_mem _ hu, by omega⟩

end Tree

/-- The tree of a node is one higher than the trees of its children. -/
theorem Node.height_tree (part : Nat → Tree) (n : Node) :
    (n.tree part).height = Tree.heights (n.children.map part) + 1 := by
  cases n with
  | group child inverted multi => simp [Node.tree, Node.children, Tree.height]
  | _ => rfl

/-! ### Chains -/

/-- Node `j` is a child of node `i`. -/
def Links (nodes : Array Node) (i j : Nat) : Prop := ∃ n, nodes[i]? = some n ∧ j ∈ n.children

/-- Nodes of an arena each of which is a child of the one before it. -/
structure Chain (nodes : Array Node) (is : List Nat) : Prop where
  within : ∀ i ∈ is, i < nodes.size
  linked : is.IsChain (Links nodes)

namespace WellFormed

variable {nodes : Array Node}

/-- A child has a lower tree. -/
theorem height_lt (h : WellFormed nodes) {i j : Nat} (hij : Links nodes i j) :
    (treeAt nodes j).height < (treeAt nodes i).height := by
  obtain ⟨n, hn, hj⟩ := hij
  have hle := Tree.height_le_heights (List.mem_map_of_mem (f := treeAt nodes) hj)
  rw [h.tree_eq hn, n.height_tree]
  exact Nat.lt_succ_of_le hle

/-- No chain from a node has more nodes than its tree is high. -/
theorem chain_length_le (h : WellFormed nodes) {i : Nat} {is : List Nat}
    (hc : Chain nodes (i :: is)) : (i :: is).length ≤ (treeAt nodes i).height := by
  induction is generalizing i with
  | nil => exact (treeAt nodes i).height_pos
  | cons j is ih =>
    obtain ⟨hij, hlinked⟩ := List.isChain_cons_cons.1 hc.linked
    have hrest := ih ⟨fun k hk => hc.within k (List.mem_cons_of_mem i hk), hlinked⟩
    have hlt := h.height_lt hij
    rw [List.length_cons]
    omega

theorem lt_of_links (h : WellFormed nodes) {i j : Nat} (hij : Links nodes i j) : j < i := by
  obtain ⟨n, hn, hj⟩ := hij
  exact h.earlier hn j hj

/-- A node has no children, or its tree is one higher than that of one of them. -/
theorem height_cases (h : WellFormed nodes) {i : Nat} (hi : i < nodes.size) :
    (treeAt nodes i).height = 1 ∨
      ∃ j, Links nodes i j ∧ (treeAt nodes i).height = (treeAt nodes j).height + 1 := by
  have hn : nodes[i]? = some nodes[i] := Array.getElem?_eq_getElem hi
  rw [h.tree_eq hn, Node.height_tree]
  by_cases hleaf : nodes[i].children = []
  · refine .inl ?_
    rw [hleaf]
    rfl
  · have hne : nodes[i].children.map (treeAt nodes) ≠ [] := fun hnil =>
      hleaf (List.map_eq_nil_iff.1 hnil)
    obtain ⟨t, ht, htop⟩ := Tree.exists_height_eq hne
    obtain ⟨j, hj, rfl⟩ := List.mem_map.1 ht
    exact .inr ⟨j, ⟨_, hn, hj⟩, by rw [htop]⟩

/-- Some chain from a node has as many nodes as its tree is high. -/
theorem exists_chain (h : WellFormed nodes) {i : Nat} (hi : i < nodes.size) :
    ∃ is, Chain nodes (i :: is) ∧ (i :: is).length = (treeAt nodes i).height := by
  induction i using Nat.strongRecOn with
  | ind i ih =>
    rcases h.height_cases hi with hone | ⟨j, hij, hheight⟩
    · exact ⟨[], ⟨List.forall_mem_singleton.2 hi, .singleton i⟩, hone.symm⟩
    · -- The chain goes on with the child that has the highest tree.
      have hlt := h.lt_of_links hij
      obtain ⟨is, hc, hlength⟩ := ih j hlt (Nat.lt_trans hlt hi)
      have hwithin : ∀ k ∈ i :: j :: is, k < nodes.size := List.forall_mem_cons.2 ⟨hi, hc.within⟩
      refine ⟨j :: is, ⟨hwithin, List.isChain_cons_cons.2 ⟨hij, hc.linked⟩⟩, ?_⟩
      rw [List.length_cons, hlength, hheight]

/-- A tree is not higher than there are nodes up to its own. -/
theorem height_le (h : WellFormed nodes) {i : Nat} (hi : i < nodes.size) :
    (treeAt nodes i).height ≤ i + 1 := by
  induction i using Nat.strongRecOn with
  | ind i ih =>
    rcases h.height_cases hi with hone | ⟨j, hij, hheight⟩
    · omega
    · have hlt := h.lt_of_links hij
      have hle := ih j hlt (Nat.lt_trans hlt hi)
      omega

end WellFormed

end PathSieve.Pattern
