import Mathlib.Logic.Relation
import PathSieve.Proofs.Pattern.Coupling
import PathSieve.Proofs.Pattern.Shapes

namespace PathSieve.Pattern

open Text (CodePoint pointsOf)

/-!
# Regular arenas

What every compiled pattern is like, said about the nodes of its arena and their indices: they make
up one tree with the root behind all others, and each kind of node has the children it should.

* `WellFormed.split_mem_leaves_iff` — the separators in the tree of a node are those below it.
* `links_unique` — parents of nodes that are listed once.
* `Node.shaped_children`, `WellFormed.groupsIn_le` — groups on the way down from a node.
* `Arena.Regular` — regular arenas.
* `compile_regular` — compiled patterns are regular.
-/

/-! ### Separators below a node -/

theorem Tree.mem_leavesOf {t : Tree} {ts : List Tree} :
    t ∈ Tree.leavesOf ts ↔ ∃ u ∈ ts, t ∈ u.leaves := by
  induction ts with
  | nil => simp [leavesOf]
  | cons u ts ih => rw [leavesOf, List.mem_append, ih, List.exists_mem_cons_iff]

/-- A separator is a leaf of a node that is this separator, or of one with such a child. -/
theorem Node.split_mem_leaves_tree (part : Nat → Tree) (n : Node) (s : Separator) :
    .split s ∈ (n.tree part).leaves ↔ n = .split s ∨ ∃ j ∈ n.children, .split s ∈ (part j).leaves := by
  cases n <;> simp [Node.tree, Tree.leaves, Node.children, Tree.mem_leavesOf, eq_comm]

section Below

variable {nodes : Array Node} {i : Nat}

/-- The separators in the tree of a node are those at the node or below it. -/
theorem WellFormed.split_mem_leaves_iff (h : WellFormed nodes) (hi : i < nodes.size)
    {s : Separator} : .split s ∈ (treeAt nodes i).leaves ↔
      ∃ k, Relation.ReflTransGen (Links nodes) i k ∧ nodes[k]? = some (.split s) := by
  induction i using Nat.strongRecOn with
  | ind i ih =>
    obtain ⟨n, hn, htree⟩ := h.exists_node hi
    have hbelow : ∀ j ∈ n.children, (.split s ∈ (treeAt nodes j).leaves ↔
        ∃ k, Relation.ReflTransGen (Links nodes) j k ∧ nodes[k]? = some (.split s)) :=
      fun j hj => ih j (h.earlier hn j hj) ((h.earlier hn j hj).trans hi)
    rw [← htree, n.split_mem_leaves_tree]
    constructor
    · rintro (rfl | ⟨j, hj, hs⟩)
      · exact ⟨i, .refl, hn⟩
      · obtain ⟨k, hjk, hk⟩ := (hbelow j hj).1 hs
        exact ⟨k, .head ⟨n, hn, hj⟩ hjk, hk⟩
    · rintro ⟨k, hik, hk⟩
      obtain rfl | ⟨j, ⟨m, hm, hj⟩, hjk⟩ := Relation.ReflTransGen.cases_head_iff.1 hik
      · exact .inl (Option.some.inj (hn.symm.trans hk))
      · obtain rfl := Option.some.inj (hn.symm.trans hm)
        exact .inr ⟨j, hj, (hbelow j hj).2 ⟨k, hjk, hk⟩⟩

/-! ### Parents -/

/-- Nodes that are listed as children once have one parent. -/
theorem links_unique (h : (nodes.toList.flatMap Node.children).Nodup) {i' j : Nat}
    (hi : Links nodes i j) (hi' : Links nodes i' j) : i = i' := by
  obtain ⟨-, hdisjoint⟩ := List.nodup_flatMap.1 h
  have hapart : ∀ {i i' : Nat}, Links nodes i j → Links nodes i' j → ¬ i < i' := by
    rintro i i' ⟨n, hn, hj⟩ ⟨n', hn', hj'⟩ hlt
    obtain ⟨hi, rfl⟩ := Array.getElem?_eq_some_iff.1 hn
    obtain ⟨hi', rfl⟩ := Array.getElem?_eq_some_iff.1 hn'
    exact List.pairwise_iff_getElem.1 hdisjoint i i' hi hi' hlt hj hj'
  have hle := hapart hi hi'
  have hge := hapart hi' hi
  omega

/-! ### Groups on the way down -/

/-- Nodes that are groups. -/
def Node.isGroup : Node → Bool
  | .group .. => true
  | _ => false

/-- The groups among some nodes. -/
def groupsIn (nodes : Array Node) (is : List Nat) : Nat :=
  is.countP fun i => nodes[i]?.any Node.isGroup

/-- A group takes one from the groups that may stand below it, and every other node none. -/
theorem Node.shaped_children {part : Nat → Tree} {n : Node} {d : Nat}
    (h : (n.tree part).Shaped d) :
    ∃ e, e + (if n.isGroup then 1 else 0) = d ∧ ∀ j ∈ n.children, (part j).Shaped e := by
  cases n with
  | sequence items =>
    cases h with
    | sequence _ hitems => exact ⟨d, rfl, List.forall_mem_map.1 hitems⟩
  | combine op operands =>
    cases h with
    | combine _ hoperands => exact ⟨d, rfl, List.forall_mem_map.1 hoperands⟩
  | group child inverted multi =>
    cases h with
    | group _ _ hchild => exact ⟨_, rfl, List.forall_mem_singleton.2 hchild⟩
  | _ => exact ⟨d, rfl, fun j hj => absurd hj List.not_mem_nil⟩

/-- A chain from a node has no more groups than its tree may have. -/
theorem WellFormed.groupsIn_le (h : WellFormed nodes) {d : Nat} {is : List Nat}
    (hshaped : (treeAt nodes i).Shaped d) (hc : Chain nodes (i :: is)) :
    groupsIn nodes (i :: is) ≤ d := by
  induction is generalizing i d with
  | nil =>
    obtain ⟨n, hn, htree⟩ := h.exists_node (hc.within i (List.mem_cons_self ..))
    obtain ⟨e, rfl, -⟩ := Node.shaped_children (htree ▸ hshaped)
    rw [groupsIn, List.countP_singleton, hn, Option.any_some]
    exact Nat.le_add_left ..
  | cons j is ih =>
    obtain ⟨⟨n, hn, hj⟩, hlinked⟩ := List.isChain_cons_cons.1 hc.linked
    rw [h.tree_eq hn] at hshaped
    obtain ⟨e, rfl, hchildren⟩ := Node.shaped_children hshaped
    have hrest : groupsIn nodes (j :: is) ≤ e :=
      ih (hchildren j hj) ⟨fun k hk => hc.within k (List.mem_cons_of_mem i hk), hlinked⟩
    rw [groupsIn, List.countP_cons, hn, Option.any_some]
    exact Nat.add_le_add_right hrest _

end Below

/-! ### Regular arenas -/

/-- Node `i` is a literal. -/
def IsLiteral (nodes : Array Node) (i : Nat) : Prop := ∃ text, nodes[i]? = some (.literal text)

/-- Node `i` is a sequence that is not empty. -/
def IsOperand (nodes : Array Node) (i : Nat) : Prop :=
  ∃ items, items ≠ [] ∧ nodes[i]? = some (.sequence items)

/-- Arenas as compiled patterns have them. -/
structure Arena.Regular (a : Arena) : Prop where
  /-- The root is the last node. -/
  last : a.root + 1 = a.size
  /-- The root is a sequence. -/
  sequence : ∃ items, a.nodes[a.root]? = some (.sequence items)
  /-- Every other node is the child of exactly one node. -/
  parent : ∀ j < a.root, ∃! i, Links a.nodes i j
  /-- No node has a child twice. -/
  once : ∀ (i : Nat) (n : Node), a.nodes[i]? = some n → n.children.Nodup
  /-- A node has a larger index than its children. -/
  behind : ∀ i j, Links a.nodes i j → j < i
  /-- Literals are not empty and have one fold for each code point. -/
  literal : ∀ (i : Nat) text, a.nodes[i]? = some (.literal text) →
    text ≠ [] ∧ (Node.literal text).folds.length = text.length
  /-- No two literals stand side by side in a sequence. -/
  apart : ∀ (i : Nat) items, a.nodes[i]? = some (.sequence items) →
    items.IsChain fun j k => ¬ (IsLiteral a.nodes j ∧ IsLiteral a.nodes k)
  /-- Leaves have no children. -/
  leaf : ∀ (i : Nat) (n : Node), a.nodes[i]? = some n → n.isLeaf = true → n.children = []
  /-- A group has one child, which is a sequence or a combination. -/
  group : ∀ (i : Nat) (n : Node), a.nodes[i]? = some n → n.isGroup = true →
    ∃ child m, n.children = [child] ∧ a.nodes[child]? = some m ∧
      m.kind ∈ [NodeKind.sequence, NodeKind.conj, NodeKind.disj]
  /-- A combination has two operands or more. They are sequences that are not empty, but the first
  one may be a combination by the other connective. -/
  combine : ∀ (i : Nat) op operands, a.nodes[i]? = some (.combine op operands) →
    ∃ first second rest, operands = first :: second :: rest ∧
      (IsOperand a.nodes first ∨
        ∃ other inner, other ≠ op ∧ a.nodes[first]? = some (.combine other inner)) ∧
      ∀ j ∈ second :: rest, IsOperand a.nodes j
  /-- A path wildcard is an item of a sequence, and the next item is a separator. -/
  pathway : ∀ i j, Links a.nodes i j → a.nodes[j]? = some .anyPath →
    ∃ before k s after, a.nodes[i]? = some (.sequence (before ++ j :: k :: after)) ∧
      a.nodes[k]? = some (.split s)
  /-- A group is marked if there is a separator below it. -/
  mark : ∀ (i : Nat) child inverted multi, a.nodes[i]? = some (.group child inverted multi) →
    (multi = true ↔
      ∃ k s, Relation.ReflTransGen (Links a.nodes) i k ∧ a.nodes[k]? = some (.split s))
  /-- On the way down from the root there are no more groups than may be open at once. -/
  depth : ∀ is, Chain a.nodes (a.root :: is) → groupsIn a.nodes (a.root :: is) ≤ maxDepth

/-! ### Nodes with shaped trees -/

section Reading

variable {nodes : Array Node} {i d : Nat}

/-- No two items of a sequence are literals side by side. -/
theorem WellFormed.items_apart (h : WellFormed nodes) {items : List Nat}
    (hd : ((Node.sequence items).tree (treeAt nodes)).Shaped d) :
    items.IsChain fun j k => ¬ (IsLiteral nodes j ∧ IsLiteral nodes k) := by
  cases hd with
  | sequence hitems =>
    refine ((List.isChain_map _).1 hitems).imp ?_
    rintro j k hapart ⟨⟨v, hv⟩, ⟨w, hw⟩⟩
    exact hapart ⟨v, w, h.tree_eq hv, h.tree_eq hw⟩

/-- The child of a group is a sequence or a combination. -/
theorem WellFormed.exists_child (h : WellFormed nodes) {n : Node} (hn : nodes[i]? = some n)
    (hgroup : n.isGroup = true) (hd : (n.tree (treeAt nodes)).Shaped d) :
    ∃ child m, n.children = [child] ∧ nodes[child]? = some m ∧
      m.kind ∈ [NodeKind.sequence, NodeKind.conj, NodeKind.disj] := by
  cases n with
  | group child inverted multi =>
    have hlt : child < nodes.size := h.child_lt hn (List.mem_singleton_self child)
    cases hd with
    | group hchild _ _ =>
      rcases hchild with ⟨ts, hts⟩ | ⟨op, ts, hts⟩
      · obtain ⟨items, hm, -⟩ := h.exists_sequence hlt hts
        exact ⟨child, _, rfl, hm, by simp [Node.kind]⟩
      · obtain ⟨operands, hm, -⟩ := h.exists_combine hlt hts
        exact ⟨child, _, rfl, hm, by cases op <;> simp [Node.kind]⟩
  | _ => cases hgroup

/-- A group is marked if there is a separator below it. -/
theorem WellFormed.mark_iff (h : WellFormed nodes) {child : Nat} {inverted multi : Bool}
    (hn : nodes[i]? = some (.group child inverted multi))
    (hd : ((Node.group child inverted multi).tree (treeAt nodes)).Shaped d) :
    multi = true ↔
      ∃ k s, Relation.ReflTransGen (Links nodes) i k ∧ nodes[k]? = some (.split s) := by
  have hi : i < nodes.size := (Array.getElem?_eq_some_iff.1 hn).1
  -- The leaves of a group are those of its child.
  have hbelow : ∀ s, .split s ∈ (treeAt nodes child).leaves ↔
      ∃ k, Relation.ReflTransGen (Links nodes) i k ∧ nodes[k]? = some (.split s) := by
    intro s
    rw [← h.split_mem_leaves_iff hi, h.tree_eq hn]
    rfl
  cases hd with
  | group _ hmark _ =>
    simp only [hmark, hbelow]
    exact exists_comm

theorem WellFormed.isOperand (h : WellFormed nodes) (hi : i < nodes.size)
    (htree : (treeAt nodes i).IsOperand) : IsOperand nodes i := by
  obtain ⟨ts, hne, hts⟩ := htree
  obtain ⟨items, hn, rfl⟩ := h.exists_sequence hi hts
  exact ⟨items, fun hnil => hne (List.map_eq_nil_iff.2 hnil), hn⟩

/-- A combination has two operands or more, and only the first may be a combination itself. -/
theorem WellFormed.exists_operands (h : WellFormed nodes) {op : Connective} {operands : List Nat}
    (hn : nodes[i]? = some (.combine op operands))
    (hd : ((Node.combine op operands).tree (treeAt nodes)).Shaped d) :
    ∃ first second rest, operands = first :: second :: rest ∧
      (IsOperand nodes first ∨
        ∃ other inner, other ≠ op ∧ nodes[first]? = some (.combine other inner)) ∧
      ∀ j ∈ second :: rest, IsOperand nodes j := by
  cases hd with
  | combine hjoined _ =>
    obtain ⟨t, u, ts, hmap, hfirst, hrest⟩ := hjoined
    obtain ⟨first, others, rfl, rfl, hothers⟩ := List.map_eq_cons_iff.1 hmap
    obtain ⟨second, rest, rfl, rfl, rfl⟩ := List.map_eq_cons_iff.1 hothers
    have hlt : ∀ j ∈ first :: second :: rest, j < nodes.size := fun j hj => h.child_lt hn hj
    obtain ⟨hfirstlt, hrestlt⟩ := List.forall_mem_cons.1 hlt
    refine ⟨first, second, rest, rfl, hfirst.imp (h.isOperand hfirstlt) ?_, fun j hj => ?_⟩
    · rintro ⟨other, inner, hne, htree⟩
      obtain ⟨inner, hm, -⟩ := h.exists_combine hfirstlt htree
      exact ⟨other, inner, hne, hm⟩
    · exact h.isOperand (hrestlt j hj) (hrest _ (List.mem_map_of_mem hj))

end Reading

/-! ### Compiled patterns -/

section Compiled

variable {text : List CodePoint} {a : Arena} {i : Nat}

/-- Every node of a compiled pattern reads as a tree that is shaped. -/
theorem compile_exists_shaped (h : compile text = .ok a) {n : Node} (hn : a.nodes[i]? = some n) :
    ∃ d, (n.tree (treeAt a.nodes)).Shaped d := by
  obtain ⟨hwell, -⟩ := compile_eq_ok h
  have hi : i < a.size := (Array.getElem?_eq_some_iff.1 hn).1
  rw [← hwell.tree_eq hn]
  refine compile_induction (P := fun i => ∃ d, (treeAt a.nodes i).Shaped d) h
    ⟨maxDepth, compile_shaped h⟩ ?_ hi
  rintro i j ⟨m, hm, hj⟩ ⟨d, hd⟩
  rw [hwell.tree_eq hm] at hd
  obtain ⟨e, -, hchildren⟩ := Node.shaped_children hd
  exact ⟨e, hchildren j hj⟩

/-- The root of a compiled pattern is a sequence. -/
theorem compile_root (h : compile text = .ok a) :
    ∃ items, a.nodes[a.root]? = some (.sequence items) := by
  obtain ⟨hwell, hroot, ts, p, -, -, -, htree⟩ := compile_eq_ok h
  have hlt : a.root < a.nodes.size := show a.root < a.size by omega
  obtain ⟨trees, hsequence⟩ : ∃ trees, patternTree p = .sequence trees := by
    match p with
    | none => exact ⟨_, rfl⟩
    | some (.one s) => exact ⟨_, rfl⟩
    | some (.snoc a op s) => exact ⟨_, rfl⟩
  obtain ⟨items, hn, -⟩ := hwell.exists_sequence hlt (htree.trans hsequence)
  exact ⟨items, hn⟩

/-- Every node of a compiled pattern but the root has exactly one parent. -/
theorem compile_parent (h : compile text = .ok a) {j : Nat} (hj : j < a.root) :
    ∃! i, Links a.nodes i j := by
  obtain ⟨-, hroot, -⟩ := compile_eq_ok h
  have hnodup := (compile_children h).nodup_iff.2 List.nodup_range
  obtain ⟨i, hij⟩ := compile_links h (show j < a.size by omega) hj.ne
  exact ⟨i, hij, fun i' hi' => links_unique hnodup hi' hij⟩

/-- **Compiled patterns are regular.** The nodes of a compiled pattern make up one tree. The root is
a sequence and the last node, and every other node is the child of exactly one node, which has a
larger index. Literals are not empty and never stand side by side, leaves have no children, a group
has one, and a combination has two operands or more, of which only the first may be a combination, by
the other connective. A path wildcard has its separator right behind it, a group is marked exactly if
there is a separator below it, and there are never more groups on the way down from the root than may
be open at once. -/
theorem compile_regular (h : compile text = .ok a) : a.Regular := by
  obtain ⟨hwell, hroot, -⟩ := compile_eq_ok h
  obtain ⟨hcoupling, -⟩ := compile_coupling h
  have hnodup := (compile_children h).nodup_iff.2 List.nodup_range
  refine {
    last := hroot
    sequence := compile_root h
    parent := fun j hj => compile_parent h hj
    once := fun i n hn => ?once
    behind := fun i j hij => hwell.lt_of_links hij
    literal := fun i text hn => ⟨?filled, List.length_map ..⟩
    apart := fun i items hn => ?apart
    leaf := fun i n hn hleaf => Node.children_eq_nil hleaf
    group := fun i n hn hgroup => ?group
    combine := fun i op operands hn => ?combine
    pathway := fun i j hij hany => hcoupling.exists_separator hij hany
    mark := fun i child inverted multi hn => ?mark
    depth := fun is hc => hwell.groupsIn_le (compile_shaped h) hc }
  case once =>
    have hmem : n ∈ a.nodes.toList := List.mem_of_getElem? (Array.getElem?_toList.trans hn)
    exact (List.nodup_flatMap.1 hnodup).1 n hmem
  all_goals obtain ⟨d, hd⟩ := compile_exists_shaped h hn
  case filled =>
    cases hd with
    | literal hne => exact hne
  case apart => exact hwell.items_apart hd
  case group => exact hwell.exists_child hn hgroup hd
  case combine => exact hwell.exists_operands hn hd
  case mark => exact hwell.mark_iff hn hd

/-- In `**/(!(a?)/|b)&c*` there is a separator below the outer group, and none below the inner one. -/
theorem compile_regular_marks :
    ∃ a, compile (pointsOf ['*', '*', '/', '(', '!', '(', 'a', '?', ')', '/', '|', 'b', ')', '&',
        'c', '*']) = .ok a ∧ a.Regular ∧
      (∃ k s, Relation.ReflTransGen (Links a.nodes) 11 k ∧ a.nodes[k]? = some (.split s)) ∧
      ¬ ∃ k s, Relation.ReflTransGen (Links a.nodes) 5 k ∧ a.nodes[k]? = some (.split s) := by
  let a : Arena := ⟨#[.anyPath, .split .slash, .literal [.char 'a'], .anyChar, .sequence [2, 3],
    .group 4 false false, .split .slash, .sequence [5, 6], .literal [.char 'b'], .sequence [8],
    .combine .disj [7, 9], .group 10 true true, .sequence [0, 1, 11], .literal [.char 'c'],
    .anyChars, .sequence [13, 14], .combine .conj [12, 15], .sequence [16]], 17⟩
  have h : compile (pointsOf ['*', '*', '/', '(', '!', '(', 'a', '?', ')', '/', '|', 'b', ')', '&',
      'c', '*']) = .ok a := rfl
  have hregular : a.Regular := compile_regular h
  have houter := hregular.mark 11 10 true true rfl
  have hinner := hregular.mark 5 4 false false rfl
  exact ⟨a, h, hregular, houter.1 rfl, fun hbelow => Bool.false_ne_true (hinner.2 hbelow)⟩

end Compiled

end PathSieve.Pattern
