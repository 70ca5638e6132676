import PathSieve.Proofs.Pattern.Height
import PathSieve.Proofs.Pattern.Steps

namespace PathSieve.Pattern

/-!
# Rooted arenas

Compilation leaves no node behind: each one waits for a parent in the level where it was added, and
only the root is never given one.

* `Level.waiting`, `Build.waiting` — the nodes that wait for a parent.
* `Owned` — every node waits for a parent or is listed as a child, once.
* `Owned.join`, `Owned.close` — what is left of a level that is closed is one node that waits.
* `Owned.step`, `Owned.run`, `Owned.finish` — one token, all tokens, the end.
* `compile_children`, `compile_links` — every node of a compiled pattern but the root has a parent,
  and is its child once.
* `compile_induction` — what the root has and every parent hands down.
* `compile_chain_length_le`, `compile_exists_chain` — the longest chain of a compiled pattern starts
  at the root, and its tree is as high.
-/

/-- The nodes of a level that wait for a parent: its terms and its complete operands. -/
def Level.waiting (l : Level) : List Nat := l.items.toList ++ l.operands.toList.map Prod.fst

/-- The nodes of a build that wait for a parent. -/
def Build.waiting (b : Build) : List Nat := b.level.waiting ++ b.outer.flatMap Level.waiting

/-- Every node waits for a parent or is listed as a child, and no node does both or either twice. -/
def Owned (nodes : Array Node) (waiting : List Nat) : Prop :=
  (nodes.toList.flatMap Node.children ++ waiting).Perm (List.range nodes.size)

namespace Owned

variable {nodes : Array Node} {waiting waiting' : List Nat}

theorem perm (h : Owned nodes waiting) (hperm : waiting.Perm waiting') : Owned nodes waiting' :=
  (hperm.symm.append_left _).trans h

/-- A node that is added waits, and its children do not any more. -/
theorem push {n : Node} (h : Owned nodes (n.children ++ waiting)) :
    Owned (nodes.push n) (nodes.size :: waiting) := by
  rw [Owned, ← List.append_assoc] at h
  rw [Owned, Array.toList_push, List.flatMap_append, List.flatMap_singleton, Array.size_push,
    List.range_succ]
  have hfront : (nodes.toList.flatMap Node.children ++ n.children ++ nodes.size :: waiting).Perm
      (nodes.size :: (nodes.toList.flatMap Node.children ++ n.children ++ waiting)) :=
    List.perm_middle
  exact hfront.trans ((h.cons nodes.size).trans (List.perm_append_singleton ..).symm)

/-- Of operands that are joined, only the last combination waits. -/
theorem join {op : Connective} {children other : List Nat} {rest : List (Connective × Nat)}
    (h : Owned nodes (children ++ (rest.map Prod.snd ++ other))) :
    let joined := Build.join nodes op children rest
    Owned joined.1 (joined.2 :: other) := by
  induction rest generalizing nodes op children with
  | nil => exact h.push
  | cons p rest ih =>
    obtain ⟨next, operand⟩ := p
    rw [Build.join]
    split
    · -- The operand becomes one more child of the run.
      rw [List.map_cons, List.cons_append, List.append_cons] at h
      exact ih h
    · -- The node of the run is the first child of the next one.
      exact ih h.push

end Owned

/-- The operands of a level and the last one, as they are chained. -/
theorem Build.map_chain (operands : List (Nat × Connective)) (last : Nat) :
    (Build.chain operands last).1 :: (Build.chain operands last).2.map Prod.snd =
      operands.map Prod.fst ++ [last] := by
  induction operands with
  | nil => rfl
  | cons p operands ih =>
    rw [Build.chain, List.map_cons, List.map_cons, List.cons_append, ← ih]

namespace Owned

/-- Of a level that is closed, only the node of its expression waits. -/
theorem close {nodes nodes' : Array Node} {l : Level} {other : List Nat} {top finish : Nat}
    {isGroup : Bool} (h : Owned nodes (l.waiting ++ other))
    (hclose : Build.close nodes l finish isGroup = .ok (nodes', top)) :
    Owned nodes' (top :: other) := by
  rw [Level.waiting, List.append_assoc] at h
  have hlast : Owned (nodes.push (.sequence l.items.toList))
      (l.operands.toList.map Prod.fst ++ [nodes.size] ++ other) := by
    rw [List.append_assoc]
    exact h.push.perm List.perm_middle.symm
  obtain ⟨hnone, rfl, rfl⟩ | ⟨first, op, second, rest, hchain, hjoin⟩ := Build.close_eq_ok hclose
  · rw [hnone] at hlast
    exact hlast
  · -- The operands with the last one are what is joined.
    rw [← Build.map_chain, hchain] at hlast
    have hjoined :
        let joined := Build.join (nodes.push (.sequence l.items.toList)) op [first, second] rest
        Owned joined.1 (joined.2 :: other) := Owned.join hlast
    rw [hjoin] at hjoined
    exact hjoined

/-! ### Tokens -/

variable {b b' : Build}

theorem term (h : Owned b.nodes b.waiting) {n : Node} (hn : n.isLeaf = true) :
    Owned (b.term n).nodes (b.term n).waiting := by
  have hpush : Owned (b.nodes.push n) (b.nodes.size :: b.waiting) := by
    refine push ?_
    rw [Node.children_eq_nil hn]
    exact h
  refine hpush.perm ?_
  simp only [Build.waiting, Build.term, Level.waiting, Level.push, Array.toList_push,
    List.append_assoc]
  exact List.perm_middle.symm

/-- The terms in front of a connective become one operand. -/
theorem connect {op : Connective} {position : Nat} (h : Owned b.nodes b.waiting)
    (hb : b.connect op position = .ok b') : Owned b'.nodes b'.waiting := by
  rw [Build.connect_eq_ok hb]
  rw [Build.waiting, Level.waiting, List.append_assoc] at h
  have hpush : Owned (b.nodes.push (.sequence b.level.items.toList))
      (b.nodes.size :: (b.level.operands.toList.map Prod.fst ++ b.outer.flatMap Level.waiting)) :=
    h.push
  refine hpush.perm ?_
  simp only [Build.waiting, Level.waiting, Array.toList_push, List.map_append, List.append_assoc]
  exact List.perm_middle.symm

theorem openGroup {inverted : Bool} {position : Nat} (h : Owned b.nodes b.waiting)
    (hb : b.openGroup inverted position = .ok b') : Owned b'.nodes b'.waiting := by
  rw [(Build.openGroup_eq_ok hb).2]
  exact h

/-- A group that is closed becomes a term of the level around it. -/
theorem closeGroup {position : Nat} (h : Owned b.nodes b.waiting)
    (hb : b.closeGroup position = .ok b') : Owned b'.nodes b'.waiting := by
  obtain ⟨parent, outer, nodes, child, houter, hclose, rfl⟩ := Build.closeGroup_eq_ok hb
  rw [Build.waiting, houter, List.flatMap_cons] at h
  have hpush : Owned (nodes.push (.group child b.level.inverted b.level.multiSegment))
      (nodes.size :: (parent.waiting ++ outer.flatMap Level.waiting)) :=
    push (Owned.close h hclose)
  refine hpush.perm ?_
  simp only [Build.waiting, Level.waiting, Level.push, Array.toList_push, List.append_assoc]
  exact List.perm_middle.symm

/-- No token leaves a node behind or gives it to two parents. -/
theorem step {t : Token} (h : Owned b.nodes b.waiting) (hb : b.step t = .ok b') :
    Owned b'.nodes b'.waiting := by
  obtain ⟨n, hleaf, -, rfl | rfl⟩ | ⟨s, rfl⟩ | ⟨op, hb⟩ | ⟨inverted, hb⟩ | hb :=
    Build.step_eq_ok hb
  · exact h.term hleaf
  · exact h.term hleaf
  · exact (h.term rfl).term rfl
  · exact h.connect hb
  · exact h.openGroup hb
  · exact h.closeGroup hb

/-- No tokens leave a node behind or give it to two parents. -/
theorem run {ts : List Token} (h : Owned b.nodes b.waiting)
    (hb : ts.foldlM Build.step b = .ok b') : Owned b'.nodes b'.waiting :=
  Build.run_induction (P := fun b => Owned b.nodes b.waiting) step h hb

/-- Only the root is left without a parent. -/
theorem finish {length : Nat} {a : Arena} (h : Owned b.nodes b.waiting)
    (ha : b.finish length = .ok a) : Owned a.nodes [a.root] := by
  obtain ⟨houter, nodes, top, hclose, hroot⟩ := Build.finish_eq_ok ha
  rw [Build.waiting, houter] at h
  have htop : Owned nodes [top] := Owned.close h hclose
  rcases hroot with rfl | rfl
  · exact htop
  · -- A combination at the top gets a sequence as its parent.
    exact htop.push

end Owned

/-! ### Compiled patterns -/

section Compiled

variable {text : List Text.CodePoint} {a : Arena}

/-- The nodes of a compiled pattern but for the root are all listed as children, each of them once. -/
theorem compile_children (h : compile text = .ok a) :
    (a.nodes.toList.flatMap Node.children).Perm (List.range a.root) := by
  obtain ⟨ts, b, -, hrun, hfinish⟩ := compile_exists_build h
  have hstart : Owned ({} : Build).nodes ({} : Build).waiting := .refl _
  have howned : Owned a.nodes [a.root] := (hstart.run hrun).finish hfinish
  obtain ⟨-, hroot, -⟩ := compile_eq_ok h
  have hsize : a.nodes.size = a.root + 1 := hroot.symm
  rw [Owned, hsize, List.range_succ] at howned
  exact (List.perm_append_right_iff _).1 howned

/-- Every node of a compiled pattern but the root has a parent. -/
theorem compile_links (h : compile text = .ok a) {j : Nat} (hj : j < a.size) (hne : j ≠ a.root) :
    ∃ i, Links a.nodes i j := by
  obtain ⟨-, hroot, -⟩ := compile_eq_ok h
  have hlisted : j ∈ a.nodes.toList.flatMap Node.children :=
    (compile_children h).mem_iff.2 (List.mem_range.2 (by omega))
  obtain ⟨n, hn, hchild⟩ := List.mem_flatMap.1 hlisted
  obtain ⟨i, hi⟩ := List.mem_iff_getElem?.1 hn
  exact ⟨i, n, Array.getElem?_toList ▸ hi, hchild⟩

/-- What the root of a compiled pattern has and every parent hands down, all nodes have. -/
theorem compile_induction (h : compile text = .ok a) {P : Nat → Prop} (hroot : P a.root)
    (hstep : ∀ {i j}, Links a.nodes i j → P i → P j) {j : Nat} (hj : j < a.size) : P j := by
  obtain ⟨hwell, -⟩ := compile_eq_ok h
  -- The induction climbs from a node to its parent, which stands behind it.
  induction hgap : a.size - j using Nat.strongRecOn generalizing j with
  | ind gap ih =>
    by_cases heq : j = a.root
    · exact heq ▸ hroot
    · obtain ⟨i, hij⟩ := compile_links h hj heq
      have hlt := hwell.lt_of_links hij
      have hi : i < a.size := by
        obtain ⟨n, hn, -⟩ := hij
        exact (Array.getElem?_eq_some_iff.1 hn).1
      exact hstep hij (ih (a.size - i) (by omega) hi rfl)

/-- No node of a compiled pattern has a higher tree than the root. -/
theorem compile_height_le (h : compile text = .ok a) {i : Nat} (hi : i < a.size) :
    (treeAt a.nodes i).height ≤ a.tree.height := by
  obtain ⟨hwell, -⟩ := compile_eq_ok h
  refine compile_induction (P := fun i => (treeAt a.nodes i).height ≤ a.tree.height) h
    (Nat.le_refl _) (fun hij hle => ?_) hi
  exact Nat.le_trans (Nat.le_of_lt (hwell.height_lt hij)) hle

/-- No chain of a compiled pattern has more nodes than its tree is high, wherever it starts. -/
theorem compile_chain_length_le (h : compile text = .ok a) {is : List Nat}
    (hc : Chain a.nodes is) : is.length ≤ a.tree.height := by
  obtain ⟨hwell, -⟩ := compile_eq_ok h
  cases is with
  | nil => exact Nat.zero_le _
  | cons i is =>
    exact Nat.le_trans (hwell.chain_length_le hc)
      (compile_height_le h (hc.within i (List.mem_cons_self ..)))

/-- Some chain from the root of a compiled pattern has as many nodes as its tree is high. -/
theorem compile_exists_chain (h : compile text = .ok a) :
    ∃ is, Chain a.nodes (a.root :: is) ∧ (a.root :: is).length = a.tree.height := by
  obtain ⟨hwell, hroot, -⟩ := compile_eq_ok h
  exact hwell.exists_chain (show a.root < a.size by omega)

end Compiled

end PathSieve.Pattern
