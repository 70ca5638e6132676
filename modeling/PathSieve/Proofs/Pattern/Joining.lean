import Mathlib.Data.List.Basic
import PathSieve.Proofs.Pattern.Draft

namespace PathSieve.Pattern

/-!
# Joining operands

The nodes that closing a level adds behind those of its operands, and the tree that they make up.

* `Extends` — an arena with more nodes, in which the old ones keep their trees.
* `Stand` — a list of indices stands for a list of trees.
* `Build.join_spec` — operands that are joined one after the other have the joined tree.
* `Build.join_chain` — the operands of a level, joined with its last one, have the tree of the
  expression.
-/

/-! ### Growing arenas -/

/-- The nodes of one arena are there in another one, with the same trees. -/
def Extends (nodes nodes' : Array Node) : Prop :=
  ∀ i, i < nodes.size → i < nodes'.size ∧ treeAt nodes' i = treeAt nodes i

theorem Extends.trans {nodes nodes' nodes'' : Array Node} (h : Extends nodes nodes')
    (h' : Extends nodes' nodes'') : Extends nodes nodes'' := by
  intro i hi
  obtain ⟨hi', htree⟩ := h i hi
  obtain ⟨hi'', htree'⟩ := h' i hi'
  exact ⟨hi'', htree'.trans htree⟩

theorem extends_push (nodes : Array Node) (n : Node) : Extends nodes (nodes.push n) := by
  intro i hi
  refine ⟨?_, treeAt_push nodes n i hi⟩
  rw [Array.size_push]
  exact Nat.lt_succ_of_lt hi

/-- Indices of nodes with the given trees. -/
def Stand (nodes : Array Node) (is : List Nat) (ts : List Tree) : Prop :=
  (∀ i ∈ is, i < nodes.size) ∧ is.map (treeAt nodes) = ts

namespace Stand

theorem nil (nodes : Array Node) : Stand nodes [] [] := ⟨by simp, rfl⟩

theorem mono {nodes nodes' : Array Node} {is : List Nat} {ts : List Tree}
    (h : Stand nodes is ts) (he : Extends nodes nodes') : Stand nodes' is ts := by
  refine ⟨fun i hi => (he i (h.1 i hi)).1, ?_⟩
  rw [← h.2]
  exact List.map_congr_left fun i hi => (he i (h.1 i hi)).2

theorem append {nodes : Array Node} {is js : List Nat} {ts us : List Tree}
    (h : Stand nodes is ts) (h' : Stand nodes js us) : Stand nodes (is ++ js) (ts ++ us) := by
  refine ⟨List.forall_mem_append.2 ⟨h.1, h'.1⟩, ?_⟩
  rw [List.map_append, h.2, h'.2]

/-- A node that is added stands for its tree. -/
theorem added {nodes : Array Node} {n : Node} (hlt : ∀ j ∈ n.children, j < nodes.size) :
    Stand (nodes.push n) [nodes.size] [n.tree (treeAt nodes)] := by
  refine ⟨by simp, ?_⟩
  rw [List.map_singleton, treeAt_push_size hlt]

/-- A list of indices with the node that is added behind the others. -/
theorem snoc {nodes : Array Node} {n : Node} {is : List Nat} {ts : List Tree}
    (h : Stand nodes is ts) (hlt : ∀ j ∈ n.children, j < nodes.size) :
    Stand (nodes.push n) (is ++ [nodes.size]) (ts ++ [n.tree (treeAt nodes)]) :=
  (h.mono (extends_push nodes n)).append (added hlt)

end Stand

/-! ### Joining operands -/

/-- Joins the trees of further operands to the tree on the left. -/
def joinTrees (nodes : Array Node) (left : Tree) (rest : List (Connective × Nat)) : Tree :=
  rest.foldl (fun t p => t.join p.1 (treeAt nodes p.2)) left

theorem joinTrees_extends {nodes nodes' : Array Node} (he : Extends nodes nodes') (left : Tree)
    {rest : List (Connective × Nat)} (hlt : ∀ p ∈ rest, p.2 < nodes.size) :
    joinTrees nodes' left rest = joinTrees nodes left rest := by
  induction rest generalizing left with
  | nil => rfl
  | cons p rest ih =>
    have hp := (he p.2 (hlt p (List.mem_cons_self ..))).2
    have hrest : ∀ q ∈ rest, q.2 < nodes.size := fun q hq => hlt q (List.mem_cons_of_mem _ hq)
    show joinTrees nodes' (left.join p.1 (treeAt nodes' p.2)) rest =
      joinTrees nodes (left.join p.1 (treeAt nodes p.2)) rest
    rw [hp, ih _ hrest]

namespace Build

/-- A run of one connective becomes one node, and the next run has it on the left. -/
theorem join_spec {nodes : Array Node} (op : Connective) {children : List Nat}
    {rest : List (Connective × Nat)} (hwf : WellFormed nodes) (hne : children ≠ [])
    (hchildren : ∀ i ∈ children, i < nodes.size) (hrest : ∀ p ∈ rest, p.2 < nodes.size) :
    ∃ nodes' top, join nodes op children rest = (nodes', top) ∧ WellFormed nodes' ∧
      Extends nodes nodes' ∧ top + 1 = nodes'.size ∧
      treeAt nodes' top = joinTrees nodes (.combine op (children.map (treeAt nodes))) rest := by
  -- The induction is on the operands to come; the run that is being gathered varies with them.
  induction rest generalizing nodes op children with
  | nil =>
    refine ⟨_, _, rfl, hwf.push hchildren hne, extends_push _ _, by simp, ?_⟩
    rw [treeAt_push_size (n := .combine op children) hchildren]
    rfl
  | cons p rest ih =>
    obtain ⟨next, operand⟩ := p
    have hoperand : operand < nodes.size := hrest _ (List.mem_cons_self ..)
    have hrest' : ∀ p ∈ rest, p.2 < nodes.size := fun p hp => hrest p (List.mem_cons_of_mem _ hp)
    unfold join
    by_cases hnext : next = op
    -- The run goes on: the operand becomes one more child, and no node is added yet.
    · have hmore : ∀ i ∈ children ++ [operand], i < nodes.size :=
        List.forall_mem_append.2 ⟨hchildren, List.forall_mem_singleton.2 hoperand⟩
      obtain ⟨nodes', top, hjoin, hwf', he, htop, htree⟩ :=
        ih op hwf (by simp) hmore hrest'
      refine ⟨nodes', top, by rw [if_pos hnext, hjoin], hwf', he, htop, ?_⟩
      rw [htree, List.map_append, List.map_singleton]
      show _ = joinTrees nodes (Tree.join next (.combine op _) _) rest
      rw [Tree.join, if_pos hnext.symm, hnext]
    -- The run ends: its node is added and becomes the first child of the next run.
    · have hpush := hwf.push (n := .combine op children) hchildren hne
      have hext := extends_push nodes (.combine op children)
      have hpair : ∀ i ∈ [nodes.size, operand], i < (nodes.push (.combine op children)).size := by
        intro i hi
        rw [Array.size_push]
        rcases List.mem_pair.1 hi with rfl | rfl
        · exact Nat.lt_succ_self _
        · exact Nat.lt_succ_of_lt hoperand
      obtain ⟨nodes', top, hjoin, hwf', he, htop, htree⟩ :=
        ih next hpush (by simp) hpair fun p hp => (hext _ (hrest' p hp)).1
      refine ⟨nodes', top, by rw [if_neg hnext, hjoin], hwf', hext.trans he, htop, ?_⟩
      rw [htree, joinTrees_extends hext _ hrest', List.map_cons, List.map_singleton,
        treeAt_push_size (n := .combine op children) hchildren, (hext operand hoperand).2]
      show _ = joinTrees nodes (Tree.join next (.combine op _) _) rest
      rw [Tree.join, if_neg (Ne.symm hnext)]
      rfl

/-! ### Operands and their connectives -/

theorem chain_append (init : List (Nat × Connective)) (i : Nat) (op : Connective) (last : Nat) :
    chain (init ++ [(i, op)]) last = ((chain init i).1, (chain init i).2 ++ [(op, last)]) := by
  induction init with
  | nil => rfl
  | cons p init ih =>
    obtain ⟨j, op'⟩ := p
    rw [List.cons_append, chain, ih, chain]
    rfl

end Build

/-- The operands of an expression, each with the connective behind it. -/
def Expr.followed : Expr → Connective → List (Operand × Connective)
  | .one s, op => [(s, op)]
  | .snoc a op' s, op => a.followed op' ++ [(s, op)]

/-- The operands of a level stand for those of an expression that a connective follows. -/
def Follow (nodes : Array Node) (operands : List (Nat × Connective)) (a : Expr)
    (op : Connective) : Prop :=
  (∀ p ∈ operands, p.1 < nodes.size) ∧
    operands.map (fun p => (treeAt nodes p.1, p.2)) =
      (a.followed op).map fun p => (Tree.sequence p.1.trees, p.2)

theorem Follow.mono {nodes nodes' : Array Node} {operands : List (Nat × Connective)} {a : Expr}
    {op : Connective} (h : Follow nodes operands a op) (he : Extends nodes nodes') :
    Follow nodes' operands a op := by
  refine ⟨fun p hp => (he p.1 (h.1 p hp)).1, ?_⟩
  rw [← h.2]
  exact List.map_congr_left fun p hp => by rw [(he p.1 (h.1 p hp)).2]

/-- One more operand behind the others. -/
theorem Follow.snoc {nodes : Array Node} {operands : List (Nat × Connective)} {a : Expr}
    {op op' : Connective} {i : Nat} {s : Operand} (h : Follow nodes operands a op')
    (hi : i < nodes.size) (htree : treeAt nodes i = .sequence s.trees) :
    Follow nodes (operands ++ [(i, op)]) (.snoc a op' s) op := by
  refine ⟨List.forall_mem_append.2 ⟨h.1, List.forall_mem_singleton.2 hi⟩, ?_⟩
  rw [List.map_append, h.2, List.map_singleton, htree, Expr.followed, List.map_append,
    List.map_singleton]

namespace Build

/-- The operands of a level come in pairs with the connective before them, and joined from left to
right they have the tree of the expression. -/
theorem chain_followed {nodes : Array Node} {operands : List (Nat × Connective)} {a : Expr}
    {op : Connective} (h : Follow nodes operands a op) (last : Nat) :
    ∃ first rest, chain operands last = (first, rest ++ [(op, last)]) ∧ first < nodes.size ∧
      (∀ p ∈ rest, p.2 < nodes.size) ∧ (∃ ts, treeAt nodes first = .sequence ts) ∧
      joinTrees nodes (treeAt nodes first) rest = a.tree := by
  -- Pairs are formed from the left, while an expression ends on the right: its last operand is
  -- split off, and what stands before it is a shorter expression.
  induction a generalizing operands op last with
  | one s =>
    obtain ⟨p, hp, htree⟩ := List.map_eq_singleton_iff.1 h.2
    obtain ⟨i, op'⟩ := p
    obtain ⟨htree, rfl⟩ := Prod.mk.inj htree
    subst hp
    exact ⟨i, [], rfl, h.1 _ (List.mem_singleton_self _), by simp, ⟨_, htree⟩, htree⟩
  | snoc a op' s ih =>
    have hsplit := h.2
    rw [Expr.followed, List.map_append, List.map_singleton] at hsplit
    obtain ⟨init, tail, rfl, hinit, htail⟩ := List.map_eq_append_iff.1 hsplit
    obtain ⟨p, rfl, hp⟩ := List.map_eq_singleton_iff.1 htail
    obtain ⟨i, op''⟩ := p
    obtain ⟨htree, rfl⟩ := Prod.mk.inj hp
    have hlt : ∀ p ∈ init, p.1 < nodes.size := fun p hp =>
      h.1 p (List.mem_append_left _ hp)
    have hi : i < nodes.size := h.1 (i, op'') (by simp)
    obtain ⟨first, rest, hchain, hfirst, hrest, hsequence, hjoin⟩ := ih ⟨hlt, hinit⟩ i
    refine ⟨first, rest ++ [(op', i)], ?_, hfirst, ?_, hsequence, ?_⟩
    · rw [chain_append, hchain]
    · exact List.forall_mem_append.2 ⟨hrest, List.forall_mem_singleton.2 hi⟩
    · rw [joinTrees, List.foldl_append]
      show (joinTrees nodes (treeAt nodes first) rest).join op' (treeAt nodes i) = _
      rw [hjoin, htree, Expr.tree]

/-- Joining the operands of an expression with a last one gives the tree of the expression that
ends with it. -/
theorem join_chain {nodes : Array Node} {operands : List (Nat × Connective)} {a : Expr}
    {op : Connective} {s : Operand} {last : Nat} (hwf : WellFormed nodes)
    (h : Follow nodes operands a op) (hlast : last < nodes.size)
    (htree : treeAt nodes last = .sequence s.trees) :
    ∃ first op₁ second more nodes' top, chain operands last = (first, (op₁, second) :: more) ∧
      join nodes op₁ [first, second] more = (nodes', top) ∧ WellFormed nodes' ∧
      Extends nodes nodes' ∧ top + 1 = nodes'.size ∧
      treeAt nodes' top = (Expr.snoc a op s).tree := by
  obtain ⟨first, rest, hchain, hfirst, hrest, ⟨ts, hsequence⟩, hjoin⟩ := chain_followed h last
  have htotal : joinTrees nodes (treeAt nodes first) (rest ++ [(op, last)]) =
      (Expr.snoc a op s).tree := by
    rw [joinTrees, List.foldl_append]
    show (joinTrees nodes (treeAt nodes first) rest).join op (treeAt nodes last) = _
    rw [hjoin, htree, Expr.tree]
  have hall : ∀ q ∈ rest ++ [(op, last)], q.2 < nodes.size :=
    List.forall_mem_append.2 ⟨hrest, List.forall_mem_singleton.2 hlast⟩
  cases hpairs : rest ++ [(op, last)] with
  | nil => simp at hpairs
  | cons q more =>
    obtain ⟨op₁, second⟩ := q
    rw [hpairs] at htotal hall hchain
    have htwo : ∀ i ∈ [first, second], i < nodes.size := by
      intro i hi
      rcases List.mem_pair.1 hi with rfl | rfl
      · exact hfirst
      · exact hall (op₁, i) (List.mem_cons_self ..)
    obtain ⟨nodes', top, hjoined, hwf', he, htop, htree'⟩ :=
      join_spec op₁ hwf (by simp) htwo fun q hq => hall q (List.mem_cons_of_mem _ hq)
    refine ⟨first, op₁, second, more, nodes', top, hchain, hjoined, hwf', he, htop, ?_⟩
    rw [htree', ← htotal, List.map_cons, List.map_singleton]
    -- the first operand is a sequence, so joining the second one starts a new node
    show _ = joinTrees nodes ((treeAt nodes first).join op₁ (treeAt nodes second)) more
    rw [hsequence]
    rfl

end Build

end PathSieve.Pattern
