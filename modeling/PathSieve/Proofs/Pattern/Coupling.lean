import PathSieve.Proofs.Pattern.Rooted

namespace PathSieve.Pattern

/-!
# Path wildcards and their separators

A token `**/` adds two nodes, the wildcard and its separator, as neighbours in the arena and as
neighbours among the terms of an operand. No other token comes between them, and a path wildcard is
never an operand or the contents of a group by itself.

* `Whole` — a node that may stand by itself.
* `Coupled` — items in which every path wildcard has its separator right behind it.
* `Coupling` — an arena all of whose nodes have such children.
* `Coupling.exists_separator` — a path wildcard wherever it is a child.
* `Coupling.join`, `Coupling.close` — a level that is closed.
* `Build.Orderly` — what compilation keeps of the arena and of all open levels.
* `Build.Orderly.step`, `Build.Orderly.run`, `Build.Orderly.finish` — one token, all tokens, the
  end.
* `compile_coupling` — compiled patterns.
-/

/-! ### Growing arenas -/

/-- The nodes of one arena are there in another one. -/
def Retains (nodes nodes' : Array Node) : Prop :=
  ∀ (i : Nat) (n : Node), nodes[i]? = some n → nodes'[i]? = some n

theorem retains_push (nodes : Array Node) (n : Node) : Retains nodes (nodes.push n) := by
  intro i m hm
  obtain ⟨hi, rfl⟩ := Array.getElem?_eq_some_iff.1 hm
  exact Array.getElem?_push_lt hi

theorem Retains.trans {nodes nodes' nodes'' : Array Node} (h : Retains nodes nodes')
    (h' : Retains nodes' nodes'') : Retains nodes nodes'' :=
  fun i n hn => h' i n (h i n hn)

/-! ### Items -/

/-- A node that may stand by itself, which a path wildcard may not. -/
def Whole (nodes : Array Node) (i : Nat) : Prop := ∃ n, nodes[i]? = some n ∧ n ≠ .anyPath

/-- Every path wildcard among the items is followed by the node that was added right after it, which
is a separator. -/
inductive Coupled (nodes : Array Node) : List Nat → Prop where
  | nil : Coupled nodes []
  | pathway {i : Nat} {s : Separator} {rest : List Nat} : nodes[i]? = some .anyPath →
      nodes[i + 1]? = some (.split s) → Coupled nodes rest → Coupled nodes (i :: (i + 1) :: rest)
  | item {i : Nat} {rest : List Nat} : Whole nodes i → Coupled nodes rest →
      Coupled nodes (i :: rest)

theorem Whole.mono {nodes nodes' : Array Node} {i : Nat} (h : Whole nodes i)
    (hr : Retains nodes nodes') : Whole nodes' i := by
  obtain ⟨n, hn, hne⟩ := h
  exact ⟨n, hr i n hn, hne⟩

theorem whole_push {n : Node} (h : n ≠ .anyPath) (nodes : Array Node) :
    Whole (nodes.push n) nodes.size :=
  ⟨n, Array.getElem?_push_size, h⟩

namespace Coupled

variable {nodes nodes' : Array Node} {is js : List Nat}

theorem mono (h : Coupled nodes is) (hr : Retains nodes nodes') : Coupled nodes' is := by
  induction h with
  | nil => exact .nil
  | pathway hi hnext _ ih => exact .pathway (hr _ _ hi) (hr _ _ hnext) ih
  | item hi _ ih => exact .item (hi.mono hr) ih

theorem append (h : Coupled nodes is) (h' : Coupled nodes js) : Coupled nodes (is ++ js) := by
  induction h with
  | nil => exact h'
  | pathway hi hnext _ ih => exact .pathway hi hnext ih
  | item hi _ ih => exact .item hi ih

theorem lt_size (h : Coupled nodes is) : ∀ i ∈ is, i < nodes.size := by
  have hlt : ∀ {i : Nat} {n : Node}, nodes[i]? = some n → i < nodes.size :=
    fun hn => (Array.getElem?_eq_some_iff.1 hn).1
  induction h with
  | nil => simp
  | pathway hi hnext _ ih =>
    exact List.forall_mem_cons.2 ⟨hlt hi, List.forall_mem_cons.2 ⟨hlt hnext, ih⟩⟩
  | item hi _ ih =>
    obtain ⟨n, hn, -⟩ := hi
    exact List.forall_mem_cons.2 ⟨hlt hn, ih⟩

/-- A path wildcard has its separator behind it. -/
theorem separator {i : Nat} {rest : List Nat} (h : Coupled nodes (i :: rest))
    (hi : nodes[i]? = some .anyPath) :
    rest.head? = some (i + 1) ∧ (∃ s, nodes[i + 1]? = some (.split s)) ∧
      Coupled nodes rest.tail := by
  cases h with
  | pathway _ hnext hrest => exact ⟨rfl, ⟨_, hnext⟩, hrest⟩
  | item hwhole _ =>
    obtain ⟨n, hn, hne⟩ := hwhole
    exact absurd (Option.some.inj (hn.symm.trans hi)) hne

/-- Wherever a path wildcard stands among the items, its separator is the next one. -/
theorem exists_separator (h : Coupled nodes is) {j : Nat} (hj : j ∈ is)
    (hany : nodes[j]? = some .anyPath) :
    ∃ before s after, is = before ++ j :: (j + 1) :: after ∧
      nodes[j + 1]? = some (.split s) := by
  induction h with
  | nil => cases hj
  | pathway _ hnext _ ih =>
    rcases List.mem_cons.1 hj with rfl | hj
    · exact ⟨[], _, _, rfl, hnext⟩
    · rcases List.mem_cons.1 hj with rfl | hj
      · cases hany.symm.trans hnext
      · obtain ⟨before, s, after, rfl, hs⟩ := ih hj
        exact ⟨_ :: _ :: before, s, after, rfl, hs⟩
  | item hwhole _ ih =>
    rcases List.mem_cons.1 hj with rfl | hj
    · obtain ⟨n, hn, hne⟩ := hwhole
      exact absurd (Option.some.inj (hn.symm.trans hany)) hne
    · obtain ⟨before, s, after, rfl, hs⟩ := ih hj
      exact ⟨_ :: before, s, after, rfl, hs⟩

/-- What is behind any other item is coupled by itself. -/
theorem tail {i : Nat} {rest : List Nat} (h : Coupled nodes (i :: rest))
    (hi : nodes[i]? ≠ some .anyPath) : Coupled nodes rest := by
  cases h with
  | pathway hany _ _ => exact absurd hany hi
  | item _ hrest => exact hrest

end Coupled

/-! ### Arenas -/

/-- The items of a sequence are coupled; all other children are nodes that may stand by
themselves. -/
def Node.Couples (nodes : Array Node) : Node → Prop
  | .sequence items => Coupled nodes items
  | n => ∀ j ∈ n.children, Whole nodes j

/-- All nodes of an arena have such children. -/
def Coupling (nodes : Array Node) : Prop :=
  ∀ (i : Nat) (n : Node), nodes[i]? = some n → n.Couples nodes

theorem Node.couples_leaf {n : Node} (h : n.isLeaf = true) (nodes : Array Node) :
    n.Couples nodes := by
  cases n with
  | sequence => cases h
  | combine => cases h
  | group => cases h
  | _ => exact fun j hj => absurd hj List.not_mem_nil

theorem Node.Couples.mono {nodes nodes' : Array Node} {n : Node} (h : n.Couples nodes)
    (hr : Retains nodes nodes') : n.Couples nodes' := by
  cases n with
  | sequence items => exact Coupled.mono h hr
  | _ => exact fun j hj => (h j hj).mono hr

namespace Coupling

variable {nodes : Array Node}

theorem push (h : Coupling nodes) {n : Node} (hn : n.Couples nodes) : Coupling (nodes.push n) := by
  intro i m hm
  rw [Array.getElem?_push] at hm
  split at hm
  · exact Option.some.inj hm ▸ hn.mono (retains_push nodes n)
  · exact (h i m hm).mono (retains_push nodes n)

/-- A path wildcard has its separator behind it wherever it is a child. -/
theorem exists_separator (h : Coupling nodes) {i j : Nat} (hij : Links nodes i j)
    (hany : nodes[j]? = some .anyPath) :
    ∃ before k s after, nodes[i]? = some (.sequence (before ++ j :: k :: after)) ∧
      nodes[k]? = some (.split s) := by
  obtain ⟨n, hn, hj⟩ := hij
  have hcouples := h i n hn
  have hwhole : ¬ Whole nodes j := fun ⟨m, hm, hne⟩ => hne (Option.some.inj (hm.symm.trans hany))
  cases n with
  | sequence items =>
    obtain ⟨before, s, after, rfl, hs⟩ := Coupled.exists_separator hcouples hj hany
    exact ⟨before, j + 1, s, after, hn, hs⟩
  | _ => exact absurd (hcouples j hj) hwhole

/-- Joining operands adds nodes that may stand by themselves. -/
theorem join (h : Coupling nodes) (op : Connective) {children : List Nat}
    (hchildren : ∀ j ∈ children, Whole nodes j) {rest : List (Connective × Nat)}
    (hrest : ∀ j ∈ rest.map Prod.snd, Whole nodes j) :
    let joined := Build.join nodes op children rest
    Coupling joined.1 ∧ Retains nodes joined.1 ∧ Whole joined.1 joined.2 := by
  induction rest generalizing nodes op children with
  | nil =>
    have hnode : (Node.combine op children).Couples nodes := hchildren
    exact ⟨h.push hnode, retains_push nodes _, whole_push (by simp) nodes⟩
  | cons p rest ih =>
    obtain ⟨next, operand⟩ := p
    obtain ⟨hoperand, hrest⟩ := List.forall_mem_cons.1 hrest
    rw [Build.join]
    split
    · exact ih h op (List.forall_mem_append.2 ⟨hchildren, List.forall_mem_singleton.2 hoperand⟩)
        hrest
    · -- The node of the run is the first child of the next one.
      have hnode : (Node.combine op children).Couples nodes := hchildren
      have hretains := retains_push nodes (.combine op children)
      obtain ⟨hjoined, hmore, htop⟩ := ih (h.push hnode) next
        (List.forall_mem_cons.2 ⟨whole_push (by simp) nodes,
          List.forall_mem_singleton.2 (hoperand.mono hretains)⟩)
        fun j hj => (hrest j hj).mono hretains
      exact ⟨hjoined, hretains.trans hmore, htop⟩

end Coupling

/-- The terms of a level are coupled, and its operands may stand by themselves. -/
structure Level.Orderly (nodes : Array Node) (l : Level) : Prop where
  items : Coupled nodes l.items.toList
  operands : ∀ j ∈ l.operands.toList.map Prod.fst, Whole nodes j

theorem Level.Orderly.mono {nodes nodes' : Array Node} {l : Level} (h : l.Orderly nodes)
    (hr : Retains nodes nodes') : l.Orderly nodes' :=
  ⟨h.items.mono hr, fun j hj => (h.operands j hj).mono hr⟩

/-- A level that is closed comes to a node that may stand by itself. -/
theorem Coupling.close {nodes nodes' : Array Node} {l : Level} {top finish : Nat} {isGroup : Bool}
    (h : Coupling nodes) (hl : l.Orderly nodes)
    (hclose : Build.close nodes l finish isGroup = .ok (nodes', top)) :
    Coupling nodes' ∧ Retains nodes nodes' ∧ Whole nodes' top := by
  have hlast : Coupling (nodes.push (.sequence l.items.toList)) := h.push hl.items
  have hretains := retains_push nodes (.sequence l.items.toList)
  have hwhole : Whole (nodes.push (.sequence l.items.toList)) nodes.size :=
    whole_push (by simp) nodes
  -- The operands with the last one are what is joined.
  have hoperands : ∀ j ∈ l.operands.toList.map Prod.fst ++ [nodes.size],
      Whole (nodes.push (.sequence l.items.toList)) j :=
    List.forall_mem_append.2 ⟨fun j hj => (hl.operands j hj).mono hretains,
      List.forall_mem_singleton.2 hwhole⟩
  rw [← Build.map_chain] at hoperands
  obtain ⟨hfirst, hothers⟩ := List.forall_mem_cons.1 hoperands
  obtain ⟨-, rfl, rfl⟩ | ⟨first, op, second, rest, hchain, hjoin⟩ := Build.close_eq_ok hclose
  · exact ⟨hlast, hretains, hwhole⟩
  · rw [hchain] at hfirst hothers
    obtain ⟨hsecond, hrest⟩ := List.forall_mem_cons.1 hothers
    have hjoined := hlast.join op (List.forall_mem_cons.2
      ⟨hfirst, List.forall_mem_singleton.2 hsecond⟩) hrest
    rw [hjoin] at hjoined
    exact ⟨hjoined.1, hretains.trans hjoined.2.1, hjoined.2.2⟩

/-! ### Tokens -/

/-- A node that is added stands behind the terms of a level. -/
theorem Level.Orderly.push {nodes : Array Node} {l : Level} (h : l.Orderly nodes) {n : Node}
    (hne : n ≠ .anyPath) : (l.push nodes.size).Orderly (nodes.push n) := by
  have hkeep := h.mono (retains_push nodes n)
  refine ⟨?_, hkeep.operands⟩
  rw [Level.push, Array.toList_push]
  exact hkeep.items.append (.item (whole_push hne nodes) .nil)

/-- A path wildcard that is added stands there together with its separator. -/
theorem Level.Orderly.push_pathway {nodes : Array Node} {l : Level} (h : l.Orderly nodes)
    (s : Separator) : ((l.push nodes.size).push (nodes.size + 1)).Orderly
      ((nodes.push .anyPath).push (.split s)) := by
  have hsplit : ((nodes.push .anyPath).push (.split s))[nodes.size + 1]? = some (.split s) := by
    have hsize : (nodes.push .anyPath).size = nodes.size + 1 := Array.size_push ..
    rw [← hsize]
    exact Array.getElem?_push_size
  have hpath := retains_push (nodes.push .anyPath) (.split s) _ _ Array.getElem?_push_size
  have hkeep := h.mono ((retains_push nodes .anyPath).trans (retains_push _ (.split s)))
  refine ⟨?_, hkeep.operands⟩
  rw [Level.push, Level.push, Array.toList_push, Array.toList_push, List.append_assoc]
  exact hkeep.items.append (.pathway hpath hsplit .nil)

/-- The nodes of a build have children as they should, and its open levels are orderly. -/
structure Build.Orderly (b : Build) : Prop where
  nodes : Coupling b.nodes
  level : b.level.Orderly b.nodes
  outer : ∀ l ∈ b.outer, l.Orderly b.nodes

namespace Build.Orderly

variable {b b' : Build}

theorem start : Build.Orderly {} := ⟨fun _ _ h => by simp at h, ⟨.nil, by simp⟩, by simp⟩

/-- The levels around the innermost one stay as they are when nodes are added. -/
theorem outer_mono {nodes' : Array Node} (h : b.Orderly) (hr : Retains b.nodes nodes') :
    ∀ l ∈ b.outer, l.Orderly nodes' :=
  fun l hl => (h.outer l hl).mono hr

theorem term (h : b.Orderly) {n : Node} (hne : n ≠ .anyPath) (hn : n.Couples b.nodes) :
    (b.term n).Orderly :=
  ⟨h.nodes.push hn, h.level.push hne, h.outer_mono (retains_push b.nodes n)⟩

/-- A token `**/` adds a path wildcard together with its separator. -/
theorem pathway (h : b.Orderly) (s : Separator) :
    ((b.term .anyPath).term (.split s)).Orderly where
  nodes := (h.nodes.push (Node.couples_leaf rfl _)).push (Node.couples_leaf rfl _)
  level := by
    have hsize : (b.nodes.push .anyPath).size = b.nodes.size + 1 := Array.size_push ..
    have hlevel := h.level.push_pathway s
    rw [← hsize] at hlevel
    exact hlevel
  outer := h.outer_mono ((retains_push b.nodes .anyPath).trans (retains_push _ (.split s)))

theorem markMulti (h : b.Orderly) : b.markMulti.Orderly :=
  ⟨h.nodes, ⟨h.level.items, h.level.operands⟩, h.outer⟩

/-- The terms in front of a connective become a sequence, which is one more operand. -/
theorem connect {op : Connective} {position : Nat} (h : b.Orderly)
    (hb : b.connect op position = .ok b') : b'.Orderly := by
  rw [Build.connect_eq_ok hb]
  have hretains := retains_push b.nodes (.sequence b.level.items.toList)
  have hnode : (Node.sequence b.level.items.toList).Couples b.nodes := h.level.items
  refine ⟨h.nodes.push hnode, ⟨.nil, ?_⟩, h.outer_mono hretains⟩
  rw [Array.toList_push, List.map_append]
  exact List.forall_mem_append.2 ⟨fun j hj => (h.level.operands j hj).mono hretains,
    List.forall_mem_singleton.2 (whole_push (by simp) b.nodes)⟩

theorem openGroup {inverted : Bool} {position : Nat} (h : b.Orderly)
    (hb : b.openGroup inverted position = .ok b') : b'.Orderly := by
  rw [(Build.openGroup_eq_ok hb).2]
  exact ⟨h.nodes, ⟨.nil, by simp⟩, List.forall_mem_cons.2 ⟨h.level, h.outer⟩⟩

/-- A group that is closed is a term of the level around it. -/
theorem closeGroup {position : Nat} (h : b.Orderly) (hb : b.closeGroup position = .ok b') :
    b'.Orderly := by
  obtain ⟨parent, outer, nodes, child, houter, hclose, rfl⟩ := Build.closeGroup_eq_ok hb
  obtain ⟨hnodes, hretains, hchild⟩ := h.nodes.close h.level hclose
  have hlevels := h.outer_mono hretains
  rw [houter] at hlevels
  obtain ⟨hparent, hothers⟩ := List.forall_mem_cons.1 hlevels
  have hlevel := hparent.push (n := .group child b.level.inverted b.level.multiSegment) (by simp)
  refine ⟨hnodes.push (List.forall_mem_singleton.2 hchild), ⟨hlevel.items, hlevel.operands⟩, ?_⟩
  exact fun l hl => (hothers l hl).mono (retains_push nodes _)

/-- No token comes between a path wildcard and its separator. -/
theorem step {t : Token} (h : b.Orderly) (hb : b.step t = .ok b') : b'.Orderly := by
  obtain ⟨n, hleaf, hne, rfl | rfl⟩ | ⟨s, rfl⟩ | ⟨op, hb⟩ | ⟨inverted, hb⟩ | hb :=
    Build.step_eq_ok hb
  · exact h.term hne (Node.couples_leaf hleaf _)
  · exact (h.term hne (Node.couples_leaf hleaf _)).markMulti
  · exact (h.pathway s).markMulti
  · exact h.connect hb
  · exact h.openGroup hb
  · exact h.closeGroup hb

theorem run {ts : List Token} (h : b.Orderly) (hb : ts.foldlM Build.step b = .ok b') :
    b'.Orderly :=
  Build.run_induction step h hb

theorem finish {length : Nat} {a : Arena} (h : b.Orderly) (ha : b.finish length = .ok a) :
    Coupling a.nodes ∧ Whole a.nodes a.root := by
  obtain ⟨-, nodes, top, hclose, rfl | rfl⟩ := Build.finish_eq_ok ha
  · obtain ⟨hnodes, -, htop⟩ := h.nodes.close h.level hclose
    exact ⟨hnodes, htop⟩
  · -- A combination at the top is the only item of the root.
    obtain ⟨hnodes, -, htop⟩ := h.nodes.close h.level hclose
    have hnode : (Node.sequence [top]).Couples nodes := .item htop .nil
    exact ⟨hnodes.push hnode, whole_push (by simp) nodes⟩

end Build.Orderly

/-- **A path wildcard has its separator behind it.** In every sequence of a compiled pattern, the
item behind a path wildcard is the separator that was added together with it. The root is no path
wildcard, and neither is an operand or what is in a group. -/
theorem compile_coupling {text : List Text.CodePoint} {a : Arena} (h : compile text = .ok a) :
    Coupling a.nodes ∧ Whole a.nodes a.root := by
  obtain ⟨ts, b, -, hrun, hfinish⟩ := compile_exists_build h
  exact (Build.Orderly.start.run hrun).finish hfinish

end PathSieve.Pattern
