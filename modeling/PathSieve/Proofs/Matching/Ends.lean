import PathSieve.Proofs.Matching.Pieces
import PathSieve.Proofs.Pattern.Grammar
import PathSieve.Proofs.Pattern.Height

namespace PathSieve.Matching

open Pattern
open Text (CodePoint)

/-!
# End positions and languages

The end positions of a node are the ends of the spans that are in the language of its tree. A search
finds them as long as all that is remembered is right, and remembers right answers only.

* `Answers` — a set of positions is the right answer for a tree and a start.
* `Memo.Right` — all answers that are remembered are right.
* `Askable` — a search for end positions finds the right answers for a node.
* `finds_itemEnds`, `finds_sequenceEnds`, `finds_sharedEnds`, `finds_nodeEnds` — one node, when its
  children are askable.
* `finds_endsWithin_height` — a node is askable with as much fuel as its tree is high.
* `finds_endsWithin` — every node is askable.
-/

/-! ### Right answers -/

/-- The positions where a span of the tree from `start` ends. -/
def Answers (t : Subject) (tree : Tree) (start : Nat) (p : Positions) : Prop :=
  ∀ e, e ∈ p ↔ Spans t (tree.language t.caseSensitive) start e

/-- What is remembered about the nodes of the arena and the starts in the text is right. -/
def Memo.Right (nodes : Array Node) (t : Subject) (m : Memo) : Prop :=
  ∀ i s p, i < nodes.size → s ≤ t.length → m.find? i s = some p → Answers t (treeAt nodes i) s p

/-- A search finds the right answers for node `i`. -/
def Askable (nodes : Array Node) (t : Subject) (ends : Nat → Nat → Search Positions)
    (i : Nat) : Prop :=
  ∀ s, s ≤ t.length → Finds (Memo.Right nodes t) (ends i s) (Answers t (treeAt nodes i) s)

theorem Memo.right_empty (nodes : Array Node) (t : Subject) (size : Nat) :
    (Memo.empty size).Right nodes t := by
  intro i s p _ _ h
  rw [Memo.find?_empty] at h
  cases h

theorem Memo.Right.insert {nodes : Array Node} {t : Subject} {m : Memo} (h : m.Right nodes t)
    {i s : Nat} {p : Positions} (hp : Answers t (treeAt nodes i) s p) :
    (m.insert i s p).Right nodes t := by
  intro j r q hj hr hq
  rcases Memo.find?_insert hq with ⟨rfl, rfl, rfl⟩ | hq
  · exact hp
  · exact h j r q hj hr hq

/-! ### One item -/

section Nodes

variable {nodes : Array Node} {t : Subject} {ends : Nat → Nat → Search Positions}

/-- An atom takes a row to the ends of its spans. -/
theorem finds_atom {S : Memo → Prop} {row next : Positions} {i : Nat} {n : Node}
    {l : Language CodePoint} (hn : nodes[i]? = some n) (hstep : atomStep t row n = .ok next)
    (hmoves : Moves t l row next) :
    Finds S (liftM (segmentFrom nodes t row [i]) : Search Positions) (Moves t l row) := by
  refine .except (x := next) ?_ hmoves
  rw [segmentFrom_cons ((nodeAt?_natCast nodes i).trans hn) hstep]
  split
  · rfl
  · rw [segmentFrom]

/-- One item of a sequence takes a row to the ends of its spans. -/
theorem finds_itemEnds {row : Positions} {i : Nat} {n : Node} (hrow : Within t row)
    (hn : nodes[i]? = some n) (hends : n.isLeaf = false → Askable nodes t ends i)
    (htree : treeAt nodes i = n.tree (treeAt nodes)) :
    Finds (Memo.Right nodes t) (itemEnds nodes t ends row i)
      (Moves t ((treeAt nodes i).language t.caseSensitive) row) := by
  have hask : n.isLeaf = false → Finds (Memo.Right nodes t)
      (do return unionOf (← row.toList.mapM (ends i)))
      (Moves t ((treeAt nodes i).language t.caseSensitive) row) := by
    intro hleaf
    -- A node with parts is asked from every position of the row.
    have hall : ∀ s ∈ row.toList, Finds (Memo.Right nodes t) (ends i s)
        (Answers t (treeAt nodes i) s) := by
      intro s hs
      exact hends hleaf s (hrow s (Positions.mem_toList.1 hs))
    refine (Finds.union hall).mono fun p hp e => ?_
    rw [hp e]
    exact exists_congr fun s => and_congr_left fun _ => Positions.mem_toList
  unfold itemEnds
  rw [hn]
  cases n with
  | literal cs =>
    rw [htree, Node.tree, Tree.language]
    exact finds_atom hn rfl (moves_afterLiteral cs hrow)
  | anyChar =>
    rw [htree, Node.tree, Tree.language]
    exact finds_atom hn rfl moves_afterChar
  | anyChars =>
    rw [htree, Node.tree, Tree.language]
    exact finds_atom hn rfl (moves_spread hrow)
  | anyPath =>
    rw [htree, Node.tree, Tree.language]
    exact .pure (moves_anyPath hrow)
  | split s =>
    rw [htree, Node.tree, Tree.language]
    exact .pure moves_afterSeparator
  | sequence items => exact hask rfl
  | combine op operands => exact hask rfl
  | group child inverted multi => exact hask rfl

/-! ### Sequences -/

/-- A node with the tree of a path wildcard is one. -/
theorem getElem?_anyPath {i : Nat} (hi : i < nodes.size) (h : treeAt nodes i = .anyPath) :
    nodes[i]? = some .anyPath := by
  have hn : nodes[i]? = some nodes[i] := Array.getElem?_eq_getElem hi
  rw [treeAt, hn] at h
  rw [hn]
  cases hkind : nodes[i] with
  | anyPath => rfl
  | _ =>
    rw [hkind] at h
    cases h

theorem treeAt_anyPath {i : Nat} (h : nodes[i]? = some .anyPath) : treeAt nodes i = .anyPath := by
  rw [treeAt, h]
  rfl

theorem sequenceEnds_of_isEmpty {row : Positions} (h : row.isEmpty) (items : List Nat) :
    sequenceEnds nodes t ends row items = return row := by
  unfold sequenceEnds
  split
  · rfl
  · rw [if_pos h]
  · rw [if_pos h]

/-- An item that is no path wildcard is followed by the rest of the sequence. -/
theorem sequenceEnds_cons {row : Positions} {i : Nat} (h : nodes[i]? ≠ some .anyPath)
    (hrow : row.isEmpty = false) (items : List Nat) :
    sequenceEnds nodes t ends row (i :: items) = (do
      let next ← itemEnds nodes t ends row i
      sequenceEnds nodes t ends next items) := by
  cases items with
  | nil =>
    rw [sequenceEnds, hrow, if_neg Bool.false_ne_true]
    simp only [sequenceEnds, bind_pure]
  | cons j rest =>
    rw [sequenceEnds, hrow, if_neg Bool.false_ne_true]
    simp only [if_neg h]

/-- A path wildcard is followed by what stands behind its separator. -/
theorem sequenceEnds_anyPath {row : Positions} {i : Nat} (h : nodes[i]? = some .anyPath)
    (hrow : row.isEmpty = false) (j : Nat) (rest : List Nat) :
    sequenceEnds nodes t ends row (i :: j :: rest) =
      sequenceEnds nodes t ends (t.anyPath row) rest := by
  rw [sequenceEnds, hrow, if_neg Bool.false_ne_true, itemEnds, h]
  simp only [pure_bind, if_pos]

/-- A sequence takes a row to the ends of its spans. -/
theorem finds_sequenceEnds (hwell : WellFormed nodes) {ts : List Tree} (hpaired : Paired ts)
    {items : List Nat} (hts : items.map (treeAt nodes) = ts) (hlt : ∀ i ∈ items, i < nodes.size)
    (hends : ∀ i ∈ items, Askable nodes t ends i) {row : Positions} (hrow : Within t row) :
    Finds (Memo.Right nodes t) (sequenceEnds nodes t ends row items)
      (Moves t (Tree.concat t.caseSensitive ts) row) := by
  -- The induction follows the pairs: a path wildcard is passed together with its separator.
  induction hpaired generalizing items row with
  | nil =>
    rw [List.map_eq_nil_iff.1 hts, sequenceEnds, Tree.concat]
    exact .pure (moves_one hrow)
  | pathway hpaired ih =>
    obtain ⟨i, items, rfl, hi, hitems⟩ := List.map_eq_cons_iff.1 hts
    obtain ⟨j, rest, rfl, -, hrest⟩ := List.map_eq_cons_iff.1 hitems
    -- Without positions the search ends early, and nothing could be reached anyway.
    by_cases hempty : row.isEmpty
    · rw [sequenceEnds_of_isEmpty hempty]
      exact .pure (moves_of_isEmpty _ hempty)
    · have hany := getElem?_anyPath (hlt i (List.mem_cons_self ..)) hi
      have hmoves := moves_anyPath hrow
      rw [sequenceEnds_anyPath hany (Bool.not_eq_true _ ▸ hempty), Tree.concat]
      have hsub : ∀ k ∈ rest, k ∈ i :: j :: rest := fun k hk =>
        List.mem_cons_of_mem _ (List.mem_cons_of_mem _ hk)
      have hfinds := ih hrest (fun k hk => hlt k (hsub k hk)) (fun k hk => hends k (hsub k hk))
        hmoves.within
      exact hfinds.mono fun last hlast => hmoves.trans hlast
  | item hne hpaired ih =>
    obtain ⟨i, items, rfl, rfl, hitems⟩ := List.map_eq_cons_iff.1 hts
    by_cases hempty : row.isEmpty
    · rw [sequenceEnds_of_isEmpty hempty]
      exact .pure (moves_of_isEmpty _ hempty)
    · have hany : nodes[i]? ≠ some .anyPath := fun h => hne (treeAt_anyPath h)
      rw [sequenceEnds_cons hany (Bool.not_eq_true _ ▸ hempty), Tree.concat_cons hne]
      have hn := Array.getElem?_eq_getElem (hlt i (List.mem_cons_self ..))
      have hitem := finds_itemEnds hrow hn (fun _ => hends i (List.mem_cons_self ..))
        (hwell.tree_eq hn)
      refine hitem.bind fun next hnext => ?_
      have hfinds := ih hitems (fun k hk => hlt k (List.mem_cons_of_mem _ hk))
        (fun k hk => hends k (List.mem_cons_of_mem _ hk)) hnext.within
      exact hfinds.mono fun last hlast => hnext.trans hlast

/-! ### Combinations and groups -/

/-- The positions of a row that are ends for all of some nodes. -/
theorem finds_sharedEnds {start : Nat} (hstart : start ≤ t.length) {operands : List Nat}
    (hends : ∀ i ∈ operands, Askable nodes t ends i) (row : Positions) :
    Finds (Memo.Right nodes t) (sharedEnds (ends · start) row operands) fun p =>
      ∀ e, e ∈ p ↔ e ∈ row ∧
        ∀ i ∈ operands, Spans t ((treeAt nodes i).language t.caseSensitive) start e := by
  induction operands generalizing row with
  | nil =>
    rw [sharedEnds]
    exact .pure fun e => by simp
  | cons i rest ih =>
    rw [sharedEnds]
    split
    · rename_i hempty
      refine .pure fun e => iff_of_false ?_ fun h => ?_
      · rw [Positions.isEmpty_iff.1 hempty]
        exact Positions.not_mem_empty e
      · rw [Positions.isEmpty_iff.1 hempty] at h
        exact Positions.not_mem_empty e h.1
    · have hi := hends i (List.mem_cons_self ..) start hstart
      have hrest := ih fun j hj => hends j (List.mem_cons_of_mem _ hj)
      refine hi.bind fun other hother => (hrest _).mono fun p hp e => ?_
      rw [hp e, Positions.mem_inter, hother e, List.forall_mem_cons, and_assoc]

/-- Spans of a combination are spans of all, or of one, of its operands. -/
theorem spans_conj {ts : List Tree} (h : ts ≠ []) {s e : Nat} :
    Spans t ((Tree.combine .conj ts).language t.caseSensitive) s e ↔
      ∀ u ∈ ts, Spans t (u.language t.caseSensitive) s e := by
  unfold Spans
  rw [Tree.mem_combine_conj]
  constructor
  · exact fun ⟨hse, he, hall⟩ u hu => ⟨hse, he, hall u hu⟩
  · intro hall
    -- Some operand is there, and its span is in the text.
    obtain ⟨u, hu⟩ := List.exists_mem_of_ne_nil ts h
    obtain ⟨hse, he, -⟩ := hall u hu
    exact ⟨hse, he, fun v hv => (hall v hv).2.2⟩

theorem spans_disj {ts : List Tree} {s e : Nat} :
    Spans t ((Tree.combine .disj ts).language t.caseSensitive) s e ↔
      ∃ u ∈ ts, Spans t (u.language t.caseSensitive) s e := by
  unfold Spans
  rw [Tree.mem_combine_disj]
  constructor
  · exact fun ⟨hse, he, u, hu, hmem⟩ => ⟨u, hu, hse, he, hmem⟩
  · exact fun ⟨u, hu, hse, he, hmem⟩ => ⟨hse, he, u, hu, hmem⟩

/-- Spans of an inverted group are those within reach that are no spans of what is inside. -/
theorem spans_inverted {tree : Tree} {multi : Bool} {s e : Nat} :
    Spans t ((Tree.group tree true multi).language t.caseSensitive) s e ↔
      e ∈ reach t multi s ∧ ¬ Spans t (tree.language t.caseSensitive) s e := by
  rw [mem_reach]
  unfold Spans
  rw [Tree.mem_group_inverted]
  tauto

/-! ### Nodes -/

/-- A leaf that is asked by itself is a sequence of itself. -/
theorem finds_leaf (hwell : WellFormed nodes) {i start : Nat} {n : Node} (hn : nodes[i]? = some n)
    (hleaf : n.isLeaf = true) (hstart : start ≤ t.length) :
    Finds (Memo.Right nodes t) (sequenceEnds nodes t ends (.single start) [i])
      (Answers t (treeAt nodes i) start) := by
  have hempty : ¬ (Positions.single start).isEmpty := by
    intro h
    have hmem : start ∈ Positions.single start := Positions.mem_single.2 rfl
    rw [Positions.isEmpty_iff.1 h] at hmem
    exact Positions.not_mem_empty start hmem
  have hask : n.isLeaf = false → Askable nodes t ends i := fun h =>
    absurd (hleaf.symm.trans h) (by decide)
  rw [sequenceEnds, if_neg hempty]
  refine (finds_itemEnds (within_single hstart) hn hask (hwell.tree_eq hn)).mono fun p hp e => ?_
  rw [hp e]
  simp

/-- A node has the right answer when its children have. -/
theorem finds_nodeEnds (hwell : WellFormed nodes) {i start : Nat} (hi : i < nodes.size)
    (hends : ∀ j, Links nodes i j → Askable nodes t ends j) (hstart : start ≤ t.length) :
    Finds (Memo.Right nodes t) (nodeEnds nodes t ends i start)
      (Answers t (treeAt nodes i) start) := by
  have hn : nodes[i]? = some nodes[i] := Array.getElem?_eq_getElem hi
  have hchild : ∀ j ∈ nodes[i].children, Askable nodes t ends j :=
    fun j hj => hends j ⟨_, hn, hj⟩
  have htree := hwell.tree_eq hn
  have hadmitted := hwell.admitted hn
  unfold nodeEnds
  generalize hkind : nodes[i] = n at *
  rw [hn]
  cases n with
  | sequence items =>
    have hlt : ∀ j ∈ items, j < nodes.size := fun j hj => (hwell.earlier hn j hj).trans hi
    refine (finds_sequenceEnds hwell hadmitted rfl hlt hchild (within_single hstart)).mono ?_
    intro p hp e
    rw [hp e, htree, Node.tree, Tree.language]
    simp
  | combine op operands =>
    have hne : operands.map (treeAt nodes) ≠ [] := List.map_eq_nil_iff.not.2 hadmitted
    cases op with
    | conj =>
      cases operands with
      | nil => exact absurd rfl hadmitted
      | cons j rest =>
        -- The first operand gives the row that the others cut down.
        have hj := hchild j (List.mem_cons_self ..) start hstart
        have hrest := finds_sharedEnds hstart fun k hk => hchild k (List.mem_cons_of_mem _ hk)
        refine hj.bind fun row hrow => (hrest row).mono fun p hp e => ?_
        rw [hp e, hrow e, htree, Node.tree, spans_conj hne, List.forall_mem_map,
          List.forall_mem_cons]
    | disj =>
      refine (Finds.union fun j hj => hchild j hj start hstart).mono fun p hp e => ?_
      rw [hp e, htree, Node.tree, spans_disj]
      simp only [List.mem_map, exists_exists_and_eq_and]
      exact Iff.rfl
  | group child inverted multi =>
    have hask := hchild child (by simp [Node.children]) start hstart
    cases inverted with
    | false =>
      refine hask.mono fun p hp e => ?_
      rw [hp e, htree, Node.tree, Tree.language]
    | true =>
      -- What is within reach and no end of the child is left.
      refine hask.bind fun p hp => .pure fun e => ?_
      rw [Positions.mem_diff, hp e, htree, Node.tree, spans_inverted]
  | _ => exact finds_leaf hwell hn rfl hstart

/-- A node of a well-formed arena has the right answers, when there is as much fuel as its tree is
high. -/
theorem finds_endsWithin_height (hwell : WellFormed nodes) {fuel i : Nat}
    (hfuel : (treeAt nodes i).height ≤ fuel) (hi : i < nodes.size) :
    Askable nodes t (endsWithin nodes t fuel) i := by
  -- Children have lower trees than their parent, so less fuel is enough for them.
  induction fuel generalizing i with
  | zero => exact absurd hfuel (Nat.not_le_of_lt (treeAt nodes i).height_pos)
  | succ fuel ih =>
    have hchild : ∀ j, Links nodes i j → Askable nodes t (endsWithin nodes t fuel) j := by
      intro j hij
      have hlower := hwell.height_lt hij
      exact ih (by omega) (Nat.lt_trans (hwell.lt_of_links hij) hi)
    intro start hstart
    rw [endsWithin]
    refine Finds.get.bind fun m hm => ?_
    split
    · rename_i p hp
      exact .pure (hm i start p hi hstart hp)
    · refine (finds_nodeEnds hwell hi hchild hstart).bind fun p hp => ?_
      exact (Finds.modify fun m' hm' => hm'.insert hp).bind fun _ _ => .pure hp

/-- Every node of a well-formed arena has the right answers. -/
theorem finds_endsWithin (hwell : WellFormed nodes) {fuel i : Nat} (hfuel : i < fuel)
    (hi : i < nodes.size) : Askable nodes t (endsWithin nodes t fuel) i :=
  finds_endsWithin_height hwell (Nat.le_trans (hwell.height_le hi) hfuel) hi

end Nodes

end PathSieve.Matching
