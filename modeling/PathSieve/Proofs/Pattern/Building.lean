import Mathlib.Data.List.Forall2
import PathSieve.Proofs.Pattern.Joining

namespace PathSieve.Pattern

/-!
# Building arenas

Compilation follows drafts: the levels of a build hold the indices of nodes whose trees are those of
the parts of a draft, and a token is refused by the one exactly if it is refused by the other.

* `Level.Stands` — a level of a build stands for a part of a draft.
* `Build.close_complete` — a level that is closed has the tree of its expression.
* `Tracks` — a computation succeeds where another one does.
* `Represents` — a build stands for a draft.
* `Represents.step`, `Represents.run`, `Represents.finish` — one token, all tokens, the end.
-/

/-! ### Levels -/

namespace Part

/-- The trees of the current operand. -/
def currentTrees : Option Operand → List Tree
  | none => []
  | some s => s.trees

/-- Whether a separator has been read. -/
def holdsSplit (p : Part) : Bool :=
  p.done.any (·.1.holdsSplit) || p.current.any Operand.holdsSplit

/-- The complete operands of a level stand for those of a part. -/
def Done (nodes : Array Node) (operands : List (Nat × Connective)) :
    Option (Expr × Connective) → Prop
  | none => operands = []
  | some (a, op) => Follow nodes operands a op

theorem currentTrees_grow (s : Option Operand) (t : Term) :
    currentTrees (some (grow s t)) = currentTrees s ++ t.trees := by
  cases s <;> rfl

theorem holdsSplit_addTerm (p : Part) (t : Term) :
    (p.addTerm t).holdsSplit = (p.holdsSplit || t.holdsSplit) := by
  cases h : p.current <;>
    simp [holdsSplit, addTerm, grow, h, Operand.holdsSplit, Bool.or_assoc]

theorem holdsSplit_joined {p : Part} {s : Operand} (h : p.current = some s) :
    (p.joined s).holdsSplit = p.holdsSplit := by
  unfold holdsSplit joined
  rw [h]
  cases p.done with
  | none => simp [Expr.holdsSplit]
  | some q => simp [Expr.holdsSplit]

end Part

/-- A level of a build stands for a part of a draft. -/
structure Level.Stands (nodes : Array Node) (l : Level) (p : Part) : Prop where
  inverted : l.inverted = p.inverted
  multi : l.multiSegment = p.holdsSplit
  items : Stand nodes l.items.toList (Part.currentTrees p.current)
  operands : Part.Done nodes l.operands.toList p.done

namespace Level.Stands

variable {nodes nodes' : Array Node} {l : Level} {p : Part}

theorem mono (h : l.Stands nodes p) (he : Extends nodes nodes') : l.Stands nodes' p := by
  refine ⟨h.inverted, h.multi, h.items.mono he, ?_⟩
  have hdone := h.operands
  cases hp : p.done with
  | none =>
    rw [hp] at hdone
    exact hdone
  | some q =>
    rw [hp] at hdone
    exact Follow.mono hdone he

/-- A level is without terms exactly if its part is. -/
theorem isEmpty_items (h : l.Stands nodes p) : l.items.isEmpty = p.current.isNone := by
  have hitems := h.items.2
  rw [← Array.isEmpty_toList, ← List.isEmpty_map (f := treeAt nodes), hitems]
  cases p.current with
  | none => rfl
  | some s =>
    -- An operand has a tree at least, so the items show that it is there.
    have hne := s.trees_ne_nil
    cases hs : s.trees with
    | nil => exact absurd hs hne
    | cons => simp [Part.currentTrees, hs]

/-- A level is without complete operands exactly if its part is. -/
theorem operands_eq_empty_iff (h : l.Stands nodes p) : l.operands = #[] ↔ p.done = none := by
  have hdone := h.operands
  rw [← Array.toList_eq_nil_iff]
  cases hp : p.done with
  | none =>
    rw [hp] at hdone
    exact iff_of_true hdone rfl
  | some q =>
    rw [hp] at hdone
    have hlen := congrArg List.length hdone.2
    rw [List.length_map, List.length_map] at hlen
    have hpos : (q.1.followed q.2).length ≠ 0 := by
      cases q.1 <;> simp [Expr.followed]
    refine iff_of_false (fun hnil => ?_) (by simp)
    rw [hnil] at hlen
    exact hpos hlen.symm

/-- A level with another term, for which nodes have been added. -/
theorem addTerm {l' : Level} {t : Term} {is : List Nat} (h : l.Stands nodes p)
    (he : Extends nodes nodes') (hinv : l'.inverted = l.inverted)
    (hmulti : l'.multiSegment = (l.multiSegment || t.holdsSplit))
    (hoperands : l'.operands = l.operands) (hitems : l'.items.toList = l.items.toList ++ is)
    (hstand : Stand nodes' is t.trees) : l'.Stands nodes' (p.addTerm t) := by
  have hmono := h.mono he
  refine ⟨hinv.trans h.inverted, ?_, ?_, ?_⟩
  · rw [hmulti, h.multi, Part.holdsSplit_addTerm]
  · show Stand nodes' l'.items.toList (Part.currentTrees (some (Part.grow p.current t)))
    rw [hitems, Part.currentTrees_grow]
    exact hmono.items.append hstand
  · rw [hoperands]
    exact hmono.operands

end Level.Stands

namespace Build

/-! ### Closing a level -/

/-- A level whose current operand is there closes, and its node has the tree of the expression. -/
theorem close_complete {nodes : Array Node} {l : Level} {p : Part} {s : Operand}
    (hwf : WellFormed nodes) (h : l.Stands nodes p) (hs : p.current = some s) (finish : Nat)
    (isGroup : Bool) :
    ∃ nodes' top, close nodes l finish isGroup = .ok (nodes', top) ∧ WellFormed nodes' ∧
      Extends nodes nodes' ∧ top + 1 = nodes'.size ∧ treeAt nodes' top = (p.joined s).tree := by
  have hitems : l.items.isEmpty = false := by rw [h.isEmpty_items, hs]; rfl
  have hstand := h.items
  rw [hs] at hstand
  have hpaired : Paired (l.items.toList.map (treeAt nodes)) := hstand.2 ▸ s.paired
  have hpush := hwf.push (n := .sequence l.items.toList) hstand.1 hpaired
  have hext := extends_push nodes (.sequence l.items.toList)
  have hlast : treeAt (nodes.push (.sequence l.items.toList)) nodes.size =
      .sequence s.trees := by
    rw [treeAt_push_size (n := .sequence l.items.toList) hstand.1, Node.tree, hstand.2]
    rfl
  have hnone : l.operands.back? = none ↔ p.done = none :=
    Array.back?_eq_none_iff.trans h.operands_eq_empty_iff
  unfold close
  cases hdone : p.done with
  | none =>
    -- Without complete operands, the sequence is the expression.
    rw [hnone.2 hdone]
    refine ⟨_, _, by rw [hitems, Bool.and_false]; rfl, hpush, hext, by simp, ?_⟩
    rw [hlast, Part.joined, hdone, Expr.tree]
  | some q =>
    -- Otherwise the sequence is the last operand and is joined to the complete ones.
    obtain ⟨a, op⟩ := q
    have hfollow := h.operands
    rw [hdone] at hfollow
    cases hlastOperand : l.operands.back? with
    | none => exact absurd (hnone.1 hlastOperand) (by simp [hdone])
    | some lastOperand =>
      obtain ⟨first, op₁, second, more, nodes', top, hchain, hjoin, hwf', he, htop, htree⟩ :=
        join_chain hpush (hfollow.mono hext) (by simp) hlast
      refine ⟨nodes', top, ?_, hwf', hext.trans he, htop, ?_⟩
      · simp only [hitems, hchain, hjoin, Bool.false_eq_true, if_false]
      · rw [htree, Part.joined, hdone]

/-- The empty pattern closes. -/
theorem close_blank {nodes : Array Node} {l : Level} {p : Part} (h : l.Stands nodes p)
    (hdone : p.done = none) (hcurrent : p.current = none) (finish : Nat) :
    close nodes l finish false = .ok (nodes.push (.sequence []), nodes.size) := by
  have hempty := h.operands_eq_empty_iff.2 hdone
  have hitems := h.items
  rw [hcurrent] at hitems
  have hnil : l.items.toList = [] := List.map_eq_nil_iff.1 hitems.2
  unfold close
  rw [hempty, hnil]
  rfl

/-- A level without a current operand is refused, unless it is the empty pattern. -/
theorem close_refuses {nodes : Array Node} {l : Level} {p : Part} (h : l.Stands nodes p)
    (hcurrent : p.current = none) (finish : Nat) (isGroup : Bool)
    (hp : p.done = none → isGroup = true) : ∃ e, close nodes l finish isGroup = .error e := by
  have hitems : l.items.isEmpty = true := by rw [h.isEmpty_items, hcurrent]; rfl
  unfold close
  cases hlast : l.operands.back? with
  | none =>
    have hgroup := hp (h.operands_eq_empty_iff.1 (Array.back?_eq_none_iff.1 hlast))
    exact ⟨_, by rw [hitems, hgroup]; rfl⟩
  | some last => exact ⟨_, by simp only [hitems, if_true]; rfl⟩

end Build

/-! ### Computations side by side -/

/-- A computation succeeds exactly where another one does, with a result that fits. -/
def Tracks {α β : Type} (fit : β → α → Prop) (expected : Option α)
    (actual : Except FormatError β) : Prop :=
  match expected with
  | some x => ∃ y, actual = .ok y ∧ fit y x
  | none => ∃ e, actual = .error e

theorem Tracks.bind {α β γ δ : Type} {fit : β → α → Prop} {fit' : δ → γ → Prop}
    {expected : Option α} {actual : Except FormatError β} {f : α → Option γ}
    {g : β → Except FormatError δ} (h : Tracks fit expected actual)
    (hnext : ∀ x y, fit y x → Tracks fit' (f x) (g y)) :
    Tracks fit' (expected.bind f) (actual >>= g) := by
  cases expected with
  | none =>
    obtain ⟨e, rfl⟩ := h
    exact ⟨e, rfl⟩
  | some x =>
    obtain ⟨y, rfl, hfit⟩ := h
    exact hnext x y hfit

/-! ### Builds -/

/-- A build stands for a draft. -/
structure Represents (b : Build) (d : Draft) : Prop where
  wf : WellFormed b.nodes
  level : b.level.Stands b.nodes d.level
  outer : List.Forall₂ (Level.Stands b.nodes) b.outer d.outer

namespace Represents

variable {b : Build} {d d' : Draft}

theorem start : Represents {} .start :=
  ⟨.empty, ⟨rfl, rfl, .nil _, rfl⟩, .nil⟩

theorem outer_mono {nodes' : Array Node} (h : Represents b d) (he : Extends b.nodes nodes') :
    List.Forall₂ (Level.Stands nodes') b.outer d.outer :=
  h.outer.imp fun _ _ hl => hl.mono he

/-- A leaf is a node without children. -/
theorem term {n : Node} {t : Term} (h : Represents b d) (hn : n.children = [])
    (ha : n.Admits (treeAt b.nodes)) (ht : t.trees = [n.tree (treeAt b.nodes)])
    (hsplit : t.holdsSplit = false) :
    Represents (b.term n) { d with level := d.level.addTerm t } := by
  have hlt : ∀ j ∈ n.children, j < b.nodes.size := by simp [hn]
  have he := extends_push b.nodes n
  refine ⟨h.wf.push hlt ha, ?_, h.outer_mono he⟩
  refine h.level.addTerm he rfl ?_ rfl Array.toList_push (ht ▸ Stand.added hlt)
  rw [hsplit, Bool.or_false]
  rfl

/-- A separator marks its level. -/
theorem split (h : Represents b d) (s : Separator) :
    Represents (b.term (.split s)).markMulti (d.addLeaf (.split s)) := by
  have he := extends_push b.nodes (.split s)
  have hlt : ∀ j ∈ (Node.split s).children, j < b.nodes.size := by simp [Node.children]
  refine ⟨h.wf.push hlt trivial, ?_, h.outer_mono he⟩
  exact h.level.addTerm he rfl (Bool.or_true _).symm rfl Array.toList_push (Stand.added hlt)

/-- A path wildcard is two nodes. -/
theorem anyPath (h : Represents b d) (s : Separator) :
    Represents ((b.term .anyPath).term (.split s)).markMulti (d.addLeaf (.anyPath s)) := by
  have he := extends_push b.nodes .anyPath
  have he' := extends_push (b.nodes.push .anyPath) (.split s)
  have hlt : ∀ j ∈ Node.anyPath.children, j < b.nodes.size := by simp [Node.children]
  have hlt' : ∀ j ∈ (Node.split s).children, j < (b.nodes.push .anyPath).size := by
    simp [Node.children]
  have hitems : ((b.level.items.push b.nodes.size).push (b.nodes.push .anyPath).size).toList =
      b.level.items.toList ++ [b.nodes.size, (b.nodes.push .anyPath).size] := by simp
  have hstand := (Stand.added hlt).snoc hlt'
  refine ⟨(h.wf.push hlt trivial).push hlt' trivial, ?_, h.outer_mono (he.trans he')⟩
  exact h.level.addTerm (he.trans he') rfl (Bool.or_true _).symm rfl hitems hstand

/-- A leaf is never refused. -/
theorem addLeaf (h : Represents b d) (l : Leaf) (position : Nat) :
    ∃ b', b.step ⟨l.token, position⟩ = .ok b' ∧ Represents b' (d.addLeaf l) := by
  cases l with
  | literal text => exact ⟨_, rfl, h.term (t := .leaf (.literal text)) rfl trivial rfl rfl⟩
  | anyChar => exact ⟨_, rfl, h.term (t := .leaf .anyChar) rfl trivial rfl rfl⟩
  | anyChars => exact ⟨_, rfl, h.term (t := .leaf .anyChars) rfl trivial rfl rfl⟩
  | split s => exact ⟨_, rfl, h.split s⟩
  | anyPath s => exact ⟨_, rfl, h.anyPath s⟩

/-- A connective needs an operand in front of it. -/
theorem connect (h : Represents b d) (op : Connective) (position : Nat) :
    Tracks Represents (d.connect op) (b.connect op position) := by
  have hitems := h.level.items
  have hempty := h.level.isEmpty_items
  unfold Draft.connect Part.connect Build.connect
  cases hs : d.level.current with
  | none =>
    rw [hs] at hempty
    exact ⟨_, if_pos hempty⟩
  | some s =>
    rw [hs] at hempty hitems
    -- The current operand becomes a node and is complete; the level starts another one.
    have hpaired : Paired (b.level.items.toList.map (treeAt b.nodes)) := hitems.2 ▸ s.paired
    have he := extends_push b.nodes (.sequence b.level.items.toList)
    have hlast : treeAt (b.nodes.push (.sequence b.level.items.toList)) b.nodes.size =
        .sequence s.trees := by
      rw [treeAt_push_size (n := .sequence b.level.items.toList) hitems.1, Node.tree, hitems.2]
      rfl
    have hmono := h.level.mono he
    refine ⟨_, if_neg (by simp [hempty]), h.wf.push (n := .sequence _) hitems.1 hpaired, ?_,
      h.outer_mono he⟩
    refine ⟨hmono.inverted, ?_, .nil _, ?_⟩
    · show b.level.multiSegment = ((d.level.joined s).holdsSplit || false)
      rw [Bool.or_false, Part.holdsSplit_joined hs, h.level.multi]
    · show Follow _ (b.level.operands.push (b.nodes.size, op)).toList (d.level.joined s) op
      rw [Array.toList_push, Part.joined]
      have hdone := hmono.operands
      cases hp : d.level.done with
      | none =>
        rw [hp] at hdone
        rw [show b.level.operands.toList = [] from hdone]
        exact ⟨by simp, by rw [List.nil_append, List.map_singleton, hlast]; rfl⟩
      | some q =>
        rw [hp] at hdone
        exact Follow.snoc hdone (by simp) hlast

/-- A group opens unless too many are open. -/
theorem openGroup (h : Represents b d) (inverted : Bool) (position : Nat) :
    Tracks Represents (d.openGroup inverted) (b.openGroup inverted position) := by
  have hlen := h.outer.length_eq
  unfold Draft.openGroup Build.openGroup
  rw [hlen]
  by_cases hroom : maxDepth ≤ d.outer.length
  · rw [if_pos hroom, if_pos hroom]
    exact ⟨_, rfl⟩
  · rw [if_neg hroom, if_neg hroom]
    exact ⟨_, rfl, h.wf, ⟨rfl, rfl, .nil _, rfl⟩, .cons h.level h.outer⟩

/-- A group closes when it is there and complete; it becomes a term of the level around it. -/
theorem closeGroup (h : Represents b d) (position : Nat) :
    Tracks Represents d.closeGroup (b.closeGroup position) := by
  obtain ⟨nodes, level, outer⟩ := b
  obtain ⟨part, parts⟩ := d
  obtain ⟨hwf, hlevel, houter⟩ := h
  unfold Draft.closeGroup Build.closeGroup
  cases houter with
  | nil => exact ⟨_, rfl⟩
  | @cons parent p outer parts hparent houter =>
    cases hs : part.current with
    | none =>
      obtain ⟨e, he⟩ := Build.close_refuses hlevel hs position true fun _ => rfl
      refine ⟨e, ?_⟩
      simp only at he ⊢
      rw [he]
      rfl
    | some s =>
      obtain ⟨nodes', top, hclose, hwf', he, htop, htree⟩ :=
        Build.close_complete hwf hlevel hs position true
      have hlt : ∀ j ∈ (Node.group top level.inverted level.multiSegment).children,
          j < nodes'.size := by
        intro j hj
        rw [List.mem_singleton.1 hj, ← htop]
        exact Nat.lt_succ_self _
      have he' := extends_push nodes' (.group top level.inverted level.multiSegment)
      have hstand := Stand.added hlt
      have hgroup : (Node.group top level.inverted level.multiSegment).tree (treeAt nodes') =
          .group (part.joined s).tree part.inverted (part.joined s).holdsSplit := by
        rw [Node.tree, htree, hlevel.inverted, hlevel.multi, Part.holdsSplit_joined hs]
      rw [hgroup] at hstand
      refine ⟨_, by simp only at hclose ⊢; rw [hclose]; rfl, hwf'.push hlt trivial, ?_,
        houter.imp fun _ _ hl => hl.mono (he.trans he')⟩
      -- A separator in the group marks the level around it as well.
      refine hparent.addTerm (he.trans he') rfl ?_ rfl Array.toList_push hstand
      show (parent.multiSegment || level.multiSegment) = _
      rw [hlevel.multi, ← Part.holdsSplit_joined hs]
      rfl

/-- A token extends a build exactly if it extends the draft. -/
theorem step (h : Represents b d) (t : Token) :
    Tracks Represents (d.step t.kind) (b.step t) := by
  obtain ⟨kind, position⟩ := t
  have hleaf : ∀ l : Leaf, l.token = kind →
      Tracks Represents (d.step kind) (b.step ⟨kind, position⟩) := by
    rintro l rfl
    rw [Draft.step_leaf]
    exact h.addLeaf l position
  cases kind with
  | literal text => exact hleaf (.literal text) rfl
  | symbol s =>
    cases s with
    | anyChar => exact hleaf .anyChar rfl
    | anyChars => exact hleaf .anyChars rfl
    | anyPath s => exact hleaf (.anyPath s) rfl
    | split s => exact hleaf (.split s) rfl
    | conj => exact h.connect .conj position
    | disj => exact h.connect .disj position
    | openGroup => exact h.openGroup false position
    | openInverse => exact h.openGroup true position
    | closeGroup => exact h.closeGroup position

/-- A list of tokens extends a build exactly if it extends the draft. -/
theorem run (h : Represents b d) (ts : List Token) :
    Tracks Represents (d.run (ts.map Token.kind)) (ts.foldlM Build.step b) := by
  induction ts generalizing b d with
  | nil => exact ⟨b, rfl, h⟩
  | cons t ts ih =>
    rw [List.map_cons, Draft.run_cons, List.foldlM_cons]
    exact (h.step t).bind fun d' b' h' => ih h'

end Represents

/-! ### Whole patterns -/

/-- An arena reads as the tree of a pattern. -/
structure Built (a : Arena) (p : Option Expr) : Prop where
  wf : WellFormed a.nodes
  root : a.root + 1 = a.size
  tree : a.tree = patternTree p

/-- The empty pattern is a sequence without terms. -/
theorem built_blank {nodes : Array Node} (hwf : WellFormed nodes) :
    Built ⟨nodes.push (.sequence []), nodes.size⟩ none := by
  have hlt : ∀ j ∈ (Node.sequence []).children, j < nodes.size := by simp [Node.children]
  exact ⟨hwf.push hlt .nil, (Array.size_push ..).symm, treeAt_push_size (n := .sequence []) hlt⟩

/-- A combination at the top stands in a sequence of its own. -/
theorem built_wrapped {nodes : Array Node} {top : Nat} {a : Expr} {op : Connective} {s : Operand}
    (hwf : WellFormed nodes) (htop : top + 1 = nodes.size)
    (htree : treeAt nodes top = (Expr.snoc a op s).tree) :
    Built ⟨nodes.push (.sequence [top]), nodes.size⟩ (some (.snoc a op s)) := by
  have hlt : ∀ j ∈ (Node.sequence [top]).children, j < nodes.size := by
    intro j hj
    rw [List.mem_singleton.1 hj, ← htop]
    exact Nat.lt_succ_self _
  have hpaired : Paired ([top].map (treeAt nodes)) := by
    rw [List.map_singleton, htree]
    exact .single (Tree.join_ne_anyPath op a.tree (.sequence s.trees))
  refine ⟨hwf.push hlt hpaired, (Array.size_push ..).symm, ?_⟩
  show treeAt (nodes.push (.sequence [top])) nodes.size = _
  rw [treeAt_push_size (n := .sequence [top]) hlt, Node.tree, List.map_singleton, htree]
  rfl

/-- The arena of a build is that of the pattern that the draft ends in. -/
theorem Represents.finish {b : Build} {d : Draft} (h : Represents b d) (length : Nat) :
    Tracks Built d.finish (b.finish length) := by
  obtain ⟨nodes, level, outer⟩ := b
  obtain ⟨part, parts⟩ := d
  obtain ⟨hwf, hlevel, houter⟩ := h
  unfold Draft.finish Build.finish
  cases houter with
  | cons => exact ⟨_, rfl⟩
  | nil =>
    have hempty : level.operands.isEmpty = true ↔ part.done = none :=
      Array.isEmpty_iff.trans hlevel.operands_eq_empty_iff
    cases hs : part.current with
    | none =>
      -- Only the empty pattern may end without a current operand.
      by_cases hdone : part.done = none
      · have hclose := Build.close_blank hlevel hdone hs length
        rw [hdone]
        refine ⟨_, ?_, built_blank hwf⟩
        simp only [hclose, hempty.2 hdone]
        rfl
      · obtain ⟨e, he⟩ := Build.close_refuses hlevel hs length false fun h => absurd h hdone
        simp only [hdone, if_false, he]
        exact ⟨e, rfl⟩
    | some s =>
      obtain ⟨nodes', top, hclose, hwf', he, htop, htree⟩ :=
        Build.close_complete hwf hlevel hs length false
      rw [Part.joined] at htree
      cases hdone : part.done with
      | none =>
        rw [hdone] at htree
        refine ⟨⟨nodes', top⟩, ?_, hwf', htop, ?_⟩
        · simp only [hclose, hempty.2 hdone]
          rfl
        · simp only [Part.joined, hdone]
          exact htree
      | some q =>
        rw [hdone] at htree
        refine ⟨⟨nodes'.push (.sequence [top]), nodes'.size⟩, ?_, ?_⟩
        · have hfull : level.operands.isEmpty = false := by
            rw [Bool.eq_false_iff, Ne, hempty, hdone]
            exact Option.some_ne_none q
          simp only [hclose, hfull]
          rfl
        · simp only [Part.joined, hdone]
          exact built_wrapped hwf' htop htree

end PathSieve.Pattern
