import PathSieve.Proofs.Pattern.Cutting
import PathSieve.Proofs.Pattern.Runs

namespace PathSieve.Pattern

open Text (CodePoint)

/-!
# Shapes of syntax trees

The tree of a pattern is not any tree: what its tokens rule out and how its operands are joined shows
at every one of its nodes.

* `Tidy` — tokens as texts have them.
* `Joined` — operands of one combination.
* `Tree.Shaped` — trees as patterns have them, with so many groups one in another at most.
* `Term.shaped`, `Operand.shaped`, `Expr.shaped` — the trees of a derivation.
* `compile_shaped` — the tree of a compiled pattern.
-/

/-! ### Literals side by side -/

/-- Not both tokens are literals. -/
def TokenKind.Apart (k l : TokenKind) : Prop := ¬ ∃ v w, k = .literal v ∧ l = .literal w

/-- Not both trees are literals. -/
def Tree.Apart (t u : Tree) : Prop := ¬ ∃ v w, t = .literal v ∧ u = .literal w

/-- No literal among tokens is empty, and no two stand side by side. -/
structure Tidy (ks : List TokenKind) : Prop where
  filled : TokenKind.literal [] ∉ ks
  apart : ks.IsChain TokenKind.Apart

theorem Tidy.within {ks ls : List TokenKind} (h : Tidy ks) (hls : ls <:+: ks) : Tidy ls :=
  ⟨fun hmem => h.filled (hls.subset hmem), List.IsChain.infix h.apart hls⟩

/-- Tokens that cut a text are tidy. -/
theorem Cuts.tidy {text : List CodePoint} {ts : List Token} (h : Cuts text ts) :
    Tidy (ts.map Token.kind) where
  filled := by
    have hne : ∀ (t : Token) (piece : List CodePoint), t.kind.Spelled piece →
        t.kind ≠ .literal [] ∧ t.kind.Spelled piece := by
      refine fun t piece hspelled => ⟨fun hkind => ?_, hspelled⟩
      rw [hkind] at hspelled
      exact hspelled.1 rfl
    obtain ⟨hall, -⟩ := (List.forall₂_and_left _ _).1 (h.spelled.imp hne)
    intro hmem
    obtain ⟨t, ht, hkind⟩ := List.mem_map.1 hmem
    exact hall t ht hkind
  apart := by
    refine List.isChain_iff_forall_rel_of_append_cons_cons.2 fun k l before after heq => ?_
    rintro ⟨v, w, rfl, rfl⟩
    exact h.unmistaken _ (.literals v w) ⟨before, after, by simp [heq]⟩

theorem Term.apart (t : Term) : t.trees.IsChain Tree.Apart := by
  cases t with
  | leaf l =>
    cases l with
    | anyPath s => exact .cons_cons (fun ⟨_, _, hany, _⟩ => by cases hany) (.singleton _)
    | _ => exact .singleton _
  | group inverted body => exact .singleton _

/-- A literal among the trees of a term is all of the term. -/
theorem Term.tokens_of_literal {t : Term} {v : List CodePoint} (h : .literal v ∈ t.trees) :
    t.tokens = [.literal v] := by
  cases t with
  | leaf l => cases l <;> simp_all [Term.trees, Leaf.trees, Term.tokens, Leaf.token]
  | group inverted body => simp [Term.trees] at h

/-- A literal at the end of the trees of an operand is its last token. -/
theorem Operand.getLast?_tokens {s : Operand} {v : List CodePoint}
    (h : .literal v ∈ s.trees.getLast?) : .literal v ∈ s.tokens.getLast? := by
  cases s with
  | one t =>
    rw [Operand.tokens, Term.tokens_of_literal (List.mem_of_mem_getLast? h)]
    rfl
  | snoc s t =>
    rw [Operand.trees, List.getLast?_append_of_ne_nil _ t.trees_ne_nil] at h
    rw [Operand.tokens, Term.tokens_of_literal (List.mem_of_mem_getLast? h)]
    exact List.getLast?_concat

/-- Literals stand apart in an operand as they do among its tokens. -/
theorem Operand.apart {s : Operand} (h : Tidy s.tokens) : s.trees.IsChain Tree.Apart := by
  induction s with
  | one t => exact t.apart
  | snoc s t ih =>
    obtain ⟨-, -, hborder⟩ := List.isChain_append.1 h.apart
    refine List.isChain_append.2 ⟨ih (h.within (List.prefix_append ..).isInfix), t.apart, ?_⟩
    rintro _ hlast _ hhead ⟨v, w, rfl, rfl⟩
    have htokens : t.tokens = [.literal w] :=
      Term.tokens_of_literal (List.mem_of_mem_head? hhead)
    exact hborder _ (Operand.getLast?_tokens hlast) (.literal w) (by rw [htokens]; rfl)
      ⟨v, w, rfl, rfl⟩

/-! ### Operands that are joined -/

/-- A sequence that is not empty. -/
def Tree.IsOperand (t : Tree) : Prop := ∃ items, items ≠ [] ∧ t = .sequence items

/-- A sequence or a combination. -/
def Tree.IsExpression (t : Tree) : Prop :=
  (∃ items, t = .sequence items) ∨ ∃ op operands, t = .combine op operands

/-- The operands of a combination: two or more of them, each a sequence that is not empty, but the
first one may be a combination by the other connective. -/
def Joined (op : Connective) (ts : List Tree) : Prop :=
  ∃ first second rest, ts = first :: second :: rest ∧
    (first.IsOperand ∨ ∃ other operands, other ≠ op ∧ first = .combine other operands) ∧
    ∀ t ∈ second :: rest, t.IsOperand

theorem Joined.snoc {op : Connective} {ts : List Tree} {t : Tree} (h : Joined op ts)
    (ht : t.IsOperand) : Joined op (ts ++ [t]) := by
  obtain ⟨first, second, rest, rfl, hfirst, hrest⟩ := h
  exact ⟨first, second, rest ++ [t], rfl, hfirst,
    List.forall_mem_append.2 ⟨hrest, List.forall_mem_singleton.2 ht⟩⟩

theorem Operand.isOperand (s : Operand) : (Tree.sequence s.trees).IsOperand :=
  ⟨s.trees, s.trees_ne_nil, rfl⟩

/-- However many operands are joined, they are the operands of one combination. -/
theorem Expr.exists_joined (a : Expr) (op : Connective) (s : Operand) :
    ∃ ts, (Expr.snoc a op s).tree = .combine op ts ∧ Joined op ts := by
  induction a generalizing op s with
  | one r =>
    exact ⟨_, rfl, _, _, _, rfl, .inl r.isOperand, List.forall_mem_singleton.2 s.isOperand⟩
  | snoc a op' r ih =>
    obtain ⟨ts, htree, hjoined⟩ := ih op' r
    by_cases hop : op' = op
    · subst hop
      exact ⟨_, Expr.tree_snoc_of_eq htree s, hjoined.snoc s.isOperand⟩
    · -- The run ends here, and all of it is the first operand of the next one.
      have hne : (Expr.snoc a op' r).last? ≠ some op := fun hlast => hop (Option.some.inj hlast)
      exact ⟨_, Expr.tree_snoc_of_ne hne s, _, _, _, rfl, .inr ⟨op', ts, hop, htree⟩,
        List.forall_mem_singleton.2 s.isOperand⟩

theorem Expr.isExpression (a : Expr) : a.tree.IsExpression := by
  cases a with
  | one s => exact .inl ⟨_, rfl⟩
  | snoc a op s =>
    obtain ⟨ts, htree, -⟩ := Expr.exists_joined a op s
    exact .inr ⟨op, ts, htree⟩

/-! ### Separators in groups -/

theorem TokenKind.isSplit_iff {k : TokenKind} :
    k.isSplit = true ↔ ∃ s, .split s ∈ k.leaves := by
  cases k with
  | literal text => simp [isSplit, leaves]
  | symbol s => cases s <;> simp [isSplit, leaves]

/-- A group is marked if one of its leaves is a separator. -/
theorem Expr.holdsSplit_iff {a : Expr} :
    a.holdsSplit = true ↔ ∃ s, .split s ∈ a.tree.leaves := by
  rw [← a.any_isSplit_tokens, a.leaves_tree, List.any_eq_true]
  simp only [TokenKind.isSplit_iff, List.mem_flatMap]
  exact ⟨fun ⟨k, hk, s, hs⟩ => ⟨s, k, hk, hs⟩, fun ⟨s, k, hk, hs⟩ => ⟨k, hk, s, hs⟩⟩

/-! ### Trees -/

/-- Trees as patterns have them, with `d` groups one in another at most. -/
inductive Tree.Shaped : Nat → Tree → Prop where
  | literal {d : Nat} {text : List CodePoint} : text ≠ [] → Shaped d (.literal text)
  | anyChar {d : Nat} : Shaped d .anyChar
  | anyChars {d : Nat} : Shaped d .anyChars
  | anyPath {d : Nat} : Shaped d .anyPath
  | split {d : Nat} {s : Separator} : Shaped d (.split s)
  | sequence {d : Nat} {items : List Tree} : items.IsChain Tree.Apart →
      (∀ t ∈ items, Shaped d t) → Shaped d (.sequence items)
  | combine {d : Nat} {op : Connective} {operands : List Tree} : Joined op operands →
      (∀ t ∈ operands, Shaped d t) → Shaped d (.combine op operands)
  | group {d : Nat} {child : Tree} {inverted multi : Bool} : child.IsExpression →
      (multi = true ↔ ∃ s, .split s ∈ child.leaves) → Shaped d child →
      Shaped (d + 1) (.group child inverted multi)

mutual

theorem Term.shaped {d : Nat} : (t : Term) → Tidy t.tokens → t.depth ≤ d →
    ∀ u ∈ t.trees, u.Shaped d
  | .leaf l, htidy, _ => by
    cases l with
    | literal text =>
      refine List.forall_mem_singleton.2 (.literal ?_)
      rintro rfl
      exact htidy.filled (List.mem_singleton_self _)
    | anyChar => exact List.forall_mem_singleton.2 .anyChar
    | anyChars => exact List.forall_mem_singleton.2 .anyChars
    | split s => exact List.forall_mem_singleton.2 .split
    | anyPath s => exact List.forall_mem_cons.2 ⟨.anyPath, List.forall_mem_singleton.2 .split⟩
  | .group inverted body, htidy, hdepth => by
    -- The body has one group less to go.
    obtain _ | d := d
    · exact absurd hdepth (Nat.not_succ_le_zero _)
    · have hbody : Tidy body.tokens := htidy.within ⟨[opening inverted], [closing], rfl⟩
      exact List.forall_mem_singleton.2 <| .group body.isExpression Expr.holdsSplit_iff <|
        body.shaped hbody (Nat.le_of_succ_le_succ hdepth)

theorem Operand.shaped {d : Nat} : (s : Operand) → Tidy s.tokens → s.depth ≤ d →
    ∀ u ∈ s.trees, u.Shaped d
  | .one t, htidy, hdepth => t.shaped htidy hdepth
  | .snoc s t, htidy, hdepth => by
    obtain ⟨hs, ht⟩ := Nat.max_le.1 hdepth
    exact List.forall_mem_append.2
      ⟨s.shaped (htidy.within (List.prefix_append ..).isInfix) hs,
        t.shaped (htidy.within (List.suffix_append ..).isInfix) ht⟩

/-- The tree of an expression is shaped if its tokens are tidy, for as many groups as are open at
once. -/
theorem Expr.shaped {d : Nat} : (a : Expr) → Tidy a.tokens → a.depth ≤ d → a.tree.Shaped d
  | .one s, htidy, hdepth => .sequence (Operand.apart htidy) (s.shaped htidy hdepth)
  | .snoc a op s, htidy, hdepth => by
    obtain ⟨ha, hs⟩ := Nat.max_le.1 hdepth
    have hstidy : Tidy s.tokens := htidy.within ⟨a.tokens ++ [op.token], [], by simp [Expr.tokens]⟩
    have hleft : a.tree.Shaped d := a.shaped (htidy.within (List.prefix_append ..).isInfix) ha
    have hright : (Tree.sequence s.trees).Shaped d :=
      .sequence (Operand.apart hstidy) (s.shaped hstidy hs)
    obtain ⟨ts, htree, hjoined⟩ := Expr.exists_joined a op s
    rw [htree]
    refine .combine hjoined ?_
    by_cases hlast : a.last? = some op
    · obtain ⟨operands, hrun⟩ := Expr.exists_tree_eq_combine hlast
      obtain ⟨-, rfl⟩ := Tree.combine.inj (htree.symm.trans (Expr.tree_snoc_of_eq hrun s))
      rw [hrun] at hleft
      cases hleft with
      | combine _ hoperands =>
        exact List.forall_mem_append.2 ⟨hoperands, List.forall_mem_singleton.2 hright⟩
    · obtain ⟨-, rfl⟩ := Tree.combine.inj (htree.symm.trans (Expr.tree_snoc_of_ne hlast s))
      exact List.forall_mem_cons.2 ⟨hleft, List.forall_mem_singleton.2 hright⟩

end

/-! ### Patterns -/

theorem shaped_patternTree {d : Nat} {p : Option Expr} (htidy : Tidy (patternTokens p))
    (hdepth : peak 0 (patternTokens p) ≤ d) : (patternTree p).Shaped d := by
  match p with
  | none => exact .sequence .nil (by simp)
  | some (.one s) =>
    rw [patternTokens, Expr.peak_tokens, Nat.zero_add] at hdepth
    exact (Expr.one s).shaped htidy hdepth
  | some (.snoc a op s) =>
    rw [patternTokens, Expr.peak_tokens, Nat.zero_add] at hdepth
    exact .sequence (.singleton _)
      (List.forall_mem_singleton.2 ((Expr.snoc a op s).shaped htidy hdepth))

/-- The tree of a compiled pattern is shaped, for as many groups as may be open at once. -/
theorem compile_shaped {text : List CodePoint} {a : Arena} (h : compile text = .ok a) :
    a.tree.Shaped maxDepth := by
  obtain ⟨-, -, ts, p, hts, hp, hpeak, htree⟩ := compile_eq_ok h
  have htidy : Tidy (ts.map Token.kind) := (tokenize_eq_ok_iff.1 hts).tidy
  rw [← hp] at htidy hpeak
  rw [htree]
  exact shaped_patternTree htidy hpeak

end PathSieve.Pattern
