import PathSieve.Proofs.Pattern.Enclosing
import PathSieve.Proofs.Pattern.Height

namespace PathSieve.Pattern

open Text (CodePoint pointsOf)

/-!
# Runs of connectives

Operands are joined from left to right, and a run of one connective shares a node. So a tree grows
not only with the groups that are open, but also with the runs of connectives in each of them.

* `Expr.runs` — the runs of connectives of an expression, outside of its groups.
* `Term.mostRuns`, `Operand.mostRuns`, `Expr.mostRuns` — the most runs of one expression, be it in a
  group.
* `Expr.exists_first` — the runs of an expression stand one below the other.
* `Expr.height_tree_snoc` — how high a tree is with one more operand.
* `patternRuns_lt_height`, `height_patternTree_le` — the tree of a pattern is higher than its runs,
  and not higher than its runs and its open groups allow.
* `alternating` — texts without groups whose connectives alternate;
  `height_patternTree_alternating` — how high their trees are.
-/

/-! ### Runs -/

/-- The last connective of an expression, outside of its groups. -/
def Expr.last? : Expr → Option Connective
  | .one _ => none
  | .snoc _ op _ => some op

/-- The runs of connectives of an expression, outside of its groups. -/
def Expr.runs : Expr → Nat
  | .one _ => 0
  | .snoc a op _ => a.runs + if a.last? = some op then 0 else 1

mutual

/-- The most runs of an expression in the groups of a term. -/
def Term.mostRuns : Term → Nat
  | .leaf _ => 0
  | .group _ body => body.mostRuns

/-- The most runs of an expression in the groups of an operand. -/
def Operand.mostRuns : Operand → Nat
  | .one t => t.mostRuns
  | .snoc s t => max s.mostRuns t.mostRuns

/-- The most runs of an expression or of one in its groups. -/
def Expr.mostRuns : Expr → Nat
  | .one s => s.mostRuns
  | .snoc a op s => max (max a.mostRuns (Expr.snoc a op s).runs) s.mostRuns

end

mutual

/-- The most groups of a term that are open at once. -/
def Term.depth : Term → Nat
  | .leaf _ => 0
  | .group _ body => body.depth + 1

/-- The most groups of an operand that are open at once. -/
def Operand.depth : Operand → Nat
  | .one t => t.depth
  | .snoc s t => max s.depth t.depth

/-- The most groups of an expression that are open at once. -/
def Expr.depth : Expr → Nat
  | .one s => s.depth
  | .snoc a _ s => max a.depth s.depth

end

mutual

theorem Term.peak_tokens (now : Nat) : (t : Term) → peak now t.tokens = now + t.depth
  | .leaf l => by simp [Term.tokens, Term.depth, peak]
  | .group inverted body => by
    have hbody := body.peak_tokens (now + 1)
    rw [Term.tokens, peak, openAfter_opening, peak_append, hbody, body.foldl_openAfter, peak, peak,
      openAfter_closing, Term.depth]
    omega

theorem Operand.peak_tokens (now : Nat) : (s : Operand) → peak now s.tokens = now + s.depth
  | .one t => t.peak_tokens now
  | .snoc s t => by
    rw [Operand.tokens, peak_append, s.peak_tokens, s.foldl_openAfter, t.peak_tokens, Operand.depth]
    omega

/-- The open groups of tokens are those of their derivation. -/
theorem Expr.peak_tokens (now : Nat) : (a : Expr) → peak now a.tokens = now + a.depth
  | .one s => s.peak_tokens now
  | .snoc a op s => by
    rw [Expr.tokens, peak_append, a.peak_tokens, a.foldl_openAfter, peak, openAfter_connective,
      s.peak_tokens, Expr.depth]
    omega

end

/-! ### Trees -/

theorem Expr.exists_tree_eq_combine {a : Expr} {op : Connective} (h : a.last? = some op) :
    ∃ operands, a.tree = .combine op operands := by
  cases a with
  | one s => cases h
  | snoc a op' s =>
    obtain rfl := Option.some.inj h
    rw [Expr.tree]
    unfold Tree.join
    split
    · split
      · exact ⟨_, rfl⟩
      · exact ⟨_, rfl⟩
    · exact ⟨_, rfl⟩

/-- A further operand of a run stands beside the others. -/
theorem Expr.tree_snoc_of_eq {a : Expr} {op : Connective} {operands : List Tree}
    (h : a.tree = .combine op operands) (s : Operand) :
    (Expr.snoc a op s).tree = .combine op (operands ++ [.sequence s.trees]) := by
  rw [Expr.tree, h, Tree.join, if_pos rfl]

/-- A connective that begins a run puts all that is on its left one lower. -/
theorem Expr.tree_snoc_of_ne {a : Expr} {op : Connective} (h : a.last? ≠ some op) (s : Operand) :
    (Expr.snoc a op s).tree = .combine op [a.tree, .sequence s.trees] := by
  cases a with
  | one s' => rfl
  | snoc a op' s' =>
    obtain ⟨operands, htree⟩ := Expr.exists_tree_eq_combine (a := .snoc a op' s') rfl
    have hne : op' ≠ op := fun heq => h (congrArg some heq)
    rw [Expr.tree, htree, Tree.join, if_neg hne]

theorem Expr.runs_pos {a : Expr} {op : Connective} (h : a.last? = some op) : 0 < a.runs := by
  induction a with
  | one s => cases h
  | snoc a op' s ih =>
    obtain rfl := Option.some.inj h
    rw [Expr.runs]
    split
    · exact ih ‹_›
    · exact Nat.succ_pos _

/-- The first operand of an expression with runs is an expression with one run less. -/
theorem Expr.exists_first {a : Expr} (h : 0 < a.runs) :
    ∃ op b rest, a.tree = .combine op (Expr.tree b :: rest) ∧ a.runs = b.runs + 1 := by
  induction a with
  | one s => exact absurd h (Nat.lt_irrefl 0)
  | snoc a op s ih =>
    by_cases hlast : a.last? = some op
    · obtain ⟨op', b, rest, htree, hruns⟩ := ih (Expr.runs_pos hlast)
      -- The run goes on, so its connective is that of the whole.
      obtain ⟨operands, hop⟩ := Expr.exists_tree_eq_combine hlast
      obtain ⟨rfl, -⟩ := Tree.combine.inj (htree.symm.trans hop)
      refine ⟨_, b, _, Expr.tree_snoc_of_eq htree s, ?_⟩
      rw [Expr.runs, if_pos hlast, hruns, Nat.add_zero]
    · refine ⟨op, a, _, Expr.tree_snoc_of_ne hlast s, ?_⟩
      rw [Expr.runs, if_neg hlast]

/-! ### Heights -/

/-- Only a connective that begins a run makes a tree higher than its operands do. -/
theorem Expr.height_tree_snoc (a : Expr) (op : Connective) (s : Operand) :
    (Expr.snoc a op s).tree.height =
      max (a.tree.height + if a.last? = some op then 0 else 1) (Tree.heights s.trees + 2) := by
  by_cases hlast : a.last? = some op
  · obtain ⟨operands, htree⟩ := Expr.exists_tree_eq_combine hlast
    rw [if_pos hlast, Expr.tree_snoc_of_eq htree, htree, Tree.height, Tree.height,
      Tree.heights_append, Tree.heights_singleton, Tree.height]
    omega
  · rw [if_neg hlast, Expr.tree_snoc_of_ne hlast, Tree.height, Tree.heights,
      Tree.heights_singleton, Tree.height]
    omega

theorem Operand.heights_trees_pos (s : Operand) : 0 < Tree.heights s.trees := by
  obtain ⟨t, ht⟩ := List.exists_mem_of_ne_nil _ s.trees_ne_nil
  exact Nat.lt_of_lt_of_le t.height_pos (Tree.height_le_heights ht)

/-- Every run makes a tree higher. -/
theorem Expr.runs_add_two_le (a : Expr) : a.runs + 2 ≤ a.tree.height := by
  induction a with
  | one s =>
    have hpos := s.heights_trees_pos
    rw [Expr.runs, Expr.tree, Tree.height]
    omega
  | snoc a op s ih =>
    rw [Expr.height_tree_snoc, Expr.runs]
    omega

theorem Expr.runs_le_mostRuns (a : Expr) : a.runs ≤ a.mostRuns := by
  cases a with
  | one s => exact Nat.zero_le _
  | snoc a op s =>
    rw [Expr.mostRuns]
    omega

section Bounds

variable {r : Nat}

mutual

theorem Term.heights_trees_le {d : Nat} : (t : Term) → t.mostRuns ≤ r → t.depth ≤ d →
    Tree.heights t.trees ≤ (r + 2) * d + 1
  | .leaf l, _, _ => by
    have hone : Tree.heights l.trees = 1 := by cases l <;> rfl
    rw [Term.trees, hone]
    omega
  | .group inverted body, hruns, hdepth => by
    -- The body has one group less to go.
    obtain _ | d := d
    · exact absurd hdepth (Nat.not_succ_le_zero _)
    · have hbody := body.height_tree_le hruns (Nat.le_of_succ_le_succ hdepth)
      have hle : body.runs ≤ r := Nat.le_trans body.runs_le_mostRuns hruns
      have hgroup : (r + 2) * (d + 1) = (r + 2) * d + (r + 2) := Nat.mul_succ ..
      rw [Term.trees, Tree.heights_singleton, Tree.height, hgroup]
      omega

theorem Operand.heights_trees_le {d : Nat} : (s : Operand) → s.mostRuns ≤ r → s.depth ≤ d →
    Tree.heights s.trees ≤ (r + 2) * d + 1
  | .one t, hruns, hdepth => t.heights_trees_le hruns hdepth
  | .snoc s t, hruns, hdepth => by
    obtain ⟨hsruns, htruns⟩ := Nat.max_le.1 hruns
    obtain ⟨hsdepth, htdepth⟩ := Nat.max_le.1 hdepth
    rw [Operand.trees, Tree.heights_append]
    exact Nat.max_le.2 ⟨s.heights_trees_le hsruns hsdepth, t.heights_trees_le htruns htdepth⟩

/-- A tree is not higher than its own runs and those in its groups allow. -/
theorem Expr.height_tree_le {d : Nat} : (a : Expr) → a.mostRuns ≤ r → a.depth ≤ d →
    a.tree.height ≤ a.runs + (r + 2) * d + 2
  | .one s, hruns, hdepth => by
    have hs := s.heights_trees_le hruns hdepth
    rw [Expr.tree, Tree.height, Expr.runs]
    omega
  | .snoc a op s, hruns, hdepth => by
    obtain ⟨hinner, hsruns⟩ := Nat.max_le.1 hruns
    obtain ⟨hadepth, hsdepth⟩ := Nat.max_le.1 hdepth
    have ha := a.height_tree_le (Nat.max_le.1 hinner).1 hadepth
    have hs := s.heights_trees_le hsruns hsdepth
    rw [Expr.height_tree_snoc, Expr.runs]
    by_cases hlast : a.last? = some op
    · -- The run has begun, so there is room for a further operand in it.
      have hpos := Expr.runs_pos hlast
      rw [if_pos hlast]
      omega
    · rw [if_neg hlast]
      omega

end

end Bounds

/-! ### Patterns -/

/-- The runs of connectives of a pattern, outside of its groups. -/
def patternRuns : Option Expr → Nat
  | none => 0
  | some a => a.runs

/-- The most runs of a pattern or of an expression in its groups. -/
def patternMostRuns : Option Expr → Nat
  | none => 0
  | some a => a.mostRuns

/-- A combination stands in a sequence of its own. -/
theorem height_patternTree_snoc (a : Expr) (op : Connective) (s : Operand) :
    (patternTree (some (.snoc a op s))).height = (Expr.snoc a op s).tree.height + 1 := by
  show (Tree.sequence [(Expr.snoc a op s).tree]).height = _
  rw [Tree.height, Tree.heights_singleton]

theorem patternRuns_lt_height (p : Option Expr) : patternRuns p < (patternTree p).height := by
  match p with
  | none => exact Nat.zero_lt_one
  | some (.one s) => exact Nat.lt_of_lt_of_le (by simp [patternRuns]) (Expr.one s).runs_add_two_le
  | some (.snoc a op s) =>
    have hle := (Expr.snoc a op s).runs_add_two_le
    rw [height_patternTree_snoc, patternRuns]
    omega

/-- The tree of a pattern is not higher than its open groups allow, with the most runs that there
are in each of them. -/
theorem height_patternTree_le (p : Option Expr) :
    (patternTree p).height ≤ (patternMostRuns p + 2) * (peak 0 (patternTokens p) + 1) + 1 := by
  have hexpr : ∀ a : Expr, a.tree.height ≤ (a.mostRuns + 2) * (peak 0 a.tokens + 1) := by
    intro a
    have hle := a.height_tree_le (Nat.le_refl _) (Nat.le_refl _)
    have hruns := a.runs_le_mostRuns
    rw [a.peak_tokens, Nat.zero_add, Nat.mul_succ]
    omega
  match p with
  | none => decide
  | some (.one s) => exact Nat.le_succ_of_le (hexpr (.one s))
  | some (.snoc a op s) =>
    rw [height_patternTree_snoc]
    exact Nat.succ_le_succ (hexpr (.snoc a op s))

/-! ### Alternating connectives -/

/-- Two texts with a connective between them, the right one of which is a single operand. -/
theorem Writes.connected {x y : List CodePoint} {e : Expr} {s : Operand} (hx : Writes x e)
    (hy : Writes y (.one s)) (op : Connective) : Writes (connected x op y) (.snoc e op s) := by
  obtain ⟨ls, hls, he⟩ := hx
  obtain ⟨ms, hms, hs⟩ := hy
  obtain ⟨ks, hks, hkinds⟩ := hls.connected hms op
  refine ⟨ks, hks, ?_⟩
  rw [hkinds, ← he, ← hs]
  rfl

/-- Connectives that alternate, the first one being a conjunction. -/
def alternatingOp (n : Nat) : Connective := if n % 2 = 0 then .conj else .disj

/-- The text `a&a|a&a`, and so on, with `n` connectives. -/
def alternating : Nat → List CodePoint
  | 0 => pointsOf ['a']
  | n + 1 => connected (alternating n) (alternatingOp n) (pointsOf ['a'])

/-- What an alternating text writes down. -/
def alternatingExpr : Nat → Expr
  | 0 => .one (.one (.leaf (.literal (pointsOf ['a']))))
  | n + 1 => .snoc (alternatingExpr n) (alternatingOp n) (.one (.leaf (.literal (pointsOf ['a']))))

theorem length_alternating (n : Nat) : (alternating n).length = 2 * n + 1 := by
  induction n with
  | zero => rfl
  | succ n ih =>
    rw [alternating, connected, List.length_append, ih]
    rfl

theorem alternating_writes (n : Nat) : Writes (alternating n) (alternatingExpr n) := by
  have hletter : Writes (pointsOf ['a']) (alternatingExpr 0) :=
    ⟨[.plain (.char 'a')], Spells.cons (.plain (by decide)) rfl .nil, rfl⟩
  induction n with
  | zero => exact hletter
  | succ n ih => exact ih.connected hletter (alternatingOp n)

/-- Every connective of an alternating text begins a run. -/
theorem last?_alternatingExpr_ne (n : Nat) :
    (alternatingExpr n).last? ≠ some (alternatingOp n) := by
  cases n with
  | zero =>
    intro h
    cases h
  | succ n =>
    intro h
    have hop : alternatingOp n = alternatingOp (n + 1) := Option.some.inj h
    unfold alternatingOp at hop
    split at hop <;> split at hop <;> first | omega | cases hop

theorem runs_alternatingExpr (n : Nat) : (alternatingExpr n).runs = n := by
  induction n with
  | zero => rfl
  | succ n ih => rw [alternatingExpr, Expr.runs, ih, if_neg (last?_alternatingExpr_ne n)]

theorem depth_alternatingExpr (n : Nat) : (alternatingExpr n).depth = 0 := by
  induction n with
  | zero => rfl
  | succ n ih =>
    rw [alternatingExpr, Expr.depth, ih]
    rfl

theorem height_alternatingExpr (n : Nat) : (alternatingExpr n).tree.height = n + 2 := by
  induction n with
  | zero => rfl
  | succ n ih =>
    rw [alternatingExpr, Expr.height_tree_snoc, ih, if_neg (last?_alternatingExpr_ne n)]
    show max (n + 2 + 1) (1 + 2) = n + 1 + 2
    omega

/-- Without any group, the tree of an alternating text is higher than it has connectives. -/
theorem height_patternTree_alternating {n : Nat} (hpos : 0 < n) :
    (patternTree (some (alternatingExpr n))).height = n + 3 := by
  obtain ⟨n, rfl⟩ := Nat.exists_eq_succ_of_ne_zero hpos.ne'
  exact (height_patternTree_snoc ..).trans (congrArg (· + 1) (height_alternatingExpr (n + 1)))

/-- An alternating text compiles unless it is too long. -/
theorem exists_compile_alternating {n : Nat} (hlen : 2 * n + 1 ≤ maxLength) :
    ∃ a, compile (alternating n) = .ok a ∧ a.tree = patternTree (some (alternatingExpr n)) := by
  obtain ⟨ls, hls, he⟩ := alternating_writes n
  obtain ⟨ts, hts, hkinds⟩ := hls.tokenize
  have hp : Derives ts (some (alternatingExpr n)) := he.trans hkinds.symm
  have hpeak : peak 0 (ts.map Token.kind) ≤ maxDepth := by
    rw [hkinds, ← he, Expr.peak_tokens, depth_alternatingExpr]
    exact Nat.zero_le _
  rw [← length_alternating] at hlen
  obtain ⟨a, ha⟩ := exists_compile hlen hts hp hpeak
  exact ⟨a, ha, compile_tree ha hts hp⟩

end PathSieve.Pattern
