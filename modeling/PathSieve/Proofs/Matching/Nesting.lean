import PathSieve.Proofs.Matching.Ends
import PathSieve.Proofs.Pattern.Rooted
import PathSieve.Proofs.Pattern.Runs

namespace PathSieve.Matching

open Pattern

/-!
# Nested questions

A node is asked for its end positions while its parent is being worked out, so questions nest as
deep as nodes hang one below the other. The fuel of a search bounds how deep that may be.

* `Stumbles` — a search without answers runs out of fuel.
* `stumbles_of_le_runs` — the first operands of an expression are asked one inside the other, down
  through all of its runs.
* `compile_nesting` — how deep the questions about a compiled pattern nest.
* `alternating_nesting` — texts without groups about which they nest as deep as there are
  connectives.
-/

/-! ### Too little fuel -/

/-- No answers are remembered. -/
def Memo.Blank (m : Memo) : Prop := ∀ i s, m.find? i s = none

/-- A search without answers stumbles over an index, and leaves no answers. -/
def Stumbles {α : Type} (s : Search α) : Prop := Leads Memo.Blank s (· = .error .outOfRange)

section Stumbling

variable {α β : Type} {nodes : Array Node} {t : Subject} {ends : Nat → Nat → Search Positions}
  {i j start fuel : Nat}

theorem Stumbles.bind {s : Search α} (h : Stumbles s) (f : α → Search β) :
    Stumbles (s >>= f) := by
  refine leads_bind h (fun x hx => ?_) fun e he => ?_
  · cases hx
  · cases he
    rfl

theorem Stumbles.mapM {f : α → Search β} {x : α} (h : Stumbles (f x)) (xs : List α) :
    Stumbles ((x :: xs).mapM f) := by
  rw [List.mapM_cons]
  exact h.bind _

theorem stumbles_zero : Stumbles (endsWithin nodes t 0 i start) := fun _ hm => ⟨rfl, hm⟩

/-- Without answers, a node has to be worked out. -/
theorem stumbles_succ (h : Stumbles (nodeEnds nodes t (endsWithin nodes t fuel) i start)) :
    Stumbles (endsWithin nodes t (fuel + 1) i start) := by
  rw [endsWithin]
  refine leads_bind Finds.get (fun m hm => ?_) fun e he => ?_
  · obtain ⟨m', heq, hblank⟩ := hm
    obtain rfl := Except.ok.inj heq
    rw [hblank i start]
    exact h.bind _
  · obtain ⟨m', heq, -⟩ := he
    cases heq

/-- The first operand of a combination is asked, whatever the connective. -/
theorem stumbles_combine {op : Connective} {rest : List Nat}
    (hn : nodes[i]? = some (.combine op (j :: rest))) (h : Stumbles (ends j start)) :
    Stumbles (nodeEnds nodes t ends i start) := by
  unfold nodeEnds
  rw [hn]
  cases op with
  | conj => exact h.bind _
  | disj => exact (Stumbles.mapM (f := (ends · start)) h rest).bind _

/-- The only item of a sequence is asked, unless it is a leaf. -/
theorem stumbles_sequence {op : Connective} {operands : List Nat}
    (hn : nodes[i]? = some (.sequence [j])) (hj : nodes[j]? = some (.combine op operands))
    (h : Stumbles (ends j start)) : Stumbles (nodeEnds nodes t ends i start) := by
  have hmem : start ∈ (Positions.single start).toList :=
    Positions.mem_toList.2 (Positions.mem_single.2 rfl)
  have hempty : ¬ (Positions.single start).isEmpty := by
    intro hempty
    rw [Positions.isEmpty_iff.1 hempty] at hmem
    exact Positions.not_mem_empty start (Positions.mem_toList.1 hmem)
  unfold nodeEnds
  rw [hn]
  show Stumbles (sequenceEnds nodes t ends (.single start) [j])
  rw [sequenceEnds, if_neg hempty, itemEnds, hj]
  cases hrow : (Positions.single start).toList with
  | nil =>
    rw [hrow] at hmem
    cases hmem
  | cons s row =>
    have hs : s ∈ (Positions.single start).toList := hrow ▸ List.mem_cons_self ..
    obtain rfl := Positions.mem_single.1 (Positions.mem_toList.1 hs)
    exact (Stumbles.mapM h row).bind _

end Stumbling

/-! ### Runs -/

section Runs

variable {nodes : Array Node} {t : Subject} {i start fuel : Nat}

/-- The first operands of an expression are asked one inside the other. -/
theorem stumbles_of_le_runs (hwell : WellFormed nodes) {e : Expr} (hi : i < nodes.size)
    (htree : treeAt nodes i = e.tree) (hfuel : fuel ≤ e.runs) :
    Stumbles (endsWithin nodes t fuel i start) := by
  induction fuel generalizing i e with
  | zero => exact stumbles_zero
  | succ fuel ih =>
    have hpos : 0 < e.runs := Nat.lt_of_lt_of_le fuel.succ_pos hfuel
    obtain ⟨op, b, rest, hfirst, hruns⟩ := Expr.exists_first hpos
    obtain ⟨operands, hn, hmap⟩ := hwell.exists_combine hi (htree.trans hfirst)
    obtain ⟨j, others, rfl, hj, -⟩ := List.map_eq_cons_iff.1 hmap
    have hlt : j < i := hwell.earlier hn j (List.mem_cons_self ..)
    exact stumbles_succ (stumbles_combine hn (ih (hlt.trans hi) hj (by omega)))

/-- A whole pattern is asked through all of its runs. -/
theorem stumbles_of_le_patternRuns (hwell : WellFormed nodes) {p : Option Expr}
    (hi : i < nodes.size) (htree : treeAt nodes i = patternTree p) (hfuel : fuel ≤ patternRuns p) :
    Stumbles (endsWithin nodes t fuel i start) := by
  cases fuel with
  | zero => exact stumbles_zero
  | succ fuel =>
    match p with
    | none => exact absurd hfuel (Nat.not_succ_le_zero _)
    | some (.one s) => exact absurd hfuel (Nat.not_succ_le_zero _)
    | some (.snoc a op s) =>
      -- A combination is the only item of the root.
      obtain ⟨items, hn, hmap⟩ := hwell.exists_sequence hi htree
      obtain ⟨j, others, rfl, hj, hnone⟩ := List.map_eq_cons_iff.1 hmap
      obtain rfl := List.map_eq_nil_iff.1 hnone
      have hlt : j < nodes.size := (hwell.earlier hn j (List.mem_cons_self ..)).trans hi
      obtain ⟨ops, hop⟩ := Expr.exists_tree_eq_combine (a := .snoc a op s) rfl
      obtain ⟨operands, hcombine, -⟩ := hwell.exists_combine hlt (hj.trans hop)
      exact stumbles_succ <| stumbles_sequence hn hcombine <|
        stumbles_of_le_runs hwell hlt hj (Nat.le_of_succ_le hfuel)

end Runs

end PathSieve.Matching

namespace PathSieve.Pattern

open Matching
open Text (CodePoint pointsOf)

/-! ### Compiled patterns -/

/-- A node of a compiled pattern gets its answer with as much fuel as the tree of the root is
high. -/
theorem compile_search_height {text : List CodePoint} {a : Arena} (h : compile text = .ok a)
    (t : Subject) {i s : Nat} (hi : i < a.size) (hs : s ≤ t.length) :
    ∃ q, a.search (endsWithin a.nodes t a.tree.height i s) = .ok q ∧
      a.search (a.ends t i s) = .ok q := by
  obtain ⟨hwell, -⟩ := compile_eq_ok h
  have hright := Memo.right_empty a.nodes t a.size
  have hheight := compile_height_le h hi
  obtain ⟨p, hp, hanswers⟩ := (finds_endsWithin_height hwell hheight hi s hs _ hright).1
  obtain ⟨q, hq, hanswers'⟩ := (finds_endsWithin hwell hi hi s hs _ hright).1
  obtain rfl : p = q := Positions.ext fun e => (hanswers e).trans (hanswers' e).symm
  exact ⟨p, hp, hq⟩

/-- A search from the root of a compiled pattern stumbles if there is not more fuel than there are
runs of connectives outside of the groups. -/
theorem compile_search_runs {text : List CodePoint} {a : Arena} {p : Option Expr}
    (h : compile text = .ok a) (htree : a.tree = patternTree p) (t : Subject) (s : Nat) {fuel : Nat}
    (hfuel : fuel ≤ patternRuns p) :
    a.search (endsWithin a.nodes t fuel a.root s) = .error .outOfRange := by
  obtain ⟨hwell, hroot, -⟩ := compile_eq_ok h
  have hi : a.root < a.nodes.size := show a.root < a.size by omega
  have hstumbles : Stumbles (endsWithin a.nodes t fuel a.root s) :=
    stumbles_of_le_patternRuns hwell hi htree hfuel
  exact (hstumbles (.empty a.size) fun i r => Memo.find?_empty a.size i r).1

/-- **Questions nest with the runs of connectives.** Take a compiled pattern and the derivation of
its tokens. The longest chain of child links starts at the root and has as many nodes as the tree is
high. With that much fuel every node has its answer for every start in the text, but a search from
the root stumbles if it has only as much fuel as there are runs of connectives outside of the
groups: questions nest deeper than these runs. The height is bounded by the groups that are open at
once and by the most runs in any of them, so by the limit on groups alone if no more than five runs
are in any. -/
theorem compile_nesting {text : List CodePoint} {a : Arena} {ts : List Token} {p : Option Expr}
    (h : compile text = .ok a) (hts : tokenize text = .ok ts) (hp : Derives ts p) :
    (∃ is, Chain a.nodes (a.root :: is) ∧ (a.root :: is).length = a.tree.height) ∧
    (∀ is, Chain a.nodes is → is.length ≤ a.tree.height) ∧
    (∀ t i s, i < a.size → s ≤ t.length →
      ∃ q, a.search (endsWithin a.nodes t a.tree.height i s) = .ok q ∧
        a.search (a.ends t i s) = .ok q) ∧
    (∀ t s fuel, fuel ≤ patternRuns p →
      a.search (endsWithin a.nodes t fuel a.root s) = .error .outOfRange) ∧
    patternRuns p < a.tree.height ∧
    a.tree.height ≤ (patternMostRuns p + 2) * (peak 0 (ts.map Token.kind) + 1) + 1 ∧
    (patternMostRuns p ≤ 5 → a.tree.height ≤ 8 * (maxDepth + 1)) := by
  obtain ⟨-, -, ts', p', hts', -, hpeak, -⟩ := compile_eq_ok h
  obtain rfl := Except.ok.inj (hts'.symm.trans hts)
  have htree : a.tree = patternTree p := compile_tree h hts hp
  have hle : a.tree.height ≤ (patternMostRuns p + 2) * (peak 0 (ts'.map Token.kind) + 1) + 1 := by
    rw [htree, ← hp]
    exact height_patternTree_le p
  refine ⟨compile_exists_chain h, fun is hc => compile_chain_length_le h hc,
    fun t i s hi hs => compile_search_height h t hi hs,
    fun t s fuel hfuel => compile_search_runs h htree t s hfuel, ?_, hle, ?_⟩
  · rw [htree]
    exact patternRuns_lt_height p
  · intro hruns
    calc a.tree.height
        ≤ (patternMostRuns p + 2) * (peak 0 (ts'.map Token.kind) + 1) + 1 := hle
      _ ≤ (5 + 2) * (maxDepth + 1) + 1 := Nat.succ_le_succ <|
          Nat.mul_le_mul (Nat.add_le_add_right hruns 2) (Nat.succ_le_succ hpeak)
      _ ≤ 8 * (maxDepth + 1) := by decide

/-- In `a&b|c` there are two runs, five nodes in a chain, and questions three deep. -/
theorem compile_nesting_two_runs : ∃ a, compile (pointsOf ['a', '&', 'b', '|', 'c']) = .ok a ∧
    (∃ is, Chain a.nodes (a.root :: is) ∧ (a.root :: is).length = 5) ∧
    (∀ is, Chain a.nodes is → is.length ≤ 5) ∧
    ∀ t s, a.search (endsWithin a.nodes t 2 a.root s) = .error .outOfRange := by
  let letter (c : Char) : Operand := .one (.leaf (.literal [.char c]))
  let e : Expr := .snoc (.snoc (.one (letter 'a')) .conj (letter 'b')) .disj (letter 'c')
  let ts : List Token := [⟨.literal [.char 'a'], 0⟩, ⟨.symbol .conj, 1⟩, ⟨.literal [.char 'b'], 2⟩,
    ⟨.symbol .disj, 3⟩, ⟨.literal [.char 'c'], 4⟩]
  let a : Arena := ⟨#[.literal [.char 'a'], .sequence [0], .literal [.char 'b'], .sequence [2],
    .literal [.char 'c'], .sequence [4], .combine .conj [1, 3], .combine .disj [6, 5],
    .sequence [7]], 8⟩
  have h : compile (pointsOf ['a', '&', 'b', '|', 'c']) = .ok a := rfl
  have hts : tokenize (pointsOf ['a', '&', 'b', '|', 'c']) = .ok ts := rfl
  have hp : Derives ts (some e) := rfl
  have hheight : a.tree.height = 5 := congrArg Tree.height (compile_tree h hts hp)
  obtain ⟨hchain, hchains, -, hfuel, -⟩ := compile_nesting h hts hp
  rw [hheight] at hchain hchains
  exact ⟨a, h, hchain, hchains, fun t s => hfuel t s 2 (Nat.le_refl 2)⟩

/-- Without any group, alternating connectives make chains as long as there are connectives, and
questions nest as deep. -/
theorem alternating_nesting {n : Nat} (hpos : 0 < n) (hlen : 2 * n + 1 ≤ maxLength) :
    ∃ a, compile (alternating n) = .ok a ∧
      (∃ is, Chain a.nodes (a.root :: is) ∧ (a.root :: is).length = n + 3) ∧
      ∀ t s fuel, fuel ≤ n →
        a.search (endsWithin a.nodes t fuel a.root s) = .error .outOfRange := by
  obtain ⟨a, ha, htree⟩ := exists_compile_alternating hlen
  have hchain := compile_exists_chain ha
  rw [htree, height_patternTree_alternating hpos] at hchain
  refine ⟨a, ha, hchain, fun t s fuel hfuel => compile_search_runs ha htree t s ?_⟩
  rw [patternRuns, runs_alternatingExpr]
  exact hfuel

/-- Connectives that alternate 264 times outgrow what the limit on groups would allow. -/
theorem alternating_outgrows : ∃ a, compile (alternating 264) = .ok a ∧
    (∃ is, Chain a.nodes (a.root :: is) ∧ 8 * (maxDepth + 1) < (a.root :: is).length) ∧
    ∀ t s, a.search (endsWithin a.nodes t (8 * (maxDepth + 1)) a.root s) = .error .outOfRange := by
  obtain ⟨a, ha, ⟨is, hc, hlength⟩, hfuel⟩ := alternating_nesting (n := 264) (by decide) (by decide)
  refine ⟨a, ha, ⟨is, hc, ?_⟩, fun t s => hfuel t s _ (by decide)⟩
  rw [hlength]
  decide

end PathSieve.Pattern
