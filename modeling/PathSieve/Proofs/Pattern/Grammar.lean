import PathSieve.Proofs.Pattern.Building

namespace PathSieve.Pattern

open Text (CodePoint pointsOf)

/-!
# The grammar of patterns

Compilation accepts exactly the texts whose tokens have a derivation with few enough open groups,
and what it builds reads as the syntax tree of that derivation.

* `compile_eq_ok` — what is known of an arena that is built.
* `leaves_patternTree` — the leaves of a syntax tree are those of its tokens, in their order.
* `compile_iff_derives` — which texts compile, and to what.
-/

/-! ### Compilation by drafts -/

/-- The tokens of a text make up a pattern, as far as drafts know. -/
theorem ofTokens_tracks (ts : List Token) (length : Nat) :
    Tracks Built ((Draft.start.run (ts.map Token.kind)).bind Draft.finish)
      (ofTokens ts length) :=
  (Represents.start.run ts).bind fun _ _ h => h.finish length

theorem compile_eq_ok_iff {text : List CodePoint} {a : Arena} :
    compile text = .ok a ↔ text.length ≤ maxLength ∧
      ∃ ts, tokenize text = .ok ts ∧ ofTokens ts text.length = .ok a := by
  unfold compile checkLength
  by_cases hlen : maxLength < text.length
  · rw [if_pos hlen]
    exact iff_of_false (fun h => by cases h) fun h => absurd h.1 (Nat.not_le_of_lt hlen)
  · rw [if_neg hlen]
    have hle := Nat.le_of_not_lt hlen
    cases htokens : tokenize text with
    | error e => exact iff_of_false (fun h => by cases h) fun ⟨_, ts, h, _⟩ => by cases h
    | ok ts =>
      constructor
      · exact fun h => ⟨hle, ts, rfl, h⟩
      · rintro ⟨-, ts', h, hts'⟩
        cases h
        exact hts'

/-- An arena that is built is well-formed, its root is its last node, and its tree is that of every
derivation of the tokens. -/
theorem compile_eq_ok {text : List CodePoint} {a : Arena} (h : compile text = .ok a) :
    WellFormed a.nodes ∧ a.root + 1 = a.size ∧
      ∃ ts p, tokenize text = .ok ts ∧ Derives ts p ∧ peak 0 (ts.map Token.kind) ≤ maxDepth ∧
        a.tree = patternTree p := by
  obtain ⟨-, ts, htokens, hts⟩ := compile_eq_ok_iff.1 h
  have htracks := ofTokens_tracks ts text.length
  cases hdraft : (Draft.start.run (ts.map Token.kind)).bind Draft.finish with
  | none =>
    rw [hdraft] at htracks
    obtain ⟨e, he⟩ := htracks
    cases hts.symm.trans he
  | some p =>
    rw [hdraft] at htracks
    obtain ⟨a', ha', hbuilt⟩ := htracks
    cases hts.symm.trans ha'
    obtain ⟨hderives, hpeak⟩ := Draft.finish_run_iff.1 hdraft
    exact ⟨hbuilt.wf, hbuilt.root, ts, p, htokens, hderives, hpeak, hbuilt.tree⟩

/-- Tokens have one derivation at most, if few enough groups are open. -/
theorem Derives.unique {ts : List Token} {p q : Option Expr} (hp : Derives ts p)
    (hq : Derives ts q) (hpeak : peak 0 (ts.map Token.kind) ≤ maxDepth) : p = q :=
  Option.some.inj <|
    (Draft.finish_run_iff.2 ⟨hp, hpeak⟩).symm.trans (Draft.finish_run_iff.2 ⟨hq, hpeak⟩)

/-- The tree of an arena is that of every derivation of the tokens of its text. -/
theorem compile_tree {text : List CodePoint} {a : Arena} {ts : List Token} {p : Option Expr}
    (h : compile text = .ok a) (hts : tokenize text = .ok ts) (hp : Derives ts p) :
    a.tree = patternTree p := by
  obtain ⟨-, -, ts', q, hts', hq, hpeak, htree⟩ := compile_eq_ok h
  cases hts.symm.trans hts'
  rw [htree, hp.unique hq hpeak]

/-- A derivation of the tokens with few enough open groups is all that is needed. -/
theorem exists_compile {text : List CodePoint} {ts : List Token} {p : Option Expr}
    (hlen : text.length ≤ maxLength) (hts : tokenize text = .ok ts) (hp : Derives ts p)
    (hpeak : peak 0 (ts.map Token.kind) ≤ maxDepth) : ∃ a, compile text = .ok a := by
  have htracks := ofTokens_tracks ts text.length
  rw [Draft.finish_run_iff.2 ⟨hp, hpeak⟩] at htracks
  obtain ⟨a, ha, -⟩ := htracks
  exact ⟨a, compile_eq_ok_iff.2 ⟨hlen, ts, hts, ha⟩⟩

/-! ### Leaves -/

mutual

/-- The leaves of a tree from left to right. -/
def Tree.leaves : Tree → List Tree
  | .sequence items => Tree.leavesOf items
  | .combine _ operands => Tree.leavesOf operands
  | .group child _ _ => child.leaves
  | .literal text => [.literal text]
  | .anyChar => [.anyChar]
  | .anyChars => [.anyChars]
  | .anyPath => [.anyPath]
  | .split s => [.split s]

/-- The leaves of a list of trees from left to right. -/
def Tree.leavesOf : List Tree → List Tree
  | [] => []
  | t :: ts => t.leaves ++ Tree.leavesOf ts

end

/-- The leaves that a token stands for: a path wildcard is followed by its separator, and what
groups or connects has none. -/
def TokenKind.leaves : TokenKind → List Tree
  | .literal text => [.literal text]
  | .symbol .anyChar => [.anyChar]
  | .symbol .anyChars => [.anyChars]
  | .symbol (.split s) => [.split s]
  | .symbol (.anyPath s) => [.anyPath, .split s]
  | .symbol _ => []

@[simp] theorem Tree.leavesOf_append (ts us : List Tree) :
    Tree.leavesOf (ts ++ us) = Tree.leavesOf ts ++ Tree.leavesOf us := by
  induction ts with
  | nil => rfl
  | cons t ts ih => rw [List.cons_append, leavesOf, ih, leavesOf, List.append_assoc]

theorem Tree.leaves_join (op : Connective) (left right : Tree) :
    (Tree.join op left right).leaves = left.leaves ++ right.leaves := by
  have htwo : (Tree.combine op [left, right]).leaves = left.leaves ++ right.leaves := by
    rw [leaves, leavesOf, leavesOf, leavesOf, List.append_nil]
  unfold Tree.join
  split
  · split
    · rw [leaves, leavesOf_append, leaves, leavesOf, leavesOf, List.append_nil]
    · exact htwo
  · exact htwo

theorem leaves_opening (inverted : Bool) : (opening inverted).leaves = [] := by
  cases inverted <;> rfl

theorem leaves_connective (op : Connective) : op.token.leaves = [] := by
  cases op <;> rfl

theorem leavesOf_leaf (l : Leaf) : Tree.leavesOf l.trees = l.token.leaves := by
  cases l <;> rfl

mutual

theorem Term.leaves_trees : (t : Term) → Tree.leavesOf t.trees = t.tokens.flatMap TokenKind.leaves
  | .leaf l => by
    rw [Term.trees, leavesOf_leaf, Term.tokens, List.flatMap_singleton]
  | .group inverted body => by
    rw [Term.trees, Tree.leavesOf, Tree.leaves, Tree.leavesOf, List.append_nil, body.leaves_tree,
      Term.tokens, List.flatMap_cons, leaves_opening, List.flatMap_append, List.flatMap_singleton]
    exact (List.append_nil _).symm

theorem Operand.leaves_trees :
    (s : Operand) → Tree.leavesOf s.trees = s.tokens.flatMap TokenKind.leaves
  | .one t => t.leaves_trees
  | .snoc s t => by
    rw [Operand.trees, Tree.leavesOf_append, s.leaves_trees, t.leaves_trees, Operand.tokens,
      List.flatMap_append]

theorem Expr.leaves_tree : (a : Expr) → a.tree.leaves = a.tokens.flatMap TokenKind.leaves
  | .one s => by
    rw [Expr.tree, Tree.leaves, s.leaves_trees, Expr.tokens]
  | .snoc a op s => by
    rw [Expr.tree, Tree.leaves_join, Tree.leaves, a.leaves_tree, s.leaves_trees, Expr.tokens,
      List.flatMap_append, List.flatMap_cons, leaves_connective, List.nil_append]

end

/-- The leaves of a syntax tree are those of its tokens, in their order. -/
theorem leaves_patternTree (p : Option Expr) :
    (patternTree p).leaves = (patternTokens p).flatMap TokenKind.leaves := by
  match p with
  | none => rfl
  | some (.one s) => exact s.leaves_trees
  | some (.snoc a op s) =>
    rw [patternTree, Tree.leaves, Tree.leavesOf, Tree.leavesOf, List.append_nil]
    · exact Expr.leaves_tree _
    · simp

/-! ### Main statement -/

/-- **Compilation follows the grammar.** A text compiles exactly if it is not too long, its escapes
are sound and its tokens have a derivation that never has more than `maxDepth` groups open; the
arena then reads as the syntax tree of that derivation, which has the leaves of the tokens in their
order. Any other text is refused as malformed. -/
theorem compile_iff_derives (text : List CodePoint) :
    ((∃ a, compile text = .ok a) ↔ text.length ≤ maxLength ∧
      ∃ ts, tokenize text = .ok ts ∧ (∃ p, Derives ts p) ∧
        peak 0 (ts.map Token.kind) ≤ maxDepth) ∧
    (∀ a ts p, compile text = .ok a → tokenize text = .ok ts → Derives ts p →
      a.tree = patternTree p ∧
        a.tree.leaves = (ts.map Token.kind).flatMap TokenKind.leaves) ∧
    ((¬ ∃ a, compile text = .ok a) → ∃ e : FormatError, compile text = .error e) := by
  refine ⟨⟨?_, ?_⟩, ?_, ?_⟩
  · rintro ⟨a, ha⟩
    obtain ⟨-, -, ts, p, hts, hp, hpeak, -⟩ := compile_eq_ok ha
    exact ⟨(compile_eq_ok_iff.1 ha).1, ts, hts, ⟨p, hp⟩, hpeak⟩
  · rintro ⟨hlen, ts, hts, ⟨p, hp⟩, hpeak⟩
    exact exists_compile hlen hts hp hpeak
  · intro a ts p ha hts hp
    have htree := compile_tree ha hts hp
    refine ⟨htree, ?_⟩
    rw [htree, leaves_patternTree, hp]
  · intro hno
    cases hc : compile text with
    | error e => exact ⟨e, rfl⟩
    | ok a => exact absurd ⟨a, hc⟩ hno

end PathSieve.Pattern
