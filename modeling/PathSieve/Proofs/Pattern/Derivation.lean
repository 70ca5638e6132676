import PathSieve.Proofs.Pattern.Tree

namespace PathSieve.Pattern

open Text (CodePoint)

/-!
# Derivations

The grammar of patterns over tokens, by its derivations. A pattern is empty or an expression; an
expression is operands with connectives between them; an operand is one or more terms; a term is a
single token or an expression in parentheses, which may be inverted.

* `Term`, `Operand`, `Expr` — the derivations of the three kinds.
* `Derives` — a list of tokens is what a derivation of a pattern yields.
* `peak` — the most groups that are open at once.
* `Expr.tree`, `patternTree` — the syntax tree of a derivation.
-/

/-! ### The grammar -/

/-- A term that is a single token. -/
inductive Leaf where
  | literal (text : List CodePoint)
  | anyChar
  | anyChars
  | split (s : Separator)
  | anyPath (s : Separator)

/-- The token of a leaf. -/
def Leaf.token : Leaf → TokenKind
  | .literal text => .literal text
  | .anyChar => .symbol .anyChar
  | .anyChars => .symbol .anyChars
  | .split s => .symbol (.split s)
  | .anyPath s => .symbol (.anyPath s)

mutual

/-- A leaf, or an expression in parentheses. -/
inductive Term where
  | leaf (l : Leaf)
  | group (inverted : Bool) (body : Expr)

/-- One or more terms. -/
inductive Operand where
  | one (t : Term)
  | snoc (s : Operand) (t : Term)

/-- One or more operands with a connective between each two. -/
inductive Expr where
  | one (s : Operand)
  | snoc (a : Expr) (op : Connective) (s : Operand)

end

/-- Induction on the terms of an operand, from the first one on. -/
@[induction_eliminator]
theorem Operand.leftInduction {motive : Operand → Prop} (one : ∀ t, motive (.one t))
    (snoc : ∀ s t, motive s → motive (.snoc s t)) : (s : Operand) → motive s
  | .one t => one t
  | .snoc s t => snoc s t (leftInduction one snoc s)

/-- Induction on the operands of an expression, from the first one on. -/
@[induction_eliminator]
theorem Expr.leftInduction {motive : Expr → Prop} (one : ∀ s, motive (.one s))
    (snoc : ∀ a op s, motive a → motive (.snoc a op s)) : (a : Expr) → motive a
  | .one s => one s
  | .snoc a op s => snoc a op s (leftInduction one snoc a)

/-- The token that opens a group. -/
def opening (inverted : Bool) : TokenKind := .symbol (if inverted then .openInverse else .openGroup)

/-- The token that closes a group. -/
def closing : TokenKind := .symbol .closeGroup

/-- The token of a connective. -/
def Connective.token (op : Connective) : TokenKind := .symbol op.symbol

mutual

/-- The tokens that a term yields. -/
def Term.tokens : Term → List TokenKind
  | .leaf l => [l.token]
  | .group inverted body => opening inverted :: (body.tokens ++ [closing])

/-- The tokens that an operand yields. -/
def Operand.tokens : Operand → List TokenKind
  | .one t => t.tokens
  | .snoc s t => s.tokens ++ t.tokens

/-- The tokens that an expression yields. -/
def Expr.tokens : Expr → List TokenKind
  | .one s => s.tokens
  | .snoc a op s => a.tokens ++ op.token :: s.tokens

end

/-- The tokens that a pattern yields. -/
def patternTokens : Option Expr → List TokenKind
  | none => []
  | some a => a.tokens

/-- A list of tokens is what a pattern yields. -/
def Derives (tokens : List Token) (p : Option Expr) : Prop :=
  patternTokens p = tokens.map Token.kind

/-! ### Open groups -/

/-- The number of open groups after a token. -/
def openAfter (now : Nat) : TokenKind → Nat
  | .symbol .openGroup => now + 1
  | .symbol .openInverse => now + 1
  | .symbol .closeGroup => now - 1
  | _ => now

/-- The most groups that are open at once, when `now` are open before the first token. -/
def peak (now : Nat) : List TokenKind → Nat
  | [] => now
  | k :: ks => max now (peak (openAfter now k) ks)

theorem peak_append (now : Nat) (ks ls : List TokenKind) :
    peak now (ks ++ ls) = max (peak now ks) (peak (ks.foldl openAfter now) ls) := by
  induction ks generalizing now with
  | nil =>
    -- `peak` counts `now` itself, so it is not lost when there are no tokens before the others.
    have hnow : now ≤ peak now ls := by
      cases ls with
      | nil => exact Nat.le_refl now
      | cons => exact Nat.le_max_left ..
    exact (Nat.max_eq_right hnow).symm
  | cons k ks ih =>
    rw [List.cons_append, peak, ih, peak, List.foldl_cons, Nat.max_assoc]

@[simp] theorem openAfter_leaf (now : Nat) (l : Leaf) : openAfter now l.token = now := by
  cases l <;> rfl

@[simp] theorem openAfter_connective (now : Nat) (op : Connective) :
    openAfter now op.token = now := by
  cases op <;> rfl

@[simp] theorem openAfter_opening (now : Nat) (inverted : Bool) :
    openAfter now (opening inverted) = now + 1 := by
  cases inverted <;> rfl

@[simp] theorem openAfter_closing (now : Nat) : openAfter now closing = now - 1 := rfl

mutual

/-- A term closes the groups that it opens. -/
theorem Term.foldl_openAfter (now : Nat) : (t : Term) → t.tokens.foldl openAfter now = now
  | .leaf l => by simp [Term.tokens]
  | .group inverted body => by
    have hbody := body.foldl_openAfter (now + 1)
    simp [Term.tokens, List.foldl_append, hbody]

theorem Operand.foldl_openAfter (now : Nat) : (s : Operand) → s.tokens.foldl openAfter now = now
  | .one t => t.foldl_openAfter now
  | .snoc s t => by
    rw [Operand.tokens, List.foldl_append, s.foldl_openAfter, t.foldl_openAfter]

theorem Expr.foldl_openAfter (now : Nat) : (a : Expr) → a.tokens.foldl openAfter now = now
  | .one s => s.foldl_openAfter now
  | .snoc a op s => by
    rw [Expr.tokens, List.foldl_append, a.foldl_openAfter, List.foldl_cons,
      openAfter_connective, s.foldl_openAfter]

end

/-! ### Syntax trees -/

/-- Whether a leaf is a separator or has one with it. -/
def Leaf.holdsSplit : Leaf → Bool
  | .split _ | .anyPath _ => true
  | _ => false

mutual

/-- Whether a term holds a separator. -/
def Term.holdsSplit : Term → Bool
  | .leaf l => l.holdsSplit
  | .group _ body => body.holdsSplit

/-- Whether an operand holds a separator. -/
def Operand.holdsSplit : Operand → Bool
  | .one t => t.holdsSplit
  | .snoc s t => s.holdsSplit || t.holdsSplit

/-- Whether an expression holds a separator. -/
def Expr.holdsSplit : Expr → Bool
  | .one s => s.holdsSplit
  | .snoc a _ s => a.holdsSplit || s.holdsSplit

end

/-- The trees of a leaf; the separator of a path wildcard has a tree of its own. -/
def Leaf.trees : Leaf → List Tree
  | .literal text => [.literal text]
  | .anyChar => [.anyChar]
  | .anyChars => [.anyChars]
  | .split s => [.split s]
  | .anyPath s => [.anyPath, .split s]

/-- Joins a further operand to what stands to the left of it; a run of one connective shares a
single node. -/
def Tree.join (op : Connective) (left right : Tree) : Tree :=
  match left with
  | .combine op' operands =>
    if op' = op then .combine op (operands ++ [right]) else .combine op [left, right]
  | _ => .combine op [left, right]

mutual

/-- The trees of a term: one, or two for a path wildcard. -/
def Term.trees : Term → List Tree
  | .leaf l => l.trees
  | .group inverted body => [.group body.tree inverted body.holdsSplit]

/-- The trees of the terms of an operand, from left to right. -/
def Operand.trees : Operand → List Tree
  | .one t => t.trees
  | .snoc s t => s.trees ++ t.trees

/-- The tree of an expression: its operands are joined from left to right. -/
def Expr.tree : Expr → Tree
  | .one s => .sequence s.trees
  | .snoc a op s => .join op a.tree (.sequence s.trees)

end

example (a b c d : Operand) :
    (Expr.snoc (.snoc (.snoc (.one a) .disj b) .disj c) .conj d).tree =
      .combine .conj [.combine .disj [.sequence a.trees, .sequence b.trees, .sequence c.trees],
        .sequence d.trees] := rfl

/-- The syntax tree of a pattern, which is always a sequence. -/
def patternTree : Option Expr → Tree
  | none => .sequence []
  | some (.one s) => .sequence s.trees
  | some a => .sequence [a.tree]

/-! ### Shape of syntax trees -/

theorem Term.trees_ne_nil (t : Term) : t.trees ≠ [] := by
  cases t with
  | leaf l => cases l <;> simp [Term.trees, Leaf.trees]
  | group inverted body => simp [Term.trees]

theorem Operand.trees_ne_nil (s : Operand) : s.trees ≠ [] := by
  cases s with
  | one t => exact t.trees_ne_nil
  | snoc s t => simp [Operand.trees, t.trees_ne_nil]

theorem Term.paired (t : Term) : Paired t.trees := by
  cases t with
  | leaf l =>
    cases l with
    | anyPath s => exact Paired.nil.pathway
    | _ => exact .single (by simp)
  | group inverted body => exact .single (by simp)

theorem Operand.paired (s : Operand) : Paired s.trees := by
  induction s with
  | one t => exact t.paired
  | snoc s t ih => exact ih.append t.paired

theorem Tree.join_ne_anyPath (op : Connective) (left right : Tree) :
    Tree.join op left right ≠ .anyPath := by
  unfold Tree.join
  split
  · split <;> simp
  · simp

end PathSieve.Pattern
