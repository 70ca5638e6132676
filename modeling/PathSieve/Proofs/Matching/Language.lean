import Mathlib.Computability.Language
import Mathlib.Order.ConditionallyCompleteLattice.Basic
import PathSieve.Matching.Subject
import PathSieve.Proofs.Pattern.Derivation

namespace PathSieve.Pattern

open Text (CodePoint)

/-!
# Languages of patterns

What a pattern accepts, said without positions and without an arena: every syntax tree has a
language of texts.

* `Tree.language` — the texts of a tree; `Tree.concat`, `Tree.meet`, `Tree.union` — those of a list
  of trees.
* `Tree.mem_group_inverted` — what an inverted group accepts.
* `Tree.language_join` — joining an operand is intersection or union, whatever stands on the left.
-/

/-! ### Leaves -/

/-- The texts that equal a literal code point by code point: exactly, or by their case folds. -/
def literalTexts (caseSensitive : Bool) (text : List CodePoint) : Language CodePoint :=
  {w | if caseSensitive then w = text else w.map CodePoint.fold = text.map CodePoint.fold}

/-- The texts of one code point that satisfies `q`. -/
def oneOf (q : CodePoint → Bool) : Language CodePoint := {w | ∃ c, w = [c] ∧ q c}

/-- The texts that hold no separator. -/
def separatorFree : Language CodePoint := {w | ∀ c ∈ w, isSeparator c = false}

/-- The empty text and the texts that end in a separator. -/
def wholeSegments : Language CodePoint := {w | w = [] ∨ ∃ u c, w = u ++ [c] ∧ isSeparator c}

theorem mem_literalTexts {caseSensitive : Bool} {text w : List CodePoint} :
    w ∈ literalTexts caseSensitive text ↔
      w.map (Matching.comparisonKey caseSensitive) =
        text.map (Matching.comparisonKey caseSensitive) := by
  cases caseSensitive with
  | false => exact Iff.rfl
  | true =>
    show w = text ↔ _
    refine (List.map_inj_right fun c d h => ?_).symm
    exact List.singleton_inj.1 h

/-! ### Trees -/

mutual

/-- The texts that a tree accepts. A path wildcard stands for itself and for the separator behind
it; an inverted group has all other texts, or all other texts without separators unless the
pattern inside holds one. -/
def Tree.language (caseSensitive : Bool) : Tree → Language CodePoint
  | .literal text => literalTexts caseSensitive text
  | .anyChar => oneOf (!isSeparator ·)
  | .anyChars => separatorFree
  | .anyPath => wholeSegments
  | .split _ => oneOf isSeparator
  | .sequence items => Tree.concat caseSensitive items
  | .combine .conj operands => Tree.meet caseSensitive operands
  | .combine .disj operands => Tree.union caseSensitive operands
  | .group child false _ => child.language caseSensitive
  | .group child true true => (child.language caseSensitive)ᶜ
  | .group child true false => separatorFree \ child.language caseSensitive

/-- The texts that consist of one of every tree; the separator right behind a path wildcard belongs
to the wildcard. -/
def Tree.concat (caseSensitive : Bool) : List Tree → Language CodePoint
  | [] => 1
  | .anyPath :: .split _ :: rest => wholeSegments * Tree.concat caseSensitive rest
  | t :: rest => t.language caseSensitive * Tree.concat caseSensitive rest

/-- The texts that all trees accept. -/
def Tree.meet (caseSensitive : Bool) : List Tree → Language CodePoint
  | [] => ⊤
  | t :: rest => t.language caseSensitive ⊓ Tree.meet caseSensitive rest

/-- The texts that some tree accepts. -/
def Tree.union (caseSensitive : Bool) : List Tree → Language CodePoint
  | [] => 0
  | t :: rest => t.language caseSensitive + Tree.union caseSensitive rest

end

namespace Tree

variable {caseSensitive : Bool}

theorem concat_cons {t : Tree} (h : t ≠ .anyPath) (rest : List Tree) :
    concat caseSensitive (t :: rest) = t.language caseSensitive * concat caseSensitive rest := by
  rw [concat]
  rintro s rest' rfl
  exact absurd rfl h

theorem concat_singleton {t : Tree} (h : t ≠ .anyPath) :
    concat caseSensitive [t] = t.language caseSensitive := by
  rw [concat_cons h, concat, mul_one]

/-- A list of trees with further ones behind it. -/
theorem concat_append {ts : List Tree} (h : Paired ts) (us : List Tree) :
    concat caseSensitive (ts ++ us) = concat caseSensitive ts * concat caseSensitive us := by
  -- The pairs are kept together, so the separator of a path wildcard is never torn off.
  induction h with
  | nil => rw [List.nil_append, concat, one_mul]
  | pathway _ ih => rw [List.cons_append, List.cons_append, concat, ih, concat, mul_assoc]
  | item hne _ ih => rw [List.cons_append, concat_cons hne, ih, concat_cons hne, mul_assoc]

theorem mem_meet {w : List CodePoint} {ts : List Tree} :
    w ∈ meet caseSensitive ts ↔ ∀ t ∈ ts, w ∈ t.language caseSensitive := by
  induction ts with
  | nil => exact iff_of_true trivial (by simp)
  | cons t ts ih =>
    rw [List.forall_mem_cons, ← ih, meet]
    exact Iff.rfl

theorem mem_union {w : List CodePoint} {ts : List Tree} :
    w ∈ union caseSensitive ts ↔ ∃ t ∈ ts, w ∈ t.language caseSensitive := by
  induction ts with
  | nil => exact iff_of_false id (by simp)
  | cons t ts ih =>
    rw [List.exists_mem_cons_iff, ← ih, union]
    exact Iff.rfl

/-- The operation on languages that a connective stands for. -/
def both (op : Connective) (l m : Language CodePoint) : Language CodePoint :=
  match op with
  | .conj => l ⊓ m
  | .disj => l + m

theorem mem_both_conj {l m : Language CodePoint} {w : List CodePoint} :
    w ∈ both .conj l m ↔ w ∈ l ∧ w ∈ m := Iff.rfl

theorem mem_both_disj {l m : Language CodePoint} {w : List CodePoint} :
    w ∈ both .disj l m ↔ w ∈ l ∨ w ∈ m := Iff.rfl

theorem mem_combine_conj {ts : List Tree} {w : List CodePoint} :
    w ∈ (combine .conj ts).language caseSensitive ↔ ∀ t ∈ ts, w ∈ t.language caseSensitive := by
  rw [language]
  exact mem_meet

theorem mem_combine_disj {ts : List Tree} {w : List CodePoint} :
    w ∈ (combine .disj ts).language caseSensitive ↔ ∃ t ∈ ts, w ∈ t.language caseSensitive := by
  rw [language]
  exact mem_union

/-- An inverted group has the texts that are not inside, and unless it is marked, only those without
separators. -/
theorem mem_group_inverted {child : Tree} {multi : Bool} {w : List CodePoint} :
    w ∈ (group child true multi).language caseSensitive ↔
      (multi = false → w ∈ separatorFree) ∧ w ∉ child.language caseSensitive := by
  cases multi with
  | true =>
    rw [language]
    exact ⟨fun h => ⟨nofun, h⟩, fun h => h.2⟩
  | false =>
    rw [language]
    exact ⟨fun h => ⟨fun _ => h.1, h.2⟩, fun h => ⟨h.1 rfl, h.2⟩⟩

/-- A combination with a further operand. -/
theorem language_combine_append (op : Connective) (ts : List Tree) (t : Tree) :
    (combine op (ts ++ [t])).language caseSensitive =
      both op ((combine op ts).language caseSensitive) (t.language caseSensitive) := by
  ext w
  cases op with
  | conj => rw [mem_both_conj, mem_combine_conj, mem_combine_conj, List.forall_mem_append,
      List.forall_mem_singleton]
  | disj =>
    rw [mem_both_disj, mem_combine_disj, mem_combine_disj]
    simp only [List.mem_append, List.mem_singleton, or_and_right, exists_or, exists_eq_left]

/-- A combination of two operands. -/
theorem language_combine_pair (op : Connective) (t u : Tree) :
    (combine op [t, u]).language caseSensitive =
      both op (t.language caseSensitive) (u.language caseSensitive) := by
  ext w
  cases op with
  | conj =>
    rw [mem_both_conj, mem_combine_conj]
    simp
  | disj =>
    rw [mem_both_disj, mem_combine_disj]
    simp

/-- Joining an operand is intersection or union with what stands on the left, also where it adds the
operand to a node that is there. -/
theorem language_join (op : Connective) (t u : Tree) :
    (t.join op u).language caseSensitive =
      both op (t.language caseSensitive) (u.language caseSensitive) := by
  unfold join
  -- A node of the same connective takes the operand in; any other tree becomes a first operand.
  split
  · rename_i op' ts
    split
    · rename_i heq
      rw [heq]
      exact language_combine_append op ts u
    · exact language_combine_pair ..
  · exact language_combine_pair ..

end Tree

end PathSieve.Pattern
