import PathSieve.Matching.Path
import PathSieve.Proofs.Pattern.Enclosing
import PathSieve.Proofs.Text.Folds

namespace PathSieve.Pattern

open Matching
open Text (CodePoint)

/-!
# Segments

Separators bound the segments of a path. No other code point is compared like one, so a pattern text
without separators stays within a segment, and what comes behind whole segments is the last one.

* `isSeparator_of_key_eq` — no other code point is compared like a separator.
* `language_inSegment` — what a text without separators accepts has none either.
* `basename_append` — the last segment of a path.
* `SegmentStart`, `mem_wholeSegments_mul`, `mem_wholeSegments_mul_iff_basename` — what comes behind
  whole segments.
-/

/-! ### Patterns within a segment -/

/-- A code point that is compared like a separator is one. -/
theorem isSeparator_of_key_eq {caseSensitive : Bool} {c d : CodePoint} (hd : isSeparator d)
    (h : comparisonKey caseSensitive c = comparisonKey caseSensitive d) : isSeparator c := by
  have heq : c = d := by
    cases caseSensitive with
    | true => exact List.singleton_inj.1 h
    | false =>
      simp only [isSeparator, Bool.or_eq_true, decide_eq_true_eq] at hd
      rcases hd with rfl | rfl
      · exact CodePoint.eq_of_fold_eq (by decide +kernel) h
      · exact CodePoint.eq_of_fold_eq (by decide +kernel) h
  rw [heq]
  exact hd

theorem append_mem_separatorFree {u v : List CodePoint} (hu : u ∈ separatorFree)
    (hv : v ∈ separatorFree) : u ++ v ∈ separatorFree :=
  List.forall_mem_append.2 ⟨hu, hv⟩

theorem mul_inSegment {l m : Language CodePoint} (hl : ∀ w ∈ l, w ∈ separatorFree)
    (hm : ∀ w ∈ m, w ∈ separatorFree) : ∀ w ∈ l * m, w ∈ separatorFree := by
  rintro w ⟨u, hu, v, hv, rfl⟩
  exact append_mem_separatorFree (hl u hu) (hm v hv)

theorem literalTexts_inSegment (caseSensitive : Bool) {text : List CodePoint}
    (h : text.any isSeparator = false) :
    ∀ w ∈ literalTexts caseSensitive text, w ∈ separatorFree := by
  intro w hw c hc
  have hkey : comparisonKey caseSensitive c ∈ text.map (comparisonKey caseSensitive) := by
    rw [← mem_literalTexts.1 hw]
    exact List.mem_map_of_mem hc
  obtain ⟨d, hd, hkey⟩ := List.mem_map.1 hkey
  by_contra hsep
  rw [List.any_eq_false] at h
  exact h d hd (isSeparator_of_key_eq (Bool.not_eq_false _ ▸ hsep) hkey)

section InSegment

variable {caseSensitive : Bool}

mutual

/-- The tokens of a term without separators accept nothing that has one. -/
theorem Term.inSegment : (t : Term) → t.tokens.any TokenKind.holdsSeparator = false →
    ∀ w ∈ Tree.concat caseSensitive t.trees, w ∈ separatorFree
  | .leaf l, h => by
    cases l with
    | literal text =>
      rw [Term.trees, Leaf.trees, Tree.concat_singleton (by simp), Tree.language]
      rw [Term.tokens, List.any_cons, List.any_nil, Bool.or_false] at h
      exact literalTexts_inSegment caseSensitive h
    | anyChar =>
      rw [Term.trees, Leaf.trees, Tree.concat_singleton (by simp), Tree.language]
      rintro w ⟨c, rfl, hc⟩ d hd
      rw [List.mem_singleton.1 hd]
      simpa using hc
    | anyChars =>
      rw [Term.trees, Leaf.trees, Tree.concat_singleton (by simp), Tree.language]
      exact fun w hw => hw
    | split s => cases h
    | anyPath s => cases h
  | .group inverted body, h => by
    have hbody : body.tokens.any TokenKind.holdsSeparator = false := by
      rw [Term.tokens, List.any_cons, List.any_append, Bool.or_eq_false_iff,
        Bool.or_eq_false_iff] at h
      exact h.2.1
    rw [Term.trees, Tree.concat_singleton (by simp)]
    intro w hw
    cases inverted with
    | false =>
      rw [Tree.language] at hw
      exact body.inSegment hbody w hw
    | true =>
      -- The group is not marked, so its complement is taken within a segment.
      exact (Tree.mem_group_inverted.1 hw).1 (body.holdsSplit_eq_false hbody)

theorem Operand.inSegment : (s : Operand) → s.tokens.any TokenKind.holdsSeparator = false →
    ∀ w ∈ Tree.concat caseSensitive s.trees, w ∈ separatorFree
  | .one t, h => t.inSegment h
  | .snoc s t, h => by
    rw [Operand.tokens, List.any_append, Bool.or_eq_false_iff] at h
    rw [Operand.trees, Tree.concat_append s.paired]
    exact mul_inSegment (s.inSegment h.1) (t.inSegment h.2)

theorem Expr.inSegment : (a : Expr) → a.tokens.any TokenKind.holdsSeparator = false →
    ∀ w ∈ a.tree.language caseSensitive, w ∈ separatorFree
  | .one s, h => by
    rw [Expr.tree, Tree.language]
    exact s.inSegment h
  | .snoc a op s, h => by
    rw [Expr.tokens, List.any_append, List.any_cons, Bool.or_eq_false_iff,
      Bool.or_eq_false_iff] at h
    rw [Expr.tree, Tree.language_join]
    intro w hw
    cases op with
    | conj => exact a.inSegment h.1 w hw.1
    | disj =>
      rcases hw with hw | hw
      · exact a.inSegment h.1 w hw
      · rw [Tree.language] at hw
        exact s.inSegment h.2.2 w hw

end

/-- What a text without separators accepts stays within a segment. -/
theorem language_inSegment {x : List CodePoint} {a : Arena} (hx : compile x = .ok a) (hne : x ≠ [])
    (hfree : x ∈ separatorFree) : ∀ w ∈ a.tree.language caseSensitive, w ∈ separatorFree := by
  obtain ⟨e, he⟩ := exists_writes hx hne
  rw [he.language_eq hx]
  obtain ⟨ls, hls, he⟩ := he
  refine e.inSegment ?_
  rw [he, ← hls.any_isSeparator_eq, List.any_eq_false]
  exact fun c hc => Bool.not_eq_true _ ▸ hfree c hc

end InSegment

/-! ### The last segment -/

theorem splitWhere_eq_splitOnP {α : Type} (p : α → Bool) (xs : List α) :
    Text.splitWhere p xs = xs.splitOnP p := by
  induction xs with
  | nil => rfl
  | cons x xs ih =>
    rw [Text.splitWhere, List.splitOnP_cons_eq_if_modifyHead, ih]
    cases hsplit : xs.splitOnP p with
    | nil => exact absurd hsplit (List.splitOnP_ne_nil p xs)
    | cons s rest => rfl

theorem basename_of_separatorFree {w : List CodePoint} (h : w ∈ separatorFree) :
    basename w = w := by
  rw [basename, splitPath, splitWhere_eq_splitOnP, List.splitOnP_eq_singleton h]
  rfl

/-- What stands before a separator does not matter for the last segment. -/
theorem basename_append_cons {c : CodePoint} (hc : isSeparator c) (u v : List CodePoint) :
    basename (u ++ c :: v) = basename v := by
  obtain ⟨s, rest, hv⟩ := List.exists_cons_of_ne_nil (List.splitOnP_ne_nil isSeparator v)
  simp only [basename, splitPath, splitWhere_eq_splitOnP, List.splitOnP_append_cons u v hc, hv]
  rw [List.getLastD_eq_getLast?, List.getLastD_eq_getLast?, List.getLast?_append_cons]

/-- The last segment is what stands behind whole segments and has no separator. -/
theorem basename_append {u v : List CodePoint} (hu : u ∈ wholeSegments)
    (hv : v ∈ separatorFree) : basename (u ++ v) = v := by
  rcases hu with rfl | ⟨u, c, rfl, hc⟩
  · exact basename_of_separatorFree hv
  · rw [List.append_assoc, List.singleton_append, basename_append_cons hc,
      basename_of_separatorFree hv]

theorem exists_wholeSegments_append (path : List CodePoint) :
    ∃ u ∈ wholeSegments, ∃ v ∈ separatorFree, path = u ++ v := by
  induction path with
  | nil => exact ⟨[], .inl rfl, [], nofun, rfl⟩
  | cons c path ih =>
    obtain ⟨u, hu, v, hv, rfl⟩ := ih
    rcases hu with rfl | ⟨u, d, rfl, hd⟩
    -- So far there is only one segment, which the code point belongs to unless it ends one.
    · by_cases hc : isSeparator c
      · exact ⟨[c], .inr ⟨[], c, rfl, hc⟩, v, hv, rfl⟩
      · exact ⟨[], .inl rfl, c :: v, List.forall_mem_cons.2 ⟨Bool.not_eq_true _ ▸ hc, hv⟩, rfl⟩
    · exact ⟨c :: (u ++ [d]), .inr ⟨c :: u, d, rfl, hd⟩, v, hv, rfl⟩

theorem basename_mem_separatorFree (path : List CodePoint) : basename path ∈ separatorFree := by
  obtain ⟨u, hu, v, hv, rfl⟩ := exists_wholeSegments_append path
  rw [basename_append hu hv]
  exact hv

/-! ### Behind whole segments -/

/-- A position of a path where a segment begins: at its start or right behind a separator. -/
def SegmentStart (path : List CodePoint) (b : Nat) : Prop :=
  b = 0 ∨ ∃ k c, b = k + 1 ∧ path[k]? = some c ∧ isSeparator c

theorem mem_wholeSegments_mul {l : Language CodePoint} {path : List CodePoint} :
    path ∈ wholeSegments * l ↔ ∃ b, SegmentStart path b ∧ path.drop b ∈ l := by
  rw [Language.mem_mul]
  constructor
  · rintro ⟨u, rfl | ⟨u, c, rfl, hc⟩, v, hv, rfl⟩
    · exact ⟨0, .inl rfl, hv⟩
    · refine ⟨u.length + 1, .inr ⟨u.length, c, rfl, ?_, hc⟩, ?_⟩
      · simp
      · simpa using hv
  · rintro ⟨b, rfl | ⟨k, c, rfl, hk, hc⟩, hmem⟩
    · exact ⟨[], .inl rfl, path, hmem, rfl⟩
    · have htake : path.take (k + 1) = path.take k ++ [c] := by
        rw [List.take_add_one, hk]
        rfl
      exact ⟨path.take (k + 1), .inr ⟨path.take k, c, htake, hc⟩, _, hmem,
        List.take_append_drop ..⟩

/-- Of the texts without separators only the last segment stands behind whole segments. -/
theorem mem_wholeSegments_mul_iff_basename {l : Language CodePoint}
    (h : ∀ w ∈ l, w ∈ separatorFree) {path : List CodePoint} :
    path ∈ wholeSegments * l ↔ basename path ∈ l := by
  rw [Language.mem_mul]
  constructor
  · rintro ⟨u, hu, v, hv, rfl⟩
    rw [basename_append hu (h v hv)]
    exact hv
  · intro hmem
    obtain ⟨u, hu, v, hv, rfl⟩ := exists_wholeSegments_append path
    rw [basename_append hu hv] at hmem
    exact ⟨u, hu, v, hmem, rfl⟩

end PathSieve.Pattern
