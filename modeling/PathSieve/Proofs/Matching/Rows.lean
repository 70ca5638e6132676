import PathSieve.Matching.Ends
import PathSieve.Proofs.Matching.Spans

namespace PathSieve.Matching

open Pattern
open Text (CodePoint)

/-!
# Rows

Rows of positions move over spans: every leaf of a pattern takes a row to the ends of the spans that
start in the row and are in the language of the leaf.

* `Within` — a row of positions in the text.
* `Moves` — one row holds the ends of the spans that start in another one.
* `moves_afterLiteral`, `moves_afterChar`, `moves_spread`, `moves_afterSeparator`,
  `moves_anyPath` — what each leaf does to a row.
* `mem_reach` — how far an inverted group reaches.
-/

/-- All positions of a row are in the text. -/
def Within (t : Subject) (row : Positions) : Prop := ∀ p ∈ row, p ≤ t.length

/-- A row holds the ends of the spans of a language that start in another row. -/
def Moves (t : Subject) (l : Language CodePoint) (row next : Positions) : Prop :=
  ∀ e, e ∈ next ↔ ∃ s ∈ row, Spans t l s e

section Rows

variable {t : Subject} {l m : Language CodePoint} {row next last : Positions}

theorem Moves.within (h : Moves t l row next) : Within t next := by
  intro e he
  obtain ⟨s, -, hs⟩ := (h e).1 he
  exact hs.2.1

theorem Moves.trans (h : Moves t l row next) (h' : Moves t m next last) :
    Moves t (l * m) row last := by
  intro e
  rw [h' e]
  constructor
  · rintro ⟨k, hk, hke⟩
    obtain ⟨s, hs, hsk⟩ := (h k).1 hk
    exact ⟨s, hs, spans_mul.2 ⟨k, hsk, hke⟩⟩
  · rintro ⟨s, hs, hse⟩
    obtain ⟨k, hsk, hke⟩ := spans_mul.1 hse
    exact ⟨k, (h k).2 ⟨s, hs, hsk⟩, hke⟩

theorem moves_one (h : Within t row) : Moves t 1 row row := by
  intro e
  constructor
  · exact fun he => ⟨e, he, (spans_one (h e he)).2 rfl⟩
  · rintro ⟨s, hs, hse⟩
    rw [(spans_one (h s hs)).1 hse]
    exact hs

theorem moves_of_isEmpty (l : Language CodePoint) (h : row.isEmpty) : Moves t l row row := by
  rw [Positions.isEmpty_iff.1 h]
  intro e
  refine iff_of_false (Positions.not_mem_empty e) ?_
  rintro ⟨s, hs, -⟩
  exact Positions.not_mem_empty s hs

theorem within_single {s : Nat} (h : s ≤ t.length) : Within t (.single s) := by
  intro p hp
  rw [Positions.mem_single.1 hp]
  exact h

/-! ### Leaves of one code point -/

/-- The positions behind the code points that satisfy `q`. -/
theorem moves_oneOf {q : CodePoint → Bool} {ground : Positions}
    (hground : ∀ p, p ∈ ground ↔ ∃ c, t.text[p]? = some c ∧ q c) :
    Moves t (oneOf q) row ((row.inter ground).shift 1) := by
  intro e
  rw [Positions.mem_shift, Positions.mem_inter, hground]
  constructor
  · rintro ⟨he, hrow, c, hc, hq⟩
    -- The code point that is passed stands right before `e`.
    have hlt : e - 1 < t.length := (Array.getElem?_eq_some_iff.1 hc).1
    have hle : e ≤ t.length := by omega
    refine ⟨e - 1, hrow, Nat.sub_le .., hle, c, ?_, hq⟩
    rw [slice_eq_singleton (hle.trans_eq (length_toList t).symm), getElem?_toList]
    exact ⟨by omega, hc⟩
  · rintro ⟨s, hs, -, hle, c, hslice, hq⟩
    rw [slice_eq_singleton (hle.trans_eq (length_toList t).symm), getElem?_toList] at hslice
    obtain ⟨rfl, hc⟩ := hslice
    exact ⟨Nat.le_add_left .., hs, c, hc, hq⟩

theorem moves_afterChar : Moves t (oneOf (!isSeparator ·)) row (t.afterChar row) :=
  moves_oneOf fun p => by simp

theorem moves_afterSeparator : Moves t (oneOf isSeparator) row (t.afterSeparator row) :=
  moves_oneOf fun p => by simp

/-! ### Literals -/

theorem afterLetter_moves (c : CodePoint) :
    Moves t (oneOf fun d => t.key d = t.key c) row (t.afterLetter row c) :=
  moves_oneOf fun p => by simp [Subject.mem_mark]

/-- A literal is one code point after the other. -/
theorem literalTexts_cons (b : Bool) (c : CodePoint) (cs : List CodePoint) :
    literalTexts b (c :: cs) =
      oneOf (fun d => comparisonKey b d = comparisonKey b c) * literalTexts b cs := by
  ext w
  rw [Language.mem_mul, mem_literalTexts]
  constructor
  · intro h
    -- Equal keys are equal one by one.
    obtain ⟨d, ds, rfl, hd, hds⟩ := List.map_eq_cons_iff.1 h
    exact ⟨[d], ⟨d, rfl, decide_eq_true hd⟩, ds, mem_literalTexts.2 hds, rfl⟩
  · rintro ⟨u, ⟨d, rfl, hd⟩, ds, hds, rfl⟩
    rw [List.singleton_append, List.map_cons, List.map_cons, of_decide_eq_true hd,
      mem_literalTexts.1 hds]

theorem literalTexts_nil (b : Bool) : literalTexts b [] = 1 := by
  ext w
  rw [mem_literalTexts, Language.mem_one, List.map_nil, List.map_eq_nil_iff]

theorem moves_afterLiteral (cs : List CodePoint) (h : Within t row) :
    Moves t (literalTexts t.caseSensitive cs) row (t.afterLiteral cs row) := by
  induction cs generalizing row with
  | nil =>
    rw [literalTexts_nil]
    exact moves_one h
  | cons c cs ih =>
    have hletter : Moves t (oneOf fun d => t.key d = t.key c) row (t.afterLetter row c) :=
      afterLetter_moves c
    rw [literalTexts_cons]
    exact hletter.trans (ih hletter.within)

/-! ### Wildcards -/

theorem mem_separatorFree_slice {s e : Nat} (he : e ≤ t.length) :
    slice t.text.toList s e ∈ separatorFree ↔ ∀ r, s ≤ r → r < e → r ∈ t.plain := by
  constructor
  · intro h r hsr hre
    have hr : r < t.text.size := hre.trans_le he
    have hc : t.text[r]? = some t.text[r] := Array.getElem?_eq_getElem hr
    refine Subject.mem_plain.2 ⟨_, hc, h _ (mem_slice.2 ⟨r, hsr, hre, ?_⟩)⟩
    rw [getElem?_toList, hc]
  · intro h c hc
    obtain ⟨r, hsr, hre, hr⟩ := mem_slice.1 hc
    obtain ⟨d, hd, hplain⟩ := Subject.mem_plain.1 (h r hsr hre)
    rw [getElem?_toList, hd] at hr
    exact Option.some.inj hr ▸ hplain

theorem moves_spread (h : Within t row) : Moves t separatorFree row (t.spread row) := by
  intro e
  rw [Subject.mem_spread]
  constructor
  · rintro ⟨s, hs, hse, hall⟩
    have he : e ≤ t.length := by
      rcases Nat.eq_or_lt_of_le hse with rfl | hlt
      · exact h s hs
      -- A position that was reached has a code point before it, so it is in the text.
      · have hlast : e - 1 ∈ t.plain := hall (e - 1) (by omega) (by omega)
        obtain ⟨c, hc, -⟩ := Subject.mem_plain.1 hlast
        have hlt' : e - 1 < t.length := (Array.getElem?_eq_some_iff.1 hc).1
        omega
    exact ⟨s, hs, hse, he, (mem_separatorFree_slice he).2 hall⟩
  · rintro ⟨s, hs, hse, he, hmem⟩
    exact ⟨s, hs, hse, (mem_separatorFree_slice he).1 hmem⟩

theorem moves_anyPath (h : Within t row) : Moves t wholeSegments row (t.anyPath row) := by
  intro e
  unfold Subject.anyPath
  cases hleast : row.least? with
  | none =>
    have hempty : ∀ p, p ∉ row := by
      intro p hp
      have hnil : row.toList = [] := by
        rw [Positions.least?_eq_head?] at hleast
        exact List.head?_eq_none_iff.1 hleast
      exact List.not_mem_nil (hnil ▸ Positions.mem_toList.2 hp)
    exact iff_of_false (hempty e) fun ⟨s, hs, _⟩ => hempty s hs
  | some first =>
    obtain ⟨hfirst, hmin⟩ := Positions.least?_eq_some_iff.1 hleast
    -- Every separator from the least position on can be reached, and none before it from anywhere.
    rw [Positions.mem_union, Positions.mem_shift, Subject.mem_separatorsFrom]
    constructor
    · rintro (he | ⟨he, hle, hsep⟩)
      · exact ⟨e, he, Nat.le_refl _, h e he, .inl (slice_self ..)⟩
      · obtain ⟨c, hc, hcsep⟩ := Subject.mem_separators.1 hsep
        have hlt : e - 1 < t.length := (Array.getElem?_eq_some_iff.1 hc).1
        have hend : slice t.text.toList (e - 1) e = [c] := by
          rw [slice_eq_singleton (by rw [length_toList]; omega), getElem?_toList]
          exact ⟨by omega, hc⟩
        refine ⟨first, hfirst, by omega, by omega, .inr ?_⟩
        refine ⟨slice t.text.toList first (e - 1), c, ?_, hcsep⟩
        rw [← slice_append hle (Nat.sub_le e 1), hend]
    · rintro ⟨s, hs, hse, he, hmem | ⟨u, c, hslice, hcsep⟩⟩
      · have hlen := length_slice (s := s) (he.trans_eq (length_toList t).symm)
        rw [hmem, List.length_nil] at hlen
        obtain rfl : e = s := by omega
        exact .inl hs
      · obtain ⟨hlt, hc⟩ := slice_eq_append_singleton (he.trans_eq (length_toList t).symm) hslice
        rw [getElem?_toList] at hc
        have := hmin s hs
        exact .inr ⟨by omega, by omega, Subject.mem_separators.2 ⟨c, hc, hcsep⟩⟩

/-! ### Inverted groups -/

theorem segmentEnd_le_length (t : Subject) (s : Nat) : t.segmentEnd s ≤ t.length := by
  unfold Subject.segmentEnd
  cases hleast : (t.separatorsFrom s).least? with
  | none => exact Nat.le_refl _
  | some p =>
    have hp := (Positions.least?_eq_some_iff.1 hleast).1
    obtain ⟨c, hc, -⟩ := Subject.mem_separators.1 (Subject.mem_separatorsFrom.1 hp).2
    exact Nat.le_of_lt (Array.getElem?_eq_some_iff.1 hc).1

/-- A position is not behind the end of the segment exactly if no separator is in between. -/
theorem le_segmentEnd_iff {s e : Nat} (he : e ≤ t.length) :
    e ≤ t.segmentEnd s ↔ slice t.text.toList s e ∈ separatorFree := by
  have hsep : ∀ r, r < t.length → (r ∈ t.plain ↔ r ∉ t.separators) := by
    intro r hr
    have hc : t.text[r]? = some t.text[r] := Array.getElem?_eq_getElem hr
    rw [Subject.mem_plain, Subject.mem_separators, hc]
    simp
  -- Only the first separator counts: there is none in between exactly if it is not.
  rw [mem_separatorFree_slice he]
  unfold Subject.segmentEnd
  cases hleast : (t.separatorsFrom s).least? with
  | none =>
    refine iff_of_true he fun r hsr hre => (hsep r (by omega)).2 fun hr => ?_
    have hmem := Subject.mem_separatorsFrom.2 ⟨hsr, hr⟩
    rw [Positions.least?_eq_head?, List.head?_eq_none_iff] at hleast
    exact List.not_mem_nil (hleast ▸ Positions.mem_toList.2 hmem)
  | some p =>
    obtain ⟨hp, hmin⟩ := Positions.least?_eq_some_iff.1 hleast
    obtain ⟨hsp, hpsep⟩ := Subject.mem_separatorsFrom.1 hp
    constructor
    · intro hep r hsr hre
      refine (hsep r (by omega)).2 fun hr => ?_
      have := hmin r (Subject.mem_separatorsFrom.2 ⟨hsr, hr⟩)
      rw [Option.getD_some] at hep
      omega
    · intro hall
      by_contra hpe
      rw [Option.getD_some, not_le] at hpe
      exact (hsep p (by omega)).1 (hall p hsp hpe) hpsep

/-- An inverted group reaches to the end of the text, or up to the next separator. -/
theorem mem_reach {multiSegment : Bool} {s e : Nat} :
    e ∈ reach t multiSegment s ↔ s ≤ e ∧ e ≤ t.length ∧
      (multiSegment = false → slice t.text.toList s e ∈ separatorFree) := by
  rw [reach, Positions.mem_interval]
  refine and_congr_right fun _ => ?_
  cases multiSegment with
  | true => simp
  | false =>
    rw [if_neg Bool.false_ne_true]
    constructor
    · intro h
      -- Up to the end of the segment is in the text.
      have he := h.trans (segmentEnd_le_length t s)
      exact ⟨he, fun _ => (le_segmentEnd_iff he).1 h⟩
    · rintro ⟨he, hfree⟩
      exact (le_segmentEnd_iff he).2 (hfree rfl)

end Rows

end PathSieve.Matching
