import PathSieve.Matching.Subject
import PathSieve.Proofs.Matching.Language

namespace PathSieve.Matching

open Pattern
open Text (CodePoint)

/-!
# Spans

A span is what stands in a text between two positions.

* `slice` — the span between two positions.
* `Spans` — two positions in a text with a span of a language between them.
* `spans_mul` — a span of a concatenation is cut at some position.
-/

/-! ### Slices -/

/-- What stands between two positions of a text. -/
def slice (w : List CodePoint) (s e : Nat) : List CodePoint := (w.drop s).take (e - s)

section Slices

variable {w : List CodePoint} {s m e : Nat}

theorem length_slice (he : e ≤ w.length) : (slice w s e).length = e - s := by
  rw [slice, List.length_take, List.length_drop]
  omega

theorem slice_self (w : List CodePoint) (s : Nat) : slice w s s = [] := by
  rw [slice, Nat.sub_self, List.take_zero]

theorem slice_all (w : List CodePoint) : slice w 0 w.length = w := by
  rw [slice, List.drop_zero, Nat.sub_zero, List.take_length]

theorem slice_append (hsm : s ≤ m) (hme : m ≤ e) : slice w s m ++ slice w m e = slice w s e := by
  have hsum : e - s = (m - s) + (e - m) := by omega
  have hdrop : w.drop m = (w.drop s).drop (m - s) := by
    rw [List.drop_drop]
    congr 1
    omega
  rw [slice, slice, slice, hsum, List.take_add, hdrop]

theorem slice_succ {c : CodePoint} (hc : w[s]? = some c) : slice w s (s + 1) = [c] := by
  obtain ⟨hs, rfl⟩ := List.getElem?_eq_some_iff.1 hc
  rw [slice, Nat.add_sub_cancel_left, List.drop_eq_getElem_cons hs]
  rfl

/-- A span of one code point is where that code point stands. -/
theorem slice_eq_singleton {c : CodePoint} (he : e ≤ w.length) :
    slice w s e = [c] ↔ e = s + 1 ∧ w[s]? = some c := by
  constructor
  · intro h
    have hlen := length_slice (s := s) he
    rw [h, List.length_singleton] at hlen
    have hs : s < w.length := by omega
    have hget := slice_succ (List.getElem?_eq_getElem hs)
    obtain rfl : e = s + 1 := by omega
    rw [h] at hget
    rw [List.getElem?_eq_getElem hs, List.singleton_inj.1 hget]
    exact ⟨rfl, rfl⟩
  · rintro ⟨rfl, hc⟩
    exact slice_succ hc

/-- The code points of a span are those at its positions. -/
theorem mem_slice {c : CodePoint} : c ∈ slice w s e ↔ ∃ r, s ≤ r ∧ r < e ∧ w[r]? = some c := by
  rw [slice, List.mem_iff_getElem?]
  constructor
  · rintro ⟨k, hk⟩
    rw [List.getElem?_take] at hk
    split at hk
    · rw [List.getElem?_drop] at hk
      exact ⟨s + k, by omega, by omega, hk⟩
    · cases hk
  · rintro ⟨r, hsr, hre, hr⟩
    refine ⟨r - s, ?_⟩
    rw [List.getElem?_take, if_pos (by omega), List.getElem?_drop, Nat.add_sub_cancel' hsr, hr]

/-- A span that ends in `c` has `c` before its end. -/
theorem slice_eq_append_singleton {u : List CodePoint} {c : CodePoint} (he : e ≤ w.length)
    (h : slice w s e = u ++ [c]) : s < e ∧ w[e - 1]? = some c := by
  have hlen := length_slice (s := s) he
  rw [h, List.length_append, List.length_singleton] at hlen
  have hse : s < e := by omega
  refine ⟨hse, ?_⟩
  -- The span is cut before its last code point.
  have hcut := slice_append (w := w) (m := e - 1) (by omega : s ≤ e - 1) (Nat.sub_le e 1)
  rw [h] at hcut
  have hlast : slice w (e - 1) e = [c] :=
    (List.append_inj' hcut (by rw [length_slice he, List.length_singleton]; omega)).2
  exact ((slice_eq_singleton he).1 hlast).2

end Slices

/-! ### Spans of a language -/

/-- Two positions of the text with a span of a language between them. -/
def Spans (t : Subject) (l : Language CodePoint) (s e : Nat) : Prop :=
  s ≤ e ∧ e ≤ t.length ∧ slice t.text.toList s e ∈ l

section Spans

variable {t : Subject} {l m : Language CodePoint} {s e : Nat}

theorem length_toList (t : Subject) : t.text.toList.length = t.length := Array.length_toList

theorem getElem?_toList (t : Subject) (p : Nat) : t.text.toList[p]? = t.text[p]? :=
  Array.getElem?_toList ..

theorem spans_one (he : s ≤ t.length) : Spans t 1 s e ↔ e = s := by
  constructor
  · rintro ⟨hse, he', hmem⟩
    have hlen := length_slice (s := s) (he'.trans_eq (length_toList t).symm)
    rw [(Language.mem_one _).1 hmem, List.length_nil] at hlen
    omega
  · rintro rfl
    exact ⟨Nat.le_refl _, he, (Language.mem_one _).2 (slice_self ..)⟩

/-- A span of a concatenation is cut at some position. -/
theorem spans_mul : Spans t (l * m) s e ↔ ∃ k, Spans t l s k ∧ Spans t m k e := by
  constructor
  · rintro ⟨hse, he, hmem⟩
    obtain ⟨u, hu, v, hv, huv⟩ := Language.mem_mul.1 hmem
    have hle := he.trans_eq (length_toList t).symm
    have hlen := length_slice (s := s) hle
    rw [← huv, List.length_append] at hlen
    -- The text is cut behind the first part, whose length tells where.
    have hsk : s ≤ s + u.length := Nat.le_add_right ..
    have hke : s + u.length ≤ e := by omega
    have hcut := slice_append (w := t.text.toList) hsk hke
    rw [← huv] at hcut
    have hulen : (slice t.text.toList s (s + u.length)).length = u.length := by
      rw [length_slice (hke.trans hle), Nat.add_sub_cancel_left]
    obtain ⟨hleft, hright⟩ := List.append_inj hcut hulen
    refine ⟨s + u.length, ⟨hsk, hke.trans he, ?_⟩, hke, he, ?_⟩
    · rw [hleft]
      exact hu
    · rw [hright]
      exact hv
  · rintro ⟨k, ⟨hsk, -, hu⟩, hke, he, hv⟩
    refine ⟨hsk.trans hke, he, ?_⟩
    rw [← slice_append hsk hke]
    exact Language.append_mem_mul hu hv

/-- The whole text is a span of every language that has it. -/
theorem spans_all {w : List CodePoint} {caseSensitive : Bool} :
    Spans (.ofText w caseSensitive) l 0 w.length ↔ w ∈ l := by
  have hlen : (Subject.ofText w caseSensitive).length = w.length := List.size_toArray ..
  unfold Spans
  rw [hlen, Subject.text_ofText, slice_all]
  exact ⟨fun h => h.2.2, fun h => ⟨Nat.zero_le _, Nat.le_refl _, h⟩⟩

end Spans

end PathSieve.Matching
