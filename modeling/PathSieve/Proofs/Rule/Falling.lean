import Mathlib.Data.List.Nodup

namespace PathSieve

/-!
# Stable sorting by rank

The stable sort of a list by falling rank.

* `falling_pairwise`, `filter_falling` — the sorted list is in falling order, and the items of one
  rank stay in the order of the list.
* `falling_ext` — a list in falling order is known by its items of each rank.
* `falling_append` — a list that is sorted before more is added comes to the same.
-/

/-- Falling order of rank, the order of a list deciding among equals. -/
def falling {α : Type} (rank : α → Int) (xs : List α) : List α :=
  xs.mergeSort fun x y => rank y ≤ rank x

section Falling

variable {α : Type} {rank : α → Int} {xs : List α}

theorem falling_perm (rank : α → Int) (xs : List α) : (falling rank xs).Perm xs :=
  List.mergeSort_perm xs _

theorem le_trans_of_rank (x y z : α) (hxy : decide (rank y ≤ rank x) = true)
    (hyz : decide (rank z ≤ rank y) = true) : decide (rank z ≤ rank x) = true := by
  simp only [decide_eq_true_eq] at hxy hyz ⊢
  omega

theorem le_total_of_rank (x y : α) :
    (decide (rank y ≤ rank x) || decide (rank x ≤ rank y)) = true := by
  simp only [Bool.or_eq_true, decide_eq_true_eq]
  omega

theorem falling_pairwise (rank : α → Int) (xs : List α) :
    (falling rank xs).Pairwise fun x y => rank y ≤ rank x := by
  have h := List.pairwise_mergeSort (@le_trans_of_rank α rank) le_total_of_rank xs
  exact h.imp fun hxy => of_decide_eq_true hxy

/-- **The sort is stable**: the items of one rank stay in their order. -/
theorem filter_falling (rank : α → Int) (xs : List α) (n : Int) :
    (falling rank xs).filter (rank · = n) = xs.filter (rank · = n) := by
  -- The items of one rank are in order among themselves, so the sort keeps them as a sublist.
  have hsame : (xs.filter (rank · = n)).Pairwise fun x y => decide (rank y ≤ rank x) = true := by
    refine List.pairwise_of_forall_mem_list fun x hx y hy => ?_
    have hxn := of_decide_eq_true (List.mem_filter.1 hx).2
    have hyn := of_decide_eq_true (List.mem_filter.1 hy).2
    exact decide_eq_true (by omega)
  have hsub : (xs.filter (rank · = n)).Sublist (falling rank xs) :=
    List.sublist_mergeSort le_trans_of_rank le_total_of_rank hsame List.filter_sublist
  have hfilter := hsub.filter (rank · = n)
  simp only [List.filter_filter, Bool.and_self] at hfilter
  refine (hfilter.eq_of_length ?_).symm
  exact ((falling_perm rank xs).filter _).length_eq.symm

theorem falling_map {β : Type} (f : β → α) (ys : List β) :
    falling rank (ys.map f) = (falling (rank ∘ f) ys).map f := by
  exact (List.map_mergeSort (s := fun x y => decide (rank y ≤ rank x)) fun _ _ _ _ => rfl).symm

/-- A list in falling order is known by its items of each rank. -/
theorem falling_ext {ys : List α} (hxs : xs.Pairwise fun x y => rank y ≤ rank x)
    (hys : ys.Pairwise fun x y => rank y ≤ rank x)
    (h : ∀ n, xs.filter (rank · = n) = ys.filter (rank · = n)) : xs = ys := by
  have hmem : ∀ x, x ∈ xs ↔ x ∈ ys := by
    intro x
    have hx : x ∈ xs.filter (rank · = rank x) ↔ x ∈ ys.filter (rank · = rank x) := by rw [h]
    simpa using hx
  induction xs generalizing ys with
  | nil =>
    cases ys with
    | nil => rfl
    | cons y ys => exact absurd ((hmem y).2 (List.mem_cons_self ..)) List.not_mem_nil
  | cons x xs ih =>
    cases ys with
    | nil => exact absurd ((hmem x).1 (List.mem_cons_self ..)) List.not_mem_nil
    | cons y ys =>
      obtain ⟨hx, hxs'⟩ := List.pairwise_cons.1 hxs
      obtain ⟨hy, hys'⟩ := List.pairwise_cons.1 hys
      -- Each head is found in the other list, so the two have the same rank.
      have hyx : rank y ≤ rank x := by
        rcases List.mem_cons.1 ((hmem y).2 (List.mem_cons_self ..)) with heq | hmem
        · exact Int.le_of_eq (congrArg rank heq)
        · exact hx y hmem
      have hxy : rank x ≤ rank y := by
        rcases List.mem_cons.1 ((hmem x).1 (List.mem_cons_self ..)) with heq | hmem
        · exact Int.le_of_eq (congrArg rank heq)
        · exact hy x hmem
      have hrank : rank y = rank x := by omega
      have hhead := h (rank x)
      rw [List.filter_cons_of_pos (by simp), List.filter_cons_of_pos (by simp [hrank])] at hhead
      obtain ⟨rfl, -⟩ := List.cons.inj hhead
      have htails : ∀ n, xs.filter (rank · = n) = ys.filter (rank · = n) := by
        intro n
        have hn := h n
        by_cases hxn : rank x = n
        · rw [List.filter_cons_of_pos (by simp [hxn]),
            List.filter_cons_of_pos (by simp [hxn])] at hn
          exact (List.cons.inj hn).2
        · rw [List.filter_cons_of_neg (by simp [hxn]),
            List.filter_cons_of_neg (by simp [hxn])] at hn
          exact hn
      refine congrArg (x :: ·) (ih hxs' hys' htails fun z => ?_)
      have hz : z ∈ xs.filter (rank · = rank z) ↔ z ∈ ys.filter (rank · = rank z) := by rw [htails]
      simpa using hz

/-- A list may be sorted before more items come behind it. -/
theorem falling_append (rank : α → Int) (xs ys : List α) :
    falling rank (falling rank xs ++ ys) = falling rank (xs ++ ys) := by
  refine falling_ext (falling_pairwise rank _) (falling_pairwise rank _) fun n => ?_
  rw [filter_falling, filter_falling, List.filter_append, List.filter_append, filter_falling]

end Falling

end PathSieve
