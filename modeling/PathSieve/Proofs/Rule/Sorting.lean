import Mathlib.Algebra.Order.Group.Multiset
import Mathlib.Tactic.Abel
import PathSieve.Rule.Ordering

namespace PathSieve

/-!
# Sorting loses no item

A sort may break off at two items without an order. Whether it does or not, the items that it
leaves behind are those that it was given, in some order. So it is with each of its steps.

* `itemsAfter` — the items after a step, be they in its result or in the list that it leaves.
* `itemsAfter_firstRun` — runs that are filled up by insertion.
* `Merge.itemsAfter_run`, `itemsAfter_mergeRuns` — two runs that are merged.
* `itemsAfter_sortRest`, `sortFalling_perm` — the whole sort.
-/

variable {α β : Type}

/-- The items after a step, be they in its result or in the list that it leaves behind. -/
def itemsAfter (items : β → Multiset α) : Except (List α) β → Multiset α
  | .ok b => items b
  | .error ys => ys

@[simp] theorem itemsAfter_ok (items : β → Multiset α) (b : β) :
    itemsAfter items (.ok b) = items b := rfl

@[simp] theorem itemsAfter_error (items : β → Multiset α) (ys : List α) :
    itemsAfter items (.error ys : Except (List α) β) = ys := rfl

/-- A list is cut in two. -/
theorem coe_take_add_coe_drop (n : Nat) (xs : List α) :
    (↑(xs.take n) + ↑(xs.drop n) : Multiset α) = ↑xs := by
  rw [Multiset.coe_add, List.take_append_drop]

/-! ### Runs -/

theorem coe_headRun {lt? : α → α → Option Bool} {xs run rest : List α}
    (h : headRun lt? xs = some (run, rest)) : (↑run + ↑rest : Multiset α) = ↑xs := by
  unfold headRun at h
  split at h
  · cases h
    rfl
  · cases h
    rfl
  · rename_i x y more
    simp only [Option.bind_eq_bind, Option.bind_eq_some_iff] at h
    obtain ⟨falling, -, n, -, hrun⟩ := h
    cases hrun
    -- A falling run is turned round, which does not matter to its items.
    have hitems : (↑(if falling then (x :: y :: more.take n).reverse else x :: y :: more.take n) :
        Multiset α) = ↑(x :: y :: more.take n) := by
      split
      · exact Multiset.coe_reverse _
      · rfl
    rw [hitems, Multiset.coe_add, List.cons_append, List.cons_append, List.take_append_drop]

theorem itemsAfter_insertAll (lt? : α → α → Option Bool) (run xs : List α) :
    itemsAfter Multiset.ofList (insertAll lt? run xs) = (↑run + ↑xs : Multiset α) := by
  induction xs generalizing run with
  | nil => simp [insertAll]
  | cons x rest ih =>
    rw [insertAll]
    split
    · simp
    · rename_i i _
      rw [ih, ← coe_take_add_coe_drop i run]
      simp only [← Multiset.coe_add, ← Multiset.cons_coe, ← Multiset.singleton_add]
      abel

theorem itemsAfter_firstRun (lt? : α → α → Option Bool) (least : Nat) (xs : List α) :
    itemsAfter (fun p => ↑p.1 + ↑p.2) (firstRun lt? least xs) = (↑xs : Multiset α) := by
  unfold firstRun
  split
  · rfl
  · rename_i run rest hhead
    have hinsert := itemsAfter_insertAll lt? run (rest.take (least - run.length))
    rw [← coe_headRun hhead, ← coe_take_add_coe_drop (least - run.length) rest, ← add_assoc,
      ← hinsert]
    simp only
    split
    · rename_i ys herror
      rw [herror, itemsAfter_error, itemsAfter_error, ← Multiset.coe_add]
    · rename_i ys hok
      rw [hok]
      rfl

/-! ### Merging -/

namespace Merge

variable {m m' : Merge α} {lt? : α → α → Option Bool}

/-- The items of a merge, wherever they stand. -/
def content (m : Merge α) : Multiset α := ↑m.merged + (↑m.left + ↑m.right)

theorem coe_items (m : Merge α) : (↑m.items : Multiset α) = m.content := by
  unfold items content
  split
  · simp only [← Multiset.coe_add, Multiset.coe_reverse]
    abel
  · simp only [← Multiset.coe_add, Multiset.coe_reverse]
    abel

theorem coe_finish (m : Merge α) : (↑m.finish : Multiset α) = m.content := by
  unfold finish content
  split
  · simp only [← Multiset.coe_add, Multiset.coe_reverse]
    abel
  · simp only [← Multiset.coe_add, Multiset.coe_reverse]
    abel

@[simp] theorem content_takeLeft (m : Merge α) (n : Nat) : (m.takeLeft n).content = m.content := by
  have hleft := coe_take_add_coe_drop n m.left
  simp only [content, takeLeft, ← Multiset.coe_add, Multiset.coe_reverse, ← hleft]
  abel

@[simp] theorem content_takeRight (m : Merge α) (n : Nat) :
    (m.takeRight n).content = m.content := by
  have hright := coe_take_add_coe_drop n m.right
  simp only [content, takeRight, ← Multiset.coe_add, Multiset.coe_reverse, ← hright]
  abel

/-- A winning streak moves items only. -/
theorem content_streakLeft {n : Nat} (h : m.streakLeft lt? = some (m', n)) :
    m'.content = m.content := by
  unfold streakLeft at h
  split at h
  · cases h
    rfl
  · obtain ⟨k, -, hk⟩ := Option.map_eq_some_iff.1 h
    obtain ⟨rfl, rfl⟩ := Prod.mk.inj hk
    split
    · exact content_takeLeft m k
    · rw [content_takeRight, content_takeLeft]

theorem content_streakRight {n : Nat} (h : m.streakRight lt? = some (m', n)) :
    m'.content = m.content := by
  unfold streakRight at h
  split at h
  · cases h
    rfl
  · obtain ⟨k, -, hk⟩ := Option.map_eq_some_iff.1 h
    obtain ⟨rfl, rfl⟩ := Prod.mk.inj hk
    split
    · exact content_takeRight m k
    · rw [content_takeLeft, content_takeRight]

theorem itemsAfter_round (lt? : α → α → Option Bool) (m : Merge α) (pace : Pace) :
    itemsAfter (·.1.content) (m.round lt? pace) = m.content := by
  cases pace with
  | single leftWins rightWins =>
    simp only [round]
    split
    · split
      · exact m.coe_items
      · split
        · exact content_takeLeft m 1
        · exact content_takeRight m 1
    · rfl
  | strides =>
    simp only [round]
    split
    · exact m.coe_items
    · rename_i m₁ n hleft
      have hcontent := content_streakLeft hleft
      split
      · exact hcontent
      · split
        · rw [itemsAfter_error, coe_items, hcontent]
        · rename_i m₂ n' hright
          rw [← hcontent, ← content_streakRight hright]
          split
          · rfl
          · split
            · rfl
            · rfl

theorem itemsAfter_run (lt? : α → α → Option Bool) (fuel : Nat) (pace : Pace) (m : Merge α) :
    itemsAfter content (m.run lt? fuel pace) = m.content := by
  induction fuel generalizing pace m with
  | zero => rfl
  | succ fuel ih =>
    rw [run]
    split
    · rfl
    · have hround := m.itemsAfter_round lt? pace
      cases hstep : m.round lt? pace with
      | error ys =>
        rw [hstep] at hround
        exact hround
      | ok next =>
        rw [hstep] at hround
        exact (ih next.2 next.1).trans hround

end Merge

theorem itemsAfter_mergeOverlap (lt? : α → α → Option Bool) (patience : Nat) (a b : List α) :
    itemsAfter (fun r => Multiset.ofList r.1) (mergeOverlap lt? patience a b) =
      (↑a + ↑b : Multiset α) := by
  unfold mergeOverlap
  -- The side from which the runs are merged decides in which order they are held.
  have hstart : (if a.length ≤ b.length then (Merge.mk false [] a b patience).takeRight 1
      else (Merge.mk true [] a.reverse b.reverse patience).takeLeft 1).content =
        (↑a + ↑b : Multiset α) := by
    split
    · rw [Merge.content_takeRight]
      simp [Merge.content]
    · rw [Merge.content_takeLeft]
      simp [Merge.content]
  generalize (if a.length ≤ b.length then (Merge.mk false [] a b patience).takeRight 1
      else (Merge.mk true [] a.reverse b.reverse patience).takeLeft 1) = m at hstart
  have hrun := m.itemsAfter_run lt? (a.length + b.length) (.single 0 0)
  simp only
  cases hdone : m.run lt? (a.length + b.length) (.single 0 0) with
  | error ys =>
    rw [hdone, hstart] at hrun
    exact hrun
  | ok m' =>
    rw [hdone, hstart] at hrun
    exact (m'.coe_finish).trans hrun

theorem itemsAfter_mergeRuns (lt? : α → α → Option Bool) (patience : Nat) (a b : List α) :
    itemsAfter (fun r => Multiset.ofList r.1) (mergeRuns lt? patience a b) =
      (↑a + ↑b : Multiset α) := by
  unfold mergeRuns
  split
  · rename_i hnone
    simp [List.head?_eq_none_iff.1 hnone]
  · split
    · simp
    · rename_i n _
      split
      · simp
      · split
        · simp
        · simp
        · rename_i k _ _
          have hoverlap := itemsAfter_mergeOverlap lt? patience (a.drop n) (b.take k)
          rw [← coe_take_add_coe_drop n a, ← coe_take_add_coe_drop k b]
          simp only
          split
          · rename_i xs herror
            rw [herror, itemsAfter_error] at hoverlap
            rw [itemsAfter_error, ← Multiset.coe_add, ← Multiset.coe_add, hoverlap]
            abel
          · rename_i xs patience' hok
            rw [hok, itemsAfter_ok] at hoverlap
            rw [itemsAfter_ok, ← Multiset.coe_add, ← Multiset.coe_add, hoverlap]
            abel

/-! ### Waiting runs -/

theorem Waiting.coe_items_cons (run : List α) (depth : Nat) (w : Waiting α) :
    (↑(Waiting.items ((run, depth) :: w)) : Multiset α) = ↑(Waiting.items w) + ↑run := by
  simp [Waiting.items]

theorem itemsAfter_mergeDeeper (lt? : α → α → Option Bool) (depth fuel patience : Nat)
    (w : Waiting α) : itemsAfter (fun r => ↑(Waiting.items r.1))
      (mergeDeeper lt? depth fuel patience w) = (↑(Waiting.items w) : Multiset α) := by
  induction fuel generalizing patience w with
  | zero => rfl
  | succ fuel ih =>
    unfold mergeDeeper
    split
    · rename_i b db a da rest
      split
      · have hmerge := itemsAfter_mergeRuns lt? patience a b
        split
        · rename_i xs herror
          rw [herror, itemsAfter_error] at hmerge
          rw [itemsAfter_error, ← Multiset.coe_add, hmerge, Waiting.coe_items_cons,
            Waiting.coe_items_cons, add_assoc]
        · rename_i xs patience' hok
          rw [hok, itemsAfter_ok] at hmerge
          rw [ih, Waiting.coe_items_cons, hmerge, Waiting.coe_items_cons, Waiting.coe_items_cons,
            add_assoc]
      · rfl
    · rfl

theorem itemsAfter_makeRoom (lt? : α → α → Option Bool) (n size patience : Nat) (w : Waiting α) :
    itemsAfter (fun r => ↑(Waiting.items r.1)) (makeRoom lt? n size patience w) =
      (↑(Waiting.items w) : Multiset α) := by
  unfold makeRoom
  split
  · rfl
  · rename_i last d rest
    have hmerge := itemsAfter_mergeDeeper lt?
      (boundaryDepth n (2 * n) (2 * (Waiting.items rest).length + last.length)
        (2 * (Waiting.items rest).length + last.length + last.length + size))
      (List.length ((last, d) :: rest)) patience ((last, d) :: rest)
    simp only
    split
    · rename_i xs herror
      rw [herror] at hmerge
      exact hmerge
    · rename_i last' d' rest' patience' hok
      rw [hok, itemsAfter_ok, Waiting.coe_items_cons] at hmerge
      rw [itemsAfter_ok, Waiting.coe_items_cons, hmerge]
    · rename_i patience' hok
      rw [hok] at hmerge
      exact hmerge

theorem itemsAfter_mergeAll (lt? : α → α → Option Bool) (fuel patience : Nat) (w : Waiting α) :
    itemsAfter Multiset.ofList (mergeAll lt? fuel patience w) =
      (↑(Waiting.items w) : Multiset α) := by
  induction fuel generalizing patience w with
  | zero => rfl
  | succ fuel ih =>
    unfold mergeAll
    split
    · rename_i c dc b db rest
      split
      · split
        · rename_i a da more _
          have hmerge := itemsAfter_mergeRuns lt? patience a b
          split
          · rename_i xs herror
            rw [herror, itemsAfter_error] at hmerge
            simp only [itemsAfter_error, ← Multiset.coe_add, hmerge, Waiting.coe_items_cons]
            abel
          · rename_i xs patience' hok
            rw [hok, itemsAfter_ok] at hmerge
            simp only [ih, Waiting.coe_items_cons, hmerge]
            abel
        · simp [Waiting.items]
      · have hmerge := itemsAfter_mergeRuns lt? patience b c
        split
        · rename_i xs herror
          rw [herror, itemsAfter_error] at hmerge
          rw [itemsAfter_error, ← Multiset.coe_add, hmerge, Waiting.coe_items_cons,
            Waiting.coe_items_cons, add_assoc]
        · rename_i xs patience' hok
          rw [hok, itemsAfter_ok] at hmerge
          rw [ih, Waiting.coe_items_cons, hmerge, Waiting.coe_items_cons, Waiting.coe_items_cons,
            add_assoc]
    · rfl

/-! ### The sort -/

/-- A run takes at least one item. -/
theorem length_lt_of_firstRun {lt? : α → α → Option Bool} {least : Nat} {xs run rest : List α}
    (h : firstRun lt? least xs = .ok (run, rest)) (hxs : xs ≠ []) : rest.length < xs.length := by
  unfold firstRun at h
  split at h
  · cases h
  · rename_i head more hhead
    have hmore : more.length < xs.length := by
      unfold headRun at hhead
      split at hhead
      · exact absurd rfl hxs
      · cases hhead
        simp
      · simp only [Option.bind_eq_bind, Option.bind_eq_some_iff] at hhead
        obtain ⟨falling, -, n, -, hrun⟩ := hhead
        cases hrun
        simp only [List.length_drop, List.length_cons]
        omega
    simp only at h
    split at h
    · cases h
    · cases h
      rw [List.length_drop]
      omega

theorem itemsAfter_sortRest (lt? : α → α → Option Bool) (n : Nat) {fuel : Nat} {xs : List α}
    (h : xs.length ≤ fuel) (patience : Nat) (w : Waiting α) :
    itemsAfter Multiset.ofList (sortRest lt? n fuel patience w xs) =
      (↑(Waiting.items w) + ↑xs : Multiset α) := by
  induction fuel generalizing patience w xs with
  | zero =>
    have hnil : xs = [] := List.length_eq_zero_iff.1 (Nat.le_zero.1 h)
    rw [hnil, sortRest, itemsAfter_mergeAll, Multiset.coe_nil, add_zero]
  | succ fuel ih =>
    rw [sortRest]
    split
    · rename_i hempty
      rw [List.isEmpty_iff.1 hempty, itemsAfter_mergeAll, Multiset.coe_nil, add_zero]
    · rename_i hfull
      have hfirst := itemsAfter_firstRun lt? (leastRun false n) xs
      split
      · rename_i ys herror
        rw [herror, itemsAfter_error] at hfirst
        rw [itemsAfter_error, ← Multiset.coe_add, hfirst]
      · rename_i run rest hrun
        have hlength : rest.length < xs.length :=
          length_lt_of_firstRun hrun fun hnil => hfull (List.isEmpty_iff.2 hnil)
        rw [hrun, itemsAfter_ok] at hfirst
        have hroom := itemsAfter_makeRoom lt? n run.length patience w
        split
        · rename_i ys herror
          rw [herror, itemsAfter_error] at hroom
          rw [itemsAfter_error, ← Multiset.coe_add, ← Multiset.coe_add, hroom, ← hfirst, add_assoc]
        · rename_i w' patience' hok
          rw [hok, itemsAfter_ok] at hroom
          rw [ih (by omega), Waiting.coe_items_cons, hroom, ← hfirst, add_assoc]

theorem sortRising_perm (lt? : α → α → Option Bool) (xs : List α) :
    (sortRising lt? xs).1.Perm xs := by
  have hsort := itemsAfter_sortRest lt? xs.length (Nat.le_refl xs.length) Merge.longStreak []
  rw [← Multiset.coe_eq_coe]
  unfold sortRising
  split
  · rename_i ys herror
    rw [herror] at hsort
    simpa [Waiting.items] using hsort
  · rename_i ys hok
    rw [hok] at hsort
    simpa [Waiting.items] using hsort

/-- **Sorting loses nothing**, even if it breaks off. -/
theorem sortFalling_perm (priority : α → Value) (xs : List α) :
    (sortFalling priority xs).1.Perm xs := by
  unfold sortFalling
  split
  · exact List.mergeSort_perm xs _
  · have hrising := sortRising_perm (fun x y => (priority x).lt? (priority y)) xs.reverse
    exact (List.reverse_perm _).trans (hrising.trans (List.reverse_perm xs))

end PathSieve
