import Mathlib.Data.List.Basic
import PathSieve.Matching.AnyStart

namespace PathSieve.Matching

open Pattern

/-!
# Searches

What is known about a search when all that is known of the remembered answers is that they have
some property, which the search must keep.

* `Leads` — a search comes to some result and keeps the property.
* `Keeps` — a search keeps the property, whatever it comes to.
* `Finds` — a search does not stumble.
* `Finds.bind`, `Finds.union`, `Keeps.bind`, `Keeps.mapM` — searches in a row.
* `Memo.find?_insert` — what is found after an answer was added.
-/

/-! ### Remembered answers -/

/-- After an answer was added, only that one is new. -/
theorem Memo.find?_insert {m : Memo} {i j s r : Nat} {p q : Positions}
    (h : (m.insert i s p).find? j r = some q) :
    (j = i ∧ r = s ∧ q = p) ∨ m.find? j r = some q := by
  unfold find? insert at h
  rw [Array.getElem?_modify] at h
  by_cases hij : i = j
  · rw [if_pos hij] at h
    cases hrow : m.rows[j]? with
    | none => simp [hrow] at h
    | some row =>
      have hfind : m.find? j r = (row[r]?).join := by simp [find?, hrow]
      rw [hrow, Option.map_some, Option.bind_some, Array.getElem?_setIfInBounds] at h
      -- The row is filled up with gaps as far as needed, and a gap is no answer.
      by_cases hsr : s = r
      · rw [if_pos hsr] at h
        split at h
        · exact .inl ⟨hij.symm, hsr.symm, (Option.some.inj h).symm⟩
        · cases h
      · rw [if_neg hsr, Array.getElem?_append] at h
        rw [hfind]
        split at h
        · exact .inr h
        · rw [Array.getElem?_replicate] at h
          split at h <;> cases h
  · rw [if_neg hij] at h
    exact .inr h

theorem Memo.find?_empty (size i s : Nat) : (Memo.empty size).find? i s = none := by
  unfold find? empty
  rw [Array.getElem?_replicate]
  split <;> simp

/-! ### Results -/

section Searches

variable {α β : Type} {S : Memo → Prop}

/-- From answers with `S`, a search comes to a result with `Q` and to answers with `S` again. -/
def Leads (S : Memo → Prop) (s : Search α) (Q : Except SegmentError α → Prop) : Prop :=
  ∀ m, S m → Q (s.run.run m).1 ∧ S (s.run.run m).2

/-- A search keeps `S`, also when it stumbles. -/
def Keeps (S : Memo → Prop) (s : Search α) : Prop := Leads S s fun _ => True

/-- A search does not stumble, and what it finds has `Q`. -/
def Finds (S : Memo → Prop) (s : Search α) (Q : α → Prop) : Prop :=
  Leads S s fun r => ∃ x, r = .ok x ∧ Q x

theorem leads_bind {s : Search α} {f : α → Search β} {Q : Except SegmentError α → Prop}
    {R : Except SegmentError β → Prop} (hs : Leads S s Q)
    (hok : ∀ x, Q (.ok x) → Leads S (f x) R) (herror : ∀ e, Q (.error e) → R (.error e)) :
    Leads S (s >>= f) R := by
  intro m hm
  obtain ⟨hq, hm'⟩ := hs m hm
  rw [ExceptT.run_bind, StateT.run_bind]
  cases hr : s.run.run m with
  | mk r m' =>
    rw [hr] at hq hm'
    cases r with
    | ok x => exact hok x hq m' hm'
    -- A search that stumbles keeps what was remembered before.
    | error e => exact ⟨herror e hq, hm'⟩

theorem leads_except {r : Except SegmentError α} {Q : Except SegmentError α → Prop} (h : Q r) :
    Leads S (liftM r) Q := fun _ hm => ⟨h, hm⟩

/-! ### Keeping a property -/

theorem Keeps.pure (x : α) : Keeps S (pure x : Search α) := fun _ hm => ⟨trivial, hm⟩

theorem Keeps.throw (e : SegmentError) : Keeps S (throw e : Search α) := fun _ hm => ⟨trivial, hm⟩

theorem Keeps.bind {s : Search α} {f : α → Search β} (hs : Keeps S s) (hf : ∀ x, Keeps S (f x)) :
    Keeps S (s >>= f) :=
  leads_bind hs (fun x _ => hf x) fun _ _ => trivial

theorem Keeps.mapM {f : α → Search β} {xs : List α} (h : ∀ x ∈ xs, Keeps S (f x)) :
    Keeps S (xs.mapM f) := by
  induction xs with
  | nil =>
    rw [List.mapM_nil]
    exact .pure []
  | cons x xs ih =>
    rw [List.mapM_cons]
    have hx := h x (List.mem_cons_self ..)
    have hxs := ih fun y hy => h y (List.mem_cons_of_mem _ hy)
    exact hx.bind fun y => hxs.bind fun ys => .pure (y :: ys)

theorem Keeps.except (r : Except SegmentError α) : Keeps S (liftM r : Search α) :=
  leads_except trivial

/-! ### Finding a result -/

theorem Finds.keeps {s : Search α} {Q : α → Prop} (h : Finds S s Q) : Keeps S s :=
  fun m hm => ⟨trivial, (h m hm).2⟩

theorem Finds.mono {s : Search α} {Q R : α → Prop} (h : Finds S s Q) (hQR : ∀ x, Q x → R x) :
    Finds S s R := by
  intro m hm
  obtain ⟨⟨x, hx, hq⟩, hm'⟩ := h m hm
  exact ⟨⟨x, hx, hQR x hq⟩, hm'⟩

theorem Finds.pure {Q : α → Prop} {x : α} (h : Q x) : Finds S (pure x : Search α) Q :=
  fun _ hm => ⟨⟨x, rfl, h⟩, hm⟩

theorem Finds.bind {s : Search α} {f : α → Search β} {Q : α → Prop} {R : β → Prop}
    (hs : Finds S s Q) (hf : ∀ x, Q x → Finds S (f x) R) : Finds S (s >>= f) R := by
  refine leads_bind hs (fun x hx => ?_) fun e he => ?_
  · obtain ⟨y, hy, hq⟩ := hx
    obtain rfl := Except.ok.inj hy
    exact hf x hq
  · obtain ⟨y, hy, -⟩ := he
    cases hy

theorem Finds.get : Finds S (get : Search Memo) S := fun m hm => ⟨⟨m, rfl, hm⟩, hm⟩

theorem Finds.modify {f : Memo → Memo} (h : ∀ m, S m → S (f m)) :
    Finds S (modify f : Search PUnit) fun _ => True :=
  fun m hm => ⟨⟨⟨⟩, rfl, trivial⟩, h m hm⟩

theorem Finds.except {r : Except SegmentError α} {Q : α → Prop} {x : α} (hr : r = .ok x)
    (hq : Q x) : Finds S (liftM r : Search α) Q :=
  leads_except ⟨x, hr, hq⟩

/-! ### Unions -/

theorem mem_unionOf {sets : List Positions} {e : Nat} :
    e ∈ unionOf sets ↔ ∃ p ∈ sets, e ∈ p := by
  rw [unionOf, Positions.mem_foldl_union]
  exact or_iff_right (Positions.not_mem_empty e)

/-- The union of what is found for the members of a list. -/
theorem Finds.union {f : α → Search Positions} {xs : List α} {A : α → Nat → Prop}
    (h : ∀ x ∈ xs, Finds S (f x) fun p => ∀ e, e ∈ p ↔ A x e) :
    Finds S (do return unionOf (← xs.mapM f)) fun p => ∀ e, e ∈ p ↔ ∃ x ∈ xs, A x e := by
  -- The answers are collected before they are united.
  have hall : Finds S (xs.mapM f) fun sets => ∀ e, (∃ p ∈ sets, e ∈ p) ↔ ∃ x ∈ xs, A x e := by
    induction xs with
    | nil =>
      rw [List.mapM_nil]
      refine .pure fun e => ?_
      simp
    | cons x xs ih =>
      rw [List.mapM_cons]
      have hx := h x (List.mem_cons_self ..)
      have hxs := ih fun y hy => h y (List.mem_cons_of_mem _ hy)
      refine hx.bind fun p hp => hxs.bind fun sets hsets => .pure fun e => ?_
      rw [List.exists_mem_cons_iff, List.exists_mem_cons_iff, hp, hsets]
  refine hall.bind fun sets hsets => .pure fun e => ?_
  rw [mem_unionOf, hsets]

end Searches

end PathSieve.Matching
