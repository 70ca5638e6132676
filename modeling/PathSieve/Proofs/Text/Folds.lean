import Mathlib.Data.List.Basic
import PathSieve.Text.CaseFold

namespace PathSieve.Text

/-!
# Folds

What is known of case folds beyond their table: a character that stands outside of all runs of images
is the fold of no other one, so letters are never taken for signs.

* `CaseMap.apply_cases` — where the image of a character comes from.
* `OutsideFolds` — a character between the images of the table.
* `eq_of_caseFold_eq`, `CodePoint.eq_of_fold_eq` — such a character is the fold of itself only.
-/

theorem CaseMap.lookup_eq_some {n m : Nat} {runs : List CaseRun}
    (h : CaseMap.lookup n runs = some m) : ∃ r ∈ runs, r.image? n = some m := by
  induction runs with
  | nil => cases h
  | cons r rs ih =>
    rw [CaseMap.lookup] at h
    split at h
    · cases h
    · rcases Option.or_eq_some_iff.1 h with himage | ⟨-, hrest⟩
      · exact ⟨r, List.mem_cons_self .., himage⟩
      · obtain ⟨q, hq, himage⟩ := ih hrest
        exact ⟨q, List.mem_cons_of_mem _ hq, himage⟩

/-- A character goes to an image of a run, to an expansion or to itself. -/
theorem CaseMap.apply_cases (m : CaseMap) (c : Char) :
    (∃ r ∈ m.runs, ∃ n, r.image? c.toNat = some n ∧ m.apply c = [Char.ofNat n]) ∨
      (∃ p ∈ m.expansions, m.apply c = p.2.map Char.ofNat) ∨ m.apply c = [c] := by
  unfold apply
  split
  · rename_i n hlookup
    obtain ⟨r, hr, himage⟩ := CaseMap.lookup_eq_some hlookup
    exact .inl ⟨r, hr, n, himage, rfl⟩
  · split
    · exact .inr (.inr rfl)
    · split
      · rename_i ns hlookup
        obtain ⟨before, after, hexpansions, -⟩ := List.lookup_eq_some_iff.1 hlookup
        refine .inr (.inl ⟨(c.toNat, ns), ?_, rfl⟩)
        rw [hexpansions]
        exact List.mem_append_right _ (List.mem_cons_self ..)
      · exact .inr (.inr rfl)

/-- The images of a run lie between those of its ends, other than one that is cut off below the first
code. -/
theorem CaseRun.image_between {r : CaseRun} {n m : Nat} (h : r.image? n = some m) (hpos : 0 < m) :
    r.first + r.shift ≤ m ∧ m ≤ r.last + r.shift := by
  unfold image? at h
  split at h
  · rename_i hn
    obtain rfl := Option.some.inj h
    omega
  · cases h

/-- A character that stands outside of the images of every run of the table. -/
def OutsideFolds (d : Char) : Prop :=
  0 < d.toNat ∧ ∀ r ∈ foldRuns, (d.toNat : Int) < r.first + r.shift ∨ r.last + r.shift < d.toNat

instance (d : Char) : Decidable (OutsideFolds d) :=
  inferInstanceAs (Decidable (0 < d.toNat ∧ ∀ r ∈ foldRuns, _))

/-- A character outside of all images is the fold of no other one. -/
theorem eq_of_caseFold_eq {c d : Char} (hd : OutsideFolds d) (h : caseFold c = [d]) : c = d := by
  obtain ⟨hpos, hruns⟩ := hd
  have hlong : ∀ p ∈ foldExpansions, p.2.length ≠ 1 := by decide +kernel
  rcases CaseMap.apply_cases ⟨foldRuns, foldExpansions⟩ c with
    ⟨r, hr, n, himage, happly⟩ | ⟨p, hp, happly⟩ | happly
  · obtain rfl := List.singleton_inj.1 (happly.symm.trans h)
    -- The code of no character would read as the first one, which is before `d`.
    have hcode : (Char.ofNat n).toNat = n ∨ (Char.ofNat n).toNat = 0 := by
      by_cases hvalid : n.isValidChar
      · rw [Char.ofNat, dif_pos hvalid]
        exact .inl rfl
      · rw [Char.ofNat, dif_neg hvalid]
        exact .inr rfl
    have hn : (Char.ofNat n).toNat = n := by omega
    have hbetween := CaseRun.image_between himage (by omega)
    have houtside := hruns r hr
    omega
  -- An expansion is no single character.
  · have hlen := congrArg List.length (happly.symm.trans h)
    rw [List.length_map, List.length_singleton] at hlen
    exact absurd hlen (hlong p hp)
  · exact List.singleton_inj.1 (happly.symm.trans h)

theorem CodePoint.eq_of_fold_eq {p : CodePoint} {d : Char} (hd : OutsideFolds d)
    (h : p.fold = [.char d]) : p = .char d := by
  cases p with
  | char c =>
    obtain ⟨e, he, hchar⟩ := List.map_eq_singleton_iff.1 h
    obtain rfl := CodePoint.char.inj hchar
    rw [eq_of_caseFold_eq hd he]
  | surrogate n => cases h

end PathSieve.Text
