import PathSieve.Proofs.Matching.Segments
import PathSieve.Proofs.Matching.Verdict

namespace PathSieve

open Text (CodePoint pointsOf)

/-!
# Inversion

A pattern is inverted by its text, as an inverted group, or by its flags. The flag turns the verdict
around, whereas a group without unescaped separators is inverted within a segment, so the two differ
on whole paths of several segments, and so do a group and the group that is inverted twice.

* `Flags.negated` — the flags that ask for the opposite verdict.
* `matchPath_inverse` — inversion by text is inversion by flag, or keeps within a segment.
* `matchPath_inverse_inverse` — what is inverted twice is as it was, or keeps within a segment.
* `inverse_inverse_differs` — neither an escaped separator nor a text that is no pattern by itself
  survives two inversions.
-/

/-! ### Opposite flags -/

/-- The flags that ask for the opposite verdict. -/
def Flags.negated (f : Flags) : Flags := ⟨f.mask ^^^ 1⟩

@[simp] theorem Flags.inversive_negated (f : Flags) : f.negated.inversive = !f.inversive := by
  show (f.mask ^^^ 1).testBit 0 = !f.mask.testBit 0
  rw [Nat.testBit_xor]
  exact Bool.xor_true _

@[simp] theorem Flags.caseSensitive_negated (f : Flags) :
    f.negated.caseSensitive = f.caseSensitive := by
  show (f.mask ^^^ 1).testBit 1 = f.mask.testBit 1
  rw [Nat.testBit_xor]
  exact Bool.xor_false _

@[simp] theorem Flags.fullPath_negated (f : Flags) : f.negated.fullPath = f.fullPath := by
  show (f.mask ^^^ 1).testBit 2 = f.mask.testBit 2
  rw [Nat.testBit_xor]
  exact Bool.xor_false _

namespace Pattern

theorem subjectText_negated (path : List CodePoint) (flags : Flags) :
    subjectText path flags.negated = subjectText path flags := by
  rw [subjectText, subjectText, Flags.fullPath_negated]

/-- A path is tried as a single segment unless it is tried as a whole and has several. -/
theorem subjectText_mem_separatorFree {path : List CodePoint} {flags : Flags}
    (h : flags.fullPath = false ∨ path ∈ separatorFree) :
    subjectText path flags ∈ separatorFree := by
  cases hfull : flags.fullPath with
  | true =>
    rw [subjectText_of_fullPath hfull]
    exact h.resolve_left (by simp [hfull])
  | false =>
    rw [subjectText_of_basename hfull]
    exact basename_mem_separatorFree path

/-! ### Inverted texts -/

section Inverse

variable {x : List CodePoint} {a c d : Arena}

/-- **Inversion by text and by flag.** Unless the whole path is tried by a text without unescaped
separators, a text in an inverted group has the verdict of the text with the opposite flags. If it
is, and the verdict is not negated, the inverted group accepts the paths without separators that the
text does not accept. -/
theorem matchPath_inverse (hx : compile x = .ok a) (hne : x ≠ [])
    (hc : compile (inverse x) = .ok c) (path : List CodePoint) (flags : Flags) :
    (flags.fullPath = false ∨ holdsSplit x = true →
      c.matchPath path flags = a.matchPath path flags.negated) ∧
    (flags.fullPath = true → holdsSplit x = false → flags.inversive = false →
      (c.matchPath path flags = true ↔
        path ∈ separatorFree ∧ a.matchPath path flags = false)) := by
  constructor
  · intro h
    -- Here the group is not bound to a segment, or there is only one.
    have hsegment : holdsSplit x = false → subjectText path flags ∈ separatorFree := by
      intro hsplit
      exact subjectText_mem_separatorFree (.inl (h.resolve_right (by simp [hsplit])))
    rw [Bool.eq_iff_iff, matchPath_eq_true_iff hc, matchPath_eq_true_iff hx,
      mem_inverse hx hne hc, and_iff_right hsegment, subjectText_negated,
      Flags.caseSensitive_negated, Flags.inversive_negated]
    cases flags.inversive with
    | true => simp
    | false => simp
  · intro hfull hsplit hflags
    have hverdict := matchPath_iff hx path hflags
    rw [matchPath_iff hc path hflags, mem_inverse hx hne hc, ← hverdict, Bool.not_eq_true,
      subjectText_of_fullPath hfull]
    exact and_congr_left fun _ => forall_prop_of_true hsplit

/-- `(!a|b/(!c))` against `a|b/(!c)` with the opposite flags, and `(!a$/b)` against `a$/b`, whose
separator is escaped. -/
theorem matchPath_inverse_separators :
    (∃ a c, compile (pointsOf ['a', '|', 'b', '/', '(', '!', 'c', ')']) = .ok a ∧
      compile (inverse (pointsOf ['a', '|', 'b', '/', '(', '!', 'c', ')'])) = .ok c ∧
      ∀ path, c.matchPath path ⟨6⟩ = a.matchPath path ⟨7⟩) ∧
    ∃ a c, compile (pointsOf ['a', '$', '/', 'b']) = .ok a ∧
      compile (inverse (pointsOf ['a', '$', '/', 'b'])) = .ok c ∧
      ∀ path, c.matchPath path ⟨4⟩ = true ↔
        path ∈ separatorFree ∧ a.matchPath path ⟨4⟩ = false := by
  constructor
  · have ha : ∃ a, compile (pointsOf ['a', '|', 'b', '/', '(', '!', 'c', ')']) = .ok a := ⟨_, rfl⟩
    have hc : ∃ c, compile (inverse (pointsOf ['a', '|', 'b', '/', '(', '!', 'c', ')'])) = .ok c :=
      ⟨_, rfl⟩
    obtain ⟨a, ha⟩ := ha
    obtain ⟨c, hc⟩ := hc
    exact ⟨a, c, ha, hc, fun path =>
      (matchPath_inverse ha (by decide) hc path ⟨6⟩).1 (.inr (by decide))⟩
  · have ha : ∃ a, compile (pointsOf ['a', '$', '/', 'b']) = .ok a := ⟨_, rfl⟩
    have hc : ∃ c, compile (inverse (pointsOf ['a', '$', '/', 'b'])) = .ok c := ⟨_, rfl⟩
    obtain ⟨a, ha⟩ := ha
    obtain ⟨c, hc⟩ := hc
    exact ⟨a, c, ha, hc, fun path =>
      (matchPath_inverse ha (by decide) hc path ⟨4⟩).2 rfl (by decide) rfl⟩

/-- **What is inverted twice.** A text in a group that is inverted twice has the verdict of the text
in parentheses unless the whole path is tried, the path has separators and the text has none but
escaped ones. A text without unescaped separators that is inverted twice accepts no whole path with
separators. -/
theorem matchPath_inverse_inverse (hx : compile x = .ok a) (hne : x ≠ [])
    (hhead : x.head? ≠ some (.char '!')) (hc : compile (grouped x) = .ok c)
    (hd : compile (inverse (inverse x)) = .ok d) (path : List CodePoint) (flags : Flags) :
    (flags.fullPath = false ∨ holdsSplit x = true ∨ x ∈ separatorFree ∨ path ∈ separatorFree →
      d.matchPath path flags = c.matchPath path flags) ∧
    (flags.fullPath = true → holdsSplit x = false → path ∉ separatorFree →
      d.matchPath path flags = flags.inversive) := by
  constructor
  · intro h
    refine matchPath_congr hd hc path rfl ?_
    rw [mem_inverse_inverse hx hne hd, language_grouped hx hne hhead hc]
    -- In each of these cases what the group accepts stays within a segment, if it has to.
    refine and_iff_right_of_imp fun hmem hsplit => ?_
    rcases h with hfull | hholds | hfree | hpath
    · exact subjectText_mem_separatorFree (.inl hfull)
    · rw [hsplit] at hholds
      cases hholds
    · exact language_inSegment hx hne hfree _ hmem
    · exact subjectText_mem_separatorFree (.inr hpath)
  · intro hfull hsplit hpath
    have hno : subjectText path flags ∉ d.tree.language flags.caseSensitive := by
      rw [mem_inverse_inverse hx hne hd, subjectText_of_fullPath hfull]
      exact fun h => hpath (h.1 hsplit)
    rw [Bool.eq_iff_iff, matchPath_eq_true_iff hd, iff_false_left hno, Bool.not_eq_false]

/-- `(!(!a$/b|(!c)))` against `(a$/b|(!c))`, on last segments and on whole paths with separators. -/
theorem matchPath_inverse_inverse_escaped :
    ∃ c d, compile (grouped (pointsOf ['a', '$', '/', 'b', '|', '(', '!', 'c', ')'])) = .ok c ∧
      compile (inverse (inverse (pointsOf ['a', '$', '/', 'b', '|', '(', '!', 'c', ')']))) = .ok d ∧
      (∀ path, d.matchPath path .none = c.matchPath path .none) ∧
      d.matchPath (pointsOf ['a', '/', 'b']) ⟨4⟩ = false := by
  have ha : ∃ a, compile (pointsOf ['a', '$', '/', 'b', '|', '(', '!', 'c', ')']) = .ok a :=
    ⟨_, rfl⟩
  have hc : ∃ c, compile (grouped (pointsOf ['a', '$', '/', 'b', '|', '(', '!', 'c', ')'])) =
    .ok c := ⟨_, rfl⟩
  have hd : ∃ d, compile (inverse (inverse
    (pointsOf ['a', '$', '/', 'b', '|', '(', '!', 'c', ')']))) = .ok d := ⟨_, rfl⟩
  obtain ⟨a, ha⟩ := ha
  obtain ⟨c, hc⟩ := hc
  obtain ⟨d, hd⟩ := hd
  have hpath : pointsOf ['a', '/', 'b'] ∉ separatorFree :=
    fun h => absurd (h (.char '/') (by decide)) (by decide)
  refine ⟨c, d, hc, hd, fun path => ?_, ?_⟩
  · exact (matchPath_inverse_inverse ha (by decide) (by decide) hc hd path .none).1 (.inl rfl)
  · exact (matchPath_inverse_inverse ha (by decide) (by decide) hc hd _ ⟨4⟩).2 rfl (by decide) hpath

/-- Two inversions are not always undone by each other. The whole path `a/b` is accepted by `(a$/b)`
and not by `(!(!a$/b))`; and where `a)(b`, which is no pattern by itself, is put between parentheses
and inverted twice, they close other groups, so the empty path is accepted by `(!(!a)(b))` and not by
`(a)(b)`. -/
theorem inverse_inverse_differs :
    (∃ c d, compile (grouped (pointsOf ['a', '$', '/', 'b'])) = .ok c ∧
      compile (inverse (inverse (pointsOf ['a', '$', '/', 'b']))) = .ok d ∧
      c.matchPath (pointsOf ['a', '/', 'b']) ⟨4⟩ = true ∧
      d.matchPath (pointsOf ['a', '/', 'b']) ⟨4⟩ = false) ∧
    ∃ c d, compile (grouped (pointsOf ['a', ')', '(', 'b'])) = .ok c ∧
      compile (inverse (inverse (pointsOf ['a', ')', '(', 'b']))) = .ok d ∧
      c.matchPath [] .none = false ∧ d.matchPath [] .none = true :=
  ⟨⟨_, _, rfl, rfl, by decide +kernel, by decide +kernel⟩,
    ⟨_, _, rfl, rfl, by decide +kernel, by decide +kernel⟩⟩

end Inverse

end Pattern

end PathSieve
