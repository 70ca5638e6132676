import PathSieve.Proofs.Matching.Segments
import PathSieve.Proofs.Matching.Verdict

namespace PathSieve.Pattern

open Text (CodePoint pointsOf)

/-!
# Depth

Behind a path wildcard a pattern is tried at every depth of a path, that is, wherever a segment
begins. For a pattern within a segment only the last segment is left to try, which is what is tried
anyway unless the whole path is.

* `matchPath_anyDepth` — a group behind a path wildcard, by the segments of the path.
* `matchPath_eq_anyDepth` — the last segment by itself, and at any depth.
-/

section AnyDepth

variable {x : List CodePoint} {a c : Arena}

/-- **A path wildcard stands for any depth.** On whole paths, a text in a group behind a path
wildcard accepts what ends in something that the text accepts, from the start of a segment on. -/
theorem matchPath_anyDepth (hx : compile x = .ok a) (hne : x ≠ [])
    (hhead : x.head? ≠ some (.char '!')) (hc : compile (anyDepth x) = .ok c)
    (path : List CodePoint) {flags : Flags} (hfull : flags.fullPath = true)
    (hflags : flags.inversive = false) :
    c.matchPath path flags = true ↔
      ∃ b, SegmentStart path b ∧ a.matchPath (path.drop b) flags = true := by
  rw [matchPath_iff hc path hflags, subjectText_of_fullPath hfull,
    language_anyDepth hx hne hhead hc, mem_wholeSegments_mul]
  refine exists_congr fun b => and_congr_right fun _ => ?_
  rw [matchPath_iff hx _ hflags, subjectText_of_fullPath hfull]

/-- `**/((!a)|b/*)` on any path, by what `(!a)|b/*` accepts. -/
theorem matchPath_anyDepth_mixed :
    ∃ a c, compile (pointsOf ['(', '!', 'a', ')', '|', 'b', '/', '*']) = .ok a ∧
      compile (anyDepth (pointsOf ['(', '!', 'a', ')', '|', 'b', '/', '*'])) = .ok c ∧
      ∀ path, c.matchPath path ⟨4⟩ = true ↔
        ∃ b, SegmentStart path b ∧ a.matchPath (path.drop b) ⟨4⟩ = true := by
  have ha : ∃ a, compile (pointsOf ['(', '!', 'a', ')', '|', 'b', '/', '*']) = .ok a := ⟨_, rfl⟩
  have hc : ∃ c, compile (anyDepth (pointsOf ['(', '!', 'a', ')', '|', 'b', '/', '*'])) = .ok c :=
    ⟨_, rfl⟩
  obtain ⟨a, ha⟩ := ha
  obtain ⟨c, hc⟩ := hc
  exact ⟨a, c, ha, hc, fun path =>
    matchPath_anyDepth ha (by decide) (by decide) hc path rfl rfl⟩

/-- **Last segments are found at any depth.** A text without separators has the same verdict on the
last segment of a path as it has in a group behind a path wildcard on the whole path, whether or not
case matters and the verdict is negated. -/
theorem matchPath_eq_anyDepth (hx : compile x = .ok a) (hne : x ≠ [])
    (hhead : x.head? ≠ some (.char '!')) (hfree : ∀ p ∈ x, isSeparator p = false)
    (hc : compile (anyDepth x) = .ok c) (path : List CodePoint) {f g : Flags}
    (hf : f.fullPath = false) (hg : g.fullPath = true) (hcase : f.caseSensitive = g.caseSensitive)
    (hflags : f.inversive = g.inversive) : a.matchPath path f = c.matchPath path g := by
  refine matchPath_congr hx hc path hflags ?_
  rw [subjectText_of_basename hf, subjectText_of_fullPath hg, hcase,
    language_anyDepth hx hne hhead hc]
  -- The text stays within a segment, so only the last one is left behind whole segments.
  exact (mem_wholeSegments_mul_iff_basename (language_inSegment hx hne hfree)).symm

/-- `(!a)&*.c` on last segments and `**/((!a)&*.c)` on whole paths, with the verdict negated. -/
theorem matchPath_eq_anyDepth_negated :
    ∃ a c, compile (pointsOf ['(', '!', 'a', ')', '&', '*', '.', 'c']) = .ok a ∧
      compile (anyDepth (pointsOf ['(', '!', 'a', ')', '&', '*', '.', 'c'])) = .ok c ∧
      ∀ path, a.matchPath path ⟨1⟩ = c.matchPath path ⟨5⟩ := by
  have ha : ∃ a, compile (pointsOf ['(', '!', 'a', ')', '&', '*', '.', 'c']) = .ok a := ⟨_, rfl⟩
  have hc : ∃ c, compile (anyDepth (pointsOf ['(', '!', 'a', ')', '&', '*', '.', 'c'])) = .ok c :=
    ⟨_, rfl⟩
  obtain ⟨a, ha⟩ := ha
  obtain ⟨c, hc⟩ := hc
  exact ⟨a, c, ha, hc, fun path =>
    matchPath_eq_anyDepth ha (by decide) (by decide) (by decide) hc path rfl rfl rfl rfl⟩

end AnyDepth

end PathSieve.Pattern
