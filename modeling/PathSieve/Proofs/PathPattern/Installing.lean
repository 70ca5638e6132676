import PathSieve.PathPattern.Basic

namespace PathSieve.PathPattern

open Pattern (Arena compile)
open Text (CodePoint pointsOf)

/-!
# Installing texts

What the operations on one pattern do with the text of their argument: they install it, compiled,
or they are refused.

* `textOf`, `Installable` — the text that an argument gives, and whether it compiles.
* `Reflects` — a pattern is what was last installed into it.
* `set_eq_ok_iff` — what is set; `set_reflects`, `setPattern_reflects`, `make_reflects` — it is the
  text of the argument.
* `exists_set_iff`, `exists_setPattern_iff`, `exists_make_iff` — when anything is set.
* `Reflects.verdicts` — the verdicts of a pattern are those of its text.
-/

/-! ### Arguments -/

/-- The text that an argument gives: that of another pattern, or its own. -/
def textOf (find : Nat → List CodePoint) : Argument → Option (List CodePoint)
  | .pattern place => some (find place)
  | a => a.points?

/-- An argument gives a text that compiles. -/
def Installable (find : Nat → List CodePoint) (pattern : Argument) : Prop :=
  ∃ text a, textOf find pattern = some text ∧ compile text = .ok a

/-- An argument stands for flags. -/
def Readable (flags : Argument) : Prop := ∃ f, flagsOf flags = .ok f

/-! ### Installation -/

/-- A pattern is what was last installed into it. -/
def Reflects (p : PathPattern) : Option (List CodePoint) → Prop
  | none => p.compiled = none ∧ p.text = []
  | some text => p.text = text ∧ ∃ a, p.compiled = some a ∧ compile text = .ok a

theorem reflects_blank (flags : Flags) : (blank flags).Reflects none := ⟨rfl, rfl⟩

/-- Flags do not matter to what a pattern reflects. -/
theorem Reflects.withFlags {p : PathPattern} {installed : Option (List CodePoint)}
    (h : p.Reflects installed) (flags : Flags) :
    ({ p with flags } : PathPattern).Reflects installed := by
  cases installed with
  | none => exact h
  | some text => exact h

theorem Reflects.text_eq {p : PathPattern} {installed : Option (List CodePoint)}
    (h : p.Reflects installed) : p.text = installed.getD [] := by
  cases installed with
  | none => exact h.2
  | some text => exact h.1

theorem arenaOf_eq_ok_iff {exhausted : Bool} {text : List CodePoint} {a : Arena} :
    arenaOf exhausted text = .ok a ↔ exhausted = false ∧ compile text = .ok a := by
  constructor
  · intro h
    unfold arenaOf at h
    split at h
    · cases h
    · split at h
      · cases h
      · rename_i hroom
        split at h
        · cases h
        · rename_i b hb
          cases h
          exact ⟨Bool.eq_false_iff.2 hroom, hb⟩
  · rintro ⟨rfl, h⟩
    have hlength : Pattern.checkLength text = .ok () := by
      unfold compile at h
      cases hlength : Pattern.checkLength text with
      | error e =>
        rw [hlength] at h
        cases h
      | ok u => rfl
    rw [arenaOf, hlength, h]
    rfl

theorem install_eq_ok_iff {exhausted : Bool} {text : List CodePoint} {flags : Flags}
    {p : PathPattern} : (install exhausted text flags).1 = .ok p ↔
      exhausted = false ∧ ∃ a, compile text = .ok a ∧ p = ⟨some a, text, flags⟩ := by
  unfold install
  split
  · rename_i e he
    refine iff_of_false (fun h => by cases h) ?_
    rintro ⟨hroom, a, ha, -⟩
    rw [arenaOf_eq_ok_iff.2 ⟨hroom, ha⟩] at he
    cases he
  · rename_i a ha
    obtain ⟨hroom, ha⟩ := arenaOf_eq_ok_iff.1 ha
    constructor
    · intro h
      cases h
      exact ⟨hroom, a, ha, rfl⟩
    · rintro ⟨-, a', ha', rfl⟩
      cases ha.symm.trans ha'
      rfl

/-- The flags that come with the text of an argument: those of another pattern, or those given. -/
def flagsWith (find : Nat → PathPattern) (pattern flags : Argument) : Except PatternError Flags :=
  match pattern with
  | .pattern place => .ok (find place).flags
  | _ => flagsOf flags

section Operations

variable {find : Nat → PathPattern} {pattern flags : Argument} {p q : PathPattern}

theorem source_eq_ok_iff {text : List CodePoint} {f : Flags} :
    source find pattern flags = .ok (text, f) ↔
      textOf (fun place => (find place).text) pattern = some text ∧
        flagsWith find pattern flags = .ok f := by
  unfold source
  split
  · exact iff_of_false (fun h => by cases h) fun h => by cases h.1
  · constructor
    · intro h
      cases h
      exact ⟨rfl, rfl⟩
    · rintro ⟨htext, hflags⟩
      cases htext
      cases hflags
      rfl
  · rename_i hpattern
    have htext : textOf (fun place => (find place).text) pattern = pattern.points? := by
      unfold textOf
      split
      · exact absurd rfl (hpattern _)
      · rfl
    have hflags : flagsWith find pattern flags = flagsOf flags := by
      unfold flagsWith
      split
      · exact absurd rfl (hpattern _)
      · rfl
    rw [htext, hflags]
    -- The flags are read after the text and may be refused as well.
    cases pattern.points? with
    | none => exact iff_of_false (fun h => by cases h) fun h => by cases h.1
    | some own =>
      cases flagsOf flags with
      | error e => exact iff_of_false (fun h => by cases h) fun h => by cases h.2
      | ok g =>
        constructor
        · intro h
          cases h
          exact ⟨rfl, rfl⟩
        · rintro ⟨hown, hg⟩
          cases hown
          cases hg
          rfl

/-- What is set, and when anything is. -/
theorem set_eq_ok_iff {exhausted : Bool} : (set find pattern flags exhausted).1 = .ok p ↔
    exhausted = false ∧ ∃ text f a, textOf (fun place => (find place).text) pattern = some text ∧
      flagsWith find pattern flags = .ok f ∧ compile text = .ok a ∧ p = ⟨some a, text, f⟩ := by
  unfold set
  split
  · rename_i e he
    refine iff_of_false (fun h => by cases h) ?_
    rintro ⟨-, text, f, a, htext, hflags, -⟩
    rw [source_eq_ok_iff.2 ⟨htext, hflags⟩] at he
    cases he
  · rename_i text f hsource
    obtain ⟨htext, hflags⟩ := source_eq_ok_iff.1 hsource
    rw [install_eq_ok_iff]
    refine and_congr_right fun _ => ?_
    constructor
    · rintro ⟨a, ha, hp⟩
      exact ⟨text, f, a, htext, hflags, ha, hp⟩
    · rintro ⟨text', f', a, htext', hflags', ha, hp⟩
      cases htext.symm.trans htext'
      cases hflags.symm.trans hflags'
      exact ⟨a, ha, hp⟩

theorem set_reflects {exhausted : Bool} (h : (set find pattern flags exhausted).1 = .ok p) :
    p.Reflects (textOf (fun place => (find place).text) pattern) := by
  obtain ⟨-, text, f, a, htext, -, ha, rfl⟩ := set_eq_ok_iff.1 h
  rw [htext]
  exact ⟨rfl, a, rfl, ha⟩

theorem pointsOf_of_wellFormed? {ps : List CodePoint} {cs : List Char}
    (h : Text.wellFormed? ps = some cs) : pointsOf cs = ps := by
  induction ps generalizing cs with
  | nil =>
    cases h
    rfl
  | cons p ps ih =>
    unfold Text.wellFormed? at h
    rw [List.mapM_cons] at h
    cases p with
    | surrogate c => cases h
    | char c =>
      cases hrest : ps.mapM CodePoint.char? with
      | none =>
        rw [hrest] at h
        cases h
      | some rest =>
        rw [hrest] at h
        cases h
        rw [pointsOf, List.map_cons]
        exact congrArg _ (ih hrest)

/-- The code points of a value are those that it was made from. -/
theorem points?_ofPoints (ps : List CodePoint) :
    (Argument.value (.ofPoints ps)).points? = some ps := by
  unfold Value.ofPoints Scalar.ofPoints
  split
  · rename_i cs hcs
    have hown : (Argument.text (String.ofList cs)).points? = some (pointsOf cs) := by
      rw [Argument.points?, String.toList_ofList]
    rw [← pointsOf_of_wellFormed? hcs]
    exact hown
  · rfl

theorem textOf_textOnly (find : Nat → PathPattern) (pattern : Argument) :
    textOf (fun place => (find place).text) (textOnly find pattern) =
      textOf (fun place => (find place).text) pattern := by
  -- A pattern is replaced by its text first, and that is read back as it is.
  unfold textOnly
  split
  · exact points?_ofPoints _
  · rfl

theorem setPattern_reflects (h : (setPattern find q pattern).1 = .ok p) :
    p.Reflects (textOf (fun place => (find place).text) pattern) := by
  rw [← textOf_textOnly]
  exact set_reflects h

theorem make_reflects (h : (make find pattern flags).1 = .ok p) :
    p.Reflects (textOf (fun place => (find place).text) pattern) := by
  unfold make at h
  split at h
  · cases h
  · split at h
    · rename_i f _ habsent
      cases h
      -- Without a pattern nothing is installed, whatever the flags are.
      have htext : textOf (fun place => (find place).text) pattern = none := by
        unfold Argument.isAbsent at habsent
        split at habsent
        · rfl
        · cases habsent
      rw [htext]
      exact reflects_blank f
    · exact set_reflects h

theorem setFlags_reflects {installed : Option (List CodePoint)} (hq : q.Reflects installed)
    (h : q.setFlags flags = .ok p) : p.Reflects installed := by
  unfold setFlags at h
  cases hflags : flagsOf flags with
  | error e =>
    rw [hflags] at h
    cases h
  | ok f =>
    rw [hflags] at h
    cases h
    exact hq.withFlags f

/-! ### What can be installed -/

theorem exists_flagsWith_iff : (∃ f, flagsWith find pattern flags = .ok f) ↔
    (∃ place, pattern = .pattern place) ∨ Readable flags := by
  unfold flagsWith
  split
  · rename_i place
    exact iff_of_true ⟨_, rfl⟩ (.inl ⟨place, rfl⟩)
  · rename_i hpattern
    refine (or_iff_right ?_).symm
    rintro ⟨place, rfl⟩
    exact hpattern place rfl

theorem exists_set_iff {exhausted : Bool} :
    (∃ p, (set find pattern flags exhausted).1 = .ok p) ↔ exhausted = false ∧
      Installable (fun place => (find place).text) pattern ∧
        ((∃ q, pattern = .pattern q) ∨ Readable flags) := by
  rw [← exists_flagsWith_iff]
  constructor
  · rintro ⟨p, hp⟩
    obtain ⟨hroom, text, f, a, htext, hflags, ha, -⟩ := set_eq_ok_iff.1 hp
    exact ⟨hroom, ⟨text, a, htext, ha⟩, f, hflags⟩
  · rintro ⟨hroom, ⟨text, a, htext, ha⟩, f, hflags⟩
    exact ⟨_, set_eq_ok_iff.2 ⟨hroom, text, f, a, htext, hflags, ha, rfl⟩⟩

theorem exists_make_iff : (∃ p, (make find pattern flags).1 = .ok p) ↔ Readable flags ∧
    (pattern.isAbsent ∨ Installable (fun place => (find place).text) pattern) := by
  unfold make Readable
  cases hflags : flagsOf flags with
  | error e => exact iff_of_false (fun ⟨p, h⟩ => by cases h) fun ⟨⟨f, h⟩, _⟩ => by cases h
  | ok f =>
    simp only
    by_cases habsent : pattern.isAbsent
    · rw [if_pos habsent]
      exact iff_of_true ⟨_, rfl⟩ ⟨⟨f, rfl⟩, .inl habsent⟩
    · rw [if_neg habsent, exists_set_iff]
      constructor
      · rintro ⟨-, hinstallable, -⟩
        exact ⟨⟨f, rfl⟩, .inr hinstallable⟩
      · rintro ⟨-, habsent' | hinstallable⟩
        · exact absurd habsent' habsent
        · exact ⟨rfl, hinstallable, .inr ⟨f, hflags⟩⟩

end Operations

/-! ### Verdicts -/

theorem test_of_points? {p : PathPattern} {path : Argument} {text : List CodePoint}
    (h : path.points? = some text) : p.test path = .ok (p.verdict text) := by
  unfold test candidate
  split
  · cases h
  · rw [h]
    rfl

/-- A pattern accepts what its text accepts under its flags, and nothing without one. -/
theorem Reflects.verdicts {p : PathPattern} {installed : Option (List CodePoint)}
    (h : p.Reflects installed) :
    (installed = none ∧ p.compiled = none ∧ p.text = [] ∧
        ∀ path text, path.points? = some text → p.test path = .ok false) ∨
      ∃ a, installed = some p.text ∧ p.compiled = some a ∧ compile p.text = .ok a ∧
        ∀ path text, path.points? = some text →
          p.test path = .ok (a.matchPath text p.flags) := by
  cases installed with
  | none =>
    obtain ⟨hblank, htext⟩ := h
    refine .inl ⟨rfl, hblank, htext, fun path text hpath => ?_⟩
    rw [test_of_points? hpath, verdict, hblank]
  | some text =>
    obtain ⟨htext, a, hcompiled, ha⟩ := h
    rw [htext]
    refine .inr ⟨a, rfl, hcompiled, ha, fun path candidate hpath => ?_⟩
    rw [test_of_points? hpath, verdict, hcompiled]

end PathSieve.PathPattern
