import PathSieve.Proofs.PathPattern.Using

namespace PathSieve.PathPattern

open Pattern (compile)
open Text (CodePoint pointsOf)

/-!
# Filters judge by what their patterns are

Whatever happened to a filter and to the patterns around it, its verdict is that of the texts and
flags that its patterns have now.

* `Present` — what a pattern is: whether it is compiled, its text and its flags.
* `judge` — the verdict by what the patterns of each side are; `judge_congr` — neither their order
  nor their number matters.
* `judge_excluded`, `judge_included`, `judge_first` — what one more pattern does to the verdict.
* `Filter.accepts_eq_judge`, `Filter.present_add` — the verdict of a filter, and what is added to
  it.
* `Filter.judges_present` — what holds after every run.
-/

/-! ### Verdicts -/

/-- What a pattern is at present: whether it is compiled, its text and its flags. -/
structure Present where
  compiled : Bool
  text : List CodePoint
  flags : Flags
  deriving DecidableEq, Repr

/-- What a pattern is. -/
def present (p : PathPattern) : Present := ⟨p.isCompiled, p.text, p.flags⟩

/-- Whether a compiled text accepts a path under its flags. -/
def Present.accepts (t : Present) (path : List CodePoint) : Bool :=
  t.compiled && textAccepts t.flags path t.text

/-- The verdict of a pattern is known from what it is. -/
theorem Reflects.verdict_eq {p : PathPattern} {installed : Option (List CodePoint)}
    (h : p.Reflects installed) (path : List CodePoint) :
    p.verdict path = p.present.accepts path := by
  cases installed with
  | none => simp [verdict, Present.accepts, present, isCompiled, h.1]
  | some text =>
    obtain ⟨rfl, a, hcompiled, ha⟩ := h
    simp [verdict, Present.accepts, present, isCompiled, hcompiled, textAccepts, ha]

/-- The verdict by what the patterns of each side are. -/
def judge (ts : Side → List Present) (path : List CodePoint) : Bool :=
  !(ts .excluded).any (·.accepts path) &&
    ((ts .included).isEmpty || (ts .included).any (·.accepts path))

section Judge

variable {ts ts' : Side → List Present} {t : Present} {path : List CodePoint}

/-- It only matters which patterns are on which side. -/
theorem judge_congr (h : ∀ side t, t ∈ ts side ↔ t ∈ ts' side) :
    judge ts path = judge ts' path := by
  have hany (side : Side) : (ts side).any (·.accepts path) = (ts' side).any (·.accepts path) := by
    rw [Bool.eq_iff_iff]
    simp only [List.any_eq_true, h]
  have hempty : (ts .included).isEmpty = (ts' .included).isEmpty := by
    rw [Bool.eq_iff_iff]
    simp only [List.isEmpty_iff, List.eq_nil_iff_forall_not_mem, h]
  rw [judge, judge, hany, hany, hempty]

/-- The patterns of each side after one more on some side. -/
def withPresent (ts : Side → List Present) (side : Side) (t : Present) (side' : Side) :
    List Present :=
  if side = side' then ts side' ++ [t] else ts side'

/-- A path that is accepted with one more pattern that excludes is accepted without it. -/
theorem judge_excluded (h : judge (withPresent ts .excluded t) path = true) :
    judge ts path = true := by
  simp only [judge, withPresent, if_true, reduceCtorEq, if_false, List.any_append,
    Bool.not_or, Bool.and_eq_true] at h ⊢
  exact ⟨h.1.1, h.2⟩

/-- A path that is accepted by some of the patterns that include is accepted with one more. -/
theorem judge_included (hsome : ts .included ≠ []) (h : judge ts path = true) :
    judge (withPresent ts .included t) path = true := by
  have hnonempty : (ts .included).isEmpty = false := by simpa using hsome
  simp only [judge, hnonempty, Bool.false_or, Bool.and_eq_true] at h
  simp [judge, withPresent, h.1, h.2]

/-- The first pattern that includes only takes paths away. -/
theorem judge_first (hnone : ts .included = [])
    (h : judge (withPresent ts .included t) path = true) : judge ts path = true := by
  simp only [judge, withPresent, reduceCtorEq, if_false, Bool.and_eq_true] at h
  simp [judge, hnone, h.1]

end Judge

/-! ### Filters -/

theorem candidate_of_points? {path : Argument} {cs : List CodePoint} (h : path.points? = some cs) :
    candidate path = .ok cs := by
  unfold candidate
  split
  · cases h
  · rw [h]

namespace Filter

variable {f : Filter} {s : Store} {l : Ledger} {side : Side} {a flags path : Argument}
  {cs : List CodePoint}

/-- What the patterns on one side are. -/
def present (f : Filter) (s : Store) (side : Side) : List Present :=
  (f.places side).map fun place => (s.find place).present

/-- **A filter judges by what its patterns are**, and every text gets a verdict. -/
theorem accepts_eq_judge (h : Agrees s l) (hpath : candidate path = .ok cs) (f : Filter) :
    f.accepts s path = .ok (judge (f.present s) cs) := by
  have hside (side : Side) : ((f.places side).map s.find).any (·.verdict cs) =
      (f.present s side).any (·.accepts cs) := by
    simp only [present, List.any_map, Function.comp_def, (h.reflects _).verdict_eq]
  have hempty : f.included.isEmpty = (f.present s .included).isEmpty := by
    simp [present, places]
  have hexcluded := hside .excluded
  have hincluded := hside .included
  simp only [places] at hexcluded hincluded
  rw [accepts, anyAccepts_of_candidate hpath, anyAccepts_of_candidate hpath, hexcluded, hincluded,
    hempty, judge]
  cases (f.present s .excluded).any (·.accepts cs) with
  | true => rfl
  | false =>
    cases (f.present s .included).isEmpty with
    | true => rfl
    | false => rfl

theorem present_insert (f : Filter) (s : Store) (side : Side) (place : Nat) :
    (f.insert side place).present s = withPresent (f.present s) side (s.find place).present := by
  funext side'
  by_cases hside : side = side'
  · subst hside
    simp [present, withPresent, places_insert_self]
  · simp [present, withPresent, places_insert_of_ne hside, hside]

/-- Patterns that are there are not changed by one that is stored behind them. -/
theorem present_push (hplaced : ∀ side, ∀ place ∈ f.places side, place < s.items.size)
    (p : PathPattern) : f.present ⟨s.items.push p⟩ = f.present s := by
  funext side
  refine List.map_congr_left fun place hplace => ?_
  rw [Store.find_push_of_lt (hplaced side place hplace)]

/-- What is added to a filter is one pattern on one side, if anything is. -/
theorem present_add (h : Agrees s l)
    (hplaced : ∀ side, ∀ place ∈ f.places side, place < s.items.size) (side : Side)
    (a flags : Argument) :
    let out := f.add s side a flags
    (∃ l', Agrees out.2.store l') ∧ (out.1 = f ∧ out.2.store = s ∨
      ∃ t, out.1.present out.2.store = withPresent (f.present s) side t) := by
  intro out
  rcases f.add_cases s side a flags with ⟨place, rfl, hfilter, hstore, -⟩ |
    ⟨-, ⟨p, hmade, hfilter, hstore, -⟩ | ⟨x, -, hfilter, hstore, -⟩⟩
  · refine ⟨⟨l, hstore ▸ h⟩, .inr ⟨(s.find place).present, ?_⟩⟩
    rw [hfilter, hstore, present_insert]
  · refine ⟨⟨_, hstore ▸ h.push (make_reflects hmade)⟩, .inr ⟨p.present, ?_⟩⟩
    rw [hfilter, hstore, present_insert, present_push hplaced, Store.find_push]
  · exact ⟨⟨l, hstore ▸ h⟩, .inl ⟨hfilter, hstore⟩⟩

/-! ### Runs -/

/-- **Filters judge by what their patterns are now.** After any runs of two filters, of whatever
flags, in which patterns are added, shared, set anew, given other flags and exchanged, refused or
not, the verdicts of the two on a text are the same if the patterns on each side are, taken as sets
of what each of them is. An addition that is refused changes nothing. One more pattern that excludes
accepts no path that was rejected, one more that includes rejects no path that was accepted if there
were others, and the first that includes accepts no path that was rejected. -/
theorem judges_present (f f' : Flags) (calls calls' : List Call) {path : Argument}
    {cs : List CodePoint} (hpath : path.points? = some cs) :
    let w := Session.run f calls
    let w' := Session.run f' calls'
    (∃ verdict, w.filter.accepts w.store path = .ok verdict) ∧
      ((∀ side t, t ∈ w.filter.present w.store side ↔ t ∈ w'.filter.present w'.store side) →
        w.filter.accepts w.store path = w'.filter.accepts w'.store path) ∧
      ∀ side a flags,
        let out := w.filter.add w.store side a flags
        (∀ x, out.2.result = .error x → out.1 = w.filter ∧ out.2.store = w.store) ∧
          (side = .excluded → out.1.accepts out.2.store path = .ok true →
            w.filter.accepts w.store path = .ok true) ∧
          (side = .included → w.filter.included ≠ [] →
            w.filter.accepts w.store path = .ok true → out.1.accepts out.2.store path = .ok true) ∧
          (side = .included → w.filter.included = [] →
            out.1.accepts out.2.store path = .ok true →
              w.filter.accepts w.store path = .ok true) := by
  intro w w'
  have hsound : w.Sound := Session.sound_run f calls
  have hsound' : w'.Sound := Session.sound_run f' calls'
  obtain ⟨l, hl⟩ := hsound.agrees
  obtain ⟨l', hl'⟩ := hsound'.agrees
  have hcandidate : candidate path = .ok cs := candidate_of_points? hpath
  have hverdict := accepts_eq_judge hl hcandidate w.filter
  refine ⟨⟨_, hverdict⟩, fun hsame => ?_, fun side a flags => ?_⟩
  · rw [hverdict, accepts_eq_judge hl' hcandidate, judge_congr hsame]
  · intro out
    refine ⟨fun x hx => add_unchanged hx, ?_⟩
    obtain ⟨⟨l'', hl''⟩, ⟨hfilter, hstore⟩ | ⟨t, ht⟩⟩ := present_add hl hsound.placed side a flags
    · rw [show out.1 = w.filter from hfilter, show out.2.store = w.store from hstore]
      exact ⟨fun _ h => h, fun _ _ h => h, fun _ _ h => h⟩
    · have hafter : out.1.accepts out.2.store path = .ok (judge (withPresent _ side t) cs) :=
        ht ▸ accepts_eq_judge hl'' hcandidate out.1
      have hsome : w.filter.included ≠ [] → w.filter.present w.store .included ≠ [] := by
        simp [present, places]
      have hnone : w.filter.included = [] → w.filter.present w.store .included = [] := by
        simp [present, places]
      simp only [hafter, hverdict, Except.ok.injEq]
      refine ⟨?_, ?_, ?_⟩
      · rintro rfl
        exact judge_excluded
      · rintro rfl hincluded
        exact judge_included (hsome hincluded)
      · rintro rfl hincluded
        exact judge_first (hnone hincluded)

/-- A pattern that was made twice, and one that came to the same in the end: it was shared, and a
text that does not compile was refused for it in between. -/
theorem judges_present_shared :
    let made : List Call := [.add .included (.text "*.c") .absent,
      .add .excluded (.text "test*") .absent, .add .included (.text "*.c") .absent]
    let shared : List Call := [.pattern (.construct (.text "*.h") (.flags .none)),
      .add .excluded (.text "test*") (.flags .none), .add .included (.pattern 0) .absent,
      .pattern (.set 0 (.text "(") .absent false), .pattern (.setPattern 0 (.text "*.c"))]
    let w := Session.run .none made
    let w' := Session.run ⟨2⟩ shared
    (Argument.text "main.c").points? = some (pointsOf ['m', 'a', 'i', 'n', '.', 'c']) ∧
      (∀ side t, t ∈ w.filter.present w.store side ↔ t ∈ w'.filter.present w'.store side) ∧
      w.filter.accepts w.store (.text "main.c") = w'.filter.accepts w'.store (.text "main.c") := by
  intro made shared w w'
  have hpath : (Argument.text "main.c").points? = some (pointsOf ['m', 'a', 'i', 'n', '.', 'c']) :=
    rfl
  have hpresent : ∀ side, w.filter.present w.store side ⊆ w'.filter.present w'.store side ∧
      w'.filter.present w'.store side ⊆ w.filter.present w.store side := by
    intro side
    cases side with
    | included => decide +kernel
    | excluded => decide +kernel
  have hsame : ∀ side t, t ∈ w.filter.present w.store side ↔ t ∈ w'.filter.present w'.store side :=
    fun side t => ⟨fun ht => (hpresent side).1 ht, fun ht => (hpresent side).2 ht⟩
  exact ⟨hpath, hsame, (judges_present .none ⟨2⟩ made shared hpath).2.1 hsame⟩

end Filter

end PathSieve.PathPattern
