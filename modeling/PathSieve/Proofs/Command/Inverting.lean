import PathSieve.Proofs.Command.Ending
import PathSieve.Proofs.Command.Parsing

namespace PathSieve

open Text (pointsOf)

/-!
# Inverted runs

Of a run and the same run with inversion each candidate is printed by exactly one. With rules the
inversion of the command line negates the verdict as a whole. With a pattern it is one flag among
those of the settings, and adds nothing where they have it already.

* `Command.Outcome.Ends`, `Command.run_found` — a run that comes to its end.
* `Pattern.Arena.matchPath_xor` — verdicts under flags that differ in inversion only.
* `Command.Judge.make_eq_ok` — the judges that there are.
* `Command.Parted` — a list in two parts.
* `Command.run_invert` — a run and the same run with inversion.
-/

/-! ### Flags -/

namespace Flags

variable (f g : Flags) (i c p : Bool)

@[simp] theorem inversive_union : (f.union g).inversive = (f.inversive || g.inversive) :=
  Nat.testBit_or ..

@[simp] theorem caseSensitive_union :
    (f.union g).caseSensitive = (f.caseSensitive || g.caseSensitive) :=
  Nat.testBit_or ..

@[simp] theorem fullPath_union : (f.union g).fullPath = (f.fullPath || g.fullPath) :=
  Nat.testBit_or ..

@[simp] theorem inversive_ofBools : (ofBools i c p).inversive = i := by
  revert i c p
  decide

@[simp] theorem caseSensitive_ofBools : (ofBools i c p).caseSensitive = c := by
  revert i c p
  decide

@[simp] theorem fullPath_ofBools : (ofBools i c p).fullPath = p := by
  revert i c p
  decide

end Flags

/-- Verdicts under flags that differ in inversion only. -/
theorem Pattern.Arena.matchPath_xor (a : Arena) (path : List Text.CodePoint) {f g : Flags}
    (hcase : g.caseSensitive = f.caseSensitive) (hfull : g.fullPath = f.fullPath) :
    a.matchPath path g = (xor f.inversive g.inversive ^^ a.matchPath path f) := by
  unfold matchPath
  rw [hcase, hfull]
  cases f.inversive with
  | true => cases g.inversive <;> simp
  | false => cases g.inversive <;> simp

namespace Command

variable {m m' : Limits} {s : Surroundings} {o : Options} {l : Settings.Layers}

/-! ### Ends -/

/-- A run comes to its end. -/
def Outcome.Ends (out : Outcome) : Prop :=
  out.ending.status? = some 0 ∨ out.ending.status? = some 1

/-- What a run that comes to its end has found: settings, a log, a judge and candidates. -/
structure Found (s : Surroundings) (o : Options) (l : Settings.Layers) (g : Logging) (j : Judge)
    (paths : List String) : Prop where
  layers : layers s o = .ok l
  start : Logging.start l s.files = .ok g
  judge : ∃ log, Judge.make o l = (.ok j, log)
  candidates : candidates s g.files o = (paths, false)

theorem Outcome.Broken.not_ends {out : Outcome} (h : out.Broken) : ¬out.Ends := by
  simp [Outcome.Ends, h.status]

theorem Outcome.Stopped.not_ends {out : Outcome} {j : Judge} {paths : List String}
    (h : out.Stopped m j paths) : ¬out.Ends := by
  simp [Outcome.Ends, h.status]

theorem Outcome.Refused.not_ends {out : Outcome} {r : Refusal} (h : out.Refused r) : ¬out.Ends := by
  simp [Outcome.Ends, h.status]

theorem runWith_found {l : Settings.Layers} (hlayers : layers s o = .ok l)
    (h : (runWith m s o l).Ends) : ∃ g j paths, Found s o l g j paths ∧
      (runWith m s o l).Finished j paths := by
  rcases runWith_cases m s o l with ⟨-, hbroken⟩ | ⟨-, r, hrefused⟩ |
    ⟨-, -, g, j, log, hstart, hmake, ⟨-, hsifted⟩ | hstopped⟩
  · exact absurd h hbroken.not_ends
  · exact absurd h hrefused.not_ends
  rotate_left
  · exact absurd h hstopped.not_ends
  · rcases hcandidates : candidates s g.files o with ⟨paths, interrupted⟩
    rw [hcandidates] at hsifted
    cases interrupted with
    | false =>
      have hfound : Found s o l g j paths := ⟨hlayers, hstart, ⟨log, hmake⟩, hcandidates⟩
      exact ⟨g, j, paths, hfound, hsifted.finished⟩
    | true =>
      -- An interrupted run has a status of its own.
      have hending : (runWith m s o l).ending = .interrupted := hsifted.ending
      simp [Outcome.Ends, hending, Ending.status?] at h

/-- **A run that comes to its end has judged its candidates.** Such a run has a judge, and has
printed those of its candidates that the judge accepts. -/
theorem run_found {args : List String} (hparse : parse args = .ok (.options o))
    (h : (runWithin m s args).Ends) : ∃ l g j paths, Found s o l g j paths ∧
      (runWithin m s args).Finished j paths := by
  have hrun : runWithin m s args = runOptions m s o := by simp only [runWithin, hparse]
  rw [hrun] at h ⊢
  unfold runOptions at h ⊢
  cases hcheck : check s.files o with
  | error r =>
    simp only [hcheck] at h
    exact absurd h (refused_of_ending rfl rfl).not_ends
  | ok u =>
    cases hlayers : layers s o with
    | error e =>
      simp only [hcheck, hlayers, loadEnding] at h
      split at h
      · exact absurd h (refused_of_ending rfl rfl).not_ends
      · exact absurd h (broken_of_ending rfl rfl).not_ends
    | ok l =>
      simp only [hcheck, hlayers] at h
      exact ⟨l, runWith_found hlayers h⟩

/-! ### Judges -/

namespace Judge

variable {j : Judge} {path : String}

theorem verdict_of_accepts {b : Bool} (h : j.accepts path = .ok b) : j.verdict path = b :=
  Except.ok.inj ((j.accepts_eq path).symm.trans h)

theorem verdict_byPattern (a : Pattern.Arena) (text : List Text.CodePoint) (f : Flags) :
    (byPattern ⟨some a, text, f⟩).verdict path = a.matchPath (pointsOf path.toList) f :=
  verdict_of_accepts rfl

theorem verdict_byRules {e : Engine} {b : Bool} (h : e.includes (.text path) = .ok b)
    (inverted : Bool) : (byRules e inverted).verdict path = (inverted ^^ b) := by
  refine verdict_of_accepts ?_
  rw [accepts, h]
  rfl

/-- The judges that there are. -/
theorem make_eq_ok {log : List Log.Entry} (h : make o l = (.ok j, log)) :
    ∃ (fields : Entries) (own : Flags),
      l.programSection = .map fields ∧ sectionFlags fields = .ok own ∧
      ((∃ text a, o.pattern = some text ∧
          Pattern.compile (pointsOf text.toList) = .ok a ∧
          j = .byPattern ⟨some a, pointsOf text.toList, own.union o.flags⟩) ∨
        o.pattern = none ∧ ∃ e, (∃ told, Engine.ofSection (.map (fields.setField "flags"
          (.int (own.union { o with invert := false }.flags).mask))) = .ok (e, told)) ∧
          j = .byRules e o.invert) := by
  have hsound : Sound o l := by
    rcases make_cases o l with ⟨-, b, hmake⟩ | ⟨-, -, r, told, hmake⟩ | ⟨-, hsound, -⟩
    · cases h.symm.trans hmake
    · cases h.symm.trans hmake
    · exact hsound
  obtain ⟨fields, own, hsection, hown, -⟩ := hsound
  refine ⟨fields, own, hsection, hown, ?_⟩
  cases hpattern : o.pattern with
  | some text =>
    rw [make_of_pattern hsection hown hpattern, ofPattern] at h
    split at h
    · cases h
    · rename_i p told hinstall
      obtain ⟨-, a, ha, rfl⟩ := PathPattern.install_eq_ok_iff.1 (congrArg Prod.fst hinstall)
      cases h
      exact .inl ⟨text, a, rfl, ha, rfl⟩
  | none =>
    rw [make_of_rules hsection hown hpattern, ofRules] at h
    split at h
    · cases h
    · rename_i e told hengine
      cases h
      exact .inr ⟨rfl, e, ⟨told, hengine⟩, rfl⟩

end Judge

/-! ### Inversion -/

/-- The flags of the settings have inversion. -/
def Inverts (l : Settings.Layers) : Prop :=
  ∃ fields flags, l.programSection = .map fields ∧ Judge.sectionFlags fields = .ok flags ∧
    flags.inversive

theorem inverts_iff {fields : Entries} {own : Flags} (hsection : l.programSection = .map fields)
    (hown : Judge.sectionFlags fields = .ok own) : Inverts l ↔ own.inversive := by
  constructor
  · rintro ⟨fields', flags, hsection', hflags, h⟩
    cases hsection.symm.trans hsection'
    cases hown.symm.trans hflags
    exact h
  · intro h
    exact ⟨fields, own, hsection, hown, h⟩

/-- Inversion negates the verdict of rules, and that of a pattern unless the settings have done so
already. -/
theorem Judge.verdict_invert {j j' : Judge} {log log' : List Log.Entry} (hinvert : o.invert = false)
    (h : make o l = (.ok j, log)) (h' : make o.inverted l = (.ok j', log'))
    (path : String) :
    (o.pattern ≠ none ∧ Inverts l → j'.verdict path = j.verdict path) ∧
      (¬(o.pattern ≠ none ∧ Inverts l) → j'.verdict path = !j.verdict path) := by
  obtain ⟨fields, own, hsection, hown, hj⟩ := make_eq_ok h
  obtain ⟨fields', own', hsection', hown', hj'⟩ := make_eq_ok h'
  cases hsection.symm.trans hsection'
  cases hown.symm.trans hown'
  rw [inverts_iff hsection hown]
  rcases hj with ⟨text, a, hpattern, ha, rfl⟩ | ⟨hpattern, e, ⟨told, hengine⟩, rfl⟩
  · obtain ⟨text', a', hpattern', ha', rfl⟩ := hj'.resolve_right fun hnone => by
      cases hpattern.symm.trans hnone.1
    cases hpattern.symm.trans hpattern'
    cases ha.symm.trans ha'
    -- The flags of the two judges differ at most in inversion.
    have hxor := a.matchPath_xor (pointsOf path.toList) (f := own.union o.flags)
      (g := own.union o.inverted.flags) (by simp [Options.flags, Options.inverted])
      (by simp [Options.flags, Options.inverted])
    rw [verdict_byPattern, verdict_byPattern, hxor, hpattern]
    cases hinversive : own.inversive with
    | true => simp [hinversive]
    | false => simp [hinversive, Options.flags, Options.inverted, hinvert]
  · obtain ⟨-, e', ⟨told', hengine'⟩, rfl⟩ := hj'.resolve_left fun ⟨text, a, hsome, _⟩ => by
      cases hpattern.symm.trans hsome
    cases hengine.symm.trans hengine'
    obtain ⟨b, hb⟩ := e.exists_includes path
    have hinverted : o.inverted.invert = true := rfl
    rw [verdict_byRules hb, verdict_byRules hb, hinvert, hinverted, hpattern]
    simp

/-! ### Runs -/

/-- Each occurrence in a list is in one of two parts, which keep the order of the list. -/
def Parted {α : Type} (xs ys zs : List α) : Prop :=
  ∃ p : α → Bool, ys = xs.filter p ∧ zs = xs.filter (!p ·)

/-- **A run and the same run with inversion.** If both come to their end, within whatever limits, they
have the same candidates. With rules, and with a pattern if the flags of the settings have no
inversion, each occurrence of a candidate is printed by exactly one of the runs, in the order of the
candidates. With a pattern and settings that have inversion already, both print the same. -/
theorem run_invert {args args' : List String} (hinvert : o.invert = false)
    (hparse : parse args = .ok (.options o))
    (hparse' : parse args' = .ok (.options o.inverted))
    (hends : (runWithin m s args).Ends) (hends' : (runWithin m' s args').Ends) :
    ∃ l g paths, layers s o = .ok l ∧ Logging.start l s.files = .ok g ∧
      candidates s g.files o = (paths, false) ∧
      (o.pattern ≠ none ∧ Inverts l →
        (runWithin m' s args').printed = (runWithin m s args).printed) ∧
      (¬(o.pattern ≠ none ∧ Inverts l) →
        Parted paths (runWithin m s args).printed (runWithin m' s args').printed) := by
  obtain ⟨l, g, j, paths, hfound, hfinished⟩ := run_found hparse hends
  obtain ⟨l', g', j', paths', hfound', hfinished'⟩ := run_found hparse' hends'
  have hlayers : layers s o = .ok l' := hfound'.layers
  cases hfound.layers.symm.trans hlayers
  cases hfound.start.symm.trans hfound'.start
  have hcandidates : candidates s g.files o = (paths', false) := hfound'.candidates
  cases hfound.candidates.symm.trans hcandidates
  obtain ⟨log, hmake⟩ := hfound.judge
  obtain ⟨log', hmake'⟩ := hfound'.judge
  have hverdict := Judge.verdict_invert hinvert hmake hmake'
  refine ⟨l, g, paths, hfound.layers, hfound.start, hfound.candidates, fun h => ?_, fun h => ?_⟩
  · have hsame : j'.verdict = j.verdict := funext fun path => (hverdict path).1 h
    rw [hfinished.printed, hfinished'.printed, hsame]
  · have hopposite : j'.verdict = (!j.verdict ·) := funext fun path => (hverdict path).2 h
    rw [hfinished.printed, hfinished'.printed, hopposite]
    exact ⟨j.verdict, rfl, rfl⟩

/-- A pattern and candidates, one of them twice, and nothing else around them. -/
theorem run_invert_plain :
    let s : Surroundings := ⟨Yaml.reader, ⟨"/", "/", [], [], [], []⟩, [], "", false⟩
    let o : Options := { pattern := some "a", paths := ["a", "b", "a"] }
    let args := ["a", "a", "b", "a"]
    o.invert = false ∧ parse args = .ok (.options o) ∧
      parse ("-i" :: args) = .ok (.options o.inverted) ∧ (run s args).Ends ∧
      (run s ("-i" :: args)).Ends ∧
      Parted ["a", "b", "a"] (run s args).printed (run s ("-i" :: args)).printed := by
  intro s o args
  have hparse : parse args = .ok (.options o) := by rfl
  have hparse' : parse ("-i" :: args) = .ok (.options o.inverted) := parse_inverted hparse
  have hends : (run s args).Ends := .inl (by decide +kernel)
  have hends' : (run s ("-i" :: args)).Ends := .inl (by decide +kernel)
  obtain ⟨l, g, paths, hlayers, -, hcandidates, -, hparted⟩ :=
    run_invert rfl hparse hparse' hends hends'
  have hflags : ¬Inverts l := by
    cases hlayers
    rintro ⟨fields, flags, hsection, hflags, hinversive⟩
    cases hsection
    cases hflags
    cases hinversive
  cases hcandidates
  exact ⟨rfl, hparse, hparse', hends, hends', hparted fun h => hflags h.2⟩

/-- A variable with inversion: the run prints the same with and without inversion. -/
theorem run_inverted_twice :
    let s : Surroundings := ⟨Yaml.reader, ⟨"/", "/", [], [], [], []⟩,
      [("PATHPATTERN_FLAGS", "inversive")], "", false⟩
    (run s ["a", "a", "b"]).Ends ∧ (run s ["-i", "a", "a", "b"]).Ends ∧
      (run s ["a", "a", "b"]).printed = ["b"] ∧ (run s ["-i", "a", "a", "b"]).printed = ["b"] :=
  ⟨.inl (by decide +kernel), .inl (by decide +kernel), by decide +kernel, by decide +kernel⟩

end Command

end PathSieve
