import PathSieve.Proofs.Command.Candidates
import PathSieve.Proofs.Command.Judging

namespace PathSieve.Command

/-!
# How runs end

A run whose candidates are given on the command line prints those that its judge accepts, or it is
refused, or it breaks off. Settings are checked when they are read from a file, but not what
variables add to them; a run breaks off where nothing has looked at a setting before it is used. It
also breaks off where its reader fails in a way of its own, where its stack is not deep enough, and
at a path that its output does not take.

* `Unlogged`, `Logging.start_cases` — when no log can be started.
* `Limits.Passes`, `Outcome.Stopped` — paths at which a run does not stop, and one that does.
* `Breaks` — when a run breaks off before it has judged a path.
* `run_ends` — the ways in which a run ends, and what it leaves behind in each.
-/

/-! ### Logs -/

/-- The log that is asked for cannot be started: its level is none, or its file is no text or
cannot be opened. -/
def Unlogged (l : Settings.Layers) (files : Files.Tree) : Prop :=
  (∃ e, Log.Level.ofValue (l.get (loggingKey "level") (.text "INFO")) = .error e) ∨
    (l.get (loggingKey "file") .null).truthy ∧
      ∀ path, (Argument.value (l.get (loggingKey "file") .null)).points? = some path →
        ∃ e, files.openLog path = .error e

theorem Logging.toFile_cases (level : Log.Level) (file : Value) (files : Files.Tree) :
    ((∀ path, (Argument.value file).points? = some path → ∃ e, files.openLog path = .error e) ∧
        ∃ b, toFile level file files = .error b) ∨
      (¬∀ path, (Argument.value file).points? = some path → ∃ e, files.openLog path = .error e) ∧
        ∃ g, toFile level file files = .ok g := by
  cases hpath : (Argument.value file).points? with
  | none => exact .inl ⟨fun _ h => (nomatch h), _, by rw [toFile, hpath]⟩
  | some path =>
    cases hopen : files.openLog path with
    | error e =>
      refine .inl ⟨fun path' h => ?_, .logFile e, by simp only [toFile, hpath, hopen]⟩
      rw [← Option.some.inj h]
      exact ⟨e, hopen⟩
    | ok result =>
      refine .inr ⟨fun h => ?_, ?_⟩
      rotate_left
      · rw [toFile, hpath]
        simp only [hopen]
        exact ⟨_, rfl⟩
      obtain ⟨e, he⟩ := h path rfl
      rw [hopen] at he
      cases he

theorem Logging.start_cases (l : Settings.Layers) (files : Files.Tree) :
    (Unlogged l files ∧ ∃ b, start l files = .error b) ∨
      ¬Unlogged l files ∧ ∃ g, start l files = .ok g := by
  cases hlevel : Log.Level.ofValue (l.get (loggingKey "level") (.text "INFO")) with
  | error e => exact .inl ⟨.inl ⟨e, hlevel⟩, .level e, by simp only [start, hlevel]⟩
  | ok level =>
    have hunlogged : Unlogged l files ↔ (l.get (loggingKey "file") .null).truthy ∧
        ∀ path, (Argument.value (l.get (loggingKey "file") .null)).points? = some path →
          ∃ e, files.openLog path = .error e := by
      refine or_iff_right ?_
      rintro ⟨e, he⟩
      rw [hlevel] at he
      cases he
    rw [hunlogged]
    by_cases hfile : (l.get (loggingKey "file") .null).truthy
    · have hstart : start l files = toFile level (l.get (loggingKey "file") .null) files := by
        simp only [start, hlevel, if_pos hfile]
      rw [hstart]
      rcases toFile_cases level (l.get (loggingKey "file") .null) files with
        ⟨hopen, herror⟩ | ⟨hopen, hok⟩
      · exact .inl ⟨⟨hfile, hopen⟩, herror⟩
      · exact .inr ⟨fun h => hopen h.2, hok⟩
    · refine .inr ⟨fun h => hfile h.1, ?_⟩
      simp only [start, hlevel, if_neg hfile]
      exact ⟨_, rfl⟩

/-! ### Outcomes -/

/-- A run that breaks off has no status, and nothing is printed. -/
structure Outcome.Broken (out : Outcome) : Prop where
  status : out.ending.status? = none
  stdout : out.stdout = ""

/-- A run that is refused ends with an error, and nothing is printed. -/
structure Outcome.Refused (out : Outcome) (r : Refusal) : Prop where
  status : out.ending.status? = some 2
  stdout : out.stdout = ""
  stderr : out.stderr = out.console ++ ("Error: " ++ r.message ++ "\n")

/-- A run that comes to its end has printed the paths that its judge accepts, and tells by its
status whether there are any. -/
structure Outcome.Finished (out : Outcome) (j : Judge) (paths : List String) : Prop where
  printed : out.printed = paths.filter j.verdict
  status : out.ending.status? = some (if out.printed = [] then 1 else 0)
  stdout : out.stdout = String.join (out.printed.map (· ++ "\n"))
  stderr : out.stderr = out.console

theorem refused_of_ending {out : Outcome} {r : Refusal} (hending : out.ending = .refused r)
    (hprinted : out.printed = []) : out.Refused r := by
  refine ⟨?_, ?_, ?_⟩
  · rw [hending]
    rfl
  · rw [Outcome.stdout, hending, hprinted]
    rfl
  · rw [Outcome.stderr, hending]
    rfl

theorem broken_of_ending {out : Outcome} {b : Break} (hending : out.ending = .broken b)
    (hprinted : out.printed = []) : out.Broken := by
  refine ⟨?_, ?_⟩
  · rw [hending]
    rfl
  · rw [Outcome.stdout, hending, hprinted]
    rfl

/-- A run does not stop at a path: there is room for the verdict on it, and if it is to be printed,
the output takes it. -/
def Limits.Passes (m : Limits) (j : Judge) (path : String) : Prop :=
  m.judges j path = true ∧ (j.verdict path = true → m.prints path = true)

instance (m : Limits) (j : Judge) (path : String) : Decidable (m.Passes j path) :=
  inferInstanceAs (Decidable (_ ∧ _))

theorem Limits.passes_ample (j : Judge) (path : String) : ample.Passes j path :=
  ⟨rfl, fun _ => rfl⟩

theorem Limits.judge_of_passes {m : Limits} {j : Judge} {path : String} (h : m.Passes j path) :
    m.judge j path = .ok (j.verdict path) := by
  unfold judge
  rw [h.1, j.accepts_eq]
  cases hverdict : j.verdict path with
  | false => rfl
  | true =>
    simp only [h.2 hverdict]
    rfl

theorem Limits.judge_of_not_passes {m : Limits} {j : Judge} {path : String}
    (h : ¬m.Passes j path) : ∃ b, m.judge j path = .error (.broken b) := by
  unfold judge
  cases hjudges : m.judges j path with
  | false => exact ⟨.tooDeep, rfl⟩
  | true =>
    rw [j.accepts_eq]
    cases hverdict : j.verdict path with
    | false => exact absurd ⟨hjudges, fun htrue => nomatch hverdict.symm.trans htrue⟩ h
    | true =>
      cases hprints : m.prints path with
      | false => exact ⟨.notPrintable, rfl⟩
      | true => exact absurd ⟨hjudges, fun _ => hprints⟩ h

/-- A run that stops at one of its paths has printed those before it that its judge accepts, and has
no status. -/
structure Outcome.Stopped (out : Outcome) (m : Limits) (j : Judge) (paths : List String) :
    Prop where
  printed : ∃ front path back, paths = front ++ path :: back ∧ (∀ p ∈ front, m.Passes j p) ∧
    ¬m.Passes j path ∧ out.printed = front.filter j.verdict
  status : out.ending.status? = none
  stdout : out.stdout = String.join (out.printed.map (· ++ "\n"))

/-- What a run that judges its candidates comes to: it prints those that its judge accepts, and it
may be interrupted behind the last of them. -/
structure Outcome.Sifted (out : Outcome) (j : Judge) (given : List String × Bool) : Prop where
  printed : out.printed = given.1.filter j.verdict
  ending : out.ending = if given.2 then .interrupted else .finished (!out.printed.isEmpty)

theorem sieve_sifted {m : Limits} {s : Surroundings} {o : Options} {g : Logging} {j : Judge}
    (h : ∀ path ∈ (candidates s g.files o).1, m.Passes j path) :
    (sieve m s o g j).Sifted j (candidates s g.files o) := by
  rcases hcandidates : candidates s g.files o with ⟨paths, interrupted⟩
  rw [hcandidates] at h
  have hselect := select_of_total fun path hpath => Limits.judge_of_passes (h path hpath)
  simp only [sieve, hcandidates, hselect]
  cases interrupted with
  | true => exact ⟨rfl, rfl⟩
  | false => exact ⟨rfl, rfl⟩

/-- A run with a judge judges all its candidates, or stops at the first that it does not pass. -/
theorem sieve_cases (m : Limits) (s : Surroundings) (o : Options) (g : Logging) (j : Judge) :
    let given := candidates s g.files o
    ((∀ path ∈ given.1, m.Passes j path) ∧ (sieve m s o g j).Sifted j given) ∨
      (sieve m s o g j).Stopped m j given.1 := by
  intro given
  by_cases hall : ∀ path ∈ given.1, m.Passes j path
  · exact .inl ⟨hall, sieve_sifted hall⟩
  · refine .inr ?_
    obtain ⟨path, hfound⟩ : ∃ path, given.1.find? (fun path => ¬m.Passes j path) = some path := by
      refine Option.isSome_iff_exists.1 (List.find?_isSome.2 ?_)
      simpa using hall
    obtain ⟨hstops, front, back, hsplit, hfront⟩ := List.find?_eq_some_iff_append.1 hfound
    have hstops : ¬m.Passes j path := of_decide_eq_true hstops
    have hpasses : ∀ p ∈ front, m.Passes j p := by
      intro p hp
      simpa using hfront p hp
    obtain ⟨b, hb⟩ := Limits.judge_of_not_passes hstops
    have hselect := select_of_error back (fun p hp => Limits.judge_of_passes (hpasses p hp)) hb
    have hsieve : sieve m s o g j = ⟨.broken b, front.filter j.verdict, g.console, g.files⟩ := by
      unfold sieve
      rw [show candidates s g.files o = given from rfl]
      simp only [hsplit, hselect]
    rw [hsieve]
    exact ⟨⟨front, path, back, hsplit, hpasses, hstops, rfl⟩, rfl, String.append_empty⟩

/-- A run that is not interrupted comes to its end. -/
theorem Outcome.Sifted.finished {out : Outcome} {j : Judge} {paths : List String}
    (h : out.Sifted j (paths, false)) : out.Finished j paths := by
  have hending : out.ending = .finished (!out.printed.isEmpty) := h.ending
  refine ⟨h.printed, ?_, ?_, ?_⟩
  · rw [hending]
    cases out.printed with
    | nil => rfl
    | cons path paths => rfl
  · rw [Outcome.stdout, hending]
    exact String.append_empty
  · rw [Outcome.stderr, hending]
    exact String.append_empty

section Making

variable {m : Limits} {s : Surroundings} {o : Options} {l : Settings.Layers} {g g' : Logging}
  {made : Except Ending Judge} {j : Judge} {log : List Log.Entry}
  (hstart : Logging.start l s.files = .ok g) (hroom : m.makes o l = true)

include hstart hroom

/-- What is told while a judge is made cannot be written. -/
theorem runWith_of_untold (hmake : Judge.make o l = (made, log))
    (htell : g.tell log = (g', false)) :
    runWith m s o l = ⟨.refused .notWritable, [], g'.console, g'.files⟩ := by
  simp only [runWith, hstart, hroom, hmake, htell]
  rfl

/-- No judge is made. -/
theorem runWith_of_unmade {ending : Ending} (hmake : Judge.make o l = (.error ending, log))
    (htell : g.tell log = (g', true)) :
    runWith m s o l = ⟨ending, [], g'.console, g'.files⟩ := by
  simp only [runWith, hstart, hroom, hmake, htell]
  rfl

/-- A run with a judge of which everything can be told judges its candidates. -/
theorem runWith_judges (hmake : Judge.make o l = (.ok j, log)) (htold : (g.tell log).2 = true) :
    let given := candidates s g.files o
    ((∀ path ∈ given.1, m.Passes j path) ∧ (runWith m s o l).Sifted j given) ∨
      (runWith m s o l).Stopped m j given.1 := by
  intro given
  rcases htell : g.tell log with ⟨g', told⟩
  rw [htell] at htold
  obtain rfl : told = true := htold
  have hgiven : given = candidates s g'.files o := by
    have hsame := candidates_tell hstart log o
    rw [htell] at hsame
    exact hsame.symm
  have hrun : runWith m s o l = sieve m s o g' j := by
    simp only [runWith, hstart, hroom, hmake, htell]
    rfl
  rw [hgiven, hrun]
  exact sieve_cases m s o g' j

end Making

/-- Where there is room for everything no path stops a run. -/
theorem runWith_sifted {s : Surroundings} {o : Options} {l : Settings.Layers} {g : Logging}
    {j : Judge} {log : List Log.Entry} (hstart : Logging.start l s.files = .ok g)
    (hmake : Judge.make o l = (.ok j, log)) (htold : (g.tell log).2 = true) :
    (runWith .ample s o l).Sifted j (candidates s g.files o) := by
  rcases runWith_judges (m := .ample) (o := o) hstart rfl hmake htold with
    ⟨-, hsifted⟩ | hstopped
  · exact hsifted
  · obtain ⟨front, path, back, -, -, hstops, -⟩ := hstopped.printed
    exact absurd (Limits.passes_ample j path) hstops

/-- A run whose settings were loaded breaks off before it judges anything: its log cannot be started,
its stack is not deep enough for the settings, or its section cannot be looked into. -/
def Fails (m : Limits) (s : Surroundings) (o : Options) (l : Settings.Layers) : Prop :=
  Unlogged l s.files ∨ m.makes o l = false ∨ Unusable l

/-- The ends of a run whose settings were loaded. -/
theorem runWith_cases (m : Limits) (s : Surroundings) (o : Options) (l : Settings.Layers) :
    (Fails m s o l ∧ (runWith m s o l).Broken) ∨
      (¬Fails m s o l ∧ ∃ r, (runWith m s o l).Refused r) ∨
      ¬Fails m s o l ∧ Sound o l ∧ ∃ g j log,
        Logging.start l s.files = .ok g ∧ Judge.make o l = (.ok j, log) ∧
          (((∀ path ∈ (candidates s g.files o).1, m.Passes j path) ∧
              (runWith m s o l).Sifted j (candidates s g.files o)) ∨
            (runWith m s o l).Stopped m j (candidates s g.files o).1) := by
  unfold Fails
  rcases Logging.start_cases l s.files with ⟨hunlogged, b, hstart⟩ | ⟨hlogged, g, hstart⟩
  · have hrun : runWith m s o l = .early (.broken b) s.files := by simp only [runWith, hstart]
    rw [hrun]
    exact .inl ⟨.inl hunlogged, broken_of_ending rfl rfl⟩
  rw [or_iff_right hlogged]
  cases hroom : m.makes o l with
  | false =>
    have hrun : runWith m s o l = ⟨.broken .tooDeep, [], g.console, g.files⟩ := by
      simp only [runWith, hstart, hroom]
      rfl
    rw [hrun]
    exact .inl ⟨.inl rfl, broken_of_ending rfl rfl⟩
  | true =>
    rw [or_iff_right fun h : true = false => nomatch h]
    rcases Judge.make_cases o l with ⟨hunusable, b, hmake⟩ | ⟨husable, -, r, log, hmake⟩ |
      ⟨husable, hsound, j, log, hmake⟩
    · rw [runWith_of_unmade hstart hroom hmake rfl]
      exact .inl ⟨hunusable, broken_of_ending rfl rfl⟩
    · refine .inr (.inl ⟨husable, ?_⟩)
      rcases htell : g.tell log with ⟨g', told⟩
      cases told with
      | false =>
        rw [runWith_of_untold hstart hroom hmake htell]
        exact ⟨.notWritable, refused_of_ending rfl rfl⟩
      | true =>
        rw [runWith_of_unmade hstart hroom hmake htell]
        exact ⟨r, refused_of_ending rfl rfl⟩
    · rcases htell : g.tell log with ⟨g', told⟩
      cases told with
      | false =>
        rw [runWith_of_untold hstart hroom hmake htell]
        exact .inr (.inl ⟨husable, .notWritable, refused_of_ending rfl rfl⟩)
      | true =>
        have htold : (g.tell log).2 = true := by rw [htell]
        exact .inr (.inr ⟨husable, hsound, g, j, log, hstart, hmake,
          runWith_judges hstart hroom hmake htold⟩)

end PathSieve.Command
