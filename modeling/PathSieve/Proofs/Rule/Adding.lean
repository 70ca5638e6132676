import PathSieve.Proofs.PathPattern.Installing
import PathSieve.Proofs.Rule.Session
import PathSieve.Proofs.Rule.Sorting

namespace PathSieve

open PathPattern

/-!
# Rules that are refused

A rule is added in three steps: its patterns are compiled, its entry is put in by priority, and it
is spoken of. Each of them may fail, the first one before anything is changed and the others
afterwards.

* `Rule.Compilable`, `Rule.exists_compiled_iff` — rules whose patterns can be compiled.
* `Engine.place_entries`, `Engine.place_ok_iff` — what the other two steps do, and when they
  succeed.
* `Engine.add_cases`, `Engine.add_error_iff` — what adding a rule does, and when it fails.
* `Engine.addTold_cases`, `Engine.addTold_ok` — what it does where it is told, and when nothing is
  found out too late.
* `Engine.add_refused` — what a refused rule leaves behind.
-/

/-! ### Compiling -/

namespace Engine

variable {shelf : Shelf}

/-- What it takes to compile a pattern of a rule: flags that can be read, and, unless the pattern is
absent, a text that compiles. -/
def Acceptable (shelf : Shelf) (flags a : Argument) : Prop :=
  Readable flags ∧ (a.isAbsent ∨ Installable (fun place => (shelf.find place).text) a)

theorem exists_make_iff_acceptable {flags a : Argument} :
    (∃ p, (make shelf.find a flags).1 = .ok p) ↔ Acceptable shelf flags a := exists_make_iff

/-- Patterns are compiled one by one, until one is refused. -/
theorem compileAll_cons (shelf : Shelf) (flags a : Argument) (items : List Argument) :
    (compileAll shelf flags (a :: items)).1 = (make shelf.find a flags).1.bind fun p =>
      (compileAll shelf flags items).1.map (p :: ·) := by
  rw [compileAll]
  rcases make shelf.find a flags with ⟨result, log⟩
  cases result with
  | error y => rfl
  | ok p => rfl

theorem compileAll_cons_eq_ok_iff {flags a : Argument} {items : List Argument}
    {ps : List PathPattern} : (compileAll shelf flags (a :: items)).1 = .ok ps ↔
      ∃ p rest, (make shelf.find a flags).1 = .ok p ∧
        (compileAll shelf flags items).1 = .ok rest ∧ p :: rest = ps := by
  rw [compileAll_cons]
  cases (make shelf.find a flags).1 with
  | error y => simp [Except.bind]
  | ok p =>
    cases (compileAll shelf flags items).1 with
    | error y => simp [Except.bind, Except.map]
    | ok rest => simp [Except.bind, Except.map]

/-- All patterns are compiled if each of them can be. -/
theorem exists_compileAll_iff {flags : Argument} {items : List Argument} :
    (∃ ps, (compileAll shelf flags items).1 = .ok ps) ↔ ∀ a ∈ items, Acceptable shelf flags a := by
  induction items with
  | nil => simp [compileAll]
  | cons a items ih =>
    rw [List.forall_mem_cons, ← ih, ← exists_make_iff_acceptable]
    simp only [compileAll_cons_eq_ok_iff]
    constructor
    · rintro ⟨ps, p, rest, hp, hrest, -⟩
      exact ⟨⟨p, hp⟩, rest, hrest⟩
    · rintro ⟨⟨p, hp⟩, rest, hrest⟩
      exact ⟨_, p, rest, hp, hrest, rfl⟩

end Engine

/-- The patterns of a rule can be gone through, and each of them can be compiled. -/
def Rule.Compilable (r : Rule) (shelf : Shelf) : Prop :=
  ∃ items, r.patterns.elements? = some items ∧ ∀ a ∈ items, Engine.Acceptable shelf r.flags a

theorem Rule.exists_compiled_iff {r : Rule} {shelf : Shelf} :
    (∃ ps, r.compiled? shelf = some ps) ↔ r.Compilable shelf := by
  unfold Rule.Compilable Rule.compiled?
  rcases r.patterns.elements? with _ | items
  · simp
  · simp only [Option.bind_some, Option.some.injEq, exists_eq_left', ← Engine.exists_compileAll_iff]
    rcases (Engine.compileAll shelf r.flags items).1 with y | ps
    · simp [Except.toOption]
    · simp [Except.toOption]

theorem Rule.compiled?_eq_none_iff {r : Rule} {shelf : Shelf} :
    r.compiled? shelf = none ↔ ¬r.Compilable shelf := by
  rw [← r.exists_compiled_iff, Option.eq_none_iff_forall_ne_some, not_exists]

namespace Engine

variable {e : Engine} {number : Nat} {x : EngineError}

/-! ### The entry -/

/-- Placing an entry keeps all others, also where the sort breaks off or the rule cannot be spoken
of. -/
theorem place_entries (e : Engine) (entry : EngineEntry) :
    ∃ entries, (e.place entry).1 = { e with entries } ∧
      entries.Perm (e.entries ++ [entry]) :=
  ⟨_, rfl, sortFalling_perm e.priorityOf _⟩

/-- An entry is placed without a failure if all priorities can be sorted and the action of its rule
is one. -/
theorem place_ok_iff (e : Engine) (entry : EngineEntry) :
    (∃ told, (e.place entry).2 = .ok told) ↔
      (sortFalling e.priorityOf (e.entries ++ [entry])).2 = true ∧
        ∃ a, (e.rule entry.rule).action = .known a := by
  rcases hsort : sortFalling e.priorityOf (e.entries ++ [entry]) with ⟨sorted, done⟩
  cases done with
  | false => simp [place, hsort]
  | true =>
    cases haction : (e.rule entry.rule).action with
    | known a => simp [place, hsort, haction]
    | other v => simp [place, hsort, haction]

/-- **What adding a rule does.** Either its patterns are refused and nothing changes, or its entry
is placed. -/
theorem add_cases (e : Engine) (number : Nat) :
    ((e.rule number).compiled? e.shelf = none ∧ (e.add number).1 = e ∧
        ∃ x, (e.add number).2.1 = .error x) ∨
      ∃ patterns, (e.rule number).compiled? e.shelf = some patterns ∧
        (e.add number).1 = (e.place ⟨number, patterns⟩).1 ∧
        ((∃ x, (e.add number).2.1 = .error x) ↔
          ∃ x, (e.place ⟨number, patterns⟩).2 = .error x) := by
  cases hitems : (e.rule number).patterns.elements? with
  | none => simp [add, Rule.compiled?, hitems]
  | some items =>
    rcases hall : compileAll e.shelf (e.rule number).flags items with ⟨result, log⟩
    cases result with
    | error y => simp [add, Rule.compiled?, hitems, hall, Except.toOption]
    | ok patterns =>
      refine .inr ⟨patterns, by simp [Rule.compiled?, hitems, hall, Except.toOption], ?_⟩
      rcases hplace : e.place ⟨number, patterns⟩ with ⟨e', done⟩
      cases done with
      | error y => simp [add, hitems, hall, hplace]
      | ok told => simp [add, hitems, hall, hplace]

/-- An entry after a rule was added was there before, or it is that of the rule. -/
theorem mem_entries_add {y : EngineEntry} (hy : y ∈ (e.add number).1.entries) :
    y ∈ e.entries ∨ y.rule = number ∧ (e.rule number).compiled? e.shelf = some y.patterns := by
  rcases e.add_cases number with ⟨-, hsame, -⟩ | ⟨patterns, hpatterns, hafter, -⟩
  · rw [hsame] at hy
    exact .inl hy
  · obtain ⟨entries, hplaced, hperm⟩ := e.place_entries ⟨number, patterns⟩
    rw [hafter, hplaced] at hy
    rw [hperm.mem_iff, List.mem_append, List.mem_singleton] at hy
    rcases hy with hold | rfl
    · exact .inl hold
    · exact .inr ⟨rfl, hpatterns⟩

/-- If its action is one and all priorities are in order, then a rule is refused only for its
patterns. -/
theorem add_error_iff (haction : ∃ a, (e.rule number).action = .known a)
    (horder : inOrder (e.entries.map e.priorityOf ++ [(e.rule number).priority])) :
    (∃ x, (e.add number).2.1 = .error x) ↔ ¬(e.rule number).Compilable e.shelf := by
  rcases e.add_cases number with ⟨hnone, -, herror⟩ | ⟨patterns, hpatterns, -, hrefused⟩
  · exact iff_of_true herror (Rule.compiled?_eq_none_iff.1 hnone)
  · refine iff_of_false ?_ fun hnot => hnot ((e.rule number).exists_compiled_iff.1 ⟨_, hpatterns⟩)
    have hdone : (sortFalling e.priorityOf (e.entries ++ [⟨number, patterns⟩])).2 = true := by
      rw [sortFalling_of_inOrder]
      rw [List.map_append]
      exact horder
    obtain ⟨told, htold⟩ := (e.place_ok_iff ⟨number, patterns⟩).2 ⟨hdone, haction⟩
    rw [hrefused, htold]
    simp

/-! ### Telling -/

/-- How many patterns are compiled. -/
theorem length_of_compiled? {r : Rule} {shelf : Shelf} {items : List Argument}
    {ps : List PathPattern} (hitems : r.patterns.elements? = some items)
    (h : r.compiled? shelf = some ps) : ps.length = items.length := by
  rw [r.compiled?_eq_some_iff_compileAll hitems] at h
  clear hitems
  induction items generalizing ps with
  | nil =>
    obtain rfl : [] = ps := Except.ok.inj h
    rfl
  | cons a items ih =>
    obtain ⟨p, rest, -, hrest, rfl⟩ := compileAll_cons_eq_ok_iff.1 h
    rw [List.length_cons, List.length_cons, ih hrest]

end Engine

/-- All that is told while the patterns of a rule are compiled can be written where it is heard. -/
def Rule.Written (r : Rule) (shelf : Shelf) (heard : Log.Origin → Bool) : Prop :=
  ∀ items, r.patterns.elements? = some items →
    (Engine.compileAll shelf r.flags items).2.any (·.fails heard) = false

/-- A rule can be spoken of: by its name, and by the number of its patterns. -/
def Rule.Tellable (r : Rule) : Prop :=
  r.spokenName.isWritable ∧
    ∀ items, r.patterns.elements? = some items → Numeral.isWritable items.length

namespace Engine

variable {e : Engine} {number : Nat} {x : EngineError} {heard : Log.Origin → Bool}

/-- Where nothing is heard nothing fails for being told. -/
theorem addTold_unheard (e : Engine) (number : Nat) :
    e.addTold (fun _ => false) number = ((e.add number).1, (e.add number).2.1) := by
  have hquiet : ∀ log : List Log.Entry, log.any (·.fails fun _ => false) = false := by
    intro log
    simp [Log.Entry.fails]
  cases hitems : (e.rule number).patterns.elements? with
  | none => simp [addTold, add, hitems]
  | some items =>
    rcases hall : compileAll e.shelf (e.rule number).flags items with ⟨result, log⟩
    cases result with
    | error y => simp [addTold, add, hitems, hall, hquiet]
    | ok patterns =>
      rcases hplace : e.place ⟨number, patterns⟩ with ⟨e', done⟩
      cases done with
      | error y => simp [addTold, add, hitems, hall, hplace, hquiet]
      | ok told => simp [addTold, add, hitems, hall, hplace, Log.Entry.fails]

/-- **What adding a rule does while it is told.** Either a pattern is refused or cannot be told of,
and nothing changes, or the entry is placed. -/
theorem addTold_cases (e : Engine) (heard : Log.Origin → Bool) (number : Nat) :
    let r := e.rule number
    (¬(r.Compilable e.shelf ∧ r.Written e.shelf heard) ∧ (e.addTold heard number).1 = e) ∨
      ∃ patterns, r.compiled? e.shelf = some patterns ∧ r.Written e.shelf heard ∧
        (e.addTold heard number).1 = (e.place ⟨number, patterns⟩).1 ∧
        ∀ told, (e.place ⟨number, patterns⟩).2 = .ok told → told.fails heard = false →
          (e.addTold heard number).2 = .ok () := by
  intro r
  cases hitems : r.patterns.elements? with
  | none =>
    refine .inl ⟨fun h => ?_, by simp [addTold, r, hitems]⟩
    obtain ⟨items, hsome, -⟩ := h.1
    simp [hitems] at hsome
  | some items =>
    rcases hall : compileAll e.shelf r.flags items with ⟨result, log⟩
    have hwritten : r.Written e.shelf heard ↔ log.any (·.fails heard) = false := by
      simp [Rule.Written, hitems, hall]
    cases hlog : log.any (·.fails heard) with
    | true =>
      refine .inl ⟨fun h => ?_, by simp [addTold, r, hitems, hall, hlog]⟩
      simp [hwritten, hlog] at h
    | false =>
      cases result with
      | error y =>
        refine .inl ⟨fun h => ?_, by simp [addTold, r, hitems, hall, hlog]⟩
        obtain ⟨ps, hps⟩ := r.exists_compiled_iff.2 h.1
        simp [Rule.compiled?, hitems, hall, Except.toOption] at hps
      | ok patterns =>
        refine .inr ⟨patterns, ?_, hwritten.2 hlog, ?_⟩
        · simp [Rule.compiled?, hitems, hall, Except.toOption]
        rcases hplace : e.place ⟨number, patterns⟩ with ⟨e', done⟩
        cases done with
        | error y => simp [addTold, r, hitems, hall, hlog, hplace]
        | ok told => simp [addTold, r, hitems, hall, hlog, hplace]

/-- What is told about a rule that is in can be written if the rule can be spoken of. -/
theorem fails_added {r : Rule} {a : Action} {patterns : List PathPattern}
    (hname : r.spokenName.isWritable) (hcount : Numeral.isWritable patterns.length) :
    (added r a patterns).fails heard = false := by
  have hwritable : (added r a patterns).isWritable = true := by
    show (r.spokenName.isWritable && (true && (Numeral.isWritable patterns.length && true))) = true
    rw [hname, hcount]
    rfl
  rw [Log.Entry.fails, hwritable, Bool.not_true, Bool.and_false]

/-- If its action is one, all priorities are in order and the rule can be spoken of where it is
heard, then nothing is found out too late. -/
theorem addTold_ok {patterns : List PathPattern} {a : Action}
    (hpatterns : (e.rule number).compiled? e.shelf = some patterns)
    (haction : (e.rule number).action = .known a)
    (horder : inOrder (e.entries.map e.priorityOf ++ [(e.rule number).priority]))
    (htellable : heard .rules → (e.rule number).Tellable) :
    ∃ told, (e.place ⟨number, patterns⟩).2 = .ok told ∧ told.fails heard = false := by
  have hdone : (sortFalling e.priorityOf (e.entries ++ [⟨number, patterns⟩])).2 = true := by
    rw [sortFalling_of_inOrder]
    rw [List.map_append]
    exact horder
  have htold : (e.place ⟨number, patterns⟩).2 = .ok (added (e.rule number) a patterns) := by
    rcases hsort : sortFalling e.priorityOf (e.entries ++ [⟨number, patterns⟩]) with ⟨sorted, done⟩
    obtain rfl : done = true := by rw [hsort] at hdone; exact hdone
    simp [place, hsort, haction]
  refine ⟨_, htold, ?_⟩
  cases hheard : heard .rules with
  | false =>
    show (heard .rules && _) = false
    rw [hheard, Bool.false_and]
  | true =>
    obtain ⟨hname, hcount⟩ := htellable hheard
    obtain ⟨items, hitems, -⟩ := (e.rule number).exists_compiled_iff.1 ⟨_, hpatterns⟩
    refine fails_added hname ?_
    rw [length_of_compiled? hitems hpatterns]
    exact hcount items hitems

/-! ### Refusal -/

/-- **A rule that is refused leaves the engine as it was**: its rules and their order, the compiled
patterns and the default action, if the action of the rule is one, its priority can be compared
with the others and, where it is heard that a rule was added, the rule can be spoken of. In general
the engine is as it was exactly if a pattern or the flags of the rule are refused, or cannot be
told of. Whatever else it is refused for is found out too late: the entry has been put in among the
others, of which none is lost. -/
theorem add_refused (h : (e.addTold heard number).2 = .error x) :
    let r := e.rule number
    let after := (e.addTold heard number).1
    ((∃ a, r.action = .known a) → inOrder (e.entries.map e.priorityOf ++ [r.priority]) →
        (heard .rules → r.Tellable) → after = e) ∧
      (after = e ↔ ¬(r.Compilable e.shelf ∧ r.Written e.shelf heard)) ∧
      (r.Compilable e.shelf → r.Written e.shelf heard →
        ∃ patterns entries, r.compiled? e.shelf = some patterns ∧
          after = { e with entries } ∧ entries.Perm (e.entries ++ [⟨number, patterns⟩])) := by
  intro r after
  rcases e.addTold_cases heard number with
    ⟨hnot, hsame⟩ | ⟨patterns, hpatterns, hwritten, hafter, hfinished⟩
  · exact ⟨fun _ _ _ => hsame, iff_of_true hsame hnot, fun hcompilable hwritten =>
      absurd ⟨hcompilable, hwritten⟩ hnot⟩
  · have hcompilable : r.Compilable e.shelf := r.exists_compiled_iff.1 ⟨patterns, hpatterns⟩
    obtain ⟨entries, hplaced, hperm⟩ := e.place_entries ⟨number, patterns⟩
    have hentries : after = { e with entries } := hafter.trans hplaced
    have hchanged : after ≠ e := by
      intro hsame
      -- One entry more cannot be the same list.
      have hlength : entries.length = e.entries.length + 1 := by
        rw [hperm.length_eq, List.length_append, List.length_singleton]
      have hcongr := congrArg (fun e : Engine => e.entries.length) (hentries.symm.trans hsame)
      simp only at hcongr
      omega
    refine ⟨?_, iff_of_false hchanged fun hnot => hnot ⟨hcompilable, hwritten⟩, fun _ _ =>
      ⟨patterns, entries, hpatterns, hentries, hperm⟩⟩
    rintro ⟨a, haction⟩ horder htellable
    obtain ⟨told, htold, hfine⟩ := addTold_ok hpatterns haction horder htellable
    have hok := hfinished told htold hfine
    rw [h] at hok
    cases hok

/-- A rule of which the last pattern is malformed, added to an engine with a rule of higher
priority while all is heard. -/
theorem add_refused_malformed :
    let keep : Rule := ⟨.known .included, .sequence [.text "*.c"], .flags .none, .text "keep",
      .int 5, .bool true⟩
    let drop : Rule := ⟨.known .excluded, .sequence [.text "*", .path "a", .text "(x"],
      .flags .none, .text "drop", .int 0, .bool true⟩
    let e := (Session.run #[keep, drop] .blank (.known .included) [.add 0]).engine
    (∃ x, (e.addTold (fun _ => true) 1).2 = .error x) ∧ (∃ a, (e.rule 1).action = .known a) ∧
      inOrder (e.entries.map e.priorityOf ++ [(e.rule 1).priority]) = true ∧
      (e.rule 1).Tellable ∧ (e.addTold (fun _ => true) 1).1 = e := by
  intro keep drop e
  obtain ⟨x, hrefused⟩ : ∃ x, (e.addTold (fun _ => true) 1).2 = .error x := by
    have hnot : (e.addTold (fun _ => true) 1).2.isOk = false := by decide +kernel
    cases hresult : (e.addTold (fun _ => true) 1).2 with
    | error x => exact ⟨x, rfl⟩
    | ok u =>
      rw [hresult] at hnot
      cases hnot
  have haction : (e.rule 1).action = .known .excluded := rfl
  have horder : inOrder (e.entries.map e.priorityOf ++ [(e.rule 1).priority]) = true := by
    decide +kernel
  have htellable : (e.rule 1).Tellable := by
    refine ⟨rfl, fun items hitems => ?_⟩
    obtain rfl : [.text "*", .path "a", .text "(x"] = items := Option.some.inj hitems
    decide +kernel
  exact ⟨⟨x, hrefused⟩, ⟨_, haction⟩, horder, htellable,
    (add_refused hrefused).1 ⟨_, haction⟩ horder fun _ => htellable⟩

/-- A rule whose priority is a text, one whose action is none and, where it is heard, one whose name
has too many digits are refused and stay in the engine, the first of them with a verdict of its
own. -/
theorem refused_kept :
    let keep : Rule := ⟨.known .included, .sequence [.text "*.c"], .flags .none, .text "keep",
      .int 0, .bool true⟩
    let high : Rule := ⟨.known .excluded, .sequence [.text "*"], .flags .none, .text "high",
      .text "high", .bool true⟩
    let drop : Rule := ⟨.other (.text "exclude"), .sequence [.text "*"], .flags .none, .text "drop",
      .int 0, .bool true⟩
    let huge : Rule := ⟨.known .excluded, .sequence [.text "*"], .flags .none,
      .int (.ofNat (Nat.pow 10 4300)), .int 0, .bool true⟩
    let fresh : Engine := ⟨#[keep, high, drop, huge], .blank, [], .known .included⟩
    let e := fresh.call (.add 0)
    ((e.add 1).2.1.isOk = false ∧ e.entries.map (·.rule) = [0] ∧
        (e.add 1).1.entries.map (·.rule) = [0, 1] ∧ e.includes (.text "a.h") = .ok true ∧
        (e.add 1).1.includes (.text "a.h") = .ok false) ∧
      ((fresh.add 2).2.1.isOk = false ∧ (fresh.add 2).1.entries.map (·.rule) = [2]) ∧
      (fresh.addTold (fun _ => true) 3).2.isOk = false ∧
        (fresh.addTold (fun _ => true) 3).1.entries.map (·.rule) = [3] := by
  decide +kernel

end Engine

end PathSieve
