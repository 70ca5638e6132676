import PathSieve.Proofs.Rule.Falling
import PathSieve.Rule.Engine

namespace PathSieve

/-!
# Runs of an engine

What is done with an engine from its making on: rules are added and taken out by name, switched on
and off, cleared away, and the default action is set.

* `Engine.Dated`, `Engine.Precedes` — entries with the time of their adding, and which of two is
  tried first.
* `Engine.Call`, `Engine.call` — what is done with an engine, and its effect.
* `Engine.Session` — an engine with a record of the entries that are in use.
* `Engine.Session.step_arranged`, `Engine.Session.run_arranged` — one call, and every run, keep the
  entries of the engine in the order of the record, arranged by priority.
-/

/-! ### Priorities -/

/-- A rule whose priority is an integer and whose action is known. -/
structure Rule.Ordinary (r : Rule) : Prop where
  priority : ∃ n, r.priority = .int n
  action : ∃ a, r.action = .known a

/-- The priority of a rule, if it is an integer. -/
def Rule.rank (r : Rule) : Int :=
  match r.priority with
  | .int n => n
  | _ => 0

theorem Rule.Ordinary.priority_eq {r : Rule} (h : r.Ordinary) : r.priority = .int r.rank := by
  obtain ⟨n, hn⟩ := h.priority
  rw [Rule.rank, hn]

/-- The patterns of a rule, if they all compile; those that are objects stand on a shelf. -/
def Rule.compiled? (r : Rule) (shelf : PathPattern.Shelf) : Option (List PathPattern) :=
  r.patterns.elements?.bind fun items => (Engine.compileAll shelf r.flags items).1.toOption

/-- The compiled patterns of a rule are those of its list. -/
theorem Rule.compiled?_eq_some_iff_compileAll {shelf : PathPattern.Shelf} (r : Rule)
    {items : List Argument} {ps : List PathPattern} (hitems : r.patterns.elements? = some items) :
    r.compiled? shelf = some ps ↔ (Engine.compileAll shelf r.flags items).1 = .ok ps := by
  rw [Rule.compiled?, hitems, Option.bind_some]
  cases (Engine.compileAll shelf r.flags items).1 with
  | error y => simp [Except.toOption]
  | ok qs => simp [Except.toOption]

/-- Integers are in order. -/
theorem inOrder_ints {vs : List Value} (h : ∀ v ∈ vs, ∃ n, v = .int n) : inOrder vs := by
  have hall : vs.all (·.orderKind? = some .number) := by
    refine List.all_eq_true.2 fun v hv => ?_
    obtain ⟨n, rfl⟩ := h v hv
    rfl
  rw [inOrder, hall, Bool.true_or]

namespace Engine

variable {e : Engine}

/-! ### Entries by the time of their adding -/

/-- The rank of the rule of an entry. -/
def rank (e : Engine) (x : EngineEntry) : Int := (e.rule x.rule).rank

/-- An entry and the time at which it was added. -/
structure Dated where
  time : Nat
  entry : EngineEntry

/-- Which of two entries is tried first: the one of higher priority, and among equals the one that
was added first. -/
def Precedes (e : Engine) (x y : Dated) : Prop :=
  e.rank y.entry < e.rank x.entry ∨ e.rank x.entry = e.rank y.entry ∧ x.time < y.time

/-- The stable sort of entries by falling priority. -/
def arrange (e : Engine) (xs : List Dated) : List Dated := falling (e.rank ·.entry) xs

/-- Entries of one priority are listed in the order in which they were added. -/
def Datewise (e : Engine) (xs : List Dated) : Prop :=
  xs.Pairwise fun x y => e.rank x.entry = e.rank y.entry → x.time < y.time

@[simp] theorem arrange_nil (e : Engine) : e.arrange [] = [] := List.mergeSort_nil

theorem arrange_perm (e : Engine) (xs : List Dated) : (e.arrange xs).Perm xs := falling_perm _ xs

theorem arrange_precedes {xs : List Dated} (h : e.Datewise xs) :
    (e.arrange xs).Pairwise e.Precedes := by
  refine List.pairwise_iff_forall_sublist.2 fun {x y} hsub => ?_
  have hle : e.rank y.entry ≤ e.rank x.entry :=
    List.pairwise_iff_forall_sublist.1 (falling_pairwise (e.rank ·.entry) xs) hsub
  by_cases heq : e.rank x.entry = e.rank y.entry
  · -- Entries of one priority stand in the sorted list as they did before.
    have hfilter := hsub.filter (e.rank ·.entry = e.rank y.entry)
    rw [arrange, filter_falling] at hfilter
    have hpair : [x, y].filter (e.rank ·.entry = e.rank y.entry) = [x, y] := by simp [heq]
    rw [hpair] at hfilter
    have htime := List.pairwise_iff_forall_sublist.1 h (hfilter.trans List.filter_sublist)
    exact .inr ⟨heq, htime heq⟩
  · exact .inl (by omega)

/-- There is only one way to arrange entries. -/
theorem precedes_unique {xs ys : List Dated} (hxs : xs.Pairwise e.Precedes)
    (hys : ys.Pairwise e.Precedes) (h : xs.Perm ys) : xs = ys := by
  refine List.Perm.eq_of_pairwise (fun x y _ _ hxy hyx => ?_) hxs hys h
  unfold Precedes at hxy hyx
  omega

theorem Datewise.of_time {xs : List Dated} (h : xs.Pairwise (·.time < ·.time)) :
    e.Datewise xs := by
  refine List.Pairwise.imp ?_ h
  intro x y hxy _
  exact hxy

/-- A new entry is put behind those that are arranged, or behind those in use: it is the same. -/
theorem arrange_append (e : Engine) (xs : List Dated) (new : Dated) :
    e.arrange (e.arrange xs ++ [new]) = e.arrange (xs ++ [new]) := falling_append _ xs [new]

/-- Entries that are taken out leave the others arranged. -/
theorem arrange_filter {xs : List Dated} (h : xs.Pairwise (·.time < ·.time)) (q : Dated → Bool) :
    (e.arrange xs).filter q = e.arrange (xs.filter q) := by
  refine precedes_unique ?_ (arrange_precedes (.of_time (h.filter q))) ?_
  · exact (arrange_precedes (.of_time h)).filter q
  · exact ((e.arrange_perm xs).filter q).trans (arrange_perm ..).symm

/-- The first entry of a kind is taken out by its time. -/
theorem eraseP_eq_filter {q : Dated → Bool} {xs : List Dated} {x : Dated}
    (h : xs.Pairwise (·.time ≠ ·.time)) (hx : xs.find? q = some x) :
    xs.eraseP q = xs.filter (·.time ≠ x.time) := by
  induction xs with
  | nil => cases hx
  | cons y ys ih =>
    obtain ⟨hy, hys⟩ := List.pairwise_cons.1 h
    by_cases hq : q y
    · rw [List.find?_cons_of_pos hq] at hx
      obtain rfl := Option.some.inj hx
      have hkeep : ys.filter (·.time ≠ y.time) = ys :=
        List.filter_eq_self.2 fun z hz => decide_eq_true (hy z hz).symm
      rw [List.eraseP_cons_of_pos hq, List.filter_cons_of_neg (by simp), hkeep]
    · rw [List.find?_cons_of_neg hq] at hx
      have hxy : y.time ≠ x.time := hy x (List.mem_of_find?_eq_some hx)
      rw [List.eraseP_cons_of_neg hq, List.filter_cons_of_pos (by simpa using hxy), ih hys hx]

/-! ### Calls -/

/-- Something that is done with an engine whose rules are known beforehand. -/
inductive Call where
  | add (number : Nat)
  | remove (name : Value)
  | setEnabled (name : Value) (enabled : Bool)
  | clear
  | setDefault (action : ActionField)

/-- The engine after a call. -/
def call (e : Engine) : Call → Engine
  | .add number => (e.add number).1
  | .remove name => (e.remove name).1
  | .setEnabled name enabled => (e.setEnabled name enabled).1
  | .clear => e.clear
  | .setDefault action => { e with defaultAction := action }

/-- All rules have integers as priorities and known actions. -/
def Ordinary (e : Engine) : Prop := ∀ number, (e.rule number).Ordinary

theorem ordinary_of_rules {rules : Array Rule} (h : ∀ r ∈ rules, r.Ordinary)
    (shelf : PathPattern.Shelf) (entries : List EngineEntry) (action : ActionField) :
    (Engine.mk rules shelf entries action).Ordinary := by
  intro number
  show (rules.getD number blankRule).Ordinary
  rw [Array.getD_eq_getD_getElem?]
  cases hr : rules[number]? with
  | none => exact ⟨⟨0, rfl⟩, ⟨.included, rfl⟩⟩
  | some r => exact h r (Array.mem_of_getElem? hr)

/-- Where priorities are integers they are sorted as integers. -/
theorem sortFalling_priorityOf (h : e.Ordinary) (xs : List EngineEntry) :
    sortFalling e.priorityOf xs = (falling e.rank xs, true) := by
  have hint : ∀ x, e.priorityOf x = .int (e.rank x) := fun x => (h x.rule).priority_eq
  have horder : inOrder (xs.map e.priorityOf) := by
    refine inOrder_ints fun v hv => ?_
    obtain ⟨x, -, rfl⟩ := List.mem_map.1 hv
    exact ⟨_, hint x⟩
  have hbelow : notBelow e.priorityOf = fun x y => decide (e.rank y ≤ e.rank x) := by
    funext x y
    rw [notBelow, hint, hint]
    show decide (some (decide (e.rank x < e.rank y)) ≠ some true) = _
    simp
  rw [sortFalling_of_inOrder horder, hbelow, falling]

/-- Adding a rule puts an entry in where all patterns compile, and else changes nothing. -/
theorem add_eq (h : e.Ordinary) (number : Nat) :
    (e.add number).1 = match (e.rule number).compiled? e.shelf with
      | some patterns => { e with entries := falling e.rank (e.entries ++ [⟨number, patterns⟩]) }
      | none => e := by
  cases hitems : (e.rule number).patterns.elements? with
  | none => simp only [add, Rule.compiled?, hitems, Option.bind_none]
  | some items =>
    rcases hcompiled : compileAll e.shelf (e.rule number).flags items with ⟨result, log⟩
    cases result with
    | error x =>
      simp only [add, Rule.compiled?, hitems, Option.bind_some, hcompiled, Except.toOption]
    | ok patterns =>
      obtain ⟨a, ha⟩ := (h number).action
      simp only [add, Rule.compiled?, hitems, Option.bind_some, hcompiled, Except.toOption, place,
        sortFalling_priorityOf h, ha]

/-- Switching a rule on or off leaves everything else alone. -/
theorem setEnabled_same (e : Engine) (name : Value) (enabled : Bool) :
    (e.setEnabled name enabled).1.entries = e.entries ∧
      (e.setEnabled name enabled).1.rules.size = e.rules.size ∧
        (e.setEnabled name enabled).1.shelf = e.shelf ∧
          (e.setEnabled name enabled).1.defaultAction = e.defaultAction := by
  unfold setEnabled
  split <;> simp [modifyRule]

/-- Switching a rule on or off leaves the priorities alone. -/
theorem rule_setEnabled (e : Engine) (name : Value) (enabled : Bool) (number : Nat) :
    ∃ b, (e.setEnabled name enabled).1.rule number = { e.rule number with enabled := b } := by
  unfold setEnabled
  split
  · exact ⟨_, rfl⟩
  · rename_i x hx
    show ∃ b, (e.rules.modify x.rule _).getD number blankRule = _
    rw [rule, Array.getD_eq_getD_getElem?, Array.getD_eq_getD_getElem?, Array.getElem?_modify]
    split
    · cases e.rules[number]? with
      | none => exact ⟨_, rfl⟩
      | some r => exact ⟨_, rfl⟩
    · exact ⟨_, rfl⟩

/-- No call changes the priority of a rule. -/
theorem call_rank (h : e.Ordinary) (c : Call) : (e.call c).Ordinary ∧ (e.call c).rank = e.rank := by
  have hsame : (e.call c).rules = e.rules → (e.call c).Ordinary ∧ (e.call c).rank = e.rank := by
    intro hrules
    have hrule : ∀ number, (e.call c).rule number = e.rule number := by
      intro number
      rw [rule, hrules, rule]
    exact ⟨fun number => hrule number ▸ h number, funext fun x => by rw [rank, hrule, rank]⟩
  cases c with
  | add number =>
    refine hsame ?_
    show (e.add number).1.rules = _
    rw [add_eq h]
    split
    · rfl
    · rfl
  | setEnabled name enabled =>
    refine ⟨fun number => ?_, funext fun x => ?_⟩
    · obtain ⟨b, hb⟩ := e.rule_setEnabled name enabled number
      show ((e.setEnabled name enabled).1.rule number).Ordinary
      rw [hb]
      exact ⟨(h number).priority, (h number).action⟩
    · obtain ⟨b, hb⟩ := e.rule_setEnabled name enabled x.rule
      show ((e.setEnabled name enabled).1.rule x.rule).rank = _
      rw [hb]
      rfl
  | remove name => exact hsame rfl
  | clear => exact hsame rfl
  | setDefault action => exact hsame rfl

/-! ### Runs -/

/-- An engine, the entries in use in the order in which they were added, and the time. -/
structure Session where
  engine : Engine
  present : List Dated
  time : Nat

namespace Session

/-- The entries in use after a call: a rule that compiles comes to the end, and the first entry
with a name in the order of trying is taken out. -/
def record (w : Session) : Call → List Dated
  | .add number => match (w.engine.rule number).compiled? w.engine.shelf with
    | some patterns => w.present ++ [⟨w.time, ⟨number, patterns⟩⟩]
    | none => w.present
  | .remove name => match (w.engine.arrange w.present).find? (w.engine.hasName name ·.entry) with
    | some x => w.present.filter (·.time ≠ x.time)
    | none => w.present
  | .clear => []
  | .setEnabled _ _ | .setDefault _ => w.present

/-- The session after a call. -/
def step (w : Session) (c : Call) : Session := ⟨w.engine.call c, w.record c, w.time + 1⟩

/-- The session after some calls on a new engine. -/
def run (rules : Array Rule) (shelf : PathPattern.Shelf) (action : ActionField)
    (calls : List Call) : Session :=
  calls.foldl step ⟨⟨rules, shelf, [], action⟩, [], 0⟩

/-- The entries of the engine are those that are in use, arranged. -/
structure Arranged (w : Session) : Prop where
  ordinary : w.engine.Ordinary
  dated : w.present.Pairwise (·.time < ·.time)
  past : ∀ x ∈ w.present, x.time < w.time
  entries_eq : w.engine.entries = (w.engine.arrange w.present).map Dated.entry

variable {w : Session}

theorem Arranged.start {rules : Array Rule} (h : ∀ r ∈ rules, r.Ordinary)
    (shelf : PathPattern.Shelf) (action : ActionField) :
    Arranged ⟨⟨rules, shelf, [], action⟩, [], 0⟩ :=
  ⟨ordinary_of_rules h shelf [] action, .nil, fun _ hx => absurd hx List.not_mem_nil, by simp⟩

/-- What a call does to the entries is what is recorded. -/
theorem Arranged.entries_call (h : w.Arranged) (c : Call) :
    (w.engine.call c).entries = (w.engine.arrange (w.record c)).map Dated.entry := by
  cases c with
  | add number =>
    show (w.engine.add number).1.entries = _
    rw [add_eq h.ordinary, record]
    cases (w.engine.rule number).compiled? w.engine.shelf with
    | none => exact h.entries_eq
    | some patterns =>
      let new : Dated := ⟨w.time, ⟨number, patterns⟩⟩
      have hmap : w.engine.entries ++ [new.entry] =
          (w.engine.arrange w.present ++ [new]).map Dated.entry := by
        rw [h.entries_eq, List.map_append, List.map_singleton]
      show falling w.engine.rank (w.engine.entries ++ [new.entry]) = _
      rw [hmap, falling_map]
      exact congrArg (List.map Dated.entry) (w.engine.arrange_append w.present new)
  | remove name =>
    show w.engine.entries.eraseP (w.engine.hasName name) = _
    rw [h.entries_eq, List.eraseP_map, record]
    show ((w.engine.arrange w.present).eraseP (w.engine.hasName name ·.entry)).map _ = _
    cases hx : (w.engine.arrange w.present).find? (w.engine.hasName name ·.entry) with
    | none =>
      have hnone := List.find?_eq_none.1 hx
      rw [List.eraseP_of_forall_not hnone]
    | some x =>
      have htime : (w.engine.arrange w.present).Pairwise (·.time ≠ ·.time) := by
        refine List.Perm.pairwise (w.engine.arrange_perm w.present).symm ?_ fun hxy => hxy.symm
        exact h.dated.imp Nat.ne_of_lt
      have herase := eraseP_eq_filter htime hx
      rw [herase, arrange_filter h.dated]
  | setEnabled name enabled =>
    show (w.engine.setEnabled name enabled).1.entries = _
    rw [(w.engine.setEnabled_same name enabled).1]
    exact h.entries_eq
  | clear =>
    show [] = (w.engine.arrange []).map Dated.entry
    rw [arrange_nil, List.map_nil]
  | setDefault action => exact h.entries_eq

/-- The record stays in the order of time. -/
theorem Arranged.dated_record (h : w.Arranged) (c : Call) :
    (w.record c).Pairwise (·.time < ·.time) ∧ ∀ x ∈ w.record c, x.time < w.time + 1 := by
  have hlater : ∀ x ∈ w.present, x.time < w.time + 1 := fun x hx => Nat.lt_succ_of_lt (h.past x hx)
  have hsublist : ∀ {xs : List Dated}, xs.Sublist w.present →
      xs.Pairwise (·.time < ·.time) ∧ ∀ x ∈ xs, x.time < w.time + 1 := by
    intro xs hxs
    exact ⟨h.dated.sublist hxs, fun x hx => hlater x (hxs.mem hx)⟩
  cases c with
  | add number =>
    rw [record]
    split
    · rename_i patterns _
      constructor
      · refine List.pairwise_append.2 ⟨h.dated, List.pairwise_singleton .., fun x hx y hy => ?_⟩
        rw [List.mem_singleton.1 hy]
        exact h.past x hx
      · intro x hx
        rcases List.mem_append.1 hx with hx | hx
        · exact hlater x hx
        · rw [List.mem_singleton.1 hx]
          exact Nat.lt_succ_self _
    · exact hsublist (List.Sublist.refl _)
  | remove name =>
    rw [record]
    split
    · exact hsublist List.filter_sublist
    · exact hsublist (List.Sublist.refl _)
  | clear => exact hsublist (List.nil_sublist _)
  | setEnabled name enabled => exact hsublist (List.Sublist.refl _)
  | setDefault action => exact hsublist (List.Sublist.refl _)

/-- A call keeps the entries arranged. -/
theorem step_arranged (h : w.Arranged) (c : Call) : (w.step c).Arranged := by
  obtain ⟨hordinary, hrank⟩ := call_rank h.ordinary c
  obtain ⟨hdated, hpast⟩ := h.dated_record c
  refine ⟨hordinary, hdated, hpast, ?_⟩
  have harrange : (w.engine.call c).arrange = w.engine.arrange := by
    funext xs
    rw [arrange, hrank, arrange]
  show (w.engine.call c).entries = ((w.engine.call c).arrange (w.record c)).map Dated.entry
  rw [harrange]
  exact h.entries_call c

theorem run_arranged {rules : Array Rule} (h : ∀ r ∈ rules, r.Ordinary)
    (shelf : PathPattern.Shelf) (action : ActionField) (calls : List Call) :
    (run rules shelf action calls).Arranged :=
  List.foldlRecOn (motive := Arranged) calls step (.start h shelf action)
    fun _ hw c _ => step_arranged hw c

/-- The engine of a session goes its way whatever is recorded. -/
theorem run_engine (rules : Array Rule) (shelf : PathPattern.Shelf) (action : ActionField)
    (calls : List Call) :
    (run rules shelf action calls).engine = calls.foldl Engine.call ⟨rules, shelf, [], action⟩ := by
  have hfold : ∀ (calls : List Call) (w : Session),
      (calls.foldl step w).engine = calls.foldl Engine.call w.engine := by
    intro calls
    induction calls with
    | nil => exact fun _ => rfl
    | cons c calls ih => exact fun w => ih (w.step c)
  exact hfold calls _

theorem Arranged.falling (h : w.Arranged) :
    w.engine.entries.Pairwise fun x y => w.engine.rank y ≤ w.engine.rank x := by
  rw [h.entries_eq, List.pairwise_map]
  refine (arrange_precedes (.of_time h.dated)).imp fun hxy => ?_
  unfold Precedes at hxy
  omega

end Session

end Engine

end PathSieve
