import PathSieve.Proofs.Rule.Session

namespace PathSieve.Engine

/-!
# The order of rules

However rules are added to an engine and taken out of it, they are tried in falling order of
priority, and among equals in the order in which they were added.

* `Engine.addAll_perm` — rules of different priorities may be added in any order.
* `Engine.rules_arranged` — what holds after every run, and what does not depend on the order of a
  run.
-/

variable {e : Engine}

/-! ### Rules of different priorities -/

/-- The entry of a rule, if its patterns compile. -/
def entryOf (e : Engine) (number : Nat) : Option EngineEntry :=
  ((e.rule number).compiled? e.shelf).map (⟨number, ·⟩)

/-- The engine after some rules were added. -/
def addAll (e : Engine) (numbers : List Nat) : Engine := (numbers.map Call.add).foldl call e

/-- A rule that is added changes nothing but the entries. -/
theorem add_same (h : e.Ordinary) (number : Nat) :
    (e.add number).1 = { e with entries := (e.add number).1.entries } := by
  rw [add_eq h]
  split
  · rfl
  · rfl

/-- A rule that is added comes behind those of its priority. -/
theorem filter_add (h : e.Ordinary) (number : Nat) (n : Int) :
    (e.add number).1.entries.filter (e.rank · = n) =
      (e.entries ++ (e.entryOf number).toList).filter (e.rank · = n) := by
  rw [add_eq h, entryOf]
  cases (e.rule number).compiled? e.shelf with
  | none => simp
  | some patterns => exact filter_falling e.rank _ n

theorem falling_add (h : e.Ordinary) (hfalling : e.entries.Pairwise fun x y => e.rank y ≤ e.rank x)
    (number : Nat) : (e.add number).1.entries.Pairwise fun x y => e.rank y ≤ e.rank x := by
  rw [add_eq h]
  split
  · exact falling_pairwise e.rank _
  · exact hfalling

/-- What some rules that are added leave behind. -/
theorem addAll_spec (h : e.Ordinary) (hfalling : e.entries.Pairwise fun x y => e.rank y ≤ e.rank x)
    (numbers : List Nat) :
    e.addAll numbers = { e with entries := (e.addAll numbers).entries } ∧
      ((e.addAll numbers).entries.Pairwise fun x y => e.rank y ≤ e.rank x) ∧
      ∀ n, (e.addAll numbers).entries.filter (e.rank · = n) =
        (e.entries ++ numbers.filterMap e.entryOf).filter (e.rank · = n) := by
  induction numbers generalizing e with
  | nil => exact ⟨rfl, hfalling, fun n => by rw [List.filterMap_nil, List.append_nil]; rfl⟩
  | cons k numbers ih =>
    obtain ⟨hordinary, hrank⟩ := call_rank h (.add k)
    have hsame := add_same h k
    have hentryOf : (e.add k).1.entryOf = e.entryOf := by
      rw [hsame]
      rfl
    have hrank : (e.add k).1.rank = e.rank := hrank
    have hspec := ih (e := (e.add k).1) hordinary (by rw [hrank]; exact falling_add h hfalling k)
    rw [hrank, hentryOf] at hspec
    obtain ⟨hspecSame, hspecFalling, hfilter⟩ := hspec
    have hspecSame' : (e.add k).1.addAll numbers =
        { e with entries := ((e.add k).1.addAll numbers).entries } := by
      rw [hspecSame, hsame]
    refine ⟨hspecSame', hspecFalling, fun n => ?_⟩
    have hcons : (k :: numbers).filterMap e.entryOf =
        (e.entryOf k).toList ++ numbers.filterMap e.entryOf := by
      rw [List.filterMap_cons]
      cases e.entryOf k with
      | none => rfl
      | some x => rfl
    show ((e.add k).1.addAll numbers).entries.filter _ = _
    rw [hfilter, hcons, List.filter_append, filter_add h, ← List.filter_append, List.append_assoc]

/-- Entries of different ranks have at most one of each. -/
theorem filter_eq_of_perm {xs ys : List EngineEntry} (h : xs.Perm ys)
    (hrank : (xs.map e.rank).Nodup) (n : Int) :
    xs.filter (e.rank · = n) = ys.filter (e.rank · = n) := by
  have halone : ∀ {zs : List EngineEntry}, (zs.map e.rank).Nodup →
      (zs.filter (e.rank · = n)).Pairwise fun _ _ => False := by
    intro zs hzs
    refine List.Pairwise.imp_of_mem ?_ ((List.pairwise_map.1 hzs).filter _)
    intro x y hx hy hne
    have hxn := of_decide_eq_true (List.mem_filter.1 hx).2
    have hyn := of_decide_eq_true (List.mem_filter.1 hy).2
    exact hne (hxn.trans hyn.symm)
  refine List.Perm.eq_of_pairwise (fun _ _ _ _ hxy => hxy.elim) (halone hrank) ?_ (h.filter _)
  exact halone ((h.map e.rank).nodup_iff.1 hrank)

/-- Rules of different priorities may be added in any order. -/
theorem addAll_perm (h : e.Ordinary) (hfalling : e.entries.Pairwise fun x y => e.rank y ≤ e.rank x)
    {ks ls : List Nat} (hperm : ks.Perm ls) (hrank : (ks.map fun k => (e.rule k).rank).Nodup) :
    e.addAll ks = e.addAll ls := by
  obtain ⟨hsame, hleft, hfilterLeft⟩ := addAll_spec h hfalling ks
  obtain ⟨hsame', hright, hfilterRight⟩ := addAll_spec h hfalling ls
  -- A rule that does not compile has no entry, so there are at most as many ranks as rules.
  have hsub : ((ks.filterMap e.entryOf).map e.rank).Sublist (ks.map fun k => (e.rule k).rank) := by
    clear hperm hrank hfilterLeft hleft hsame
    induction ks with
    | nil => exact List.Sublist.refl _
    | cons k ks ih =>
      rw [List.filterMap_cons, List.map_cons]
      cases hk : e.entryOf k with
      | none => exact ih.cons _
      | some x =>
        obtain ⟨patterns, -, rfl⟩ := Option.map_eq_some_iff.1 hk
        exact ih.cons_cons _
  have hentries : (e.addAll ks).entries = (e.addAll ls).entries := by
    refine falling_ext hleft hright fun n => ?_
    rw [hfilterLeft, hfilterRight, List.filter_append, List.filter_append,
      filter_eq_of_perm (hperm.filterMap _) (hrank.sublist hsub)]
  rw [hsame, hsame', hentries]

/-! ### Every run -/

/-- **Rules are tried in falling order of priority.** After any calls on a new engine whose rules
have integers as priorities, the rules in use are tried in the stable sort by falling priority of
the entries that are in use, in the order in which these were added; of the entries with a name a
removal takes out the first one in that order. Rules of different priorities may be added in any
order, whatever is done before and afterwards: all verdicts are the same. -/
theorem rules_arranged {rules : Array Rule} (h : ∀ r ∈ rules, r.Ordinary)
    (shelf : PathPattern.Shelf) (action : ActionField) (calls : List Call) :
    let w := Session.run rules shelf action calls
    (w.present.Pairwise (·.time < ·.time) ∧
      (w.engine.arrange w.present).Pairwise w.engine.Precedes ∧
      w.engine.entries = (w.engine.arrange w.present).map Dated.entry ∧
      w.engine.order = (w.engine.arrange w.present).map fun x => w.engine.rule x.entry.rule) ∧
    ∀ (ks ls : List Nat) (more : List Call), ks.Perm ls →
      (ks.map fun k => (w.engine.rule k).rank).Nodup → ∀ path,
        (Session.run rules shelf action (calls ++ ks.map .add ++ more)).engine.includes path =
          (Session.run rules shelf action (calls ++ ls.map .add ++ more)).engine.includes path := by
  intro w
  have hw : w.Arranged := Session.run_arranged h shelf action calls
  refine ⟨⟨hw.dated, arrange_precedes (.of_time hw.dated), hw.entries_eq, ?_⟩, ?_⟩
  · rw [order, hw.entries_eq, List.map_map]
    rfl
  · intro ks ls more hperm hrank path
    have hadded := addAll_perm hw.ordinary hw.falling hperm hrank
    have hsplit : ∀ numbers, (Session.run rules shelf action (calls ++ numbers.map .add ++ more)).engine =
        more.foldl call (w.engine.addAll numbers) := by
      intro numbers
      rw [Session.run_engine, List.foldl_append, List.foldl_append, ← Session.run_engine]
      rfl
    rw [hsplit, hsplit, hadded]

/-- Two rules of different priorities: what is in use after one of them was added twice and taken
out by name, and that it does not matter which is added first. -/
theorem rules_arranged_swapped :
    let logs : Rule := ⟨.known .excluded, .sequence [.value (.text "*.log")], .flags .none,
      .text "logs", .int 0, .bool true⟩
    let keep : Rule := ⟨.known .included, .sequence [.value (.text "keep")], .flags .none,
      .text "keep", .int 5, .bool true⟩
    let rules : Array Rule := #[logs, keep]
    let action := ActionField.known .included
    let shelf := PathPattern.Shelf.blank
    let calls : List Call := [.add 0, .add 1, .add 0, .remove (.text "logs")]
    let more : List Call := [.setEnabled (.text "keep") false]
    let w := Session.run rules shelf action calls
    (∀ r ∈ rules, r.Ordinary) ∧
      w.engine.entries = (w.engine.arrange w.present).map Dated.entry ∧
      [0, 1].Perm [1, 0] ∧ ([0, 1].map fun k => (rules.getD k blankRule).rank).Nodup ∧
      ∀ path, (Session.run rules shelf action ([.add 0, .add 1] ++ more)).engine.includes path =
        (Session.run rules shelf action ([.add 1, .add 0] ++ more)).engine.includes path := by
  intro logs keep rules action shelf calls more w
  have hordinary : ∀ r ∈ rules, r.Ordinary := by
    intro r hr
    have hr : r = logs ∨ r = keep := by simpa [rules] using hr
    rcases hr with rfl | rfl
    · exact ⟨⟨0, rfl⟩, ⟨.excluded, rfl⟩⟩
    · exact ⟨⟨5, rfl⟩, ⟨.included, rfl⟩⟩
  have hperm : [0, 1].Perm [1, 0] := List.Perm.swap 1 0 []
  have hrank : ([0, 1].map fun k => (rules.getD k blankRule).rank).Nodup := by
    show [0, (5 : Int)].Nodup
    decide
  have hentries := (rules_arranged hordinary shelf action calls).1.2.2.1
  have hverdicts := (rules_arranged hordinary shelf action []).2 [0, 1] [1, 0] more hperm hrank
  exact ⟨hordinary, hentries, hperm, hrank, hverdicts⟩

end PathSieve.Engine
