import PathSieve.Proofs.PathPattern.Deciding
import PathSieve.Proofs.Rule.Arrangement

namespace PathSieve

open PathPattern
open Pattern (compile)
open Text (CodePoint)

/-!
# Filters and engines decide alike

A filter has its patterns on two sides. An engine that has the same texts in its rules, however they
are put together, decides as the filter does if all rules that exclude go before those that include.

* `Splits` — rules that split texts among them.
* `Engine.Session.run_faithful` — the patterns in use are those of the rules that were added.
* `Engine.includes_of_splits` — the engine that holds such rules decides by their texts.
* `filter_eq_engine` — filters and engines agree.
-/

/-! ### Rules that split texts among them -/

/-- The action of the rules that stand for a side. -/
def PathPattern.Side.action : Side → Action
  | .included => .included
  | .excluded => .excluded

/-- The texts of a rule. -/
def Rule.texts (r : Rule) : List (List CodePoint) :=
  (r.patterns.elements?.getD []).filterMap Argument.points?

/-- Some rules have texts only and are compiled with the same flags; their texts are those of the
two sides, and rules that exclude go before rules that include. What no rule accepts is included if
there is no text to include it. -/
structure Splits (f : Flags) (texts : Side → List (List CodePoint)) (rules : List Rule)
    (otherwise : ActionField) : Prop where
  listed : ∀ r ∈ rules, ∃ items, r.patterns.elements? = some items ∧
    ∀ a ∈ items, ∃ text, a.points? = some text
  flags : ∀ r ∈ rules, flagsOf r.flags = .ok f
  mem_texts : ∀ side text, text ∈ texts side ↔
    ∃ r ∈ rules, r.action = .known side.action ∧ text ∈ r.texts
  excludedFirst : ∀ r ∈ rules, ∀ r' ∈ rules, r.action = .known .excluded →
    r'.action = .known .included → r'.rank < r.rank
  otherwise_eq : otherwise = .known (if texts .included = [] then .included else .excluded)

/-- It does not matter in what order rules are listed, and how often. -/
theorem Splits.congr {f : Flags} {texts : Side → List (List CodePoint)} {rules rules' : List Rule}
    {otherwise : ActionField} (h : Splits f texts rules otherwise)
    (hrules : ∀ r, r ∈ rules' ↔ r ∈ rules) : Splits f texts rules' otherwise := by
  refine ⟨fun r hr => h.listed r ((hrules r).1 hr), fun r hr => h.flags r ((hrules r).1 hr),
    fun side text => ?_, fun r hr r' hr' => h.excludedFirst r ((hrules r).1 hr) r' ((hrules r').1 hr'),
    h.otherwise_eq⟩
  simp only [h.mem_texts, hrules]

namespace Engine

variable {e : Engine} {f : Flags} {flags path : Argument} {items : List Argument} {r : Rule}
  {texts : Side → List (List CodePoint)} {cs : List CodePoint} {ps : List PathPattern}
  {x : PatternError} {shelf : Shelf}

/-- What is compiled from texts is these texts, compiled. -/
theorem compileAll_eq_ok_iff (hflags : flagsOf flags = .ok f)
    (hitems : ∀ a ∈ items, ∃ text, a.points? = some text) :
    (compileAll shelf flags items).1 = .ok ps ↔
      List.Forall₂ (Compiled f) (items.filterMap Argument.points?) ps := by
  induction items generalizing ps with
  | nil =>
    rw [List.filterMap_nil, List.forall₂_nil_left_iff, compileAll]
    exact ⟨fun h => (Except.ok.inj h).symm, fun h => congrArg Except.ok h.symm⟩
  | cons a items ih =>
    obtain ⟨⟨text, htext⟩, hrest⟩ := List.forall_mem_cons.1 hitems
    have hmade {p : PathPattern} := make_eq_ok_iff (p := p) shelf.find hflags htext
    rw [List.filterMap_cons_some htext, List.forall₂_cons_left_iff, compileAll]
    rcases hmake : make shelf.find a flags with ⟨result, log⟩
    rw [hmake] at hmade
    cases result with
    | error y =>
      refine iff_of_false (fun h => nomatch h) ?_
      rintro ⟨p, -, hp, -⟩
      cases hmade.2 hp
    | ok p =>
      show (compileAll shelf flags items).1.map (p :: ·) = .ok ps ↔ _
      constructor
      · intro h
        cases hall : (compileAll shelf flags items).1 with
        | error y =>
          rw [hall] at h
          cases h
        | ok ps' =>
          rw [hall] at h
          cases h
          exact ⟨p, ps', hmade.1 rfl, (ih hrest).1 hall, rfl⟩
      · rintro ⟨p', ps', hp', hps', rfl⟩
        obtain rfl : p = p' := Except.ok.inj (hmade.2 hp')
        rw [(ih hrest).2 hps']
        rfl

/-- The patterns of a rule that has texts only. -/
theorem compiled?_eq_some_iff (hflags : flagsOf r.flags = .ok f)
    (hlisted : ∃ items, r.patterns.elements? = some items ∧
      ∀ a ∈ items, ∃ text, a.points? = some text) :
    r.compiled? shelf = some ps ↔ List.Forall₂ (Compiled f) r.texts ps := by
  obtain ⟨items, hitems, htexts⟩ := hlisted
  rw [r.compiled?_eq_some_iff_compileAll hitems, Rule.texts, hitems, Option.getD_some,
    compileAll_eq_ok_iff hflags htexts]

/-! ### The patterns in use -/

/-- The patterns in use are those of the rules that were added. -/
def Faithful (e : Engine) : Prop :=
  ∀ x ∈ e.entries, (e.rule x.rule).compiled? e.shelf = some x.patterns

/-- No call changes what a rule compiles to. -/
theorem compiled?_call (h : e.Ordinary) (c : Call) (number : Nat) :
    ((e.call c).rule number).compiled? (e.call c).shelf = (e.rule number).compiled? e.shelf := by
  cases c with
  | add k =>
    show ((e.add k).1.rule number).compiled? (e.add k).1.shelf = _
    rw [add_same h k]
    rfl
  | setEnabled name enabled =>
    obtain ⟨b, hb⟩ := e.rule_setEnabled name enabled number
    show ((e.setEnabled name enabled).1.rule number).compiled? _ = _
    obtain ⟨-, -, hshelf, -⟩ := e.setEnabled_same name enabled
    rw [hb]
    exact congrArg _ hshelf
  | remove name => rfl
  | clear => rfl
  | setDefault action => rfl

/-- An entry after a call was there before, or its rule was added. -/
theorem mem_entries_call (h : e.Ordinary) {c : Call} {x : EngineEntry}
    (hx : x ∈ (e.call c).entries) :
    x ∈ e.entries ∨ (e.rule x.rule).compiled? e.shelf = some x.patterns := by
  cases c with
  | add k =>
    replace hx : x ∈ (e.add k).1.entries := hx
    rw [add_eq h] at hx
    split at hx
    · rename_i patterns hpatterns
      rcases List.mem_append.1 ((falling_perm _ _).mem_iff.1 hx) with hold | hnew
      · exact .inl hold
      · rw [List.mem_singleton.1 hnew]
        exact .inr hpatterns
    · exact .inl hx
  | remove name => exact .inl (List.mem_of_mem_eraseP hx)
  | setEnabled name enabled =>
    refine .inl ?_
    replace hx : x ∈ (e.setEnabled name enabled).1.entries := hx
    unfold setEnabled at hx
    split at hx
    · exact hx
    · exact hx
  | clear => exact absurd hx List.not_mem_nil
  | setDefault action => exact .inl hx

theorem call_faithful (hordinary : e.Ordinary) (h : e.Faithful) (c : Call) :
    (e.call c).Faithful := by
  intro x hx
  rw [compiled?_call hordinary]
  rcases mem_entries_call hordinary hx with hold | hnew
  · exact h x hold
  · exact hnew

theorem Session.run_faithful {rules : Array Rule} (h : ∀ r ∈ rules, r.Ordinary)
    (shelf : Shelf) (action : ActionField) (calls : List Call) :
    (run rules shelf action calls).engine.Faithful := by
  rw [run_engine]
  have hrun : (calls.foldl Engine.call ⟨rules, shelf, [], action⟩).Ordinary ∧
      (calls.foldl Engine.call ⟨rules, shelf, [], action⟩).Faithful :=
    List.foldlRecOn (motive := fun e => e.Ordinary ∧ e.Faithful) calls Engine.call
      ⟨ordinary_of_rules h shelf [] action, fun _ hx => absurd hx List.not_mem_nil⟩
      fun _ he c _ => ⟨(call_rank he.1 c).1, call_faithful he.1 he.2 c⟩
  exact hrun.2

/-! ### Verdicts -/

/-- The rules in use that are switched on, in the order in which they are tried. -/
def active (e : Engine) : List Rule := e.order.filter (·.enabled.truthy)

/-- Whether an entry is switched on and one of its patterns accepts a text. -/
def accepting (e : Engine) (cs : List CodePoint) (x : EngineEntry) : Bool :=
  (e.rule x.rule).enabled.truthy && x.patterns.any (·.verdict cs)

theorem on_of_accepting {x : EngineEntry} (h : e.accepting cs x = true) :
    (e.rule x.rule).enabled.truthy := by
  rw [accepting, Bool.and_eq_true] at h
  exact h.1

theorem mem_active_iff : r ∈ e.active ↔
    ∃ x ∈ e.entries, e.rule x.rule = r ∧ r.enabled.truthy := by
  rw [active, order, List.mem_filter, List.mem_map]
  constructor
  · rintro ⟨⟨x, hx, hr⟩, hon⟩
    exact ⟨x, hx, hr, hon⟩
  · rintro ⟨x, hx, hr, hon⟩
    exact ⟨⟨x, hx, hr⟩, hon⟩

theorem applies_of_candidate (h : candidate path = .ok cs) (x : EngineEntry) :
    e.applies path x = .ok (e.accepting cs x) := by
  rw [applies, accepting, anyAccepts_of_candidate h]
  cases (e.rule x.rule).enabled.truthy with
  | true => rfl
  | false => rfl

theorem firstApplying_of_candidate (h : candidate path = .ok cs) (entries : List EngineEntry) :
    e.firstApplying path entries = .ok (entries.find? (e.accepting cs)) := by
  induction entries with
  | nil => rfl
  | cons x entries ih =>
    rw [firstApplying, applies_of_candidate h, List.find?_cons]
    cases e.accepting cs x with
    | true => rfl
    | false => exact ih

/-- What is no path is refused by the first rule that is switched on and has a pattern. -/
theorem firstApplying_of_refused (h : candidate path = .error x) (entries : List EngineEntry) :
    e.firstApplying path entries =
      if ∀ y ∈ entries, (e.rule y.rule).enabled.truthy → y.patterns = [] then .ok none
      else .error x := by
  induction entries with
  | nil => rfl
  | cons y entries ih =>
    rw [firstApplying, applies, anyAccepts_of_refused h]
    by_cases hon : (e.rule y.rule).enabled.truthy
    · by_cases hnone : y.patterns = []
      · rw [if_pos hon, if_pos hnone]
        simp only [List.forall_mem_cons, hnone, implies_true, true_and]
        exact ih
      · rw [if_pos hon, if_neg hnone, if_neg fun hall => hnone (hall y List.mem_cons_self hon)]
        rfl
    · rw [if_neg hon]
      simp only [List.forall_mem_cons, hon, Bool.false_eq_true, false_implies, true_and]
      exact ih

/-- The first entry of a kind has the highest rank of its kind. -/
theorem rank_le_of_find? {q : EngineEntry → Bool} {entries : List EngineEntry} {x y : EngineEntry}
    (hfalling : entries.Pairwise fun x y => e.rank y ≤ e.rank x) (hx : entries.find? q = some x)
    (hy : y ∈ entries) (hq : q y = true) : e.rank y ≤ e.rank x := by
  obtain ⟨-, before, after, rfl, hbefore⟩ := List.find?_eq_some_iff_append.1 hx
  rcases List.mem_append.1 hy with hy | hy
  · have hnot := hbefore y hy
    rw [hq] at hnot
    cases hnot
  · rcases List.mem_cons.1 hy with rfl | hy
    · exact le_refl _
    · exact List.rel_of_pairwise_cons (List.pairwise_append.1 hfalling).2.1 hy

/-! ### Engines that hold what a filter has -/

variable {otherwise : ActionField}

/-- An entry that is switched on has the texts of its rule, compiled. -/
theorem Faithful.compiled (h : e.Faithful) (hsplits : Splits f texts e.active otherwise)
    {x : EngineEntry} (hx : x ∈ e.entries) (hon : (e.rule x.rule).enabled.truthy) :
    List.Forall₂ (Compiled f) (e.rule x.rule).texts x.patterns := by
  have hactive : e.rule x.rule ∈ e.active := mem_active_iff.2 ⟨x, hx, rfl, hon⟩
  exact (compiled?_eq_some_iff (hsplits.flags _ hactive) (hsplits.listed _ hactive)).1 (h x hx)

/-- The texts of one side accept a path just when an entry does whose rule stands for the side. -/
theorem Faithful.any_texts_iff (h : e.Faithful) (hsplits : Splits f texts e.active otherwise)
    (side : Side) (cs : List CodePoint) : (texts side).any (textAccepts f cs) = true ↔
      ∃ x ∈ e.entries, e.accepting cs x = true ∧ (e.rule x.rule).action = .known side.action := by
  have haccepting {x : EngineEntry} (hx : x ∈ e.entries) (hon : (e.rule x.rule).enabled.truthy) :
      e.accepting cs x = true ↔ ∃ text ∈ (e.rule x.rule).texts, textAccepts f cs text = true := by
    rw [accepting, hon, Bool.true_and, any_verdict_eq (h.compiled hsplits hx hon), List.any_eq_true]
  rw [List.any_eq_true]
  constructor
  · rintro ⟨text, htext, haccepts⟩
    obtain ⟨r, hr, haction, hown⟩ := (hsplits.mem_texts side text).1 htext
    obtain ⟨x, hx, rfl, hon⟩ := mem_active_iff.1 hr
    exact ⟨x, hx, (haccepting hx hon).2 ⟨text, hown, haccepts⟩, haction⟩
  · rintro ⟨x, hx, haccepts, haction⟩
    have hon := on_of_accepting haccepts
    obtain ⟨text, hown, htext⟩ := (haccepting hx hon).1 haccepts
    have hactive : e.rule x.rule ∈ e.active := mem_active_iff.2 ⟨x, hx, rfl, hon⟩
    exact ⟨text, (hsplits.mem_texts side text).2 ⟨_, hactive, haction, hown⟩, htext⟩

/-- Nothing is asked of a path just when there are no texts. -/
theorem Faithful.patterns_eq_nil_iff (hordinary : e.Ordinary) (h : e.Faithful)
    (hsplits : Splits f texts e.active otherwise) :
    (∀ x ∈ e.entries, (e.rule x.rule).enabled.truthy → x.patterns = []) ↔
      texts .included = [] ∧ texts .excluded = [] := by
  constructor
  · intro hall
    have hside (side : Side) : texts side = [] := by
      refine List.eq_nil_iff_forall_not_mem.2 fun text htext => ?_
      obtain ⟨r, hr, -, hown⟩ := (hsplits.mem_texts side text).1 htext
      obtain ⟨x, hx, rfl, hon⟩ := mem_active_iff.1 hr
      rw [(eq_nil_iff_of_compiled (h.compiled hsplits hx hon)).1 (hall x hx hon)] at hown
      cases hown
    exact ⟨hside .included, hside .excluded⟩
  · rintro ⟨hincluded, hexcluded⟩ x hx hon
    obtain ⟨a, ha⟩ := (hordinary x.rule).action
    obtain ⟨side, rfl⟩ : ∃ side : Side, side.action = a := by
      cases a with
      | included => exact ⟨.included, rfl⟩
      | excluded => exact ⟨.excluded, rfl⟩
    have hside : texts side = [] := by
      cases side with
      | included => exact hincluded
      | excluded => exact hexcluded
    refine (eq_nil_iff_of_compiled (h.compiled hsplits hx hon)).2 ?_
    refine List.eq_nil_iff_forall_not_mem.2 fun text htext => ?_
    have hmem := (hsplits.mem_texts side text).2 ⟨_, mem_active_iff.2 ⟨x, hx, rfl, hon⟩, ha, htext⟩
    rw [hside] at hmem
    cases hmem

/-- **An engine decides by the texts of its rules**, if they split these among them. -/
theorem includes_of_splits (hordinary : e.Ordinary) (h : e.Faithful)
    (hfalling : e.entries.Pairwise fun x y => e.rank y ≤ e.rank x)
    (hsplits : Splits f texts e.active e.defaultAction) (path : Argument) :
    e.includes path = decision f texts path := by
  have hany := h.any_texts_iff hsplits
  rw [includes]
  cases hcandidate : candidate path with
  | error x =>
    have hnone := h.patterns_eq_nil_iff hordinary hsplits
    rw [decision_of_refused hcandidate, firstApplying_of_refused hcandidate]
    by_cases hempty : texts .included = [] ∧ texts .excluded = []
    · rw [if_pos (hnone.2 hempty), if_pos hempty, hsplits.otherwise_eq, if_pos hempty.1]
      rfl
    · rw [if_neg (mt hnone.1 hempty), if_neg hempty]
      rfl
  | ok cs =>
    rw [decision_of_candidate hcandidate, firstApplying_of_candidate hcandidate]
    cases hfirst : e.entries.find? (e.accepting cs) with
    | none =>
      -- No rule accepts the path, and so no text does.
      have hno (side : Side) : (texts side).any (textAccepts f cs) = false := by
        refine eq_false_of_ne_true fun hsome => ?_
        obtain ⟨x, hx, haccepts, -⟩ := (hany side cs).1 hsome
        exact List.find?_eq_none.1 hfirst x hx haccepts
      rw [hno, hno, hsplits.otherwise_eq]
      by_cases hempty : texts .included = []
      · rw [if_pos hempty, hempty]
        rfl
      · have hsome : (texts .included).isEmpty = false := by simpa using hempty
        rw [if_neg hempty, hsome]
        rfl
    | some x =>
      have hx : x ∈ e.entries := List.mem_of_find?_eq_some hfirst
      have haccepts := List.find?_some hfirst
      obtain ⟨a, ha⟩ := (hordinary x.rule).action
      show Except.ok (e.rule x.rule).action.isIncluded = _
      cases a with
      | excluded =>
        have hexcluded := (hany .excluded cs).2 ⟨x, hx, haccepts, ha⟩
        rw [ha, hexcluded]
        rfl
      | included =>
        have hincluded := (hany .included cs).2 ⟨x, hx, haccepts, ha⟩
        -- A rule that excludes would have been tried before.
        have hexcluded : (texts .excluded).any (textAccepts f cs) = false := by
          refine eq_false_of_ne_true fun hsome => ?_
          obtain ⟨y, hy, haccepts', ha'⟩ := (hany .excluded cs).1 hsome
          have hrank : e.rank x < e.rank y := hsplits.excludedFirst _
            (mem_active_iff.2 ⟨y, hy, rfl, on_of_accepting haccepts'⟩) _
            (mem_active_iff.2 ⟨x, hx, rfl, on_of_accepting haccepts⟩) ha' ha
          exact absurd hrank (not_lt.2 (rank_le_of_find? hfalling hfirst hy haccepts'))
        rw [ha, hincluded, hexcluded, Bool.or_true]
        rfl

/-! ### Rules that are added -/

/-- The entries after some rules were added to an engine without rules. -/
theorem mem_entries_addAll (h : e.Ordinary) (hempty : e.entries = []) (numbers : List Nat)
    (x : EngineEntry) : x ∈ (e.addAll numbers).entries ↔
      x.rule ∈ numbers ∧ (e.rule x.rule).compiled? e.shelf = some x.patterns := by
  obtain ⟨-, -, hfilter⟩ := addAll_spec h (by rw [hempty]; exact .nil) numbers
  have hmem : x ∈ (e.addAll numbers).entries ↔ x ∈ numbers.filterMap e.entryOf := by
    have hsame := hfilter (e.rank x)
    rw [hempty, List.nil_append] at hsame
    have hiff := iff_of_eq (congrArg (x ∈ ·) hsame)
    simpa only [List.mem_filter, decide_true, and_true] using hiff
  rw [hmem, List.mem_filterMap]
  constructor
  · rintro ⟨k, hk, hentry⟩
    obtain ⟨patterns, hpatterns, rfl⟩ := Option.map_eq_some_iff.1 hentry
    exact ⟨hk, hpatterns⟩
  · rintro ⟨hk, hpatterns⟩
    exact ⟨x.rule, hk, by rw [entryOf, hpatterns]; rfl⟩

/-- Texts that compile make patterns. -/
theorem exists_compiled {texts : List (List CodePoint)} (f : Flags)
    (h : ∀ text ∈ texts, ∃ a, compile text = .ok a) : ∃ ps, List.Forall₂ (Compiled f) texts ps := by
  induction texts with
  | nil => exact ⟨[], .nil⟩
  | cons text texts ih =>
    obtain ⟨⟨a, ha⟩, hrest⟩ := List.forall_mem_cons.1 h
    obtain ⟨ps, hps⟩ := ih hrest
    exact ⟨⟨some a, text, f⟩ :: ps, .cons ⟨a, ha, rfl⟩ hps⟩

/-- Rules that split texts among them, added in any order, are in use afterwards. -/
theorem splits_addAll (h : e.Ordinary) (hempty : e.entries = []) {numbers : List Nat}
    (hsplits : Splits f texts ((numbers.map e.rule).filter (·.enabled.truthy)) otherwise)
    (hcompile : ∀ side, ∀ text ∈ texts side, ∃ a, compile text = .ok a) :
    Splits f texts (e.addAll numbers).active otherwise := by
  refine hsplits.congr fun r => ?_
  obtain ⟨hsame, -⟩ := addAll_spec h (by rw [hempty]; exact .nil) numbers
  have hrule (k : Nat) : (e.addAll numbers).rule k = e.rule k := by
    rw [hsame]
    rfl
  simp only [mem_active_iff, mem_entries_addAll h hempty, hrule, List.mem_filter, List.mem_map]
  constructor
  · rintro ⟨x, ⟨hx, -⟩, rfl, hon⟩
    exact ⟨⟨x.rule, hx, rfl⟩, hon⟩
  · rintro ⟨⟨k, hk, rfl⟩, hon⟩
    have hmem : e.rule k ∈ (numbers.map e.rule).filter (·.enabled.truthy) :=
      List.mem_filter.2 ⟨List.mem_map_of_mem hk, hon⟩
    obtain ⟨ps, hps⟩ : ∃ ps, List.Forall₂ (Compiled f) (e.rule k).texts ps := by
      refine exists_compiled f fun text htext => ?_
      obtain ⟨a, ha⟩ := (h k).action
      cases a with
      | included => exact hcompile .included text ((hsplits.mem_texts _ _).2 ⟨_, hmem, ha, htext⟩)
      | excluded => exact hcompile .excluded text ((hsplits.mem_texts _ _).2 ⟨_, hmem, ha, htext⟩)
    exact ⟨⟨k, ps⟩,
      ⟨hk, (compiled?_eq_some_iff (hsplits.flags _ hmem) (hsplits.listed _ hmem)).2 hps⟩,
      rfl, hon⟩

end Engine

/-- **Filters and engines decide alike.** Let texts that compile be put on the two sides of a filter
with some flags, one after the other and in any order. Then all of them are added. An engine, after
any calls, decides on every path as the filter does, even if that is no path at all, if its rules that
are on split the texts among them: they have the same flags, the texts of those that exclude are
together those of the one side, the texts of those that include are those of the other, a rule that
excludes has a higher priority than one that includes, and the default action is to include just when
there are no texts to include. Such rules may be added to a new engine in any order. -/
theorem filter_eq_engine {flags : Argument} {f : Flags} (hflags : flagsOf flags = .ok f)
    {offers : List (Side × Argument)}
    (hoffers : ∀ x ∈ offers, ∃ text a, x.2.points? = some text ∧ compile text = .ok a)
    {rules : Array Rule} (hrules : ∀ r ∈ rules, r.Ordinary) (s : Store) (shelf : Shelf)
    (action : ActionField) :
    ∃ fl, Filter.ofFlags flags = .ok fl ∧
      let made := fl.addAll s offers
      made.1.size = offers.length ∧
      (∀ calls : List Engine.Call,
        let e := (Engine.Session.run rules shelf action calls).engine
        Splits f (textsOf offers) e.active e.defaultAction →
          ∀ path, made.1.accepts made.2 path = e.includes path) ∧
      ∀ numbers : List Nat,
        Splits f (textsOf offers)
            ((numbers.map fun k => rules.getD k Engine.blankRule).filter (·.enabled.truthy)) action →
          ∀ path, made.1.accepts made.2 path =
            (Engine.Session.run rules shelf action (numbers.map .add)).engine.includes path := by
  have hall := (Filter.holds_empty f s).addAll hoffers
  have hfilter (path : Argument) : ((Filter.empty f).addAll s offers).1.accepts
      ((Filter.empty f).addAll s offers).2 path = decision f (textsOf offers) path := by
    rw [hall.1.accepts_eq, hall.2]
    rfl
  have hengine (calls : List Engine.Call)
      (hsplits : Splits f (textsOf offers) (Engine.Session.run rules shelf action calls).engine.active
        (Engine.Session.run rules shelf action calls).engine.defaultAction) (path : Argument) :
      (Engine.Session.run rules shelf action calls).engine.includes path =
        decision f (textsOf offers) path := by
    have harranged := Engine.Session.run_arranged hrules shelf action calls
    exact Engine.includes_of_splits harranged.ordinary
      (Engine.Session.run_faithful hrules shelf action calls) harranged.falling hsplits path
  refine ⟨.empty f, ?_, ?_, fun calls hsplits path => ?_, fun numbers hsplits path => ?_⟩
  · rw [Filter.ofFlags, hflags]
    rfl
  · exact hall.1.size_eq fun x hx => (hoffers x hx).imp fun _ ⟨_, htext, _⟩ => htext
  · rw [hfilter, hengine calls hsplits]
  · have hordinary := Engine.ordinary_of_rules hrules shelf [] action
    have hrun : (Engine.Session.run rules shelf action (numbers.map .add)).engine =
        (Engine.mk rules shelf [] action).addAll numbers := Engine.Session.run_engine ..
    have hadded := Engine.splits_addAll hordinary rfl hsplits fun side text htext => by
      obtain ⟨x, hx, -, hpoints⟩ := mem_textsOf_iff.1 htext
      obtain ⟨text', a, hpoints', ha⟩ := hoffers x hx
      cases hpoints.symm.trans hpoints'
      exact ⟨a, ha⟩
    obtain ⟨hsame, -⟩ := Engine.addAll_spec hordinary .nil numbers
    have hdefault := congrArg Engine.defaultAction hsame
    rw [hfilter, hengine]
    rw [hrun, hdefault]
    exact hadded

/-- Two texts that include and one that excludes, and three rules with these texts, one of them
twice. -/
theorem filter_eq_engine_three :
    let offers : List (Side × Argument) :=
      [(.included, .text "*.py"), (.excluded, .text "test*"), (.included, .text "*.md")]
    let docs : Rule := ⟨.known .included, .sequence [.text "*.md"], .flags .none, .null, .int 0,
      .bool true⟩
    let tests : Rule := ⟨.known .excluded, .sequence [.text "test*"], .flags .none, .null, .int 5,
      .bool true⟩
    let code : Rule := ⟨.known .included, .sequence [.text "*.py", .text "*.md"], .flags .none, .null,
      .int (-1), .bool true⟩
    let rules : Array Rule := #[docs, tests, code]
    ∃ fl, Filter.ofFlags (.flags .none) = .ok fl ∧ ∀ path,
      (fl.addAll .empty offers).1.accepts (fl.addAll .empty offers).2 path =
        (Engine.Session.run rules .blank (.known .excluded)
          [.add 2, .add 0, .add 1]).engine.includes path := by
  intro offers docs tests code rules
  have hoffers : ∀ x ∈ offers, ∃ text a, x.2.points? = some text ∧ compile text = .ok a := by
    intro x hx
    have hx : x = (.included, .text "*.py") ∨ x = (.excluded, .text "test*") ∨
        x = (.included, .text "*.md") := by simpa [offers] using hx
    rcases hx with rfl | rfl | rfl <;> exact ⟨_, _, rfl, rfl⟩
  have hrules : ∀ r ∈ rules, r.Ordinary := by
    intro r hr
    have hr : r = docs ∨ r = tests ∨ r = code := by simpa [rules] using hr
    rcases hr with rfl | rfl | rfl
    · exact ⟨⟨0, rfl⟩, ⟨.included, rfl⟩⟩
    · exact ⟨⟨5, rfl⟩, ⟨.excluded, rfl⟩⟩
    · exact ⟨⟨-1, rfl⟩, ⟨.included, rfl⟩⟩
  have hsplits : Splits .none (textsOf offers)
      (([2, 0, 1].map fun k => rules.getD k Engine.blankRule).filter (·.enabled.truthy))
      (.known .excluded) := by
    have hon : ([2, 0, 1].map fun k => rules.getD k Engine.blankRule).filter
        (·.enabled.truthy) = [code, docs, tests] := rfl
    rw [hon]
    have htexts : code.texts = textsOf offers .included ∧ docs.texts ⊆ code.texts ∧
        tests.texts = textsOf offers .excluded := ⟨rfl, List.subset_cons_self _ _, rfl⟩
    have hlisted (texts : List String) : ∃ items, (Argument.sequence (texts.map .text)).elements? =
        some items ∧ ∀ a ∈ items, ∃ text, a.points? = some text := by
      refine ⟨_, rfl, fun a ha => ?_⟩
      obtain ⟨text, -, rfl⟩ := List.mem_map.1 ha
      exact ⟨_, rfl⟩
    have hmem {r : Rule} (hr : r ∈ [code, docs, tests]) : r = code ∨ r = docs ∨ r = tests := by
      simpa using hr
    refine ⟨?_, ?_, fun side text => ?_, ?_, rfl⟩
    · simp only [List.forall_mem_cons]
      exact ⟨hlisted ["*.py", "*.md"], hlisted ["*.md"], hlisted ["test*"],
        fun _ hr => absurd hr List.not_mem_nil⟩
    · simp only [List.forall_mem_cons]
      exact ⟨rfl, rfl, rfl, fun _ hr => absurd hr List.not_mem_nil⟩
    · cases side with
      | included =>
        rw [← htexts.1]
        refine ⟨fun htext => ⟨code, by simp, rfl, htext⟩, ?_⟩
        rintro ⟨r, hr, haction, htext⟩
        rcases hmem hr with rfl | rfl | rfl
        · exact htext
        · exact htexts.2.1 htext
        · cases haction
      | excluded =>
        rw [← htexts.2.2]
        refine ⟨fun htext => ⟨tests, by simp, rfl, htext⟩, ?_⟩
        rintro ⟨r, hr, haction, htext⟩
        rcases hmem hr with rfl | rfl | rfl
        · cases haction
        · cases haction
        · exact htext
    · intro r hr r' hr' haction haction'
      rcases hmem hr with rfl | rfl | rfl
      · cases haction
      · cases haction
      · rcases hmem hr' with rfl | rfl | rfl
        · exact (by decide : (-1 : Int) < 5)
        · exact (by decide : (0 : Int) < 5)
        · cases haction'
  have hflags : flagsOf (.flags .none) = .ok .none := rfl
  obtain ⟨fl, hfl, -, -, hadded⟩ := filter_eq_engine hflags hoffers hrules .empty .blank
    (.known .excluded)
  exact ⟨fl, hfl, hadded [2, 0, 1] hsplits⟩

end PathSieve
