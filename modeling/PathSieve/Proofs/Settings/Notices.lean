import PathSieve.Proofs.Settings.Calls

namespace PathSieve.Settings.Watched

/-!
# What watchers are told

Watchers are told the merged settings whenever a load or an assignment succeeds, so that what each
of them was told last is what is merged now. A clearance changes the merged settings as well, and
nobody is told of it.

* `Event`, `events` — the calls of a run, with what each of them did.
* `Event.Kind`, `event_kind` — all that a call can do.
* `lastTold_events` — what a watcher was told last in a run without clearances.
* `watchers_told` — who is told what in every run.
-/

/-! ### Events -/

/-- A call with the settings before and after it, why it was refused, if it was, and what the
watchers were told. -/
structure Event where
  call : Call
  before : Watched
  after : Watched
  refusal : Option Refusal
  told : List Notice

def event (w : Watched) (c : Call) : Event :=
  match c.outcome w with
  | .ok (w', told) => ⟨c, w, w', none, told⟩
  | .error r => ⟨c, w, w, some r, []⟩

/-- The calls of a run, from the first to the last. -/
def events (w : Watched) : List Call → List Event
  | [] => []
  | c :: cs => w.event c :: (w.call c).events cs

/-- A call that removes what sources say. -/
def Call.Clears (c : Call) : Prop := ∃ source, c = .clear source

/-- What a call can do: it is refused, it changes layers and all watchers are told, a watcher comes
or goes, or layers are cleared. -/
inductive Event.Kind (x : Event) : Prop where
  | refused : x.refusal.isSome → x.after = x.before → x.told = [] → Kind x
  | announced : ¬x.call.Clears → x.refusal = none → x.after.watchers = x.before.watchers →
      x.told = x.after.tell → Kind x
  | joined (name : String) : x.call = .watch name → x.refusal = none →
      x.after = x.before.watch name → x.told = [] → Kind x
  | left (name : String) : x.call = .unwatch name → x.refusal = none →
      x.after = x.before.unwatch name → x.told = [] → Kind x
  | cleared (source : Option Source) : x.call = .clear source → x.refusal = none →
      x.after = x.before.clear source → x.told = [] → Kind x

variable {w w' : Watched} {c : Call} {name : String}

theorem event_call : (w.event c).call = c := by
  unfold event
  split <;> rfl

theorem event_before : (w.event c).before = w := by
  unfold event
  split <;> rfl

theorem event_of_outcome_ok {told : List Notice} (h : c.outcome w = .ok (w', told)) :
    w.event c = ⟨c, w, w', none, told⟩ := by simp [event, h]

theorem event_of_outcome_error {r : Refusal} (h : c.outcome w = .error r) :
    w.event c = ⟨c, w, w, some r, []⟩ := by simp [event, h]

theorem event_after : (w.event c).after = w.call c := by
  cases h : c.outcome w with
  | error r => simp [event_of_outcome_error h, call, h]
  | ok made => simp [event_of_outcome_ok h, call, h]

/-- A change of the layers, if it is made, is announced. -/
theorem event_kind_of_change {ε : Type} {layers : Except ε Layers} {refuse : ε → Refusal}
    (hclears : ¬c.Clears) (h : c.outcome w = (w.change layers).mapError refuse) :
    (w.event c).Kind := by
  cases hchange : w.change layers with
  | error e =>
    have houtcome : c.outcome w = .error (refuse e) := by rw [h, hchange, Except.mapError]
    rw [event_of_outcome_error houtcome]
    exact .refused rfl rfl rfl
  | ok made =>
    have houtcome : c.outcome w = .ok made := by rw [h, hchange, Except.mapError]
    obtain ⟨l, -, hafter, htold⟩ := change_eq_ok_iff.1 hchange
    rw [event_of_outcome_ok houtcome]
    refine .announced hclears rfl ?_ htold
    rw [hafter]

theorem event_kind (w : Watched) (c : Call) : (w.event c).Kind := by
  cases c with
  | loadValue source v => exact event_kind_of_change (by simp [Call.Clears]) rfl
  | loadFile reader files source file => exact event_kind_of_change (by simp [Call.Clears]) rfl
  | assign source key v => exact event_kind_of_change (by simp [Call.Clears]) rfl
  | clear source => exact .cleared source rfl rfl rfl rfl
  | watch name => exact .joined name rfl rfl rfl rfl
  | unwatch name => exact .left name rfl rfl rfl rfl

theorem mem_events {x : Event} {calls : List Call} (hx : x ∈ w.events calls) :
    ∃ w' c, x = event w' c := by
  induction calls generalizing w with
  | nil => cases hx
  | cons c cs ih =>
    rcases List.mem_cons.1 hx with rfl | hrest
    · exact ⟨w, c, rfl⟩
    · exact ih hrest

/-- Unless layers are cleared, all watchers are told of a change of the merged settings. -/
theorem Event.Kind.told_of_changed {x : Event} (h : x.Kind) (hclears : ¬x.call.Clears)
    (hchanged : x.after.layers.merged ≠ x.before.layers.merged) :
    x.told = x.before.watchers.map fun name => (name, x.after.layers.merged) := by
  cases h with
  | refused _ hafter =>
    rw [hafter] at hchanged
    exact absurd rfl hchanged
  | announced _ _ hwatchers htold => rw [htold, tell, hwatchers]
  | joined name _ _ hafter =>
    rw [hafter] at hchanged
    exact absurd rfl hchanged
  | left name _ _ hafter =>
    rw [hafter] at hchanged
    exact absurd rfl hchanged
  | cleared source hcall => exact absurd ⟨source, hcall⟩ hclears

theorem Event.Kind.told_of_clears {x : Event} (h : x.Kind) (hclears : x.call.Clears) :
    x.told = [] := by
  cases h with
  | announced hno => exact absurd hclears hno
  | refused _ _ htold | joined _ _ _ _ htold | left _ _ _ _ htold | cleared _ _ _ _ htold =>
    exact htold

theorem Event.Kind.of_refused {x : Event} (h : x.Kind) (hrefused : x.refusal.isSome) :
    x.told = [] ∧ x.after = x.before := by
  cases h with
  | refused _ hafter htold => exact ⟨htold, hafter⟩
  | announced _ hnone | joined _ _ hnone | left _ _ hnone | cleared _ _ hnone =>
    rw [hnone] at hrefused
    cases hrefused

/-! ### What a watcher was told last -/

/-- What a watcher was told last in some events, or what it knew before them. -/
def lastTold (name : String) (known : Entries) : List Event → Entries
  | [] => known
  | x :: xs => lastTold name ((x.told.reverse.lookup name).getD known) xs

theorem lookup_notice {names : List String} (h : name ∈ names) (m : Entries) :
    (names.map fun n => (n, m)).lookup name = some m := by
  induction names with
  | nil => cases h
  | cons n ns ih =>
    rw [List.map_cons, List.lookup_cons]
    by_cases hn : name = n
    · simp [hn]
    · have hrest : name ∈ ns := (List.mem_cons.1 h).resolve_left hn
      rw [beq_false_of_ne hn]
      exact ih hrest

theorem lookup_tell (h : name ∈ w.watchers) :
    w.tell.reverse.lookup name = some w.layers.merged := by
  rw [tell, ← List.map_reverse]
  exact lookup_notice (List.mem_reverse.2 h) w.layers.merged

/-- A call that neither clears nor removes a watcher leaves it there, and told of what is merged if
it was before. -/
theorem Event.Kind.lastTold {x : Event} (h : x.Kind) (hname : name ∈ x.before.watchers)
    (hclears : ¬x.call.Clears) (hstays : x.call ≠ .unwatch name) : name ∈ x.after.watchers ∧
      (x.told.reverse.lookup name).getD x.before.layers.merged = x.after.layers.merged := by
  cases h with
  | refused _ hafter htold =>
    rw [hafter, htold]
    exact ⟨hname, rfl⟩
  | announced _ _ hwatchers htold =>
    have hstill : name ∈ x.after.watchers := by rw [hwatchers]; exact hname
    rw [htold, lookup_tell hstill]
    exact ⟨hstill, rfl⟩
  | joined n _ _ hafter htold =>
    rw [hafter, htold]
    exact ⟨List.mem_append_left [n] hname, rfl⟩
  | left n hcall _ hafter htold =>
    have hother : name ≠ n := by
      rintro rfl
      exact hstays hcall
    rw [hafter, htold]
    exact ⟨(List.mem_erase_of_ne hother).2 hname, rfl⟩
  | cleared source hcall => exact absurd ⟨source, hcall⟩ hclears

/-- In a run without clearances, what a watcher that stays was told last is what is merged. -/
theorem lastTold_events {calls : List Call} (hname : name ∈ w.watchers)
    (hcalls : ∀ c ∈ calls, ¬c.Clears ∧ c ≠ .unwatch name) :
    lastTold name w.layers.merged (w.events calls) = (w.run calls).layers.merged := by
  induction calls generalizing w with
  | nil => rfl
  | cons c cs ih =>
    obtain ⟨⟨hclears, hstays⟩, hrest⟩ := List.forall_mem_cons.1 hcalls
    have hbefore : name ∈ (w.event c).before.watchers := by rw [event_before]; exact hname
    have hcall : (w.event c).call = c := event_call
    rw [← hcall] at hclears hstays
    obtain ⟨hstill, htold⟩ := (event_kind w c).lastTold hbefore hclears hstays
    rw [event_after] at hstill htold
    rw [event_before] at htold
    rw [events, lastTold, htold]
    exact ih hstill hrest

/-! ### Runs -/

/-- **Who is told what.** In every run, unless layers are cleared, a call that changes the merged
settings tells them to each watcher there is, as often as it came and in the order in which they
came; a call that is refused changes nothing and tells nobody; and a clearance tells nobody.
Without clearances, what a watcher that stays was told last is what is merged in the end. -/
theorem watchers_told (w : Watched) (calls : List Call) :
    (∀ x ∈ w.events calls,
      (¬x.call.Clears → x.after.layers.merged ≠ x.before.layers.merged →
        x.told = x.before.watchers.map fun name => (name, x.after.layers.merged)) ∧
      (x.refusal.isSome → x.told = [] ∧ x.after = x.before) ∧
      (x.call.Clears → x.told = [])) ∧
    ∀ name ∈ w.watchers, (∀ c ∈ calls, ¬c.Clears ∧ c ≠ .unwatch name) →
      lastTold name w.layers.merged (w.events calls) = (w.run calls).layers.merged := by
  constructor
  · intro x hx
    obtain ⟨w', c, rfl⟩ := mem_events hx
    have hkind := event_kind w' c
    exact ⟨hkind.told_of_changed, hkind.of_refused, hkind.told_of_clears⟩
  · intro name hname hcalls
    exact lastTold_events hname hcalls

/-- Two watchers, one of which came twice, and a value that is loaded. -/
theorem watchers_told_twice :
    let w : Watched := ⟨Layers.initial, ["a", "b", "a"]⟩
    let c : Call := .loadValue .user (.map [(.text "x", .int 1)])
    let x := w.event c
    x ∈ w.events [c] ∧ ¬x.call.Clears ∧ x.after.layers.merged ≠ x.before.layers.merged ∧
      x.told = [("a", x.after.layers.merged), ("b", x.after.layers.merged),
        ("a", x.after.layers.merged)] ∧
      "b" ∈ w.watchers ∧ (∀ c' ∈ [c], ¬c'.Clears ∧ c' ≠ .unwatch "b") ∧
      lastTold "b" w.layers.merged (w.events [c]) = x.after.layers.merged := by
  intro w c x
  have hx : x ∈ w.events [c] := List.mem_singleton.2 rfl
  have hclears : ¬x.call.Clears := fun ⟨source, h⟩ => nomatch h
  have hchanged : x.after.layers.merged ≠ x.before.layers.merged := by
    intro h
    have hlength := congrArg List.length h
    revert hlength
    decide +kernel
  have hb : "b" ∈ w.watchers := by simp [w]
  have hcalls : ∀ c' ∈ [c], ¬c'.Clears ∧ c' ≠ .unwatch "b" := by
    intro c' hc'
    rw [List.mem_singleton.1 hc']
    exact ⟨hclears, fun h => nomatch h⟩
  obtain ⟨htold, hlast⟩ := watchers_told w [c]
  exact ⟨hx, hclears, hchanged, (htold x hx).1 hclears hchanged, hb, hcalls, hlast "b" hb hcalls⟩

/-- A watcher is not told when all sources are cleared, and a value is gone. -/
theorem cleared_untold :
    let w : Watched := ⟨Layers.initial, []⟩
    let calls : List Call :=
      [.loadValue .user (.map [(.text "a", .int 1)]), .watch "w", .clear none]
    ∃ x ∈ w.events calls, x.call = .clear none ∧ x.refusal = none ∧ x.before.watchers = ["w"] ∧
      x.after.layers.merged ≠ x.before.layers.merged ∧ x.told = [] := by
  intro w calls
  let loaded := (w.call (.loadValue .user (.map [(.text "a", .int 1)]))).call (.watch "w")
  refine ⟨loaded.event (.clear none), ?_, rfl, rfl, rfl, ?_, rfl⟩
  · simp [calls, events, loaded]
  · intro h
    have hlength := congrArg List.length h
    revert hlength
    decide +kernel

end PathSieve.Settings.Watched
