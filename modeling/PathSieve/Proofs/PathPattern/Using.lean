import PathSieve.Proofs.PathPattern.Deciding

namespace PathSieve.PathPattern

/-!
# Filters in use

A filter may share its patterns with others, and it hands out those that it makes. So they go on
being changed while more are added.

* `Filter.add_cases` — what adding does: a pattern is shared, one is made, or nothing happens.
* `isCompiled_call` — a compiled pattern stays compiled, unless it is exchanged for another one.
* `Filter.Call`, `Filter.Session` — what is done with a filter and the patterns around it.
* `Filter.Session.Sound`, `Filter.Session.sound_run` — what holds after every run.
-/

/-- An argument that is neither absent nor a pattern yet. -/
def isRaw : Argument → Bool
  | .pattern _ => false
  | a => !a.isAbsent

theorem not_isAbsent_of_isRaw {a : Argument} (h : isRaw a) : ¬a.isAbsent := by
  unfold isRaw at h
  split at h
  · cases h
  · simpa using h

/-! ### Adding -/

namespace Filter

variable {f : Filter} {s : Store} {side : Side} {a flags : Argument} {x : PatternError}

theorem placeFor_of_not_pattern (h : ∀ place, a ≠ .pattern place) :
    f.placeFor s a flags = s.add a (f.flagsFor flags) := by
  unfold placeFor
  split
  · exact absurd rfl (h _)
  · rfl

/-- **What adding does.** A pattern is shared with the caller. From anything else a pattern is made
and stored, or nothing happens. -/
theorem add_cases (f : Filter) (s : Store) (side : Side) (a flags : Argument) :
    let out := f.add s side a flags
    let made := (make s.find a (f.flagsFor flags)).1
    (∃ place, a = .pattern place ∧
        out.1 = f.insert side place ∧ out.2.store = s ∧ out.2.result = .ok place) ∨
      (∀ place, a ≠ .pattern place) ∧
        ((∃ p, made = .ok p ∧ out.1 = f.insert side s.items.size ∧
            out.2.store = ⟨s.items.push p⟩ ∧ out.2.result = .ok s.items.size) ∨
          ∃ x, made = .error x ∧ out.1 = f ∧ out.2.store = s ∧ out.2.result = .error x) := by
  intro out made
  by_cases hpattern : ∃ place, a = .pattern place
  · obtain ⟨place, rfl⟩ := hpattern
    exact .inl ⟨place, rfl, rfl, rfl, rfl⟩
  · have hne : ∀ place, a ≠ .pattern place := by simpa using hpattern
    refine .inr ⟨hne, ?_⟩
    simp only [out, made, add, placeFor_of_not_pattern hne, Store.add, Store.apply]
    rcases make s.find a (f.flagsFor flags) with ⟨result, log⟩
    cases result with
    | ok p => simp
    | error x => simp

theorem mem_places_insert {side' : Side} {place new : Nat}
    (h : place ∈ (f.insert side new).places side') : place ∈ f.places side' ∨ place = new := by
  by_cases hside : side = side'
  · subst hside
    simpa [places_insert_self] using h
  · rw [places_insert_of_ne hside] at h
    exact .inl h

/-- An addition that is refused leaves the filter and all patterns as they were. -/
theorem add_unchanged (h : (f.add s side a flags).2.result = .error x) :
    (f.add s side a flags).1 = f ∧ (f.add s side a flags).2.store = s := by
  rcases f.add_cases s side a flags with
    ⟨place, -, -, -, hok⟩ | ⟨-, ⟨p, -, -, -, hok⟩ | ⟨y, -, hfilter, hstore, -⟩⟩
  · simp [h] at hok
  · simp [h] at hok
  · exact ⟨hfilter, hstore⟩

end Filter

/-! ### Patterns that stay compiled -/

/-- Whether a call on the patterns of a store exchanges the one at a place. -/
def Call.exchanges : Call → Nat → Bool
  | .swap place (.pattern q), other => other = place || other = q
  | _, _ => false

section Calls

variable {s : Store} {c : Call} {place : Nat} {find : Nat → PathPattern} {p q : PathPattern}
  {pattern flags : Argument}

theorem isCompiled_of_set {exhausted : Bool} (h : (set find pattern flags exhausted).1 = .ok p) :
    p.isCompiled := by
  obtain ⟨-, text, f, a, -, -, -, rfl⟩ := set_eq_ok_iff.1 h
  rfl

/-- What is made from something that is not absent is compiled. -/
theorem isCompiled_of_make (ha : ¬pattern.isAbsent)
    (h : (make find pattern flags).1 = .ok p) : p.isCompiled := by
  unfold make at h
  split at h
  · cases h
  · rw [if_neg ha] at h
    exact isCompiled_of_set h

theorem isCompiled_of_setFlags (h : q.setFlags flags = .ok p) : p.isCompiled = q.isCompiled := by
  unfold setFlags at h
  cases hflags : flagsOf flags with
  | error x => simp [hflags, Except.map] at h
  | ok f =>
    simp only [hflags, Except.map, Except.ok.injEq] at h
    rw [← h, isCompiled, isCompiled]

/-- What an operation leaves behind: nothing new, or a pattern that was put in. -/
theorem Store.apply_cases {α : Type} (s : Store)
    (made : Except PatternError PathPattern × List Log.Entry) (keep : PathPattern → Store × α) :
    (s.apply made keep).store = s ∨
      ∃ p, made.1 = .ok p ∧ (s.apply made keep).store = (keep p).1 := by
  unfold Store.apply
  split
  · exact .inl rfl
  · exact .inr ⟨_, rfl, rfl⟩

/-- **What a call does to a store.** Nothing, or a pattern is stored behind the others, or one is
put in the place of another and is compiled if that was, or two are exchanged. -/
theorem Store.call_cases (s : Store) (c : Call) :
    (s.call c).1 = s ∨ (∃ p, (s.call c).1 = ⟨s.items.push p⟩) ∨
      (∃ place p, ((s.find place).isCompiled → p.isCompiled) ∧ (s.call c).1 = s.put place p) ∨
      ∃ place q, c = .swap place (.pattern q) ∧
        (s.call c).1 = (s.put place (s.find q)).put q (s.find place) := by
  have hput {α : Type} (place : Nat) (made : Except PatternError PathPattern × List Log.Entry)
      (a : PathPattern → α) (hmade : ∀ p, made.1 = .ok p → (s.find place).isCompiled → p.isCompiled)
      (hcall : (s.call c).1 = (s.apply made fun p => (s.put place p, a p)).store) :
      (s.call c).1 = s ∨ ∃ place p, ((s.find place).isCompiled → p.isCompiled) ∧
        (s.call c).1 = s.put place p := by
    rcases s.apply_cases made fun p => (s.put place p, a p) with hsame | ⟨p, hp, hstore⟩
    · exact .inl (hcall.trans hsame)
    · exact .inr ⟨place, p, hmade p hp, hcall.trans hstore⟩
  cases c with
  | construct pattern flags =>
    rcases s.apply_cases (make s.find pattern flags) fun p => (⟨s.items.push p⟩, s.items.size) with
      hsame | ⟨p, -, hstore⟩
    · exact .inl hsame
    · exact .inr (.inl ⟨p, hstore⟩)
  | set place pattern flags exhausted =>
    exact (hput place _ _ (fun p hp _ => isCompiled_of_set hp) rfl).imp_right fun h => .inr (.inl h)
  | setPattern place pattern =>
    exact (hput place _ _ (fun p hp _ => isCompiled_of_set hp) rfl).imp_right fun h => .inr (.inl h)
  | setFlags place flags =>
    refine (hput place _ _ (fun p hp h => ?_) rfl).imp_right fun h => .inr (.inl h)
    rw [isCompiled_of_setFlags hp]
    exact h
  | swap place other =>
    cases other with
    | pattern q => exact .inr (.inr (.inr ⟨place, q, rfl, rfl⟩))
    | _ => exact .inl rfl
  | copy place => exact .inr (.inl ⟨_, rfl⟩)

/-- No pattern ever goes away. -/
theorem size_le_call (s : Store) (c : Call) : s.items.size ≤ (s.call c).1.items.size := by
  rcases s.call_cases c with h | ⟨p, h⟩ | ⟨place, p, -, h⟩ | ⟨place, q, -, h⟩
  · simp [h]
  · simp [h]
  · simp [h, Store.put]
  · simp [h, Store.put]

/-- A pattern that is compiled stays so, unless it is exchanged for another one. -/
theorem isCompiled_call (hplace : place < s.items.size) (hc : c.exchanges place = false)
    (h : (s.find place).isCompiled) : ((s.call c).1.find place).isCompiled := by
  rcases s.call_cases c with hcall | ⟨p, hcall⟩ | ⟨other, p, hp, hcall⟩ | ⟨other, q, rfl, hcall⟩
  · rw [hcall]
    exact h
  · rw [hcall, Store.find_push_of_lt hplace]
    exact h
  · rw [hcall]
    by_cases hsame : other = place
    · subst hsame
      rw [Store.find_put hplace]
      exact hp h
    · rw [Store.find_put_of_ne hsame]
      exact h
  · have hne : other ≠ place ∧ q ≠ place := by
      simp only [Call.exchanges, Bool.or_eq_false_iff, decide_eq_false_iff_not] at hc
      omega
    rw [hcall, Store.find_put_of_ne hne.2, Store.find_put_of_ne hne.1]
    exact h

theorem exists_agrees_call {l : Ledger} (h : Agrees s l) (c : Call) :
    ∃ l', Agrees (s.call c).1 l' := by
  cases hc : (s.call c).2 with
  | none => exact ⟨_, h.call hc⟩
  | some x =>
    rw [call_refused hc]
    exact ⟨l, h⟩

end Calls

/-! ### Runs -/

namespace Filter

/-- Something that is done with a filter or with the patterns of its store. -/
inductive Call where
  | pattern (c : PathPattern.Call)
  | add (side : Side) (a flags : Argument)
  | clear

/-- A filter and the store of its patterns, with the places of the patterns that the filter made
itself from something and that have not been exchanged since. -/
structure Session where
  filter : Filter
  store : Store
  own : List Nat

/-- Whether an argument can be handed in: if it is a pattern, it has to be there. -/
def given (s : Store) : Argument → Bool
  | .pattern place => place < s.items.size
  | _ => true

namespace Session

/-- The session after a call; a pattern that is not there cannot be added. -/
def step (w : Session) : Call → Session
  | .pattern c => ⟨w.filter, (w.store.call c).1, w.own.filter fun place => !c.exchanges place⟩
  | .add side a flags =>
    if given w.store a then
      let out := w.filter.add w.store side a flags
      ⟨out.1, out.2.store, if isRaw a then w.own ++ out.2.result.toOption.toList else w.own⟩
    else w
  | .clear => ⟨w.filter.clear, w.store, w.own⟩

/-- The session after some calls on a new filter, when no patterns have been made yet. -/
def run (f : Flags) (calls : List Call) : Session := calls.foldl step ⟨.empty f, .empty, []⟩

/-- All patterns are what was installed into them, those of the filter are there, and those that it
made itself are compiled. -/
structure Sound (w : Session) : Prop where
  agrees : ∃ l, Agrees w.store l
  placed : ∀ side, ∀ place ∈ w.filter.places side, place < w.store.items.size
  owned : ∀ place ∈ w.own, place < w.store.items.size ∧ (w.store.find place).isCompiled

variable {w : Session}

theorem Sound.start (f : Flags) : Sound ⟨.empty f, .empty, []⟩ := by
  refine ⟨⟨_, Agrees.empty⟩, fun side => ?_, by simp⟩
  cases side <;> simp [places, Filter.empty]

theorem Sound.pattern (h : w.Sound) (c : PathPattern.Call) : (w.step (.pattern c)).Sound := by
  obtain ⟨l, hl⟩ := h.agrees
  have hsize := size_le_call w.store c
  refine ⟨exists_agrees_call hl c, fun side place hplace => ?_, fun place hplace => ?_⟩
  · exact lt_of_lt_of_le (h.placed side place hplace) hsize
  · simp only [step, List.mem_filter, Bool.not_eq_true'] at hplace
    obtain ⟨hlt, hcompiled⟩ := h.owned place hplace.1
    exact ⟨lt_of_lt_of_le hlt hsize, isCompiled_call hlt hplace.2 hcompiled⟩

/-- Patterns that are there are not changed by one that is stored behind them. -/
theorem Sound.owned_push (h : w.Sound) (p : PathPattern) : ∀ place ∈ w.own,
    place < (w.store.items.push p).size ∧
      (Store.find ⟨w.store.items.push p⟩ place).isCompiled := by
  intro place hplace
  obtain ⟨hlt, hcompiled⟩ := h.owned place hplace
  rw [Store.find_push_of_lt hlt, Array.size_push]
  exact ⟨by omega, hcompiled⟩

theorem Sound.add (h : w.Sound) (side : Side) (a flags : Argument) :
    (w.step (.add side a flags)).Sound := by
  rw [step]
  split
  · rename_i hgiven
    rcases w.filter.add_cases w.store side a flags with ⟨place, rfl, hfilter, hstore, -⟩ |
      ⟨hne, ⟨p, hmade, hfilter, hstore, hresult⟩ | ⟨x, -, hfilter, hstore, hresult⟩⟩
    · simp only [hfilter, hstore, isRaw, Bool.false_eq_true, if_false]
      refine ⟨h.agrees, fun side' other hother => ?_, h.owned⟩
      rcases mem_places_insert hother with hold | rfl
      · exact h.placed side' other hold
      · simpa [given] using hgiven
    · simp only [hfilter, hstore, hresult, Except.toOption, Option.toList_some]
      obtain ⟨l, hl⟩ := h.agrees
      have hsize : w.store.items.size < (w.store.items.push p).size := by simp
      have howned := h.owned_push p
      refine ⟨⟨_, hl.push (make_reflects hmade)⟩, fun side' other hother => ?_, ?_⟩
      · rcases mem_places_insert hother with hold | rfl
        · exact lt_trans (h.placed side' other hold) hsize
        · exact hsize
      · by_cases hraw : isRaw a
        · have hcompiled : p.isCompiled := isCompiled_of_make (not_isAbsent_of_isRaw hraw) hmade
          intro other hother
          simp only [hraw, if_true, List.mem_append, List.mem_singleton] at hother
          rcases hother with hold | rfl
          · exact howned other hold
          · rw [Store.find_push]
            exact ⟨hsize, hcompiled⟩
        · simpa [hraw] using howned
    · simpa [hfilter, hstore, hresult, Except.toOption] using h
  · exact h

theorem Sound.clear (h : w.Sound) : (w.step .clear).Sound := by
  refine ⟨h.agrees, fun side => ?_, h.owned⟩
  cases side <;> simp [step, places, Filter.clear, Filter.empty]

/-- Every call keeps a session sound. -/
theorem step_sound (h : w.Sound) (c : Call) : (w.step c).Sound := by
  cases c with
  | pattern c => exact h.pattern c
  | add side a flags => exact h.add side a flags
  | clear => exact h.clear

theorem sound_run (f : Flags) (calls : List Call) : (run f calls).Sound :=
  List.foldlRecOn (motive := Sound) calls step (.start f) fun _ hw c _ => step_sound hw c

end Session

end Filter

end PathSieve.PathPattern
