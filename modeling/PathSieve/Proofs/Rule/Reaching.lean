import PathSieve.Proofs.Rule.Building

namespace PathSieve.Engine

/-!
# Engines that come about

An engine is new or that of a section. From then on rules are made, changed and used in calls. Which
of this is allowed is left open, so that more can be said where less is.

* `Engine.Use`, `Engine.Reached` — what is done with an engine, its rules and their patterns, and the
  engines that come about.
* `Engine.ofSection_numbered`, `Engine.ofSection_ordinary`, `Engine.ofSection_falling`,
  `Engine.ofSection_compiled` — the engine of a section.
-/

/-- Something that is done with an engine, with its rules or with the patterns that these hold. -/
inductive Use where
  | make (r : Rule)
  | change (number : Nat) (f : Rule → Rule)
  | shelve (shelf : PathPattern.Shelf)
  | call (c : Call)

/-- The engine after something was done. -/
def use (e : Engine) : Use → Engine
  | .make r => e.register r
  | .change number f => e.modifyRule number f
  | .shelve shelf => { e with shelf }
  | .call c => e.call c

/-- The engines that come about if only what is allowed is done. -/
inductive Reached (allowed : Engine → Use → Prop) : Engine → Prop
  | new (action : ActionField) : Reached allowed (empty action)
  | built {config : Value} {e : Engine} {log : List Log.Entry}
    (h : ofSection config = .ok (e, log)) : Reached allowed e
  | use {e : Engine} {u : Use} (h : Reached allowed e) (hu : allowed e u) :
    Reached allowed (e.use u)

/-! ### Engines of sections -/

theorem exists_of_mem_right {α β : Type} {R : α → β → Prop} {xs : List α} {ys : List β} {y : β}
    (h : List.Forall₂ R xs ys) (hy : y ∈ ys) : ∃ x, R x y := by
  induction h with
  | nil => simp at hy
  | cons hxy _ ih =>
    rcases List.mem_cons.1 hy with rfl | hy
    · exact ⟨_, hxy⟩
    · exact ih hy

section Sections

variable {config : Value} {e : Engine} {log : List Log.Entry}

theorem exists_valid_of_ofSection (h : ofSection config = .ok (e, log)) :
    ∃ fields, config = .map fields ∧ ValidSection fields := by
  cases hcheck : validateSection config with
  | error x =>
    unfold ofSection at h
    rw [hcheck] at h
    cases h
  | ok u => exact validateSection_eq_ok_iff.1 hcheck

theorem exists_follows_of_ofSection (h : ofSection config = .ok (e, log)) :
    ∃ fields listed, e.Follows fields listed := by
  obtain ⟨fields, rfl, hvalid⟩ := exists_valid_of_ofSection h
  obtain ⟨e', log', listed, hbuilt, hfollows, -⟩ := exists_follows hvalid
  cases h.symm.trans hbuilt
  exact ⟨fields, listed, hfollows⟩

/-- The rules of a section are numbered last. -/
theorem exists_renumber_of_ofSection (h : ofSection config = .ok (e, log)) :
    ∃ e₀ : Engine, e = e₀.renumber := by
  have hmap {x : Except BuildError (Engine × List Log.Entry)}
      (hx : x.map (fun built => (built.1.renumber, built.2)) = .ok (e, log)) :
      ∃ e₀ : Engine, e = e₀.renumber := by
    cases x with
    | error y => simp [Except.map] at hx
    | ok built =>
      simp only [Except.map, Except.ok.injEq, Prod.mk.injEq] at hx
      exact ⟨_, hx.1.symm⟩
  obtain ⟨fields, rfl, hvalid⟩ := exists_valid_of_ofSection h
  have hcheck : validateSection (.map fields) = .ok () :=
    validateSection_eq_ok_iff.2 ⟨fields, rfl, hvalid⟩
  unfold ofSection at h
  simp only [hcheck] at h
  split at h
  · exact hmap h
  · cases h

theorem rules_renumber (e : Engine) : e.renumber.rules.toList = e.renumber.held.map (·.1) := by
  rw [held_renumber]
  simp [renumber, order, held]

theorem ofSection_numbered (h : ofSection config = .ok (e, log)) :
    ∀ x ∈ e.entries, x.rule < e.rules.size := by
  obtain ⟨e₀, rfl⟩ := exists_renumber_of_ofSection h
  intro x hx
  obtain ⟨i, hi, rfl⟩ := List.mem_mapIdx.1 hx
  simpa [renumber, order] using hi

/-- Whatever an engine of a section holds is described by its configuration. -/
theorem exists_describes_of_mem_held (h : ofSection config = .ok (e, log)) {x : Holding}
    (hx : x ∈ e.held) : ∃ flags rule, Describes flags rule x.1 x.2 := by
  obtain ⟨fields, listed, hfollows⟩ := exists_follows_of_ofSection h
  obtain ⟨flags, rules, -, -, hdescribed⟩ := hfollows.rules
  obtain ⟨v, rule, -, hrule⟩ :=
    exists_of_mem_right hdescribed (hfollows.perm.mem_iff.1 hx)
  exact ⟨flags, rule, hrule⟩

theorem ofSection_ordinary (h : ofSection config = .ok (e, log)) : e.Ordinary := by
  refine ordinary_of_rules (fun r hr => ?_) e.shelf e.entries e.defaultAction
  have hheld : e.rules.toList = e.held.map (·.1) := by
    obtain ⟨e₀, rfl⟩ := exists_renumber_of_ofSection h
    exact rules_renumber e₀
  rw [← Array.mem_toList_iff, hheld] at hr
  obtain ⟨x, hx, rfl⟩ := List.mem_map.1 hr
  obtain ⟨flags, rule, hrule⟩ := exists_describes_of_mem_held h hx
  exact hrule.ordinary

theorem ofSection_falling (h : ofSection config = .ok (e, log)) :
    e.entries.Pairwise fun x y => e.rank y ≤ e.rank x := by
  obtain ⟨fields, listed, hfollows⟩ := exists_follows_of_ofSection h
  exact List.pairwise_map.1 hfollows.falling

theorem ofSection_compiled (h : ofSection config = .ok (e, log)) :
    ∀ x ∈ e.entries, ∀ p ∈ x.patterns, p.isCompiled := by
  intro x hx p hp
  obtain ⟨flags, rule, hrule⟩ := exists_describes_of_mem_held h (List.mem_map_of_mem hx)
  obtain ⟨own, listed, -, -, -, -, hpatterns⟩ := hrule.patterns
  obtain ⟨v, text, a, -, -, rfl⟩ := exists_of_mem_right hpatterns hp
  rfl

end Sections

end PathSieve.Engine
