import PathSieve.Rule.Validation

namespace PathSieve

/-!
# Valid rules and sections

What the fields of a rule and of a section must be like to pass their checks.

* `ValidRule`, `validateRule_eq_ok_iff` — rules.
* `ValidLogging`, `validateLogging_eq_ok_iff` — the logging part of a section.
* `ValidSection`, `validateSection_eq_ok_iff` — sections.
-/

/-! ### Checks in general -/

/-- Two checks one after the other. -/
theorem check_bind_eq_ok_iff {first second : Check} :
    (first >>= fun _ => second) = .ok () ↔ first = .ok () ∧ second = .ok () := by
  cases first with
  | error x =>
    refine iff_of_false (fun h => ?_) fun h => nomatch h.1
    cases h
  | ok u => exact ⟨fun h => ⟨rfl, h⟩, fun h => h.2⟩

/-- The check of a field. -/
theorem onField_eq_ok_iff (e : Entries) (name : String) {check : Value → Check} {P : Value → Prop}
    (hcheck : ∀ v, check v = .ok () ↔ P v) :
    onField e name check = .ok () ↔ ∀ v, e.field? name = some v → P v := by
  unfold onField
  cases hv : e.field? name with
  | none => exact iff_of_true rfl fun w hw => nomatch hw
  | some v =>
    refine (hcheck v).trans ?_
    constructor
    · intro h w hw
      rw [← Option.some.inj hw]
      exact h
    · intro h
      exact h v rfl

theorem exists_map_iff {P : Entries → Prop} {entries : Entries} :
    (∃ m, Value.map entries = .map m ∧ P m) ↔ P entries := by
  constructor
  · rintro ⟨m, heq, h⟩
    cases heq
    exact h
  · intro h
    exact ⟨entries, rfl, h⟩

theorem exists_list_iff {P : List Value → Prop} {items : List Value} :
    (∃ l, Value.list items = .list l ∧ P l) ↔ P items := by
  constructor
  · rintro ⟨l, heq, h⟩
    cases heq
    exact h
  · intro h
    exact ⟨items, rfl, h⟩

/-! ### Rules -/

theorem validateFlags_eq_ok_iff (flags : Argument) :
    validateFlags flags = .ok () ↔ ∃ f, Flags.ofArgument flags = .ok f := by
  unfold validateFlags
  cases Flags.ofArgument flags with
  | error x => exact iff_of_false (fun h => nomatch h) fun ⟨f, h⟩ => nomatch h
  | ok f => exact iff_of_true rfl ⟨f, rfl⟩

theorem validateAction_eq_ok_iff (action : Argument) :
    validateAction action = .ok () ↔ ∃ a, Action.ofArgument? action = some a := by
  unfold validateAction
  cases Action.ofArgument? action with
  | none => exact iff_of_false (fun h => nomatch h) fun ⟨a, h⟩ => nomatch h
  | some a => exact iff_of_true rfl ⟨a, rfl⟩

theorem validateListed_eq_ok_iff {items : List Value} :
    validateListed items = .ok () ↔ ∀ v ∈ items, validPattern (.value v) := by
  induction items with
  | nil => exact iff_of_true rfl fun v hv => absurd hv List.not_mem_nil
  | cons v items ih =>
    rw [validateListed, List.forall_mem_cons]
    by_cases hv : validPattern (.value v)
    · rw [if_pos hv, ih]
      exact (and_iff_right hv).symm
    · rw [if_neg hv]
      exact iff_of_false (fun h => nomatch h) fun h => hv h.1

theorem validatePriority_eq_ok_iff (v : Value) :
    validatePriority v = .ok () ↔ ∃ n, v = .int n := by
  unfold validatePriority
  split
  · exact iff_of_true rfl ⟨_, rfl⟩
  · rename_i hv
    exact iff_of_false (fun h => nomatch h) fun ⟨n, h⟩ => hv n h

theorem validateEnabled_eq_ok_iff (v : Value) :
    validateEnabled v = .ok () ↔ ∃ b, v = .bool b := by
  unfold validateEnabled
  split
  · exact iff_of_true rfl ⟨_, rfl⟩
  · rename_i hv
    exact iff_of_false (fun h => nomatch h) fun ⟨b, h⟩ => hv b h

/-- What the fields of a rule must be like. -/
structure ValidRule (rule : Entries) : Prop where
  action : ∃ v a, rule.field? "action" = some v ∧ Action.ofValue? v = some a
  given : (rule.field? "pattern").isSome ∨ (rule.field? "patterns").isSome
  pattern : ∀ v, rule.field? "pattern" = some v → validPattern (.value v)
  patterns : ∀ v, rule.field? "patterns" = some v →
    ∃ items, v = .list items ∧ ∀ w ∈ items, validPattern (.value w)
  flags : ∀ v, rule.field? "flags" = some v → ∃ f, Flags.ofValue v = .ok f
  priority : ∀ v, rule.field? "priority" = some v → ∃ n, v = .int n
  enabled : ∀ v, rule.field? "enabled" = some v → ∃ b, v = .bool b

theorem validatePatterns_eq_ok_iff (rule : Entries) : validatePatterns rule = .ok () ↔
    ((rule.field? "pattern").isSome ∨ (rule.field? "patterns").isSome) ∧
      (∀ v, rule.field? "pattern" = some v → validPattern (.value v)) ∧
      ∀ v, rule.field? "patterns" = some v →
        ∃ items, v = .list items ∧ ∀ w ∈ items, validPattern (.value w) := by
  unfold validatePatterns
  by_cases hnone : (rule.field? "pattern").isNone ∧ (rule.field? "patterns").isNone
  · rw [if_pos hnone]
    refine iff_of_false (fun h => nomatch h) fun ⟨h, _⟩ => ?_
    rcases h with h | h
    · rw [Option.isNone_iff_eq_none.1 hnone.1] at h
      cases h
    · rw [Option.isNone_iff_eq_none.1 hnone.2] at h
      cases h
  · rw [if_neg hnone]
    have hgiven : (rule.field? "pattern").isSome ∨ (rule.field? "patterns").isSome := by
      cases hone : rule.field? "pattern" with
      | some v => exact .inl rfl
      | none =>
        cases hmore : rule.field? "patterns" with
        | some v => exact .inr rfl
        | none => exact absurd ⟨by rw [hone]; rfl, by rw [hmore]; rfl⟩ hnone
    refine (check_bind_eq_ok_iff.trans (and_congr ?_ ?_)).trans (and_iff_right hgiven).symm
    · refine onField_eq_ok_iff rule "pattern" fun v => ?_
      by_cases hv : validPattern (.value v)
      · rw [if_pos hv]
        exact iff_of_true rfl hv
      · rw [if_neg hv]
        exact iff_of_false (fun h => nomatch h) hv
    · refine onField_eq_ok_iff rule "patterns" fun v => ?_
      split
      · refine Iff.trans ?_ exists_list_iff.symm
        exact validateListed_eq_ok_iff
      · rename_i hv
        exact iff_of_false (fun h => nomatch h) fun ⟨items, h, _⟩ => hv items h

theorem validateRuleFields_eq_ok_iff {rule : Entries} :
    validateRuleFields rule = .ok () ↔ ValidRule rule := by
  have hflags := onField_eq_ok_iff rule "flags" fun v => validateFlags_eq_ok_iff (.value v)
  have hpriority := onField_eq_ok_iff rule "priority" validatePriority_eq_ok_iff
  have henabled := onField_eq_ok_iff rule "enabled" validateEnabled_eq_ok_iff
  have hrest := check_bind_eq_ok_iff.trans (and_congr (validatePatterns_eq_ok_iff rule)
    (check_bind_eq_ok_iff.trans (and_congr hflags
      (check_bind_eq_ok_iff.trans (and_congr hpriority henabled)))))
  unfold validateRuleFields
  cases haction : rule.field? "action" with
  | none =>
    refine iff_of_false (fun h => nomatch h) fun h => ?_
    obtain ⟨w, a, hw, -⟩ := h.action
    rw [haction] at hw
    cases hw
  | some w =>
    refine (check_bind_eq_ok_iff.trans (and_congr (validateAction_eq_ok_iff _) hrest)).trans ?_
    constructor
    · rintro ⟨⟨a, ha⟩, ⟨hgiven, hpattern, hpatterns⟩, hflags, hpriority, henabled⟩
      exact ⟨⟨w, a, haction, ha⟩, hgiven, hpattern, hpatterns, hflags, hpriority, henabled⟩
    · intro h
      obtain ⟨w', a, hw', ha⟩ := h.action
      cases haction.symm.trans hw'
      exact ⟨⟨a, ha⟩, ⟨h.given, h.pattern, h.patterns⟩, h.flags, h.priority, h.enabled⟩

theorem validateRule_eq_ok_iff {v : Value} :
    validateRule v = .ok () ↔ ∃ rule, v = .map rule ∧ ValidRule rule := by
  unfold validateRule
  split
  · refine Iff.trans ?_ exists_map_iff.symm
    exact validateRuleFields_eq_ok_iff
  · rename_i hv
    exact iff_of_false (fun h => nomatch h) fun ⟨rule, h, _⟩ => hv rule h

theorem validateRulesFrom_eq_ok_iff {rules : List Value} {i : Nat} :
    validateRulesFrom i rules = .ok () ↔ ∀ v ∈ rules, ∃ rule, v = .map rule ∧ ValidRule rule := by
  induction rules generalizing i with
  | nil => exact iff_of_true rfl fun v hv => absurd hv List.not_mem_nil
  | cons v rules ih =>
    rw [validateRulesFrom, List.forall_mem_cons, ← validateRule_eq_ok_iff]
    cases validateRule v with
    | error x => exact iff_of_false (fun h => nomatch h) fun h => nomatch h.1
    | ok u =>
      show validateRulesFrom (i + 1) rules = .ok () ↔ _
      rw [ih]
      exact (and_iff_right rfl).symm

/-! ### Sections -/

/-- What the logging part of a section must be like. -/
def ValidLogging (logging : Entries) : Prop :=
  ∀ v, logging.field? "level" = some v → v ≠ .null → (Log.Level.ofName? v.display).isSome

theorem validateLogging_eq_ok_iff (v : Value) :
    validateLogging v = .ok () ↔ ∃ logging, v = .map logging ∧ ValidLogging logging := by
  unfold validateLogging
  split
  · rename_i logging
    refine Iff.trans ?_ exists_map_iff.symm
    unfold ValidLogging
    cases hlevel : Entries.field? logging "level" with
    | none => exact iff_of_true rfl fun w hw => nomatch hw
    | some w =>
      rw [Option.getD_some]
      split
      · refine iff_of_true rfl fun w hw hnull => ?_
        exact absurd (Option.some.inj hw).symm hnull
      · rename_i hnull
        by_cases hname : (Log.Level.ofName? w.display).isSome
        · rw [if_pos hname]
          refine iff_of_true rfl fun w' hw' _ => ?_
          cases hw'
          exact hname
        · rw [if_neg hname]
          exact iff_of_false (fun h => nomatch h) fun h => hname (h w rfl hnull)
  · rename_i hv
    exact iff_of_false (fun h => nomatch h) fun ⟨logging, h, _⟩ => hv logging h

/-- What the fields of a section must be like. -/
structure ValidSection (fields : Entries) : Prop where
  flags : ∀ v, fields.field? "flags" = some v → ∃ f, Flags.ofValue v = .ok f
  action : ∀ v, fields.field? "default_action" = some v → ∃ a, Action.ofValue? v = some a
  rules : ∀ v, fields.field? "rules" = some v →
    ∃ rules, v = .list rules ∧ ∀ w ∈ rules, ∃ rule, w = .map rule ∧ ValidRule rule
  logging : ∀ v, fields.field? "logging" = some v →
    ∃ logging, v = .map logging ∧ ValidLogging logging

theorem validateSection_eq_ok_iff {v : Value} :
    validateSection v = .ok () ↔ ∃ fields, v = .map fields ∧ ValidSection fields := by
  unfold validateSection
  split
  · rename_i fields
    have hflags := onField_eq_ok_iff fields "flags" fun v =>
      validateFlags_eq_ok_iff (.value v)
    have haction := onField_eq_ok_iff fields "default_action" fun v =>
      validateAction_eq_ok_iff (.value v)
    have hlogging := onField_eq_ok_iff fields "logging" validateLogging_eq_ok_iff
    let Listed (v : Value) : Prop :=
      ∃ rules, v = .list rules ∧ ∀ w ∈ rules, ∃ rule, w = .map rule ∧ ValidRule rule
    refine Iff.trans ?_ exists_map_iff.symm
    refine (check_bind_eq_ok_iff.trans (and_congr hflags
      (check_bind_eq_ok_iff.trans (and_congr haction
        (check_bind_eq_ok_iff.trans (and_congr
          (onField_eq_ok_iff fields "rules" (P := Listed) fun v => ?_) hlogging)))))).trans ?_
    · split
      · refine Iff.trans ?_ exists_list_iff.symm
        exact validateRulesFrom_eq_ok_iff
      · rename_i hv
        exact iff_of_false (fun h => nomatch h) fun ⟨rules, h, _⟩ => hv rules h
    constructor
    · rintro ⟨hflags, haction, hrules, hlogging⟩
      exact ⟨hflags, haction, hrules, hlogging⟩
    · intro h
      exact ⟨h.flags, h.action, h.rules, h.logging⟩
  · rename_i hv
    exact iff_of_false (fun h => nomatch h) fun ⟨fields, h, _⟩ => hv fields h

end PathSieve
