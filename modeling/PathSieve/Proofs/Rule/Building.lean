import PathSieve.Proofs.PathPattern.Installing
import PathSieve.Proofs.Rule.Session
import PathSieve.Proofs.Rule.Valid

namespace PathSieve

/-!
# Engines of valid sections

Nothing but the check of a section stands between it and its engine. The engine of a valid section
holds a rule for each one that is configured, in falling order of priority and among equals in the
order of the section.

* `Entries.Says` — what a field says, or what holds without it.
* `Engine.Compiles`, `Engine.Describes` — a value and its compiled pattern, a configuration and its
  rule.
* `Engine.Holds`, `Engine.Holds.add`, `Engine.Holds.addConfigured` — what an engine holds after some
  rules were added; one more rule, and all rules of a section.
* `Engine.Follows`, `Engine.exists_follows` — a whole section.
* `Engine.exists_ofSection`, `Engine.ofSection_error` — a valid section has an engine, and another
  section has none for the reason that its check gives.
-/

/-! ### Fields -/

/-- A field is read as something, or it is absent and something else holds. -/
def Entries.Says {α : Type} (e : Entries) (name : String) (reads : Value → α → Prop)
    (default a : α) : Prop :=
  match e.field? name with
  | some v => reads v a
  | none => a = default

theorem Entries.exists_says {α : Type} {e : Entries} {name : String} {reads : Value → α → Prop}
    (h : ∀ v, e.field? name = some v → ∃ a, reads v a) (default : α) :
    ∃ a, e.Says name reads default a := by
  unfold Says
  cases hfield : e.field? name with
  | none => exact ⟨default, rfl⟩
  | some v => exact h v hfield

theorem Entries.Says.of_some {α : Type} {e : Entries} {name : String} {reads : Value → α → Prop}
    {default a : α} {v : Value} (h : e.Says name reads default a) (hv : e.field? name = some v) :
    reads v a := by
  unfold Says at h
  rw [hv] at h
  exact h

theorem Entries.Says.of_none {α : Type} {e : Entries} {name : String} {reads : Value → α → Prop}
    {default a : α} (h : e.Says name reads default a) (hnone : e.field? name = none) :
    a = default := by
  unfold Says at h
  rw [hnone] at h
  exact h

theorem Entries.Says.getD_eq {α : Type} {e : Entries} {name : String} {f : α → Value}
    {default a : α} (h : e.Says name (fun v a => v = f a) default a) :
    (e.field? name).getD (f default) = f a := by
  unfold Says at h
  split at h
  · rename_i v hv
    rw [hv, Option.getD_some, h]
  · rename_i hnone
    rw [hnone, Option.getD_none, h]

theorem Entries.says_getD (e : Entries) (name : String) (default : Value) :
    e.Says name (fun v w => w = v) default ((e.field? name).getD default) := by
  unfold Says
  cases e.field? name with
  | none => rfl
  | some v => rfl

open PathPattern (Installable accepted)

/-! ### Patterns -/

theorem installable_of_validPattern {v : Value} (h : validPattern (.value v))
    (find : Nat → List Text.CodePoint) : Installable find (.value v) := by
  have hcompile : ∀ {text : List Text.CodePoint}, (Pattern.compile text).toBool →
      ∃ a, Pattern.compile text = .ok a := by
    intro text htext
    cases ha : Pattern.compile text with
    | error x =>
      rw [ha] at htext
      cases htext
    | ok a => exact ⟨a, rfl⟩
  unfold validPattern at h
  split at h
  · rename_i s heq
    cases heq
    obtain ⟨a, ha⟩ := hcompile h
    exact ⟨_, a, rfl, ha⟩
  · rename_i ps heq
    cases heq
    obtain ⟨a, ha⟩ := hcompile h
    exact ⟨_, a, rfl, ha⟩
  · cases h

namespace Engine

/-- A value is a text that compiles to a pattern. -/
def Compiles (flags : Flags) (v : Value) (p : PathPattern) : Prop :=
  ∃ text a, (Argument.value v).points? = some text ∧ Pattern.compile text = .ok a ∧
    p = ⟨some a, text, flags⟩

/-- What is told about a text that was compiled. -/
def TellsPattern (flags : Flags) (x : Log.Entry) : Prop :=
  ∃ text a, Pattern.compile text = .ok a ∧ x = accepted text a flags

/-- A pattern that is valid is made, and told. -/
theorem make_of_validPattern {v : Value} (h : validPattern (.value v)) (find : Nat → PathPattern)
    (flags : Flags) : ∃ p x, Compiles flags v p ∧ TellsPattern flags x ∧
      PathPattern.make find (.value v) (.flags flags) = (.ok p, [x]) := by
  obtain ⟨text, a, htext, ha⟩ := installable_of_validPattern h fun _ => []
  have hpoints : (Argument.value v).points? = some text := htext
  refine ⟨⟨some a, text, flags⟩, accepted text a flags, ⟨text, a, hpoints, ha, rfl⟩,
    ⟨text, a, ha, rfl⟩, ?_⟩
  have hpresent : ¬(Argument.value v).isAbsent := by
    intro habsent
    unfold Argument.isAbsent at habsent
    split at habsent
    · rename_i hnull
      rw [hnull] at hpoints
      cases hpoints
    · cases habsent
  have hsource : PathPattern.source find (.value v) (.flags flags) =
      .ok (text, flags) := PathPattern.source_eq_ok_iff.2 ⟨hpoints, rfl⟩
  have harena : PathPattern.arenaOf false text = .ok a :=
    PathPattern.arenaOf_eq_ok_iff.2 ⟨rfl, ha⟩
  have hread : PathPattern.flagsOf (.flags flags) = .ok flags := rfl
  simp only [PathPattern.make, hread, if_neg hpresent, PathPattern.set, hsource,
    PathPattern.install, harena]

theorem compileAll_of_validPattern {vs : List Value} (h : ∀ v ∈ vs, validPattern (.value v))
    (shelf : PathPattern.Shelf) (flags : Flags) :
    ∃ patterns log, List.Forall₂ (Compiles flags) vs patterns ∧
      (∀ x ∈ log, TellsPattern flags x) ∧
      compileAll shelf (.flags flags) (vs.map .value) = (.ok patterns, log) := by
  induction vs with
  | nil => exact ⟨[], [], .nil, fun x hx => absurd hx List.not_mem_nil, rfl⟩
  | cons v vs ih =>
    obtain ⟨hv, hrest⟩ := List.forall_mem_cons.1 h
    obtain ⟨p, x, hp, hx, hmake⟩ := make_of_validPattern hv shelf.find flags
    obtain ⟨patterns, log, hpatterns, hlog, hall⟩ := ih hrest
    refine ⟨p :: patterns, x :: log, .cons hp hpatterns, List.forall_mem_cons.2 ⟨hx, hlog⟩, ?_⟩
    rw [List.map_cons, compileAll, hmake]
    show (((compileAll _ _ _).1.map (p :: ·), [x] ++ (compileAll _ _ _).2) :
      Except PatternError (List PathPattern) × List Log.Entry) = _
    rw [hall]
    rfl

/-! ### Rules -/

/-- A configuration describes a rule with its compiled patterns: its single pattern comes before
its list, and the flags of the section hold where it has none. -/
structure Describes (flags : Flags) (rule : Entries) (r : Rule) (patterns : List PathPattern) :
    Prop where
  action : ∃ v a, rule.field? "action" = some v ∧ Action.ofValue? v = some a ∧ r.action = .known a
  name : rule.Says "name" (fun v w => w = v) .null r.name
  priority : ∃ n, rule.Says "priority" (fun v n => v = .int n) 0 n ∧ r.priority = .int n
  enabled : ∃ b, rule.Says "enabled" (fun v b => v = .bool b) true b ∧ r.enabled = .bool b
  patterns : ∃ own listed, rule.Says "flags" (fun v f => Flags.ofValue v = .ok f) flags own ∧
    rule.Says "patterns" (fun v items => v = .list items) [] listed ∧ r.flags = .flags own ∧
    r.patterns = .sequence (((rule.field? "pattern").toList ++ listed).map .value) ∧
    List.Forall₂ (Compiles own) ((rule.field? "pattern").toList ++ listed) patterns

/-- What is told about a rule that is described, and about its patterns. -/
def TellsRule (r : Rule) (patterns : List PathPattern) (x : Log.Entry) : Prop :=
  (∃ v own, Flags.ofValue v = .ok own ∧ TellsPattern own x) ∨
    ∃ a, r.action = .known a ∧ x = added r a patterns

section Described

variable {rule : Entries} {flags own : Flags}

/-- The patterns of a valid rule. -/
theorem validPattern_of_mem_configuredPatterns (h : ValidRule rule) {v : Value}
    (hv : v ∈ configuredPatterns rule) : validPattern (.value v) := by
  rcases List.mem_append.1 hv with hone | hmore
  · exact h.pattern v (Option.mem_toList.1 hone)
  · cases hpatterns : rule.field? "patterns" with
    | none =>
      rw [hpatterns] at hmore
      exact absurd hmore List.not_mem_nil
    | some w =>
      obtain ⟨items, rfl, hitems⟩ := h.patterns w hpatterns
      rw [hpatterns] at hmore
      exact hitems v hmore

theorem configuredPatterns_eq {listed : List Value}
    (h : rule.Says "patterns" (fun v items => v = .list items) [] listed) :
    configuredPatterns rule = (rule.field? "pattern").toList ++ listed := by
  unfold Entries.Says at h
  unfold configuredPatterns
  split at h
  · rename_i v hv
    rw [hv, h]
  · rename_i hnone
    rw [hnone, h]

theorem exists_ofValue_of_says
    (h : rule.Says "flags" (fun v f => Flags.ofValue v = .ok f) flags own)
    (hflags : ∃ v, Flags.ofValue v = .ok flags) : ∃ v, Flags.ofValue v = .ok own := by
  unfold Entries.Says at h
  split at h
  · exact ⟨_, h⟩
  · rw [h]
    exact hflags

/-- The rule that is made from a configuration, by what its fields say. -/
theorem configuredRule_eq {v : Value} {a : Action} {n : Int} {b : Bool}
    (hv : rule.field? "action" = some v) (ha : Action.ofValue? v = some a)
    (hown : rule.Says "flags" (fun v f => Flags.ofValue v = .ok f) flags own)
    (hn : rule.Says "priority" (fun v n => v = .int n) 0 n)
    (hb : rule.Says "enabled" (fun v b => v = .bool b) true b) :
    configuredRule flags rule = .ok ⟨.known a, .sequence ((configuredPatterns rule).map .value),
      .flags own, (rule.field? "name").getD .null, .int n, .bool b⟩ := by
  have hpriority : (rule.field? "priority").getD (.int 0) = .int n := hn.getD_eq
  have henabled : (rule.field? "enabled").getD (.bool true) = .bool b := hb.getD_eq
  have haction : Action.ofValue? ((rule.field? "action").getD .null) = some a := by
    rw [hv, Option.getD_some, ha]
  unfold configuredRule
  rw [hpriority, henabled]
  simp only [haction]
  unfold Entries.Says at hown
  cases hflags : rule.field? "flags" with
  | some w =>
    rw [hflags] at hown
    have hread : Flags.ofValue w = .ok own := hown
    simp only [hread]
    rfl
  | none =>
    rw [hflags] at hown
    obtain rfl : own = flags := hown
    rfl

/-- A valid configuration describes the rule that is made from it, whose patterns compile. -/
theorem exists_describes (h : ValidRule rule) (hflags : ∃ v, Flags.ofValue v = .ok flags)
    (shelf : PathPattern.Shelf) : ∃ r items patterns log, configuredRule flags rule = .ok r ∧
      Describes flags rule r patterns ∧ r.patterns.elements? = some items ∧
      compileAll shelf r.flags items = (.ok patterns, log) ∧ ∀ x ∈ log, TellsRule r patterns x := by
  obtain ⟨v, a, hv, ha⟩ := h.action
  obtain ⟨own, hown⟩ := Entries.exists_says h.flags flags
  obtain ⟨n, hn⟩ := Entries.exists_says h.priority 0
  obtain ⟨b, hb⟩ := Entries.exists_says h.enabled true
  obtain ⟨listed, hlisted⟩ : ∃ listed : List Value,
      rule.Says "patterns" (fun v items => v = .list items) [] listed := by
    refine Entries.exists_says (fun v hv => ?_) []
    obtain ⟨items, hitems, -⟩ := h.patterns v hv
    exact ⟨items, hitems⟩
  have hconfigured := configuredPatterns_eq hlisted
  have hvalid : ∀ w ∈ configuredPatterns rule, validPattern (.value w) := fun w hw =>
    validPattern_of_mem_configuredPatterns h hw
  rw [hconfigured] at hvalid
  obtain ⟨patterns, log, hpatterns, hlog, hall⟩ := compileAll_of_validPattern hvalid shelf own
  obtain ⟨w, hw⟩ := exists_ofValue_of_says hown hflags
  have hr := configuredRule_eq hv ha hown hn hb
  rw [hconfigured] at hr
  refine ⟨_, _, patterns, log, hr, ?_, rfl, hall, fun x hx => .inl ⟨w, own, hw, hlog x hx⟩⟩
  exact ⟨⟨v, a, hv, ha, rfl⟩, rule.says_getD "name" .null, ⟨n, hn, rfl⟩, ⟨b, hb, rfl⟩,
    ⟨own, listed, hown, hlisted, rfl, rfl, hpatterns⟩⟩

end Described

/-! ### Engines -/

/-- A rule of an engine with its compiled patterns. -/
abbrev Holding := Rule × List PathPattern

/-- The rules that an engine holds, in the order in which they are tried. -/
def held (e : Engine) : List Holding := e.entries.map fun x => (e.rule x.rule, x.patterns)

/-- An engine holds some rules, arranged by priority. -/
structure Holds (e : Engine) (built : List Holding) : Prop where
  ordinary : e.Ordinary
  numbered : ∀ x ∈ e.entries, x.rule < e.rules.size
  held_eq : e.held = falling (fun h => h.1.rank) built

variable {e : Engine} {built : List Holding}

theorem holds_empty (action : ActionField) : (empty action).Holds [] :=
  ⟨ordinary_of_rules (fun r hr => absurd hr (Array.not_mem_empty r)) .blank [] action,
    fun _ hx => absurd hx List.not_mem_nil, List.mergeSort_nil.symm⟩

theorem Describes.ordinary {flags : Flags} {rule : Entries} {r : Rule}
    {patterns : List PathPattern} (h : Describes flags rule r patterns) : r.Ordinary := by
  obtain ⟨v, a, -, -, ha⟩ := h.action
  obtain ⟨n, -, hn⟩ := h.priority
  exact ⟨⟨n, hn⟩, ⟨a, ha⟩⟩

theorem rule_register (e : Engine) (r : Rule) (number : Nat) :
    (e.register r).rule number = if number = e.rules.size then r else e.rule number := by
  show (e.rules.push r).getD number blankRule = _
  rw [rule, Array.getD_eq_getD_getElem?, Array.getD_eq_getD_getElem?, Array.getElem?_push]
  split
  · rfl
  · rfl

/-- A new rule joins rules with integers as priorities. -/
theorem Ordinary.register (h : e.Ordinary) {r : Rule} (hr : r.Ordinary) :
    (e.register r).Ordinary := by
  intro number
  rw [rule_register]
  split
  · exact hr
  · exact h number

/-- A rule that is made known and added comes to those that are held. -/
theorem Holds.add (h : e.Holds built) {r : Rule} (hr : r.Ordinary) {items : List Argument}
    {patterns : List PathPattern} {log : List Log.Entry} (hitems : r.patterns.elements? = some items)
    (hall : compileAll e.shelf r.flags items = (.ok patterns, log)) :
    ∃ e' a, r.action = .known a ∧
      (e.register r).add e.rules.size = (e', .ok (), log ++ [added r a patterns]) ∧
      e'.defaultAction = e.defaultAction ∧ e'.Holds (built ++ [(r, patterns)]) := by
  obtain ⟨a, ha⟩ := hr.action
  have hknown : (e.register r).Ordinary := h.ordinary.register hr
  have hown : (e.register r).rule e.rules.size = r := by rw [rule_register, if_pos rfl]
  let entry : EngineEntry := ⟨e.rules.size, patterns⟩
  let e' : Engine :=
    { e.register r with entries := falling (e.register r).rank (e.entries ++ [entry]) }
  have hadd : (e.register r).add e.rules.size = (e', .ok (), log ++ [added r a patterns]) := by
    have hshelf : (e.register r).shelf = e.shelf := rfl
    simp only [Engine.add, hown, hitems, hshelf, hall, place, sortFalling_priorityOf hknown, ha]
    rfl
  refine ⟨e', a, ha, hadd, rfl, hknown, fun x hx => ?_, ?_⟩
  · show x.rule < (e.rules.push r).size
    rw [Array.size_push]
    rcases List.mem_append.1 ((falling_perm _ _).mem_iff.1 hx) with hold | hnew
    · exact Nat.lt_succ_of_lt (h.numbered x hold)
    · rw [List.mem_singleton.1 hnew]
      exact Nat.lt_succ_self _
  · let holding (x : EngineEntry) : Holding := ((e.register r).rule x.rule, x.patterns)
    -- The old rules keep their numbers, and the new one has the next.
    have hmap : (e.entries ++ [entry]).map holding = e.held ++ [(r, patterns)] := by
      rw [List.map_append, List.map_singleton, held]
      congr 1
      · refine List.map_congr_left fun x hx => ?_
        show ((e.register r).rule x.rule, x.patterns) = _
        rw [rule_register, if_neg (Nat.ne_of_lt (h.numbered x hx))]
      · show [((e.register r).rule e.rules.size, patterns)] = _
        rw [hown]
    have hsort : falling (fun h : Holding => h.1.rank) ((e.entries ++ [entry]).map holding) =
        (falling (e.register r).rank (e.entries ++ [entry])).map holding := falling_map holding _
    calc e'.held = falling (fun h => h.1.rank) ((e.entries ++ [entry]).map holding) := hsort.symm
      _ = falling (fun h => h.1.rank) (built ++ [(r, patterns)]) := by
        rw [hmap, h.held_eq, falling_append]

/-- The configured rules come one by one to those that are held. -/
theorem Holds.addConfigured (h : e.Holds built) {flags : Flags}
    (hflags : ∃ v, Flags.ofValue v = .ok flags) {rules : List Value}
    (hrules : ∀ v ∈ rules, ∃ rule, v = .map rule ∧ ValidRule rule) (log : List Log.Entry) :
    ∃ e' more listed, Engine.addConfigured flags e log rules = .ok (e', log ++ more) ∧
      e'.defaultAction = e.defaultAction ∧ e'.Holds (built ++ listed) ∧
      List.Forall₂ (fun v h => ∃ rule, v = .map rule ∧ Describes flags rule h.1 h.2) rules listed ∧
      ∀ x ∈ more, ∃ h ∈ listed, TellsRule h.1 h.2 x := by
  induction rules generalizing e built log with
  | nil =>
    refine ⟨e, [], [], ?_, rfl, ?_, .nil, fun x hx => absurd hx List.not_mem_nil⟩
    · rw [Engine.addConfigured, List.append_nil]
    · rw [List.append_nil]
      exact h
  | cons v rules ih =>
    obtain ⟨⟨rule, rfl, hrule⟩, hrest⟩ := List.forall_mem_cons.1 hrules
    obtain ⟨r, items, patterns, own, hr, hdescribes, hitems, hall, htells⟩ :=
      exists_describes hrule hflags e.shelf
    obtain ⟨e₁, a, ha, hadd, hdefault, hholds⟩ := h.add hdescribes.ordinary hitems hall
    obtain ⟨e', more, listed, hdone, hdefault', hholds', hlisted, hmore⟩ :=
      ih hholds hrest (log ++ (own ++ [added r a patterns]))
    refine ⟨e', own ++ [added r a patterns] ++ more, (r, patterns) :: listed, ?_, ?_, ?_, ?_, ?_⟩
    · simp only [Engine.addConfigured, hr, hadd]
      rw [hdone, List.append_assoc]
    · rw [hdefault', hdefault]
    · rw [List.append_assoc] at hholds'
      exact hholds'
    · exact .cons ⟨rule, rfl, hdescribes⟩ hlisted
    · intro x hx
      rcases List.mem_append.1 hx with hown | hlater
      · refine ⟨(r, patterns), List.mem_cons_self .., ?_⟩
        rcases List.mem_append.1 hown with hpattern | hadded
        · exact htells x hpattern
        · exact .inr ⟨a, ha, List.mem_singleton.1 hadded⟩
      · obtain ⟨h', hh', hx'⟩ := hmore x hlater
        exact ⟨h', List.mem_cons_of_mem _ hh', hx'⟩

/-- Numbers do not matter to what an engine holds. -/
theorem held_renumber (e : Engine) : e.renumber.held = e.held := by
  refine List.ext_getElem (by simp [held, renumber]) fun i hi hi' => ?_
  have hlt : i < e.entries.length := by simpa [held] using hi'
  simp [held, renumber, rule, order, hlt]

/-! ### Sections -/

/-- An engine follows a section: there is a rule for each one that is configured, and the engine
holds them in falling order of priority, those of one priority in the order of the section. -/
structure Follows (e : Engine) (fields : Entries) (listed : List Holding) : Prop where
  action : ∃ a, fields.Says "default_action" (fun v a => Action.ofValue? v = some a) .included a ∧
    e.defaultAction = .known a
  rules : ∃ flags rules, fields.Says "flags" (fun v f => Flags.ofValue v = .ok f) .none flags ∧
    fields.Says "rules" (fun v rules => v = .list rules) [] rules ∧
    List.Forall₂ (fun v h => ∃ rule, v = .map rule ∧ Describes flags rule h.1 h.2) rules listed
  perm : e.held.Perm listed
  falling : e.held.Pairwise fun h h' => h'.1.rank ≤ h.1.rank
  stable : ∀ n, e.held.filter (fun h => h.1.rank = n) = listed.filter fun h => h.1.rank = n

/-- The engine of a section that was checked, by what its fields say. -/
theorem ofSection_eq {fields : Entries} {flags : Flags} {a : Action} {rules : List Value}
    (hcheck : validateSection (.map fields) = .ok ())
    (hflags : Flags.ofValue ((fields.field? "flags").getD .null) = .ok flags)
    (ha : fields.Says "default_action" (fun v a => Action.ofValue? v = some a) .included a)
    (hrules : fields.Says "rules" (fun v rules => v = .list rules) [] rules) :
    ofSection (.map fields) = (addConfigured flags (empty (.known a)) [] rules).map
      fun built => (built.1.renumber, built.2) := by
  unfold ofSection
  unfold Entries.Says at ha hrules
  split at ha
  · rename_i v hv
    split at hrules
    · rename_i w hw
      simp only [hcheck, hflags, hv, ha, hw, hrules]
      rfl
    · rename_i hnone
      simp only [hcheck, hflags, hv, ha, hnone, hrules]
      rfl
  · rename_i hnone
    split at hrules
    · rename_i w hw
      simp only [hcheck, hflags, hnone, ha, hw, hrules]
      rfl
    · rename_i hnone'
      simp only [hcheck, hflags, hnone, ha, hnone', hrules]
      rfl

/-- The engine of a valid section follows it, and nothing is told but its rules. -/
theorem exists_follows {fields : Entries} (h : ValidSection fields) : ∃ e log listed,
    ofSection (.map fields) = .ok (e, log) ∧ e.Follows fields listed ∧
      ∀ x ∈ log, ∃ h ∈ listed, TellsRule h.1 h.2 x := by
  obtain ⟨flags, hflags⟩ := Entries.exists_says h.flags .none
  obtain ⟨a, ha⟩ := Entries.exists_says h.action .included
  obtain ⟨rules, hrules⟩ : ∃ rules : List Value,
      fields.Says "rules" (fun v rules => v = .list rules) [] rules := by
    refine Entries.exists_says (fun v hv => ?_) []
    obtain ⟨rules, hrules, -⟩ := h.rules v hv
    exact ⟨rules, hrules⟩
  have hvalid : ∀ v ∈ rules, ∃ rule, v = .map rule ∧ ValidRule rule := by
    unfold Entries.Says at hrules
    split at hrules
    · rename_i w hw
      obtain ⟨rules', heq, hvalid⟩ := h.rules w hw
      cases hrules.symm.trans heq
      exact hvalid
    · rw [hrules]
      exact fun v hv => absurd hv List.not_mem_nil
  have hread : Flags.ofValue ((fields.field? "flags").getD .null) = .ok flags := by
    unfold Entries.Says at hflags
    split at hflags
    · rename_i w hw
      rw [hw, Option.getD_some, hflags]
    · rename_i hnone
      rw [hnone, Option.getD_none, hflags]
      rfl
  have hcheck : validateSection (.map fields) = .ok () :=
    validateSection_eq_ok_iff.2 ⟨fields, rfl, h⟩
  obtain ⟨e, log, listed, hadded, hdefault, hholds, hdescribed, htells⟩ :=
    (holds_empty (.known a)).addConfigured ⟨_, hread⟩ hvalid []
  rw [List.nil_append] at hadded hholds
  refine ⟨e.renumber, log, listed, ?_, ?_, htells⟩
  · rw [ofSection_eq hcheck hread ha hrules, hadded]
    rfl
  · have hheld : e.renumber.held = PathSieve.falling (fun h => h.1.rank) listed := by
      rw [held_renumber, hholds.held_eq]
    refine ⟨⟨a, ha, hdefault⟩, ⟨flags, rules, hflags, hrules, hdescribed⟩, ?_, ?_, fun n => ?_⟩
    · rw [hheld]
      exact falling_perm _ _
    · rw [hheld]
      exact falling_pairwise _ _
    · rw [hheld]
      exact filter_falling _ _ n

/-- A valid section has an engine. -/
theorem exists_ofSection {config : Value} (h : validateSection config = .ok ()) :
    ∃ result, ofSection config = .ok result := by
  obtain ⟨fields, rfl, hvalid⟩ := validateSection_eq_ok_iff.1 h
  obtain ⟨e, log, -, hbuilt, -⟩ := exists_follows hvalid
  exact ⟨(e, log), hbuilt⟩

/-- A section without an engine is not valid. -/
theorem ofSection_error {config : Value} {x : BuildError} (h : ofSection config = .error x) :
    ∃ e, x = .validation e ∧ validateSection config = .error e := by
  cases hcheck : validateSection config with
  | error e =>
    unfold ofSection at h
    rw [hcheck] at h
    cases h
    exact ⟨e, rfl, rfl⟩
  | ok u =>
    obtain ⟨result, hresult⟩ := exists_ofSection hcheck
    rw [hresult] at h
    cases h

end Engine

end PathSieve
