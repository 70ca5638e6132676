import PathSieve.Proofs.Command.Inverting
import PathSieve.Proofs.Command.Layers
import PathSieve.Proofs.Command.Telling

namespace PathSieve

open Text (pointsOf)

/-!
# Patterns and single rules

A pattern on the command line and a section with one rule, which includes what the pattern accepts
and excludes all else, ask for the same.

* `Engine.includes_of_held` — the verdict of an engine with one rule.
* `Command.OneRule`, `Command.Judge.exists_ofRules` — sections with one rule, and their judges.
* `Command.run_pattern_eq_rule` — a run with a pattern and a run with one rule.
-/

theorem Flags.none_union (f : Flags) : Flags.none.union f = f := by
  show (⟨0 ||| f.mask⟩ : Flags) = f
  rw [Nat.zero_or]

/-! ### Engines with one rule -/

/-- The verdict of an engine with one rule that has one pattern. -/
theorem Engine.includes_of_held {e : Engine} {r : Rule} {p : PathPattern}
    (h : e.held = [(r, [p])]) (henabled : r.enabled = .bool true) (path : String) :
    e.includes (.text path) = .ok (if p.verdict (pointsOf path.toList) then r.action.isIncluded
      else e.defaultAction.isIncluded) := by
  obtain ⟨x, hentries, hx⟩ := List.map_eq_singleton_iff.1 h
  obtain ⟨hr, hp⟩ := Prod.mk.inj hx
  have htruthy : (e.rule x.rule).enabled.truthy := by
    rw [hr, henabled]
    rfl
  have happlies : e.applies (.text path) x = .ok (p.verdict (pointsOf path.toList)) := by
    have htest : p.test (.text path) = .ok (p.verdict (pointsOf path.toList)) := rfl
    rw [applies, if_pos htruthy, hp, PathPattern.anyAccepts, htest]
    cases p.verdict (pointsOf path.toList) with
    | true => rfl
    | false => rfl
  rw [includes, hentries, firstApplying, happlies]
  cases p.verdict (pointsOf path.toList) with
  | true =>
    rw [← hr]
    rfl
  | false => rfl

/-! ### Rules that include -/

/-- A rule that says no more than that it includes what a pattern accepts. -/
structure OnlyIncludes (rule : Entries) (text : String) : Prop where
  action : rule.field? "action" = some (.text Action.included.name)
  pattern : rule.field? "pattern" = some (.text text)
  nothingElse : ∀ name, name ≠ "action" → name ≠ "pattern" → rule.field? name = none

section

variable {rule : Entries} {text : String} {a : Pattern.Arena} {flags : Flags} {r : Rule}
  {patterns : List PathPattern}

/-- Such a rule is valid if its pattern compiles. -/
theorem OnlyIncludes.valid (h : OnlyIncludes rule text)
    (ha : Pattern.compile (pointsOf text.toList) = .ok a) : ValidRule rule := by
  have hsilent {name : String} {P : Value → Prop} (haction : name ≠ "action")
      (hpattern : name ≠ "pattern") (v : Value) (hv : rule.field? name = some v) : P v := by
    rw [h.nothingElse name haction hpattern] at hv
    cases hv
  refine ⟨⟨_, .included, h.action, Action.ofName?_name .included⟩, .inl ?_, fun v hv => ?_,
    hsilent (by decide) (by decide), hsilent (by decide) (by decide),
    hsilent (by decide) (by decide), hsilent (by decide) (by decide)⟩
  · rw [h.pattern]
    rfl
  · cases h.pattern.symm.trans hv
    show (Pattern.compile (pointsOf text.toList)).toBool = true
    rw [ha]
    rfl

/-- Such a rule has its one pattern, with the flags of the section. -/
theorem OnlyIncludes.patterns_eq (h : OnlyIncludes rule text)
    (hdescribes : Engine.Describes flags rule r patterns)
    (ha : Pattern.compile (pointsOf text.toList) = .ok a) :
    patterns = [⟨some a, pointsOf text.toList, flags⟩] := by
  obtain ⟨own, items, hown, hitems, -, -, hcompiled⟩ := hdescribes.patterns
  obtain rfl : flags = own := (hown.of_none (h.nothingElse _ (by decide) (by decide))).symm
  obtain rfl := hitems.of_none (h.nothingElse _ (by decide) (by decide))
  rw [h.pattern] at hcompiled
  obtain ⟨p, others, ⟨points, a', hpoints, ha', rfl⟩, hothers, rfl⟩ :=
    List.forall₂_cons_left_iff.1 hcompiled
  obtain rfl := List.forall₂_nil_left_iff.1 hothers
  cases hpoints
  cases ha.symm.trans ha'
  rfl

/-- It is on, it includes, and it has no name. -/
theorem OnlyIncludes.rule_eq (h : OnlyIncludes rule text)
    (hdescribes : Engine.Describes flags rule r patterns) :
    r.enabled = .bool true ∧ r.action = .known .included ∧ r.name = .null := by
  obtain ⟨b, hb, henabled⟩ := hdescribes.enabled
  obtain ⟨v, action, hv, hnamed, haction⟩ := hdescribes.action
  cases h.action.symm.trans hv
  have hincluded := Option.some.inj ((Action.ofName?_name .included).symm.trans hnamed)
  refine ⟨?_, ?_, ?_⟩
  · rw [henabled, hb.of_none (h.nothingElse _ (by decide) (by decide))]
  · rw [haction, hincluded]
  · exact hdescribes.name.of_none (h.nothingElse _ (by decide) (by decide))

end

namespace Command

/-! ### Sections with one rule -/

/-- A section with one rule, which includes what a pattern accepts, and where all else is
excluded. -/
structure OneRule (fields : Entries) (text : String) : Prop where
  action : fields.field? "default_action" = some (.text Action.excluded.name)
  rules : ∃ rule : Entries, fields.field? "rules" = some (.list [.map rule]) ∧
    OnlyIncludes rule text

section

variable {fields : Entries} {text : String} {a : Pattern.Arena} {own flags : Flags}

/-- Such a section is valid if the pattern compiles and the logging part is in order. -/
theorem OneRule.valid (h : OneRule fields text) (hown : Judge.sectionFlags fields = .ok own)
    (ha : Pattern.compile (pointsOf text.toList) = .ok a)
    (hlogging : onField fields "logging" validateLogging = .ok ()) :
    validateSection (.map fields) = .ok () := by
  obtain ⟨rule, hrules, honly⟩ := h.rules
  refine validateSection_eq_ok_iff.2 ⟨fields, rfl, fun v hv => ?_, fun v hv => ?_, fun v hv => ?_,
    (onField_eq_ok_iff fields "logging" validateLogging_eq_ok_iff).1 hlogging⟩
  · rw [Judge.sectionFlags, hv] at hown
    exact ⟨own, hown⟩
  · cases h.action.symm.trans hv
    exact ⟨.excluded, Action.ofName?_name .excluded⟩
  · cases hrules.symm.trans hv
    exact ⟨[.map rule], rfl, List.forall_mem_singleton.2 ⟨rule, rfl, honly.valid ha⟩⟩

/-- The engine of a section with one rule holds that rule. -/
theorem OneRule.exists_engine (h : OneRule fields text)
    (hvalid : validateSection (.map fields) = .ok ())
    (hown : Judge.sectionFlags fields = .ok own) (hflags : flags.Known)
    (ha : Pattern.compile (pointsOf text.toList) = .ok a) :
    ∃ e log r, Engine.ofSection (.map (fields.setField "flags" (.int flags.mask))) = .ok (e, log) ∧
      e.held = [(r, [⟨some a, pointsOf text.toList, flags⟩])] ∧
      (r.enabled = .bool true ∧ r.action = .known .included ∧ r.name = .null) ∧
      e.defaultAction = .known .excluded ∧
      ∀ x ∈ log, Engine.TellsRule r [⟨some a, pointsOf text.toList, flags⟩] x := by
  obtain ⟨rule, hrules, honly⟩ := h.rules
  have hfield {name : String} (hname : name ≠ "flags") :
      (fields.setField "flags" (.int flags.mask)).field? name = fields.field? name :=
    Entries.field?_setField_of_ne hname _ _
  obtain ⟨fields', hfields', hsection⟩ :=
    validateSection_eq_ok_iff.1 ((validateSection_setFlags hown hflags).2 hvalid)
  obtain rfl := Value.map.inj hfields'
  obtain ⟨e, log, listed, hbuilt, hfollows, htells⟩ := Engine.exists_follows hsection
  -- The flags and the rules of the section are read from its fields.
  obtain ⟨flags', rules, hflags', hrules', hdescribed⟩ := hfollows.rules
  have hread : Flags.ofValue (.int flags.mask) = .ok flags' :=
    hflags'.of_some (Entries.field?_setField ..)
  obtain rfl : flags = flags' := Except.ok.inj ((Flags.ofValue_mask hflags).symm.trans hread)
  obtain rfl : [Value.map rule] = rules :=
    Value.list.inj (hrules'.of_some ((hfield (by decide)).trans hrules))
  obtain ⟨⟨r, patterns⟩, others, ⟨rule', hrule', hdescribes⟩, hothers, rfl⟩ :=
    List.forall₂_cons_left_iff.1 hdescribed
  obtain rfl : rule = rule' := Value.map.inj hrule'
  obtain rfl := List.forall₂_nil_left_iff.1 hothers
  obtain rfl := honly.patterns_eq hdescribes ha
  refine ⟨e, log, r, hbuilt, List.perm_singleton.1 hfollows.perm, honly.rule_eq hdescribes, ?_,
    fun x hx => ?_⟩
  · obtain ⟨action, hnamed, he⟩ := hfollows.action
    have hexcluded := hnamed.of_some ((hfield (by decide)).trans h.action)
    rw [he, ← Option.some.inj ((Action.ofName?_name .excluded).symm.trans hexcluded)]
  · obtain ⟨held, hheld, htold⟩ := htells x hx
    rwa [List.mem_singleton.1 hheld] at htold

/-! ### Judges -/

namespace Judge

/-- The judge by the rule, about which everything can be told. -/
theorem exists_ofRules (hrule : OneRule fields text)
    (hvalid : validateSection (.map fields) = .ok ()) (hown : sectionFlags fields = .ok own)
    (hflags : flags.Known) (ha : Pattern.compile (pointsOf text.toList) = .ok a)
    (inverted : Bool) :
    ∃ e log, ofRules fields flags inverted = (.ok (.byRules e inverted), log) ∧
      (∀ x ∈ log, x.isWritable) ∧
      ∀ path, e.includes (.text path) = .ok (a.matchPath (pointsOf path.toList) flags) := by
  obtain ⟨e, log, r, hbuilt, hheld, ⟨henabled, hincluded, hname⟩, hexcluded, htells⟩ :=
    hrule.exists_engine hvalid hown hflags ha
  have hone : Numeral.isWritable 1 := Numeral.isWritable_of_lt (by decide)
  refine ⟨e, _, by rw [ofRules, hbuilt], fun x hx => ?_, fun path => ?_⟩
  · rcases List.mem_append.1 hx with htold | hlast
    · refine (htells x htold).isWritable ?_ hone
      rw [Rule.spokenName, hname]
      rfl
    · have hsize : e.size = 1 := by
        have hlength : e.held.length = 1 := by rw [hheld, List.length_singleton]
        rw [Engine.size, ← hlength, Engine.held, List.length_map]
      rw [List.mem_singleton.1 hlast, hsize, defaultName, hexcluded]
      show (Numeral.isWritable 1 && (true && true)) = true
      rw [hone]
      rfl
  · rw [Engine.includes_of_held hheld henabled, hincluded, hexcluded]
    show Except.ok (if a.matchPath _ flags then true else false) = _
    cases a.matchPath (pointsOf path.toList) flags with
    | true => rfl
    | false => rfl

/-- The judge by the pattern, about which everything can be told. -/
theorem exists_ofPattern (hflags : flags.Known)
    (ha : Pattern.compile (pointsOf text.toList) = .ok a) :
    ∃ log, ofPattern text flags =
        (.ok (.byPattern ⟨some a, pointsOf text.toList, flags⟩), log) ∧
      ∀ x ∈ log, x.isWritable := by
  have harena : PathPattern.arenaOf false (pointsOf text.toList) = .ok a :=
    PathPattern.arenaOf_eq_ok_iff.2 ⟨rfl, ha⟩
  have hinstall : PathPattern.install false (pointsOf text.toList) flags =
      (.ok ⟨some a, pointsOf text.toList, flags⟩,
        [PathPattern.accepted (pointsOf text.toList) a flags]) := by
    rw [PathPattern.install, harena]
  refine ⟨_, by rw [ofPattern, hinstall], fun x hx => ?_⟩
  rcases List.mem_append.1 hx with htold | hlast
  · rw [List.mem_singleton.1 htold]
    exact Engine.TellsPattern.isWritable ⟨_, a, ha, rfl⟩ hflags
  · have hmask : flags.mask < 8 := hflags
    have hbits : Numeral.isWritable flags.mask := Numeral.isWritable_of_lt (by omega)
    rw [List.mem_singleton.1 hlast]
    show (true && (Numeral.isWritable flags.mask && true)) = true
    rw [hbits]
    rfl

end Judge

end

/-! ### Judges that agree -/

section

variable {o o' : Options} {l l' : Settings.Layers} {fields : Entries} {text : String}
  {a : Pattern.Arena}

/-- Without flags in the settings the pattern and the rule accept the same paths. -/
theorem Judge.exists_agree {below : Entries} (hpattern : o.pattern = some text)
    (hnone : o'.pattern = none) (hinvert : o'.invert = o.invert)
    (hcase : o'.caseSensitive = o.caseSensitive) (hfull : o'.fullPath = o.fullPath)
    (ha : Pattern.compile (pointsOf text.toList) = .ok a)
    (hbelow : l.programSection = .map below) (hown : sectionFlags below = .ok .none)
    (hsection : l'.programSection = .map fields) (hown' : sectionFlags fields = .ok .none)
    (hvalid : validateSection (.map fields) = .ok ()) (hrule : OneRule fields text) :
    ∃ j log j' log', make o l = (.ok j, log) ∧ make o' l' = (.ok j', log') ∧
      (∀ x ∈ log ++ log', x.isWritable) ∧ ∀ path, j'.verdict path = j.verdict path := by
  have hknown (o : Options) : o.flags.Known := Flags.known_ofBools ..
  obtain ⟨log, hmake, hwritable⟩ := exists_ofPattern (hknown o) ha
  obtain ⟨e, log', hmake', hwritable', hincludes⟩ :=
    exists_ofRules hrule hvalid hown' (hknown { o' with invert := false }) ha o'.invert
  rw [← Flags.none_union o.flags, ← make_of_pattern hbelow hown hpattern] at hmake
  rw [← Flags.none_union (Options.flags _), ← make_of_rules hsection hown' hnone] at hmake'
  refine ⟨_, log, _, log', hmake, hmake', List.forall_mem_append.2 ⟨hwritable, hwritable'⟩,
    fun path => ?_⟩
  have hxor := a.matchPath_xor (pointsOf path.toList) (f := { o' with invert := false }.flags)
    (g := o.flags) (by simp [Options.flags, hcase]) (by simp [Options.flags, hfull])
  rw [verdict_byPattern, verdict_byRules (hincludes path), Flags.none_union, hxor, hinvert]
  simp [Options.flags]

end

/-! ### Runs -/

/-- The options of a run go together, and its settings and its log are there. -/
structure Prepared (s : Surroundings) (o : Options) (l : Settings.Layers) (g : Logging) :
    Prop where
  check : check s.files o = .ok ()
  layers : layers s o = .ok l
  start : Logging.start l s.files = .ok g

/-- A run that is prepared and has a judge of which everything can be told judges its
candidates. -/
theorem Prepared.sifted {s : Surroundings} {args : List String} {o : Options}
    {l : Settings.Layers} {g : Logging} {j : Judge} {log : List Log.Entry}
    (h : Prepared s o l g) (hparse : parse args = .ok (.options o))
    (hmake : Judge.make o l = (.ok j, log)) (hwritable : ∀ x ∈ log, x.isWritable) :
    (run s args).Sifted j (candidates s g.files o) := by
  have htold : (g.tell log).2 = true :=
    (g.tell_eq_true_iff log).2 fun x hx _ => hwritable x hx
  have hrun : run s args = runWith .ample s o l := by
    simp only [run, runWithin, hparse, runOptions, h.check, h.layers]
  rw [hrun]
  exact runWith_sifted h.start hmake htold

/-- **A pattern and a section with one rule ask for the same.** Take a run with a pattern and a run
with a section whose one rule includes what the pattern accepts, which excludes all else and whose
logging part is in order, both with the same inversion, the same case and the same part of the path,
and neither with flags in any layer of its settings. Then both have a judge, the judges accept the
same paths, and as the candidates are the same, so are the paths that are printed and the end of the
run where there is room for everything. -/
theorem run_pattern_eq_rule {s s' : Surroundings} {args args' : List String} {o o' : Options}
    {l l' : Settings.Layers} {g g' : Logging} {text : String} {a : Pattern.Arena} {fields : Entries}
    (hparse : parse args = .ok (.options o)) (hparse' : parse args' = .ok (.options o'))
    (hpattern : o.pattern = some text) (hnone : o'.pattern = none)
    (hinvert : o'.invert = o.invert) (hcase : o'.caseSensitive = o.caseSensitive)
    (hfull : o'.fullPath = o.fullPath) (ha : Pattern.compile (pointsOf text.toList) = .ok a)
    (hprepared : Prepared s o l g) (hprepared' : Prepared s' o' l' g')
    (hunflagged : l.Unflagged) (hunflagged' : l'.Unflagged)
    (hsection : l'.programSection = .map fields) (hrule : OneRule fields text)
    (hlogging : onField fields "logging" validateLogging = .ok ())
    (hcandidates : candidates s' g'.files o' = candidates s g.files o) :
    ∃ j j', (Judge.make o l).1 = .ok j ∧ (Judge.make o' l').1 = .ok j' ∧
      (∀ path, j'.accepts path = j.accepts path) ∧
      (run s args).Sifted j (candidates s g.files o) ∧
      (run s' args').printed = (run s args).printed ∧
      (run s' args').ending = (run s args).ending := by
  have hconfig : o.config = none := config_eq_none_of_parse hparse (by simp [hpattern])
  obtain ⟨below, hbelow⟩ := Value.exists_eq_map (isMap_section_of_layers hprepared.layers hconfig)
  have hown := hunflagged.sectionFlags_eq (layers_proper hprepared.layers) hbelow
  have hown' := hunflagged'.sectionFlags_eq (layers_proper hprepared'.layers) hsection
  obtain ⟨j, log, j', log', hmake, hmake', hwritable, hverdict⟩ := Judge.exists_agree hpattern hnone
    hinvert hcase hfull ha hbelow hown hsection hown' (hrule.valid hown' ha hlogging) hrule
  obtain ⟨hlog, hlog'⟩ := List.forall_mem_append.1 hwritable
  have hsifted := hprepared.sifted hparse hmake hlog
  have hsifted' := hprepared'.sifted hparse' hmake' hlog'
  have hprinted : (run s' args').printed = (run s args).printed := by
    rw [hsifted.printed, hsifted'.printed, hcandidates, funext hverdict]
  refine ⟨j, j', by rw [hmake], by rw [hmake'], fun path => ?_, hsifted, hprinted, ?_⟩
  · rw [j.accepts_eq, j'.accepts_eq, hverdict]
  · rw [hsifted.ending, hsifted'.ending, hcandidates, hprinted]

/-- A pattern with regard to case, and a file with one rule. -/
theorem run_pattern_eq_rule_files :
    let text := "pathpattern:\n  default_action: exclude\n" ++
      "  rules:\n  - action: include\n    pattern: '*.c'\n"
    let s : Surroundings :=
      ⟨Yaml.reader, ⟨"/", "/", [], [(.ofPath "r", .text text)], [], []⟩, [], "", false⟩
    let o : Options := { pattern := some "*.c", paths := ["a.c", "b.C"], caseSensitive := true }
    let o' : Options := { o with pattern := none, config := some "r" }
    let args := ["-s", "*.c", "a.c", "b.C"]
    let args' := ["-s", "-c", "r", "a.c", "b.C"]
    ∃ l l' g g' a fields, parse args = .ok (.options o) ∧ parse args' = .ok (.options o') ∧
      Pattern.compile (pointsOf "*.c".toList) = .ok a ∧ Prepared s o l g ∧ Prepared s o' l' g' ∧
      l.Unflagged ∧ l'.Unflagged ∧ l'.programSection = .map fields ∧
      OneRule fields "*.c" ∧ onField fields "logging" validateLogging = .ok () ∧
      candidates s g'.files o' = candidates s g.files o ∧
      (run s args').printed = (run s args).printed ∧ (run s args').ending = (run s args).ending := by
  intro text s o o' args args'
  let rule : Entries := [(.text "action", .text "include"), (.text "pattern", .text "*.c")]
  let fields : Entries := [(.text "version", .text "1.0"), (.text "flags", .list []),
    (.text "default_action", .text "exclude"), (.text "rules", .list [.map rule]),
    (.text "logging", .map Settings.builtInLogging)]
  -- What is read from the file is not written down, but evaluated wherever it is looked at.
  let f : Entries Marked := (Settings.layerOfFile s.reader s.files "r").toOption.getD []
  have hfile : Settings.layerOfFile s.reader s.files "r" = .ok f :=
    Yaml.eq_ok_getD (by decide +kernel) []
  let l : Settings.Layers := Settings.Layers.initial.put .commandLine []
  let l' : Settings.Layers := (Settings.Layers.initial.hold .user f).put .commandLine []
  have hlayers : layers s o = .ok l := rfl
  have hlayers' : layers s o' = .ok l' := layers_of_file rfl hfile
  have hflags : l.Unflagged := Settings.Layers.initial_unflagged.put .commandLine rfl
  have hflags' : l'.Unflagged :=
    (Settings.Layers.initial_unflagged.hold .user (by decide +kernel)).put .commandLine rfl
  have hsection : l'.programSection = .map fields := by decide +kernel
  have hlogging : onField fields "logging" validateLogging = .ok () := rfl
  have hrule : OneRule fields "*.c" := by
    refine ⟨rfl, rule, rfl, rfl, rfl, fun name haction hpattern => ?_⟩
    have hkeys : ¬Scalar.text "action" = .text name ∧ ¬Scalar.text "pattern" = .text name :=
      ⟨fun h => haction (Scalar.text.inj h).symm, fun h => hpattern (Scalar.text.inj h).symm⟩
    rw [Entries.field?_cons, if_neg hkeys.1, Entries.field?_cons, if_neg hkeys.2]
    rfl
  obtain ⟨g, hstart⟩ : ∃ g, Logging.start l s.files = .ok g := ⟨_, rfl⟩
  obtain ⟨g', hstart'⟩ : ∃ g, Logging.start l' s.files = .ok g := by
    have hstarts : (Logging.start l' s.files).toOption.isSome := by decide +kernel
    exact ⟨_, Yaml.eq_ok_getD hstarts g⟩
  have hprepared : Prepared s o l g := ⟨rfl, hlayers, hstart⟩
  have hprepared' : Prepared s o' l' g' := ⟨rfl, hlayers', hstart'⟩
  have hparse : parse args = .ok (.options o) := by rfl
  have hparse' : parse args' = .ok (.options o') := by rfl
  obtain ⟨a, ha⟩ : ∃ a, Pattern.compile (pointsOf "*.c".toList) = .ok a := ⟨_, rfl⟩
  have hcandidates : candidates s g'.files o' = candidates s g.files o := rfl
  obtain ⟨-, -, -, -, -, -, hprinted, hending⟩ := run_pattern_eq_rule hparse hparse' rfl rfl rfl rfl
    rfl ha hprepared hprepared' hflags hflags' hsection hrule hlogging hcandidates
  exact ⟨l, l', g, g', a, fields, hparse, hparse', ha, hprepared, hprepared', hflags, hflags',
    hsection, hrule, hlogging, hcandidates, hprinted, hending⟩

end Command

end PathSieve
