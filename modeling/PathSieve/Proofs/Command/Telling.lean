import PathSieve.Command.Logging
import PathSieve.Proofs.Command.Judging
import PathSieve.Proofs.Pattern.Size

namespace PathSieve

/-!
# Telling of rules

What is told while the engine of a section is built can be written, unless the name of a rule holds
an integer with too many digits. Nobody looks at names before, so that a valid section has an
engine, and its rules may fail to be told.

* `Command.Logging.tell_eq_true_iff` — when all of some entries can be told.
* `Engine.TellsPattern.isWritable`, `Engine.TellsRule.isWritable` — what can be written.
* `Engine.ofSection_exact` — the check of a section decides whether it has an engine, and which.
-/

/-- Entries are told one by one until one that is to be written cannot be. -/
theorem Command.Logging.tell_eq_true_iff (g : Logging) (es : List Log.Entry) :
    (g.tell es).2 = true ↔ ∀ x ∈ es, g.loggers.takes x → x.isWritable := by
  induction es generalizing g with
  | nil => exact iff_of_true rfl fun x hx => absurd hx List.not_mem_nil
  | cons e es ih =>
    rw [tell, List.forall_mem_cons]
    by_cases hfails : g.loggers.takes e && !e.isWritable
    · rw [if_pos hfails]
      have htaken : g.loggers.takes e = true ∧ e.isWritable = false := by simpa using hfails
      refine iff_of_false (fun h => nomatch h) fun h => ?_
      have hwritable := h.1 htaken.1
      simp [htaken.2] at hwritable
    · rw [if_neg hfails, ih]
      have hfine : g.loggers.takes e → e.isWritable := by
        intro htaken
        simpa [htaken] using hfails
      exact (and_iff_right hfine).symm

/-! ### What can be written -/

/-- A number of up to five digits can be written. -/
theorem Numeral.isWritable_of_lt {n : Nat} (h : n < 100000) : isWritable n := by
  have hpow : ∀ digits, 5 ≤ digits → n < Nat.pow 10 digits := by
    intro digits hdigits
    have hle : Nat.pow 10 5 ≤ Nat.pow 10 digits := Nat.pow_le_pow_right (by decide) hdigits
    exact Nat.lt_of_lt_of_le h hle
  exact decide_eq_true (hpow maxDigits (by decide))

theorem Value.isWritable_ofPoints (text : List Text.CodePoint) : (ofPoints text).isWritable := by
  show (Scalar.ofPoints text).isWritable
  unfold Scalar.ofPoints
  split
  · rfl
  · rfl

namespace Engine

theorem TellsPattern.isWritable {flags : Flags} {x : Log.Entry} (h : TellsPattern flags x)
    (hflags : flags.Known) : x.isWritable := by
  obtain ⟨text, a, ha, rfl⟩ := h
  have hlength : text.length ≤ 4096 := (Pattern.compile_eq_ok_iff.1 ha).1
  have hsize := Pattern.compile_size_le ha
  have hmask : flags.mask < 8 := hflags
  have hnodes : Numeral.isWritable a.size := Numeral.isWritable_of_lt (by omega)
  have hbits : Numeral.isWritable flags.mask := Numeral.isWritable_of_lt (by omega)
  show ((Value.ofPoints text).isWritable && (Numeral.isWritable a.size &&
    (Numeral.isWritable flags.mask && true))) = true
  rw [Value.isWritable_ofPoints, hnodes, hbits]
  rfl

theorem TellsRule.isWritable {r : Rule} {patterns : List PathPattern} {x : Log.Entry}
    (h : TellsRule r patterns x) (hname : r.spokenName.isWritable)
    (hcount : Numeral.isWritable patterns.length) : x.isWritable := by
  rcases h with ⟨v, own, hv, hx⟩ | ⟨a, -, rfl⟩
  · exact hx.isWritable (Flags.ofValue_known hv)
  · show (r.spokenName.isWritable && (true && (Numeral.isWritable patterns.length && true))) = true
    rw [hname, hcount]
    rfl

/-! ### Sections -/

/-- **The check of a section is exact.** A section that is not valid has no engine, for the reason
that its check gives. A valid section has the engine that follows it, and if the names of its rules
and the numbers of their patterns can be written, any logging can be told of them. -/
theorem ofSection_exact (config : Value) :
    match validateSection config with
    | .error x => ofSection config = .error (.validation x)
    | .ok _ => ∃ fields e log listed, config = .map fields ∧ ofSection config = .ok (e, log) ∧
      e.Follows fields listed ∧ ∀ g : Command.Logging,
        (∀ h ∈ listed, h.1.spokenName.isWritable ∧ Numeral.isWritable h.2.length) →
          (g.tell log).2 = true := by
  cases hcheck : validateSection config with
  | error x =>
    show ofSection config = .error (.validation x)
    unfold ofSection
    rw [hcheck]
    rfl
  | ok u =>
    obtain ⟨fields, rfl, hvalid⟩ := validateSection_eq_ok_iff.1 hcheck
    obtain ⟨e, log, listed, hbuilt, hfollows, htells⟩ := exists_follows hvalid
    refine ⟨fields, e, log, listed, rfl, hbuilt, hfollows, fun g hnames => ?_⟩
    refine (g.tell_eq_true_iff log).2 fun x hx _ => ?_
    obtain ⟨h, hh, hrule⟩ := htells x hx
    obtain ⟨hname, hcount⟩ := hnames h hh
    exact hrule.isWritable hname hcount

/-- A rule with a name that can be written, with a single pattern and a list of one. -/
theorem ofSection_exact_named :
    let rule : Entries := [(.text "action", .text "exclude"), (.text "pattern", .text "a"),
      (.text "patterns", .list [.text "b"]), (.text "name", .text "letters")]
    let config : Value := .map [(.text "rules", .list [.map rule])]
    validateSection config = .ok () ∧ ∃ e log, ofSection config = .ok (e, log) ∧
      ∀ g : Command.Logging, (g.tell log).2 = true := by
  intro rule config
  have hcheck : validateSection config = .ok () := rfl
  have hexact := ofSection_exact config
  rw [hcheck] at hexact
  obtain ⟨fields, e, log, listed, hconfig, hbuilt, hfollows, htold⟩ := hexact
  obtain rfl : [(.text "rules", .list [.map rule])] = fields := Value.map.inj hconfig
  refine ⟨hcheck, e, log, hbuilt, fun g => htold g fun h hh => ?_⟩
  obtain ⟨flags, rules, -, hrules, hdescribed⟩ := hfollows.rules
  obtain rfl : [Value.map rule] = rules := Value.list.inj hrules
  -- There is one rule, and it has the name and the patterns of its configuration.
  obtain ⟨held, none, ⟨rule', hrule, hdescribes⟩, hnone, hlisted⟩ :=
    List.forall₂_cons_left_iff.1 hdescribed
  obtain rfl : rule = rule' := Value.map.inj hrule
  rw [hlisted, List.forall₂_nil_left_iff.1 hnone, List.mem_singleton] at hh
  obtain ⟨own, items, -, hitems, -, -, hcompiled⟩ := hdescribes.patterns
  obtain rfl : [Value.text "b"] = items := Value.list.inj hitems
  have hname : held.1.name = .text "letters" := hdescribes.name
  have hlength : 2 = held.2.length := hcompiled.length_eq
  rw [hh, ← hlength]
  refine ⟨?_, Numeral.isWritable_of_lt (by decide)⟩
  rw [Rule.spokenName, hname]
  rfl

/-- A rule whose name has too many digits: its section is valid and has an engine, and at the level
of debugging it cannot be told. -/
theorem ofSection_untold :
    let config : Value := .map [(.text "rules", .list [.map [(.text "action", .text "include"),
      (.text "pattern", .text "a"), (.text "name", .int (.ofNat (Nat.pow 10 4300)))]])]
    let g := Command.Logging.configured .debug [.console] ⟨"/", "/", [], [], [], []⟩
    validateSection config = .ok () ∧
      ∃ e log, ofSection config = .ok (e, log) ∧ (g.tell log).2 = false := by
  intro config g
  refine ⟨rfl, _, _, rfl, ?_⟩
  decide +kernel

end Engine

end PathSieve
