import PathSieve.Command.Options

namespace PathSieve.Command

/-!
# Options of a command line

The switch for inversion can be given in addition to anything else, and nothing but the inversion
depends on it. A pattern and a file of settings do not go together.

* `Options.inverted` — options with inversion.
* `Reading.read_inverted`, `Reading.foldlM_read_inverted` — inversion stays while words are read.
* `parse_eq_ok_iff` — when a command line asks for options.
* `parse_inverted` — a command line with the switch for inversion in front of it.
* `config_eq_none_of_parse` — a command line with a pattern has no file of settings.
-/

/-! ### Readings -/

/-- Options with inversion. -/
def Options.inverted (o : Options) : Options := { o with invert := true }

namespace Reading

/-- A command line that has been read in part, with inversion. -/
def inverted (r : Reading) : Reading := { r with options := r.options.inverted }

theorem foldl_setSwitch_inverted (ss : List Switch) (o : Options) :
    ss.foldl Options.setSwitch o.inverted = (ss.foldl Options.setSwitch o).inverted := by
  induction ss generalizing o with
  | nil => rfl
  | cons s ss ih =>
    have hswitch : o.inverted.setSwitch s = (o.setSwitch s).inverted := by cases s <;> rfl
    rw [List.foldl_cons, hswitch, ih, List.foldl_cons]

theorem set_inverted (r : Reading) (ss : List Switch) (last : Option (Switch × String)) :
    r.inverted.set ss last = (r.set ss last).map inverted := by
  have hfold : ss.foldl Options.setSwitch r.inverted.options =
      (ss.foldl Options.setSwitch r.options).inverted := foldl_setSwitch_inverted ss r.options
  unfold set
  rw [hfold]
  cases request? ss with
  | some request => rfl
  | none =>
    cases last with
    | none => rfl
    | some sv =>
      obtain ⟨s, value⟩ := sv
      cases s <;> rfl

theorem endRun_inverted (r : Reading) : r.inverted.endRun = r.endRun.inverted := by
  obtain ⟨o, run, placed, extra, waiting⟩ := r
  cases run with
  | nil => rfl
  | cons w run => cases placed <;> rfl

theorem use_inverted (r : Reading) (u : Use) : r.inverted.use u = (r.use u).map inverted := by
  unfold use
  split
  · rfl
  · exact set_inverted ..
  · exact set_inverted ..
  · rfl

/-- Inversion stays while a word is read. -/
theorem read_inverted (r : Reading) (w : Word) : r.inverted.read w = (r.read w).map inverted := by
  have hwaiting : r.inverted.waiting = r.waiting := rfl
  unfold read
  rw [hwaiting]
  split
  · exact set_inverted { r with waiting := none } ..
  · rfl
  · rw [endRun_inverted, use_inverted]
  · rw [endRun_inverted]
    rfl
  · rfl

theorem finish_inverted (r : Reading) : r.inverted.finish = r.finish.map Options.inverted := by
  have hsettle (o : Options) : o.inverted.settle = o.settle.inverted := by
    obtain ⟨pattern, paths, config, root, logFile, _, _, _, _⟩ := o
    cases config <;> cases pattern <;> rfl
  have hwaiting : r.inverted.waiting = r.waiting := rfl
  unfold finish
  rw [hwaiting]
  split
  · rfl
  · rw [endRun_inverted]
    show (if r.endRun.extra.isEmpty then Except.ok r.endRun.options.inverted.settle else _) = _
    rw [hsettle]
    split
    · rfl
    · rfl

/-- Inversion stays until the last word is read. -/
theorem foldlM_read_inverted (ws : List Word) (r : Reading) :
    (ws.foldlM read r.inverted).bind finish =
      ((ws.foldlM read r).bind finish).map Options.inverted := by
  induction ws generalizing r with
  | nil => exact finish_inverted r
  | cons w ws ih =>
    rw [List.foldlM_cons, List.foldlM_cons, read_inverted]
    cases r.read w with
    | error e => rfl
    | ok r' => exact ih r'

/-! #### Early ends -/

/-- Only for the help and the version a reading ends early. -/
theorem set_ne_asked (r : Reading) (ss : List Switch) (last : Option (Switch × String))
    (o : Options) : r.set ss last ≠ .error (.asked (.options o)) := by
  have hrequest : request? ss ≠ some (.options o) := by
    fun_induction request? ss with
    | case1 => exact fun h => nomatch h
    | case2 => exact fun h => nomatch h
    | case3 => exact fun h => nomatch h
    | case4 _ _ _ _ ih => exact ih
  intro h
  unfold set at h
  split at h
  · rename_i request hsome
    obtain rfl : request = .options o := Stop.asked.inj (Except.error.inj h)
    exact hrequest hsome
  · cases h

theorem read_ne_asked (r : Reading) (w : Word) (o : Options) :
    r.read w ≠ .error (.asked (.options o)) := by
  intro h
  unfold read at h
  split at h
  · exact set_ne_asked _ _ _ o h
  · cases h
  · unfold use at h
    split at h
    · cases h
    · exact set_ne_asked _ _ _ o h
    · exact set_ne_asked _ _ _ o h
    · cases h
  · cases h
  · cases h

theorem foldlM_read_ne_asked (ws : List Word) (r : Reading) (o : Options) :
    (ws.foldlM read r).bind finish ≠ .error (.asked (.options o)) := by
  induction ws generalizing r with
  | nil =>
    intro h
    have hfinish : r.finish = .error (.asked (.options o)) := h
    unfold finish at hfinish
    split at hfinish
    · cases hfinish
    · split at hfinish
      · cases hfinish
      · cases hfinish
  | cons w ws ih =>
    rw [List.foldlM_cons]
    cases hread : r.read w with
    | error e =>
      intro h
      obtain rfl : e = .asked (.options o) := Except.error.inj h
      exact read_ne_asked r w o hread
    | ok r' => exact ih r'

end Reading

/-! ### Command lines -/

/-- A command line asks for options if its words can be read to their end. -/
theorem parse_eq_ok_iff {args : List String} {o : Options} : parse args = .ok (.options o) ↔
    ∃ ws, words args = .ok ws ∧ (ws.foldlM Reading.read .start).bind Reading.finish = .ok o := by
  cases hwords : words args with
  | error e =>
    have hparse : parse args = .error e := by
      rw [parse, hwords]
      rfl
    rw [hparse]
    exact iff_of_false (fun h => nomatch h) fun ⟨ws, h, _⟩ => nomatch h
  | ok ws =>
    have hpure : (Except.ok ws : Except UsageError (List Word)) = pure ws := rfl
    cases hread : (ws.foldlM Reading.read .start).bind Reading.finish with
    | ok o' =>
      have hparse : parse args = .ok (.options o') := by
        rw [parse, hwords, hpure, pure_bind, hread]
      rw [hparse]
      constructor
      · intro h
        cases h
        exact ⟨ws, rfl, hread⟩
      · rintro ⟨ws', hws, hread'⟩
        cases hws
        rw [Except.ok.inj (hread.symm.trans hread')]
    | error stop =>
      refine iff_of_false (fun h => ?_) fun ⟨ws', hws, hread'⟩ => ?_
      · rw [parse, hwords, hpure, pure_bind, hread] at h
        cases stop with
        | misused e => cases h
        | asked request =>
          obtain rfl : request = .options o := Except.ok.inj h
          exact Reading.foldlM_read_ne_asked ws .start o hread
      · cases hws
        cases hread.symm.trans hread'

/-- The switch for inversion in front of a command line adds inversion and nothing else. -/
theorem parse_inverted {args : List String} {o : Options} (h : parse args = .ok (.options o)) :
    parse ("-i" :: args) = .ok (.options o.inverted) := by
  obtain ⟨ws, hwords, hread⟩ := parse_eq_ok_iff.1 h
  refine parse_eq_ok_iff.2 ⟨.option ⟨.invert, false, none⟩ :: ws, ?_, ?_⟩
  · show (words args).map (.option ⟨.invert, false, none⟩ :: ·) = _
    rw [hwords]
    rfl
  · show (ws.foldlM Reading.read Reading.start.inverted).bind Reading.finish = _
    rw [Reading.foldlM_read_inverted, hread]
    rfl

/-- Where a file of settings is given there is no pattern. -/
theorem config_eq_none_of_parse {args : List String} {o : Options}
    (h : parse args = .ok (.options o)) (hpattern : o.pattern ≠ none) : o.config = none := by
  obtain ⟨ws, -, hread⟩ := parse_eq_ok_iff.1 h
  obtain ⟨o', rfl⟩ : ∃ o' : Options, o = o'.settle := by
    cases hwords : ws.foldlM Reading.read .start with
    | error stop =>
      rw [hwords] at hread
      cases hread
    | ok r =>
      rw [hwords] at hread
      have hfinish : r.finish = .ok o := hread
      unfold Reading.finish at hfinish
      split at hfinish
      · cases hfinish
      · split at hfinish
        · exact ⟨_, (Except.ok.inj hfinish).symm⟩
        · cases hfinish
  obtain ⟨pattern, paths, config, root, logFile, _, _, _, _⟩ := o'
  cases config with
  | none => rfl
  | some file =>
    cases pattern with
    | none => exact absurd rfl hpattern
    | some text => exact absurd rfl hpattern

end PathSieve.Command
