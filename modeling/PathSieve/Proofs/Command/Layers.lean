import PathSieve.Command.Run
import PathSieve.Proofs.Command.Judging
import PathSieve.Proofs.Settings.Calls

namespace PathSieve

/-!
# Layers of a run

The settings of a run have the layer that is built in, and layers of variables, of a file and of the
command line above it. Flags that none of the latter has are not set.

* `Settings.Layers.Sectioned`, `Settings.Layers.isMap_programSection` — sections that are maps make a
  map.
* `Settings.Layers.Unflagged`, `Settings.Layers.Unflagged.sectionFlags_eq` — settings without flags.
* `Command.layers_eq_ok`, `Command.layers_proper` — the layers of every run.
* `Command.isMap_section_of_layers` — a run without a file of settings has a section.
-/

namespace Settings.Layers

variable {l : Layers}

/-! ### Sections -/

/-- The section of the program, if there is one, is a map. -/
def Sectioned (e : Entries) : Prop := ∀ v, e.field? sectionName = some v → v.isMap

theorem sectioned_nil : Sectioned [] := fun _ hv => nomatch hv

theorem sectioned_singleton (e : Entries) : Sectioned [(.text sectionName, .map e)] := by
  intro v hv
  cases hv
  rfl

theorem initial_sectioned (source : Source) : Sectioned (initial.layer source) := by
  cases source with
  | builtIn => exact sectioned_singleton _
  | _ => exact sectioned_nil

/-- The section is a map if none of the layers has a section that is none. -/
theorem isMap_programSection (hproper : l.Proper) (h : ∀ source, Sectioned (l.layer source)) :
    l.programSection.isMap := by
  have hfield (e : Entries) : follow? [sectionName] (.map e) = e.field? sectionName := by
    rw [follow?_cons_map]
    cases e.field? sectionName with
    | none => rfl
    | some v => rfl
  unfold programSection
  rcases Source.exists_highest fun s => decides [sectionName] (.map (l.layer s)) with hnone |
    ⟨s, hs, habove⟩
  · rw [← hfield, follow?_merged_of_none hproper (List.cons_ne_nil _ _) hnone]
    rfl
  · obtain ⟨old, hold⟩ := follow?_merged_of_decides hproper hs habove
    rw [← hfield, hold, hfield]
    cases hsection : (l.layer s).field? sectionName with
    | none => rfl
    | some v =>
      rw [Option.map_some, Option.getD_some, Value.isMap_laidOver]
      exact h s v hsection

/-- The fields of the section are those of the merged layers. -/
theorem field?_programSection {fields : Entries} (h : l.programSection = .map fields)
    (name : String) : fields.field? name = follow? [sectionName, name] (.map l.merged) := by
  unfold programSection at h
  rw [follow?_cons_map]
  cases hsection : l.merged.field? sectionName with
  | none =>
    rw [hsection] at h
    obtain rfl := Value.map.inj h
    rfl
  | some v =>
    rw [hsection] at h
    obtain rfl : v = .map fields := h
    rw [Option.bind_some, follow?_cons_map]
    cases fields.field? name with
    | none => rfl
    | some w => rfl

/-! ### Flags -/

/-- No layer has flags in its section, or nothing but a value that stands for none. -/
def Unflagged (l : Layers) : Prop :=
  ∀ source v, follow? [sectionName, "flags"] (.map (l.layer source)) = some v →
    v.isMap = false ∧ Flags.ofValue v = .ok .none

theorem initial_unflagged : initial.Unflagged := by
  intro source v hv
  cases source with
  | builtIn =>
    cases hv
    exact ⟨rfl, rfl⟩
  | _ => cases hv

theorem Unflagged.hold (h : l.Unflagged) (source : Source) {f : Entries Marked}
    (hf : follow? [sectionName, "flags"] (.map (Marked.entries f)) = none) :
    (l.hold source f).Unflagged := by
  refine forall_layer_hold (P := fun e => ∀ v, follow? [sectionName, "flags"] (.map e) = some v →
    v.isMap = false ∧ Flags.ofValue v = .ok .none) h source fun v hv => ?_
  rw [hf] at hv
  cases hv

theorem Unflagged.put (h : l.Unflagged) (source : Source) {e : Entries}
    (he : follow? [sectionName, "flags"] (.map e) = none) : (l.put source e).Unflagged := by
  refine h.hold source ?_
  rwa [Value.entries_unmarkedEntries]

/-- Where no layer has flags there are none. -/
theorem Unflagged.sectionFlags_eq (h : l.Unflagged) (hproper : l.Proper) {fields : Entries}
    (hsection : l.programSection = .map fields) :
    Command.Judge.sectionFlags fields = .ok .none := by
  unfold Command.Judge.sectionFlags
  rw [field?_programSection hsection]
  rcases Source.exists_highest fun s => decides [sectionName, "flags"] (.map (l.layer s)) with
    hnone | ⟨s, hs, habove⟩
  · rw [follow?_merged_of_none hproper (List.cons_ne_nil _ _) hnone]
    rfl
  · obtain ⟨old, hold⟩ := follow?_merged_of_decides hproper hs habove
    rw [hold]
    cases hflags : follow? [sectionName, "flags"] (.map (l.layer s)) with
    | none => rfl
    | some v =>
      obtain ⟨hmap, hv⟩ := h s v hflags
      rw [Option.map_some, Option.getD_some, Value.laidOver_of_isMap_eq_false hmap, hv]

end Settings.Layers

namespace Command

open Settings (Layers sectionName)

variable {s : Surroundings} {o : Options} {l : Layers}

/-! ### Runs -/

theorem optionEntries_cases (o : Options) : optionEntries o = [] ∨
    ∃ logging : Entries, (Value.map logging).Proper ∧
      optionEntries o = [(.text sectionName, .map [(.text "logging", .map logging)])] := by
  have htext (text : String) : (Value.text text).Proper := .scalar trivial
  unfold optionEntries
  cases o.debug with
  | false =>
    cases o.logFile with
    | none => exact .inl rfl
    | some file => exact .inr ⟨_, Value.proper_singleton (htext file), rfl⟩
  | true =>
    cases o.logFile with
    | none => exact .inr ⟨_, Value.proper_singleton (htext "DEBUG"), rfl⟩
    | some file =>
      refine .inr ⟨[(.text "level", .text "DEBUG"), (.text "file", .text file)], ?_, rfl⟩
      refine .map (List.pairwise_pair.2 rfl) fun kv hkv => ?_
      rcases List.mem_cons.1 hkv with rfl | hkv
      · exact htext "DEBUG"
      · rw [List.mem_singleton.1 hkv]
        exact htext file

/-- The layers of a run with a file of settings. -/
theorem layers_of_file {file : String} {f : Entries Marked} (hconfig : o.config = some file)
    (hfile : Settings.layerOfFile s.reader s.files file = .ok f) :
    layers s o = .ok (((Layers.initial.withEnvironment s.environment).hold .user f).put .commandLine
      (optionEntries o)) := by
  unfold layers
  simp only [hconfig, Layers.loadFile, hfile]
  rfl

/-- The layers of a run: variables, the file of settings if there is one, and options. -/
theorem layers_eq_ok (h : layers s o = .ok l) : ∃ below : Layers,
    l = below.put .commandLine (optionEntries o) ∧
      (o.config = none ∧ below = Layers.initial.withEnvironment s.environment ∨
        ∃ file f, o.config = some file ∧ Settings.layerOfFile s.reader s.files file = .ok f ∧
          below = (Layers.initial.withEnvironment s.environment).hold .user f) := by
  cases hconfig : o.config with
  | none =>
    simp only [layers, hconfig] at h
    cases h
    exact ⟨_, rfl, .inl ⟨rfl, rfl⟩⟩
  | some file =>
    cases hfile : Settings.layerOfFile s.reader s.files file with
    | error e =>
      simp only [layers, hconfig, Layers.loadFile, hfile] at h
      cases h
    | ok f =>
      obtain rfl := Except.ok.inj (h.symm.trans (layers_of_file hconfig hfile))
      exact ⟨_, rfl, .inr ⟨file, f, rfl, hfile, rfl⟩⟩

theorem layers_proper (h : layers s o = .ok l) : l.Proper := by
  have hbelow : (Layers.initial.withEnvironment s.environment).Proper :=
    Layers.initial_accepted.toProper.withEnvironment s.environment
  have hoptions : (Value.map (optionEntries o)).Proper := by
    rcases optionEntries_cases o with hnil | ⟨logging, hlogging, hentries⟩
    · rw [hnil]
      exact Value.proper_nil
    · rw [hentries]
      exact Value.proper_singleton (Value.proper_singleton hlogging)
  obtain ⟨below, rfl, ⟨-, rfl⟩ | ⟨file, f, -, hf, rfl⟩⟩ := layers_eq_ok h
  · exact hbelow.put hoptions .commandLine
  · exact (hbelow.hold (Settings.layerOfFile_accepted hf).proper .user).put hoptions .commandLine

theorem withEnvironment_cases (below : Layers) (vars : List Settings.Variable) :
    below.withEnvironment vars = below ∨ ∃ e, below.withEnvironment vars =
      below.put .environment [(.text sectionName, .map e)] := by
  unfold Layers.withEnvironment
  split
  · exact .inl rfl
  · exact .inr ⟨_, rfl⟩

/-- A run without a file of settings has a section that is a map. -/
theorem isMap_section_of_layers (h : layers s o = .ok l) (hconfig : o.config = none) :
    l.programSection.isMap := by
  have henvironment : ∀ source,
      Layers.Sectioned ((Layers.initial.withEnvironment s.environment).layer source) := by
    rcases withEnvironment_cases Layers.initial s.environment with hsame | ⟨e, hput⟩
    · rw [hsame]
      exact Layers.initial_sectioned
    · rw [hput]
      exact Layers.forall_layer_put Layers.initial_sectioned .environment
        (Layers.sectioned_singleton e)
  have hoptions : Layers.Sectioned (optionEntries o) := by
    rcases optionEntries_cases o with hempty | ⟨logging, -, hentries⟩
    · rw [hempty]
      exact Layers.sectioned_nil
    · rw [hentries]
      exact Layers.sectioned_singleton _
  have hproper := layers_proper h
  obtain ⟨below, rfl, ⟨-, rfl⟩ | ⟨file, f, hfile, -⟩⟩ := layers_eq_ok h
  · exact Layers.isMap_programSection hproper
      (Layers.forall_layer_put henvironment .commandLine hoptions)
  · cases hconfig.symm.trans hfile

end Command

end PathSieve
