import Mathlib.Data.List.Induction
import PathSieve.Proofs.Rule.Building
import PathSieve.Proofs.Settings.Merging
import PathSieve.Settings.Load

namespace PathSieve.Settings

/-!
# Runs of loads

Settings that are loaded one after the other, from values and from files, into any of the layers.
Files are read by any reader. Each layer is checked by itself; what is read from all of them
together can be used, unless the highest section is absent by being null.

* `Load`, `Layers.load` — a load, which changes nothing when it is refused.
* `Accepted` — what a layer is like that was checked; `Layers.run_accepted` — all layers are so
  after any loads.
* `Layers.Merges`, `Layers.merged_section` — the section of the merged layers.
* `Layers.section_usable` — a section that is not null is valid and has an engine, and the logging
  level can always be read.
-/

/-! ### Loads -/

/-- Settings that are loaded into a layer. -/
inductive Load where
  | value (source : Source) (v : Value)
  | file (reader : Yaml.Reader) (files : Files.Tree) (source : Source) (name : String)

/-- A value that is loaded is proper; what a reader makes of a file always is. -/
def Load.Proper : Load → Prop
  | .value _ v => v.Proper
  | .file .. => True

/-- The outcome of a load. -/
def Load.outcome (l : Layers) : Load → Except LoadError Layers
  | .value source v => l.loadValue source v
  | .file reader files source name => l.loadFile reader files source name

/-- The layers after a load. -/
def Layers.load (l : Layers) (x : Load) : Layers :=
  match x.outcome l with
  | .ok l' => l'
  | .error _ => l

/-- The layers after some loads. -/
def Layers.run (loads : List Load) : Layers := loads.foldl load initial

/-! ### Checked layers -/

/-- A layer that was checked. -/
structure Accepted (e : Entries) : Prop where
  proper : (Value.map e).Proper
  valid : validateLayer e = .ok ()

/-- The section of a checked layer is absent, or null, or valid. -/
theorem Accepted.section_cases {e : Entries} (h : Accepted e) : e.field? sectionName = none ∨
    e.field? sectionName = some .null ∨
    ∃ fields, e.field? sectionName = some (.map fields) ∧ (Value.map fields).Proper ∧
      ValidSection fields := by
  have hvalid := h.valid
  unfold validateLayer at hvalid
  split at hvalid
  · rename_i hsection
    exact .inl hsection
  · rename_i hsection
    exact .inr (.inl hsection)
  · rename_i v hsection
    obtain ⟨fields, rfl, hfields⟩ := validateSection_eq_ok_iff.1 hvalid
    exact .inr (.inr ⟨fields, hsection, h.proper.field hsection, hfields⟩)

theorem validSection_nil : ValidSection [] :=
  ⟨fun _ h => (nomatch h), fun _ h => (nomatch h), fun _ h => (nomatch h), fun _ h => (nomatch h)⟩

theorem accepted_nil : Accepted [] := ⟨Value.proper_nil, rfl⟩

theorem accepted_builtIn : Accepted (Layers.initial.layer .builtIn) := by
  have hempty : (Value.list []).Proper := .list fun v hv => absurd hv List.not_mem_nil
  have hlogging : (Value.map builtInLogging).Proper := by
    refine .map (by decide) ?_
    simp only [builtInLogging, List.forall_mem_cons]
    exact ⟨.scalar trivial, .scalar trivial, fun kv hkv => absurd hkv List.not_mem_nil⟩
  have hsection : (Value.map builtInSection).Proper := by
    refine .map (by decide) ?_
    simp only [builtInSection, List.forall_mem_cons]
    exact ⟨.scalar trivial, hempty, .scalar trivial, hempty, hlogging,
      fun kv hkv => absurd hkv List.not_mem_nil⟩
  exact ⟨Value.proper_singleton hsection, rfl⟩

theorem validLayer_eq_ok_iff {origin : String} {entries e : Entries} :
    validLayer origin entries = .ok e ↔ validateLayer entries = .ok () ∧ entries = e := by
  unfold validLayer
  cases validateLayer entries with
  | error x => simp
  | ok u => simp

theorem layerOfValue_accepted {v : Value} (hv : v.Proper) {e : Entries}
    (h : layerOfValue v = .ok e) : Accepted e := by
  unfold layerOfValue at h
  split at h
  · obtain ⟨hvalid, rfl⟩ := validLayer_eq_ok_iff.1 h
    exact ⟨hv, hvalid⟩
  · cases h

section Reading

variable {reader : Yaml.Reader} {files : Files.Tree} {file : String} {f : Entries Marked}

theorem layerOfContent_accepted {content : Files.Content}
    (h : layerOfContent reader file content = .ok f) : Accepted (Marked.entries f) := by
  unfold layerOfContent at h
  split at h
  · cases h
  · cases h
  · rename_i mark fields hread
    obtain ⟨e, he, rfl⟩ := Yaml.map_eq_ok h
    exact ⟨reader.proper hread, (validLayer_eq_ok_iff.1 he).1⟩
  · cases h

theorem layerOfFile_accepted (h : layerOfFile reader files file = .ok f) :
    Accepted (Marked.entries f) := by
  unfold layerOfFile at h
  cases hlocation : fileLocation files file with
  | error x =>
    rw [hlocation] at h
    cases h
  | ok l =>
    rw [hlocation] at h
    by_cases hnull : Files.hasNull file
    · simp only [hnull] at h
      cases h
    · have h : layerAt reader files file l = .ok f := by simpa [hnull, bind, Except.bind] using h
      unfold layerAt at h
      simp only at h
      split at h
      · exact layerOfContent_accepted h
      · cases h
      · split at h
        · cases h
        · cases h

end Reading

/-! ### Runs -/

namespace Layers

variable {l : Layers}

/-- What holds of all layers and of one that is put among them holds of all layers then. -/
theorem forall_layer_hold {P : Entries → Prop} (h : ∀ source, P (l.layer source)) (source : Source)
    {f : Entries Marked} (hf : P (Marked.entries f)) (other : Source) :
    P ((l.hold source f).layer other) := by
  by_cases hother : other = source
  · rwa [hother, layer_hold_self]
  · rw [layer_hold_of_ne _ _ hother]
    exact h other

theorem forall_layer_put {P : Entries → Prop} (h : ∀ source, P (l.layer source)) (source : Source)
    {e : Entries} (he : P e) (other : Source) : P ((l.put source e).layer other) := by
  refine forall_layer_hold h source ?_ other
  rwa [Value.entries_unmarkedEntries]

/-- All layers were checked. -/
def Accepted (l : Layers) : Prop := ∀ source, Settings.Accepted (l.layer source)

theorem initial_accepted : initial.Accepted := by
  intro source
  cases source with
  | builtIn => exact accepted_builtIn
  | _ => exact accepted_nil

theorem Accepted.hold (h : l.Accepted) {f : Entries Marked}
    (hf : Settings.Accepted (Marked.entries f)) (source : Source) : (l.hold source f).Accepted :=
  forall_layer_hold h source hf

theorem Accepted.put (h : l.Accepted) {e : Entries} (he : Settings.Accepted e) (source : Source) :
    (l.put source e).Accepted :=
  forall_layer_put h source he

/-- A load keeps all layers checked. -/
theorem load_accepted (h : l.Accepted) {x : Load} (hx : x.Proper) : (l.load x).Accepted := by
  unfold load
  split
  · rename_i l' houtcome
    cases x with
    | value source v =>
      obtain ⟨e, he, rfl⟩ := Yaml.map_eq_ok houtcome
      exact h.put (layerOfValue_accepted hx he) source
    | file reader files source name =>
      obtain ⟨f, hf, rfl⟩ := Yaml.map_eq_ok houtcome
      exact h.hold (layerOfFile_accepted hf) source
  · exact h

theorem run_accepted {loads : List Load} (h : ∀ x ∈ loads, x.Proper) : (run loads).Accepted :=
  List.foldlRecOn (motive := Accepted) loads load initial_accepted
    fun _ hl x hx => load_accepted hl (h x hx)

/-! ### The merged section -/

/-- How the section of merged layers, on the left, and the highest section in them go together:
null hides all that is below it, and is hidden by any map above it. -/
inductive Merges : Option Value → Option Value → Prop where
  | absent : Merges none none
  | null : Merges (some .null) (some .null)
  | valid {fields top : Entries} : ValidSection fields → Merges (some (.map fields)) (some (.map top))

/-- A checked layer that is laid over others. -/
theorem Merges.merge {base e : Entries} {top : Option Value}
    (h : Merges (base.field? sectionName) top) (he : Settings.Accepted e) :
    Merges ((Entries.merge base e).field? sectionName) ((e.field? sectionName).or top) := by
  rw [Entries.field?_merge base he.proper.distinct]
  rcases he.section_cases with hnone | hnull | ⟨fields, hfields, hproper, hvalid⟩
  · rw [hnone]
    exact h
  · rw [hnull]
    exact .null
  · rw [hfields]
    generalize base.field? sectionName = below at h
    cases h with
    | absent => exact .valid hvalid
    | null => exact .valid hvalid
    | valid hbelow => exact .valid (hbelow.merge hvalid hproper)

/-- The section of the highest layer that has one, even if it is null. -/
def topSection? (l : Layers) : Option Value :=
  Source.rising.reverse.findSome? fun source => (l.layer source).field? sectionName

theorem merged_section (h : l.Accepted) : Merges (l.merged.field? sectionName) l.topSection? := by
  have hfold : ∀ sources : List Source, Merges
      (Entries.field? (sources.foldl (fun e s => Entries.merge e (l.layer s)) []) sectionName)
      (sources.reverse.findSome? fun source => (l.layer source).field? sectionName) := by
    intro sources
    induction sources using List.reverseRecOn with
    | nil => exact .absent
    | append_singleton sources source ih =>
      rw [List.foldl_append, List.reverse_append, List.findSome?_append, List.reverse_singleton,
        List.findSome?_singleton]
      exact ih.merge (h source)
  exact hfold Source.rising

/-! ### The logging level -/

/-- A level that is set in a checked layer can be read. -/
theorem Accepted.exists_level (h : l.Accepted) {source : Source} {v : Value}
    (hv : l.valueIn? ["pathpattern", "logging", "level"] source = some v) :
    ∃ level, Log.Level.ofValue v = .ok level := by
  obtain ⟨hfollow, hnull⟩ := Option.filter_eq_some_iff.1 hv
  rw [follow?_cons_map] at hfollow
  rcases (h source).section_cases with hnone | hnothing | ⟨fields, hfields, hproper, hvalid⟩
  · rw [show "pathpattern" = sectionName from rfl, hnone] at hfollow
    cases hfollow
  · rw [show "pathpattern" = sectionName from rfl, hnothing] at hfollow
    cases hfollow
  · rw [show "pathpattern" = sectionName from rfl, hfields, Option.bind_some,
      follow?_cons_map] at hfollow
    obtain ⟨w, hw, hfollow⟩ := Option.bind_eq_some_iff.1 hfollow
    obtain ⟨logging, rfl, hlogging⟩ := hvalid.logging w hw
    rw [follow?_cons_map] at hfollow
    obtain ⟨level, hlevel, hend⟩ := Option.bind_eq_some_iff.1 hfollow
    obtain rfl := Option.some.inj hend
    have hname := hlogging level hlevel fun hnone => by
      rw [hnone] at hnull
      cases hnull
    exact Log.Level.exists_ofValue ((hproper.field hw).field hlevel) hname

/-! ### What is read -/

/-- **Checked layers can be used together.** After any loads of proper values and of files, some of
which may have been refused, the section of the merged layers is null where the highest layer that
has a section has null there. In any other case it is a map that passes the check of sections and
has an engine, which is meant as it is before any of it is told: `ofSection_exact` says what can
be told. The logging level, `INFO` where none is set, stands for a level in any case. -/
theorem section_usable (loads : List Load) (h : ∀ x ∈ loads, x.Proper) :
    let l := run loads
    (l.topSection? = some .null → l.programSection = .null) ∧
      (l.topSection? ≠ some .null → (∃ fields, l.programSection = .map fields) ∧
        validateSection l.programSection = .ok () ∧
        ∃ result, Engine.ofSection l.programSection = .ok result) ∧
      ∃ level, Log.Level.ofValue
        (l.get ["pathpattern", "logging", "level"] (.text "INFO")) = .ok level := by
  intro l
  have hl : l.Accepted := run_accepted h
  have hmerges := merged_section hl
  refine ⟨fun htop => ?_, fun htop => ?_, ?_⟩
  · rw [htop] at hmerges
    unfold programSection
    generalize l.merged.field? sectionName = merged at hmerges
    cases hmerges
    rfl
  · have hvalid : ∃ fields, l.programSection = .map fields ∧ ValidSection fields := by
      unfold programSection
      generalize l.merged.field? sectionName = merged at hmerges
      generalize l.topSection? = top at hmerges htop
      cases hmerges with
      | absent => exact ⟨[], rfl, validSection_nil⟩
      | null => exact absurd rfl htop
      | valid hfields => exact ⟨_, rfl, hfields⟩
    have hcheck := validateSection_eq_ok_iff.2 hvalid
    obtain ⟨fields, hfields, -⟩ := hvalid
    exact ⟨⟨fields, hfields⟩, hcheck, Engine.exists_ofSection hcheck⟩
  · unfold get
    cases hresolve : l.resolve? ["pathpattern", "logging", "level"] with
    | none =>
      have hinfo : Log.Level.ofName? "INFO" = some .info := by decide +kernel
      refine ⟨.info, ?_⟩
      show Log.Level.ofValue (.text "INFO") = _
      rw [Log.Level.ofValue, hinfo]
    | some found =>
      obtain ⟨source, -, hfound⟩ := List.exists_of_findSome?_eq_some hresolve
      obtain ⟨v, hv, rfl⟩ := Option.map_eq_some_iff.1 hfound
      exact hl.exists_level hv

/-- A section of null, a map above it, and a section that is refused. -/
theorem section_usable_above_null :
    let null : Load := .value .user (.map [(.text "pathpattern", .null)])
    let upper : Load := .value .runtime (.map [(.text "pathpattern", .map
      [(.text "rules", .list []), (.text "logging", .map [(.text "level", .null)])])])
    let refused : Load := .value .commandLine (.map [(.text "pathpattern", .bool true)])
    let loads := [null, upper, refused]
    let l := run loads
    (∀ x ∈ loads, x.Proper) ∧ l.topSection? ≠ some .null ∧
      validateSection l.programSection = .ok () ∧
      (∃ result, Engine.ofSection l.programSection = .ok result) ∧
      ∃ level, Log.Level.ofValue
        (l.get ["pathpattern", "logging", "level"] (.text "INFO")) = .ok level := by
  intro null upper refused loads l
  have hproper : ∀ x ∈ loads, x.Proper := by
    have hone : ∀ {k : Scalar} {v : Value}, v.Proper → (Value.map [(k, v)]).Proper := by
      intro k v hv
      refine .map (List.pairwise_singleton ..) fun kv hkv => ?_
      rw [List.mem_singleton.1 hkv]
      exact hv
    have hupper : (Value.map [(.text "rules", .list []),
        (.text "logging", .map [(.text "level", .null)])]).Proper := by
      refine .map (by decide) ?_
      simp only [List.forall_mem_cons]
      exact ⟨.list fun _ hv => absurd hv List.not_mem_nil, hone (.scalar trivial),
        fun _ hkv => absurd hkv List.not_mem_nil⟩
    simp only [loads, List.forall_mem_cons]
    exact ⟨hone (.scalar trivial), hone hupper, hone (.scalar trivial),
      fun _ hx => absurd hx List.not_mem_nil⟩
  have htop : l.topSection? ≠ some .null := fun h => nomatch h
  have husable := section_usable loads hproper
  obtain ⟨-, hvalid, hengine⟩ := husable.2.1 htop
  exact ⟨hproper, htop, hvalid, hengine, husable.2.2⟩

/-- A section of null is loaded, and it is no map and has no engine. -/
theorem section_null : ∃ l, initial.loadValue .runtime (.map [(.text "pathpattern", .null)]) = .ok l ∧
    l.programSection = .null ∧
    Engine.ofSection l.programSection = .error (.validation .sectionNotMap) :=
  ⟨_, rfl, rfl, rfl⟩

end Layers

end PathSieve.Settings
