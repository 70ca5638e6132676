import PathSieve.Proofs.Settings.Calls

namespace PathSieve.Settings

/-!
# Two ways to look a setting up

A setting is looked up by itself, from the highest layer down, or in the merged layers. The two
agree on all that the merged layers show, maps and null apart. They do not agree the other way
round: null, or a value that stops a key on its way, hides what is below it in the merged layers,
and is passed over when the setting is looked up by itself.

* `Layers.exists_gives_of_merged` — what the merged layers show is given by a layer.
* `Layers.Hides`, `Layers.Gives.follow?_merged_iff` — when the merged layers show what a layer
  gives.
* `Watched.merged_resolved`, `Watched.resolved_merged` — the same after every run.
-/

theorem keyParts_ne_nil (key : String) : keyParts key ≠ [] := by
  have hne := Text.splitWhere_ne_nil (· = '.') key.toList
  simpa [keyParts] using hne

namespace Layers

variable {l : Layers} {key : List String} {s : Source} {v : Value}

/-- What a key leads to in the merged layers, if it is neither null nor a map, is what the highest
layer with a value for it gives. -/
theorem exists_gives_of_merged (hl : l.Proper) (hkey : key ≠ [])
    (hv : follow? key (.map l.merged) = some v) (hnull : v ≠ .null) (hmap : v.isMap = false) :
    ∃ s, l.Gives key s v := by
  rcases Source.exists_highest fun s => decides key (.map (l.layer s)) with hnone | ⟨s, hs, habove⟩
  · rw [follow?_merged_of_none hl hkey hnone] at hv
    cases hv
  · obtain ⟨old, hold⟩ := follow?_merged_of_decides hl hs habove
    rw [hold] at hv
    obtain ⟨w, hw, hlaid⟩ := Option.map_eq_some_iff.1 hv
    -- Only a map takes anything from below, and the result would be a map.
    have hwmap : w.isMap = false := by rw [← hmap, ← hlaid, Value.isMap_laidOver]
    obtain rfl : w = v := by rw [← hlaid, Value.laidOver_of_isMap_eq_false hwmap]
    refine ⟨s, hw, hnull, fun t ht u hu => ?_⟩
    rw [follow?_of_decides_eq_false (habove t ht)] at hu
    cases hu

/-- A layer hides what is below it from a key: it has null there, or stops the key on its way. -/
def Hides (l : Layers) (key : List String) (s : Source) : Prop :=
  follow? key (.map (l.layer s)) = some .null ∨ Stops key (.map (l.layer s))

/-- Above the layer that gives a key its value, a layer has its say on the key only to hide. -/
theorem Gives.decides_iff_hides (h : l.Gives key s v) {t : Source} (ht : s.rank < t.rank) :
    decides key (.map (l.layer t)) = true ↔ l.Hides key t := by
  have hnull : (∃ u, follow? key (.map (l.layer t)) = some u) ↔
      follow? key (.map (l.layer t)) = some .null := by
    constructor
    · rintro ⟨u, hu⟩
      rw [hu, h.2.2 t ht u hu]
    · intro hu
      exact ⟨.null, hu⟩
  rw [decides_iff, hnull, Hides]

theorem Hides.follow?_cases (h : l.Hides key s) : follow? key (.map (l.layer s)) = none ∨
    follow? key (.map (l.layer s)) = some .null := by
  rcases h with hnull | hstops
  · exact .inr hnull
  · exact .inl hstops.follow?_eq_none

/-- If a layer above the one that gives a key its value hides that from the merged layers, they
show null or nothing. -/
theorem Gives.merged_of_hides (hl : l.Proper) (h : l.Gives key s v) {t : Source}
    (ht : s.rank < t.rank) (hhides : l.Hides key t) :
    follow? key (.map l.merged) = none ∨ follow? key (.map l.merged) = some .null := by
  have hdecides := (h.decides_iff_hides ht).2 hhides
  rcases Source.exists_highest fun s => decides key (.map (l.layer s)) with hnone | ⟨u, hu, habove⟩
  · simp [hnone t] at hdecides
  · -- The highest layer that has its say is above the giving one, so it hides as well.
    have hrank : s.rank < u.rank := by
      by_contra hle
      have hsilent := habove t (by omega)
      simp [hdecides] at hsilent
    obtain ⟨old, hold⟩ := follow?_merged_of_decides hl hu habove
    rcases ((h.decides_iff_hides hrank).1 hu).follow?_cases with hnone | hnull
    · left
      rw [hold, hnone, Option.map_none]
    · right
      rw [hold, hnull, Option.map_some, Value.laidOver_of_isMap_eq_false rfl]

/-- The merged layers show what a layer gives unless a layer above it hides it. -/
theorem Gives.follow?_merged_iff (hl : l.Proper) (h : l.Gives key s v) (hmap : v.isMap = false) :
    follow? key (.map l.merged) = some v ↔ ∀ t, s.rank < t.rank → ¬l.Hides key t := by
  constructor
  · intro hv t ht hhides
    rcases h.merged_of_hides hl ht hhides with hnone | hnull
    · simp [hv] at hnone
    · rw [hv] at hnull
      exact h.2.1 (Option.some.inj hnull)
  · intro hshown
    have hs : decides key (.map (l.layer s)) = true := decides_iff.2 (.inl ⟨v, h.1⟩)
    have habove : ∀ t, s.rank < t.rank → decides key (.map (l.layer t)) = false := by
      intro t ht
      have hsilent := mt (h.decides_iff_hides ht).1 (hshown t ht)
      simpa using hsilent
    obtain ⟨old, hold⟩ := follow?_merged_of_decides hl hs habove
    rw [hold, h.1, Option.map_some, Value.laidOver_of_isMap_eq_false hmap]

end Layers

namespace Watched

variable {reader : Yaml.Reader} {files : Files.Tree} {file : String} {vars : List Variable}
  {w : Watched} {calls : List Call}

/-- **What the merged settings show is what is got.** After any calls on settings that were started
with any file and any variables, what a key leads to in the merged layers, if it is neither null
nor a map, is its value, whatever else would be taken, and it comes from the highest source whose
own layer has a value for the key that is not null. -/
theorem merged_resolved (hstart : start reader files file vars = .ok w)
    (hcalls : ∀ c ∈ calls, c.Proper) (key : String) {v : Value}
    (hv : follow? (keyParts key) (.map (w.run calls).layers.merged) = some v) (hnull : v ≠ .null)
    (hmap : v.isMap = false) :
    let l := (w.run calls).layers
    (∀ default, l.get (keyParts key) default = v) ∧
      ∃ s, l.resolve? (keyParts key) = some (v, s) ∧
        follow? (keyParts key) (.map (l.layer s)) = some v ∧
        ∀ t, s.rank < t.rank → ∀ u, follow? (keyParts key) (.map (l.layer t)) = some u →
          u = .null := by
  intro l
  have hl : l.Proper := run_proper (start_proper hstart) hcalls
  obtain ⟨s, hs⟩ := Layers.exists_gives_of_merged hl (keyParts_ne_nil key) hv hnull hmap
  exact ⟨hs.get_eq, s, Layers.resolve?_eq_some_iff.2 hs, hs.1, hs.2.2⟩

/-- A file that a user names, beside an assignment of something else and one that is refused. -/
theorem merged_resolved_nested :
    let w : Watched := ⟨Layers.initial, []⟩
    let calls : List Call :=
      [.loadValue .user (.map [(.text "pathpattern", .map
        [(.text "logging", .map [(.text "file", .text "a.log")])])]),
      .assign .runtime "pathpattern.flags" .null,
      .assign .user "pathpattern.logging.file.name" (.text "b.log"), .clear (some .system)]
    let l := (w.run calls).layers
    start Yaml.reader ⟨"/", "/", [], [], [], []⟩ "" [] = .ok w ∧
      (∀ c ∈ calls, c.Proper) ∧
      follow? (keyParts "pathpattern.logging.file") (.map l.merged) = some (.text "a.log") ∧
      l.get (keyParts "pathpattern.logging.file") .null = .text "a.log" ∧
      ∃ s, l.resolve? (keyParts "pathpattern.logging.file") = some (.text "a.log", s) := by
  intro w calls l
  have hstart : start Yaml.reader ⟨"/", "/", [], [], [], []⟩ "" [] = .ok w := rfl
  have hcalls : ∀ c ∈ calls, c.Proper := by
    have hfile : (Value.text "a.log").Proper := .scalar trivial
    simp only [calls, List.forall_mem_cons]
    exact ⟨Value.proper_singleton (Value.proper_singleton (Value.proper_singleton hfile)),
      .scalar trivial, .scalar trivial, trivial, fun _ hc => absurd hc List.not_mem_nil⟩
  have hv : follow? (keyParts "pathpattern.logging.file") (.map l.merged) =
      some (.text "a.log") := by
    have hfile : keyParts "pathpattern.logging.file" = ["pathpattern", "logging", "file"] := by
      decide +kernel
    have hflags : keyParts "pathpattern.flags" = ["pathpattern", "flags"] := by decide +kernel
    have hname : keyParts "pathpattern.logging.file.name" =
        ["pathpattern", "logging", "file", "name"] := by decide +kernel
    simp only [l, calls, run, List.foldl_cons, List.foldl_nil, call, Call.outcome, Watched.assign,
      hflags, hname, hfile]
    rfl
  obtain ⟨hget, s, hs, -⟩ := merged_resolved hstart hcalls "pathpattern.logging.file" hv
    (fun h => nomatch h) rfl
  exact ⟨hstart, hcalls, hv, hget .null, s, hs⟩

/-- **What is got shows in the merged settings unless it is hidden.** After any calls on settings
that were started with any file and any variables, a value that a key has from a source, if it is no
map, is what the key leads to in the merged layers, unless a layer above that source has null for
the key or stops it on its way with a value that is no map. In that case the key leads to null or
nowhere in the merged layers, and still has the value. -/
theorem resolved_merged (hstart : start reader files file vars = .ok w)
    (hcalls : ∀ c ∈ calls, c.Proper) (key : String) {v : Value} {s : Source}
    (hv : (w.run calls).layers.resolve? (keyParts key) = some (v, s)) (hmap : v.isMap = false) :
    let l := (w.run calls).layers
    (∀ default, l.get (keyParts key) default = v) ∧
      (follow? (keyParts key) (.map l.merged) = some v ↔
        ∀ t, s.rank < t.rank → ¬l.Hides (keyParts key) t) ∧
      ∀ t, s.rank < t.rank → l.Hides (keyParts key) t →
        follow? (keyParts key) (.map l.merged) = none ∨
          follow? (keyParts key) (.map l.merged) = some .null := by
  intro l
  have hl : l.Proper := run_proper (start_proper hstart) hcalls
  have hs : l.Gives (keyParts key) s v := Layers.resolve?_eq_some_iff.1 hv
  exact ⟨hs.get_eq, hs.follow?_merged_iff hl hmap, fun t ht => hs.merged_of_hides hl ht⟩

theorem keyParts_level : keyParts "pathpattern.logging.level" =
    ["pathpattern", "logging", "level"] := by decide +kernel

/-- A level that a user names below null for the whole logging part. -/
theorem resolved_merged_hidden :
    let w : Watched := ⟨Layers.initial, []⟩
    let calls : List Call :=
      [.loadValue .user (.map [(.text "pathpattern", .map
        [(.text "logging", .map [(.text "level", .text "DEBUG")])])]),
      .loadValue .runtime (.map [(.text "pathpattern", .null)])]
    let l := (w.run calls).layers
    start Yaml.reader ⟨"/", "/", [], [], [], []⟩ "" [] = .ok w ∧
      (∀ c ∈ calls, c.Proper) ∧
      l.get (keyParts "pathpattern.logging.level") .null = .text "DEBUG" ∧
      (follow? (keyParts "pathpattern.logging.level") (.map l.merged) = none ∨
        follow? (keyParts "pathpattern.logging.level") (.map l.merged) = some .null) := by
  intro w calls l
  have hstart : start Yaml.reader ⟨"/", "/", [], [], [], []⟩ "" [] = .ok w := rfl
  have hcalls : ∀ c ∈ calls, c.Proper := by
    have hlevel : (Value.text "DEBUG").Proper := .scalar trivial
    simp only [calls, List.forall_mem_cons]
    exact ⟨Value.proper_singleton (Value.proper_singleton (Value.proper_singleton hlevel)),
      Value.proper_singleton (.scalar trivial), fun _ hc => absurd hc List.not_mem_nil⟩
  have hv : l.resolve? (keyParts "pathpattern.logging.level") =
      some (.text "DEBUG", .user) := by
    rw [keyParts_level]
    rfl
  have hhides : l.Hides (keyParts "pathpattern.logging.level") .runtime := by
    rw [keyParts_level]
    exact .inr ⟨["pathpattern"], ["logging", "level"], .null, rfl, by decide, rfl, rfl⟩
  obtain ⟨hget, -, hhidden⟩ := resolved_merged hstart hcalls "pathpattern.logging.level" hv rfl
  exact ⟨hstart, hcalls, hget .null, hhidden .runtime (by decide) hhides⟩

/-- Null for a level that is built in: the level is got, and the merged settings show null. -/
theorem overridden_got :
    let w : Watched := ⟨Layers.initial, []⟩
    let l := (w.run [.assign .runtime "pathpattern.logging.level" .null]).layers
    start Yaml.reader ⟨"/", "/", [], [], [], []⟩ "" [] = .ok w ∧
      l.resolve? (keyParts "pathpattern.logging.level") = some (.text "INFO", .builtIn) ∧
      follow? (keyParts "pathpattern.logging.level") (.map l.merged) = some .null := by
  intro w l
  have hl : l = Layers.initial.put .runtime
      [(.text "pathpattern", .map [(.text "logging", .map [(.text "level", .null)])])] := by
    simp only [l, run, List.foldl_cons, List.foldl_nil, call, Call.outcome, Watched.assign,
      keyParts_level]
    rfl
  rw [keyParts_level, hl]
  exact ⟨rfl, rfl, rfl⟩

end Watched

end PathSieve.Settings
