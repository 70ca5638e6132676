import PathSieve.Proofs.Settings.Merging
import PathSieve.Settings.Layers

namespace PathSieve

/-!
# Keys in layers

What a key leads to in one layer after the other, and in all of them laid over one another. The
first is decided by the highest layer that has a value for the key, the second by the highest layer
that has its say on the key at all, even if that is null or a value that stops the key on its way.

* `Settings.decides` — whether a value has its say on a key; `Settings.decides_iff`.
* `Settings.follow?_laidOver` — what a key leads to in a value that is laid over another.
* `Settings.Layers.resolve?_eq_some_iff` — the highest layer that has a value for a key.
* `Settings.Layers.follow?_merged_of_decides`, `Settings.Layers.follow?_merged_of_none` — what a
  key leads to in the merged layers.
-/

/-! ### Values that are laid over others -/

namespace Value

@[simp] theorem laidOver_none (v : Value) : v.laidOver none = v := by
  cases v <;> rfl

@[simp] theorem isMap_laidOver (v : Value) (old : Option Value) :
    (v.laidOver old).isMap = v.isMap := by
  cases v with
  | map new =>
    cases old with
    | none => rfl
    | some o => cases o <;> rfl
  | scalar s => rfl
  | list items => rfl

/-- What is no map replaces what is below it. -/
theorem laidOver_of_isMap_eq_false {v : Value} (h : v.isMap = false) (old : Option Value) :
    v.laidOver old = v := by
  cases v with
  | map entries => cases h
  | scalar s => rfl
  | list items => rfl

theorem map_laidOver_map (base new : Entries) :
    (Value.map new).laidOver (some (.map base)) = .map (Entries.merge base new) :=
  rfl

/-- A map replaces what is no map. -/
theorem map_laidOver_of_isMap_eq_false {old : Value} (h : old.isMap = false) (new : Entries) :
    (Value.map new).laidOver (some old) = .map new := by
  cases old with
  | map base => cases h
  | scalar s => rfl
  | list items => rfl

theorem exists_eq_map {v : Value} (h : v.isMap = true) : ∃ entries, v = .map entries := by
  cases v with
  | map entries => exact ⟨entries, rfl⟩
  | scalar s => cases h
  | list items => cases h

theorem isNull_eq_false_iff {v : Value} : v.isNull = false ↔ v ≠ .null := by
  unfold isNull
  split <;> simp_all

end Value

namespace Settings

/-! ### Keys in one value -/

/-- Whether a value has its say on a key: the key leads to something in it, or is stopped on its
way by something that is no map. -/
def decides : List String → Value → Bool
  | [], _ => true
  | k :: ks, .map entries => match Entries.field? entries k with
    | some v => decides ks v
    | none => false
  | _ :: _, _ => true

/-- A part of a key leads to something that is no map, and the key goes on from there. -/
def Stops (key : List String) (v : Value) : Prop :=
  ∃ front back u, key = front ++ back ∧ back ≠ [] ∧ follow? front v = some u ∧ u.isMap = false

theorem follow?_of_isMap_eq_false {key : List String} {v : Value} (hkey : key ≠ [])
    (hv : v.isMap = false) : follow? key v = none := by
  cases key with
  | nil => exact absurd rfl hkey
  | cons k ks =>
    cases v with
    | map entries => simp [Value.isMap] at hv
    | scalar s => rfl
    | list items => rfl

/-- A key leads on from where a part of it has led. -/
theorem follow?_append (front back : List String) (v : Value) :
    follow? (front ++ back) v = (follow? front v).bind (follow? back) := by
  induction front generalizing v with
  | nil => rfl
  | cons k ks ih =>
    cases v with
    | scalar s => rfl
    | list items => rfl
    | map entries =>
      rw [List.cons_append, follow?_cons_map, follow?_cons_map, Option.bind_assoc]
      exact Option.bind_congr fun w _ => ih w

/-- A key that is stopped leads nowhere. -/
theorem Stops.follow?_eq_none {key : List String} {v : Value} (h : Stops key v) :
    follow? key v = none := by
  obtain ⟨front, back, u, rfl, hback, hu, hmap⟩ := h
  rw [follow?_append, hu, Option.bind_some, follow?_of_isMap_eq_false hback hmap]

theorem stops_cons_map_iff {k : String} {ks : List String} {entries : Entries} :
    Stops (k :: ks) (.map entries) ↔ ∃ v, entries.field? k = some v ∧ Stops ks v := by
  constructor
  · rintro ⟨front, back, u, hkey, hback, hu, hmap⟩
    cases front with
    | nil =>
      obtain rfl : Value.map entries = u := Option.some.inj hu
      simp [Value.isMap] at hmap
    | cons k' front =>
      obtain ⟨rfl, rfl⟩ := List.cons.inj hkey
      rw [follow?_cons_map] at hu
      obtain ⟨v, hv, hu⟩ := Option.bind_eq_some_iff.1 hu
      exact ⟨v, hv, front, back, u, rfl, hback, hu, hmap⟩
  · rintro ⟨v, hv, front, back, u, rfl, hback, hu, hmap⟩
    exact ⟨k :: front, back, u, rfl, hback, by rw [follow?_cons_map, hv]; exact hu, hmap⟩

/-- A value has its say on a key if the key leads to something in it or is stopped. -/
theorem decides_iff {key : List String} {v : Value} :
    decides key v ↔ (∃ u, follow? key v = some u) ∨ Stops key v := by
  induction key generalizing v with
  | nil => simp [decides]
  | cons k ks ih =>
    by_cases hmap : v.isMap
    · obtain ⟨entries, rfl⟩ := Value.exists_eq_map hmap
      rw [follow?_cons_map, stops_cons_map_iff]
      cases hfield : Entries.field? entries k with
      | none => simp [decides, hfield]
      | some w => simpa [decides, hfield] using ih
    · have hstops : Stops (k :: ks) v := ⟨[], k :: ks, v, rfl, by simp, rfl, by simpa using hmap⟩
      have hdecides : decides (k :: ks) v = true := by
        cases v with
        | map entries => simp [Value.isMap] at hmap
        | scalar s => rfl
        | list items => rfl
      exact iff_of_true hdecides (.inr hstops)

theorem follow?_of_decides_eq_false {key : List String} {v : Value} (h : decides key v = false) :
    follow? key v = none := by
  cases hfollow : follow? key v with
  | none => rfl
  | some u =>
    have hdecides : decides key v = true := decides_iff.2 (.inl ⟨u, hfollow⟩)
    simp [h] at hdecides

/-- What a key leads to in a value that is laid over another: the upper one has its say, and where
it says nothing the lower one shows. -/
theorem follow?_laidOver {new : Value} (h : new.Proper) (old : Value) (key : List String) :
    follow? key (new.laidOver (some old)) =
      if decides key new then (follow? key new).map (Value.laidOver (follow? key old))
      else follow? key old := by
  have hid : Value.laidOver none = id := funext Value.laidOver_none
  induction key generalizing new old with
  | nil => simp [decides]
  | cons k ks ih =>
    cases new with
    | scalar s => simp [decides, Value.laidOver, follow?]
    | list items => simp [decides, Value.laidOver, follow?]
    | map upper =>
      by_cases hold : old.isMap
      · -- Both are maps: the question is passed on to the fields of the first part of the key.
        obtain ⟨lower, rfl⟩ := Value.exists_eq_map hold
        rw [Value.map_laidOver_map, follow?_cons_map, Entries.field?_merge lower h.distinct,
          follow?_cons_map, follow?_cons_map]
        cases hupper : Entries.field? upper k with
        | none => simp [decides, hupper]
        | some v =>
          have hdecides : decides (k :: ks) (.map upper) = decides ks v := by
            simp [decides, hupper]
          rw [hdecides]
          cases hlower : Entries.field? lower k with
          | some w => simpa using ih (h.field hupper) w
          | none =>
            by_cases hv : decides ks v
            · simp [hv, hid]
            · simp [hv, follow?_of_decides_eq_false (Bool.eq_false_iff.2 hv)]
      · -- The lower one shows nowhere, and the key leads nowhere in it.
        have hold : old.isMap = false := by simpa using hold
        have hnone : follow? (k :: ks) old = none := follow?_of_isMap_eq_false (by simp) hold
        rw [Value.map_laidOver_of_isMap_eq_false hold, hnone]
        by_cases hdecides : decides (k :: ks) (.map upper)
        · simp [hdecides, hid]
        · simp [hdecides, follow?_of_decides_eq_false (Bool.eq_false_iff.2 hdecides)]

/-! ### The order of sources -/

namespace Source

/-- The sources that come before another one, from the highest down, are those above it. -/
theorem mem_above_iff {above below : List Source} {s : Source}
    (h : rising.reverse = above ++ s :: below) (t : Source) : t ∈ above ↔ s.rank < t.rank := by
  have hfalling : (above ++ s :: below).Pairwise fun s t => t.rank < s.rank := by
    rw [← h]
    exact List.pairwise_reverse.2 rising_pairwise
  obtain ⟨-, hrest, habove⟩ := List.pairwise_append.1 hfalling
  constructor
  · intro ht
    exact habove t ht s (List.mem_cons_self ..)
  · intro hlt
    have hmem : t ∈ above ++ s :: below := by
      rw [← h]
      simp
    rcases List.mem_append.1 hmem with ht | ht
    · exact ht
    · rcases List.mem_cons.1 ht with rfl | ht
      · omega
      · have hbelow := (List.pairwise_cons.1 hrest).1 t ht
        omega

/-- A search from the highest source down ends at a source above which nothing is found. -/
theorem findSome?_falling_eq_some_iff {β : Type} {f : Source → Option β} {b : β} :
    rising.reverse.findSome? f = some b ↔
      ∃ s, f s = some b ∧ ∀ t, s.rank < t.rank → f t = none := by
  constructor
  · intro h
    obtain ⟨above, s, below, hsplit, hs, habove⟩ := List.findSome?_eq_some_iff.1 h
    exact ⟨s, hs, fun t ht => habove t ((mem_above_iff hsplit t).2 ht)⟩
  · rintro ⟨s, hs, habove⟩
    have hmem : s ∈ rising.reverse := by simp
    obtain ⟨above, below, hsplit⟩ := List.append_of_mem hmem
    refine List.findSome?_eq_some_iff.2 ⟨above, s, below, hsplit, hs, fun t ht => ?_⟩
    exact habove t ((mem_above_iff hsplit t).1 ht)

/-- Of the sources with a property there is a highest one, unless no source has it. -/
theorem exists_highest (p : Source → Bool) :
    (∀ s, p s = false) ∨ ∃ s, p s = true ∧ ∀ t, s.rank < t.rank → p t = false := by
  cases hfound : rising.reverse.findSome? fun s => if p s then some s else none with
  | none =>
    left
    intro s
    simpa using List.findSome?_eq_none_iff.1 hfound s (by simp)
  | some s =>
    right
    obtain ⟨t, ht, habove⟩ := findSome?_falling_eq_some_iff.1 hfound
    obtain ⟨hp, rfl⟩ : p t = true ∧ t = s := by simpa using ht
    exact ⟨t, hp, fun u hu => by simpa using habove u hu⟩

end Source

/-! ### Keys in all layers -/

namespace Layers

variable {l : Layers} {key : List String} {s : Source} {v : Value}

/-- No map in any layer has a key twice. -/
def Proper (l : Layers) : Prop := ∀ s, (Value.map (l.layer s)).Proper

/-- A source gives a key its value: the value stands in its own layer and is not null, and in the
layers above there is none, or null. -/
def Gives (l : Layers) (key : List String) (s : Source) (v : Value) : Prop :=
  follow? key (.map (l.layer s)) = some v ∧ v ≠ .null ∧
    ∀ t, s.rank < t.rank → ∀ u, follow? key (.map (l.layer t)) = some u → u = .null

theorem valueIn?_eq_some_iff :
    l.valueIn? key s = some v ↔ follow? key (.map (l.layer s)) = some v ∧ v ≠ .null := by
  simp [valueIn?, Option.filter_eq_some_iff, Value.isNull_eq_false_iff]

theorem valueIn?_eq_none_iff :
    l.valueIn? key s = none ↔ ∀ u, follow? key (.map (l.layer s)) = some u → u = .null := by
  rw [Option.eq_none_iff_forall_ne_some]
  constructor
  · intro h u hu
    exact Classical.byContradiction fun hnull => h u (valueIn?_eq_some_iff.2 ⟨hu, hnull⟩)
  · intro h u hu
    obtain ⟨hfollow, hnull⟩ := valueIn?_eq_some_iff.1 hu
    exact hnull (h u hfollow)

/-- A key has the value that the highest source gives it. -/
theorem resolve?_eq_some_iff : l.resolve? key = some (v, s) ↔ l.Gives key s v := by
  unfold resolve? Gives
  rw [Source.findSome?_falling_eq_some_iff]
  simp only [Option.map_eq_none_iff, valueIn?_eq_none_iff]
  constructor
  · rintro ⟨t, ht, habove⟩
    obtain ⟨w, hw, heq⟩ := Option.map_eq_some_iff.1 ht
    obtain ⟨rfl, rfl⟩ := Prod.mk.inj heq
    obtain ⟨hfollow, hnull⟩ := valueIn?_eq_some_iff.1 hw
    exact ⟨hfollow, hnull, habove⟩
  · rintro ⟨hfollow, hnull, habove⟩
    exact ⟨s, by rw [valueIn?_eq_some_iff.2 ⟨hfollow, hnull⟩]; rfl, habove⟩

/-- A value that a source gives is what is got, whatever else would be taken. -/
theorem Gives.get_eq (h : l.Gives key s v) (default : Value) : l.get key default = v := by
  simp [get, resolve?_eq_some_iff.2 h]

/-- Layers that say nothing on a key let those below them show. -/
theorem follow?_foldl_merge (hl : l.Proper) {sources : List Source}
    (h : ∀ s ∈ sources, decides key (.map (l.layer s)) = false) (base : Entries) :
    follow? key (.map (sources.foldl (fun e s => Entries.merge e (l.layer s)) base)) =
      follow? key (.map base) := by
  induction sources generalizing base with
  | nil => rfl
  | cons s sources ih =>
    obtain ⟨hs, hrest⟩ := List.forall_mem_cons.1 h
    rw [List.foldl_cons, ih hrest, ← Value.map_laidOver_map, follow?_laidOver (hl s)]
    simp [hs]

/-- A key on which no layer has its say leads nowhere. -/
theorem follow?_merged_of_none (hl : l.Proper) (hkey : key ≠ [])
    (h : ∀ s, decides key (.map (l.layer s)) = false) : follow? key (.map l.merged) = none := by
  rw [merged, follow?_foldl_merge hl fun s _ => h s]
  cases key with
  | nil => exact absurd rfl hkey
  | cons k ks => rfl

/-- A key leads to what the highest layer says that has its say on it; only a map shows something
of what is below it. -/
theorem follow?_merged_of_decides (hl : l.Proper) (hs : decides key (.map (l.layer s)) = true)
    (habove : ∀ t, s.rank < t.rank → decides key (.map (l.layer t)) = false) :
    ∃ old, follow? key (.map l.merged) =
      (follow? key (.map (l.layer s))).map (Value.laidOver old) := by
  have hmem : s ∈ Source.rising.reverse := by simp
  obtain ⟨above, below, hsplit⟩ := List.append_of_mem hmem
  have hrising : Source.rising = below.reverse ++ s :: above.reverse := by
    rw [← List.reverse_reverse Source.rising, hsplit]
    simp
  have hsilent : ∀ t ∈ above.reverse, decides key (.map (l.layer t)) = false := by
    intro t ht
    exact habove t ((Source.mem_above_iff hsplit t).1 (List.mem_reverse.1 ht))
  rw [merged, hrising, List.foldl_append, List.foldl_cons, follow?_foldl_merge hl hsilent,
    ← Value.map_laidOver_map, follow?_laidOver (hl s), if_pos hs]
  exact ⟨_, rfl⟩

end Layers

end Settings

end PathSieve
