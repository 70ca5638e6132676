import PathSieve.Proofs.Settings.Lookups

namespace PathSieve.Settings

/-!
# What an assignment changes

An assignment makes the maps that are missing on its way, and these take part in the merged layers.
It is seen at its own key, and at no key that parts from it, unless the two share a map.

* `Opens`, `assign_cons_eq_ok_iff` — the map on the way of an assignment, which is there or is made.
* `exists_assign_iff` — when an assignment succeeds.
* `Parts`, `seen_of_assign`, `seen_of_write` — keys that part from that of an assignment.
* `Layers.resolve?_congr`, `Layers.follow?_merged_congr` — the two ways to look a setting up see of
  each layer only what a key leads to in it, and whether the layer has its say on the key.
* `Watched.assign_lawful` — what an assignment changes after any run.
* `Watched.assign_aliased` — an assignment that is seen at a key that parts from its own.
-/

/-! ### One layer -/

variable {key other : List String} {k : String} {v : Value} {e e' old : Entries}

/-- A part of a key opens a map: the one that is there, or an empty one where there is nothing. -/
def Opens (e : Entries) (k : String) (old : Entries) : Prop :=
  e.field? k = none ∧ old = [] ∨ e.field? k = some (.map old)

theorem Opens.unique {old' : Entries} (h : Opens e k old) (h' : Opens e k old') : old = old' := by
  rcases h with ⟨hnone, rfl⟩ | hmap <;> rcases h' with ⟨hnone', rfl⟩ | hmap'
  · rfl
  · simp [hnone] at hmap'
  · simp [hmap] at hnone'
  · simpa [hmap] using hmap'

theorem opens_setField (e : Entries) (k : String) (inner : Entries) :
    Opens (e.setField k (.map inner)) k inner := .inr (Entries.field?_setField e k _)

/-- What comes behind a part that opens a map is looked up in that map. -/
theorem Opens.follow?_cons (h : Opens e k old) (hkey : key ≠ []) :
    follow? (k :: key) (.map e) = follow? key (.map old) := by
  obtain ⟨k', ks, rfl⟩ := List.exists_cons_of_ne_nil hkey
  rcases h with ⟨hnone, rfl⟩ | hmap
  · rw [follow?_cons_map, hnone]
    rfl
  · rw [follow?_cons_map, hmap, Option.bind_some]

theorem Opens.decides_cons (h : Opens e k old) (hkey : key ≠ []) :
    decides (k :: key) (.map e) = decides key (.map old) := by
  obtain ⟨k', ks, rfl⟩ := List.exists_cons_of_ne_nil hkey
  rcases h with ⟨hnone, rfl⟩ | hmap
  · simp only [decides, hnone]
    rfl
  · simp only [decides, hmap]

theorem Opens.stops_cons_iff (h : Opens e k old) (hkey : key ≠ []) :
    Stops (k :: key) (.map e) ↔ Stops key (.map old) := by
  obtain ⟨k', ks, rfl⟩ := List.exists_cons_of_ne_nil hkey
  rw [stops_cons_map_iff]
  rcases h with ⟨hnone, rfl⟩ | hmap
  · rw [stops_cons_map_iff, hnone]
    exact iff_of_false (fun ⟨_, hw, _⟩ => nomatch hw) fun ⟨_, hw, _⟩ => nomatch hw
  · rw [hmap]
    simp

/-- A part opens no map only if something else is in the way. -/
theorem exists_opens_or (e : Entries) (k : String) :
    (∃ old, Opens e k old) ∨ ∃ w, e.field? k = some w ∧ w.isMap = false := by
  cases hfield : e.field? k with
  | none => exact .inl ⟨[], .inl ⟨hfield, rfl⟩⟩
  | some w =>
    by_cases hmap : w.isMap
    · obtain ⟨old, rfl⟩ := Value.exists_eq_map hmap
      exact .inl ⟨old, .inr hfield⟩
    · exact .inr ⟨w, rfl, by simpa using hmap⟩

/-- An assignment below a part of its key changes the map that the part opens. -/
theorem assign_cons_eq_ok_iff (hkey : key ≠ []) : assign (k :: key) v e = .ok e' ↔
    ∃ old inner, Opens e k old ∧ assign key v old = .ok inner ∧
      e' = e.setField k (.map inner) := by
  obtain ⟨k', ks, rfl⟩ := List.exists_cons_of_ne_nil hkey
  have hmap {old : Entries} :
      ((assign (k' :: ks) v old).map fun inner => e.setField k (.map inner)) = .ok e' ↔
        ∃ inner, assign (k' :: ks) v old = .ok inner ∧ e' = e.setField k (.map inner) := by
    cases assign (k' :: ks) v old with
    | error o => simp [Except.map]
    | ok inner => simp [Except.map, eq_comm]
  simp only [assign, Opens]
  cases hfield : e.field? k with
  | none => simp [hmap]
  | some w =>
    cases w with
    | map old => simp [hmap]
    | scalar s => simp
    | list items => simp

/-- An assignment succeeds unless its key is stopped on its way. -/
theorem exists_assign_iff : (∃ e', assign key v e = .ok e') ↔ ¬Stops key (.map e) := by
  induction key generalizing e with
  | nil =>
    refine iff_of_true ⟨e, rfl⟩ ?_
    rintro ⟨front, back, u, hkey, hback, -⟩
    exact hback (List.append_eq_nil_iff.1 hkey.symm).2
  | cons k ks ih =>
    by_cases hks : ks = []
    · subst hks
      refine iff_of_true ⟨_, rfl⟩ fun hstops => ?_
      obtain ⟨u, -, front, back, -, hkey, hback, -⟩ := stops_cons_map_iff.1 hstops
      exact hback (List.append_eq_nil_iff.1 hkey.symm).2
    · rcases exists_opens_or e k with ⟨old, hopens⟩ | ⟨w, hw, hmap⟩
      · rw [hopens.stops_cons_iff hks, ← ih]
        constructor
        · rintro ⟨e', h⟩
          obtain ⟨old', inner, hopens', hinner, -⟩ := (assign_cons_eq_ok_iff hks).1 h
          obtain rfl : old = old' := hopens.unique hopens'
          exact ⟨inner, hinner⟩
        · rintro ⟨inner, hinner⟩
          exact ⟨_, (assign_cons_eq_ok_iff hks).2 ⟨old, inner, hopens, hinner, rfl⟩⟩
      · have hstops : Stops (k :: ks) (.map e) :=
          stops_cons_map_iff.2 ⟨w, hw, [], ks, w, rfl, hks, rfl, hmap⟩
        refine iff_of_false ?_ (not_not_intro hstops)
        rintro ⟨e', h⟩
        obtain ⟨old, inner, hopens, -, -⟩ := (assign_cons_eq_ok_iff hks).1 h
        rcases hopens with ⟨hnone, -⟩ | hold
        · simp [hw] at hnone
        · obtain rfl : w = .map old := by simpa [hw] using hold
          cases hmap

/-- The key of an assignment and another one part: neither leads on from the other. -/
def Parts (key other : List String) : Prop := ¬key <+: other ∧ ¬other <+: key

theorem parts_cons_cons_iff {k' : String} :
    Parts (k :: key) (k' :: other) ↔ k ≠ k' ∨ Parts key other := by
  unfold Parts
  rw [List.cons_prefix_cons, List.cons_prefix_cons]
  by_cases hk : k = k'
  · simp [hk]
  · simp [hk, Ne.symm hk]

theorem Parts.ne_nil (h : Parts key other) : key ≠ [] ∧ other ≠ [] := by
  refine ⟨?_, ?_⟩
  · rintro rfl
    exact h.1 List.nil_prefix
  · rintro rfl
    exact h.2 List.nil_prefix

/-- An assignment leaves alone what is seen through a key that parts from its own: what the key
leads to, and whether there is a say on it. -/
theorem seen_of_assign (h : assign key v e = .ok e') (hparts : Parts key other) :
    follow? other (.map e') = follow? other (.map e) ∧
      decides other (.map e') = decides other (.map e) := by
  induction key generalizing other e e' with
  | nil => exact absurd rfl hparts.ne_nil.1
  | cons k ks ih =>
    obtain ⟨k', os, rfl⟩ := List.exists_cons_of_ne_nil hparts.ne_nil.2
    by_cases hk : k' = k
    · -- The two part behind their first part, and below it there is a map before and after.
      subst hk
      have hrest : Parts ks os := (parts_cons_cons_iff.1 hparts).resolve_left (· rfl)
      obtain ⟨hks, hos⟩ := hrest.ne_nil
      obtain ⟨old, inner, hopens, hinner, rfl⟩ := (assign_cons_eq_ok_iff hks).1 h
      have hafter := opens_setField e k' inner
      rw [hopens.follow?_cons hos, hopens.decides_cons hos, hafter.follow?_cons hos,
        hafter.decides_cons hos]
      exact ih hinner hrest
    · obtain ⟨w, rfl⟩ : ∃ w, e' = e.setField k w := by
        by_cases hks : ks = []
        · subst hks
          cases h
          exact ⟨v, rfl⟩
        · obtain ⟨old, inner, -, -, rfl⟩ := (assign_cons_eq_ok_iff hks).1 h
          exact ⟨_, rfl⟩
      have hfield := Entries.field?_setField_of_ne hk w e
      refine ⟨?_, ?_⟩
      · rw [follow?_cons_map, follow?_cons_map, hfield]
      · simp only [decides, hfield]

/-! ### Maps that are shared -/

section Sharing

variable {f inner : Entries Marked} {mark : Option Nat} {u : Marked} {w : Written}

/-- A part of a key that leads to a map opens what is seen of it. -/
theorem Leads.opens (h : Leads f k mark inner) :
    Opens (Marked.entries f) k (Marked.entries inner) := by
  rcases h with ⟨hnone, -, rfl⟩ | hfield
  · exact .inl ⟨by rw [Marked.field?_entries, hnone, Option.map_none], rfl⟩
  · exact .inr (by rw [Marked.field?_entries, hfield, Option.map_some, Marked.value])

theorem shares_nil (key other : List String) : shares key other [] = false := by
  unfold shares
  split
  · split
    · rfl
    · rw [markAlong?_nil]
      rfl
  · rfl

/-- What two keys share behind a common part they share in the map that the part leads to. -/
theorem Leads.shares_cons (h : Leads f k mark inner) :
    shares (k :: key) (k :: other) f = shares key other inner := by
  rw [shares, if_pos rfl]
  rcases h with ⟨hnone, -, rfl⟩ | hfield
  · rw [hnone, shares_nil]
  · rw [hfield]

/-- Beside the first part of its key an assignment changes only the map that it rewrites. -/
theorem field?_write {name : String} (hname : name ≠ k) (h : write (k :: key) u f = .ok w) :
    w.fields.field? name = (mirrored w.rewritten f).field? name := by
  by_cases hkey : key = []
  · subst hkey
    cases h
    exact Entries.field?_setField_of_ne hname u f
  · obtain ⟨mark, old, inner, -, -, rfl⟩ := write_cons_eq_ok hkey h
    rw [Written.fields_below, Entries.field?_setField_of_ne hname]

/-- What is seen through a key that parts from that of an assignment in its first part. -/
theorem seen_beside_of_write {name : String} (hname : name ≠ k) (h : write (k :: key) u f = .ok w)
    (hshares : shares (k :: key) (name :: other) f = false) :
    follow? (name :: other) (.map (Marked.entries w.fields)) =
        follow? (name :: other) (.map (Marked.entries f)) ∧
      decides (name :: other) (.map (Marked.entries w.fields)) =
        decides (name :: other) (.map (Marked.entries f)) := by
  have hfield := field?_write hname h
  have hmark := rewritten_of_write h
  simp only [follow?_cons_map, decides, Marked.field?_entries, hfield]
  cases hrewritten : w.rewritten with
  | none => exact ⟨rfl, rfl⟩
  | some r =>
    have hmark : markAlong? (k :: key) f = some r.1 := by
      rw [← hmark, hrewritten, Option.map_some]
    rw [shares, if_neg (Ne.symm hname), hmark] at hshares
    rw [mirrored, Marked.field?_mirrorFields]
    cases hother : f.field? name with
    | none => exact ⟨rfl, rfl⟩
    | some t =>
      rw [hother] at hshares
      exact seen_of_mirror r.2 hshares

/-- An assignment leaves alone what is seen through a key that parts from its own and shares no map
with it: what the key leads to, and whether there is a say on it. -/
theorem seen_of_write (h : write key u f = .ok w) (hparts : Parts key other)
    (hshares : shares key other f = false) :
    follow? other (.map (Marked.entries w.fields)) = follow? other (.map (Marked.entries f)) ∧
      decides other (.map (Marked.entries w.fields)) =
        decides other (.map (Marked.entries f)) := by
  induction key generalizing other f w with
  | nil => exact absurd rfl hparts.ne_nil.1
  | cons k ks ih =>
    obtain ⟨k', os, rfl⟩ := List.exists_cons_of_ne_nil hparts.ne_nil.2
    by_cases hk : k' = k
    · -- The two part behind their first part, and below it there is a map before and after.
      subst hk
      have hrest : Parts ks os := (parts_cons_cons_iff.1 hparts).resolve_left (· rfl)
      obtain ⟨hks, hos⟩ := hrest.ne_nil
      obtain ⟨mark, old, inner, hleads, hinner, rfl⟩ := write_cons_eq_ok hks h
      have hafter := opens_setField
        (Marked.entries (mirrored (inner.below f k' mark).rewritten f)) k'
        (Marked.entries inner.fields)
      rw [← Written.entries_below] at hafter
      rw [hleads.opens.follow?_cons hos, hleads.opens.decides_cons hos, hafter.follow?_cons hos,
        hafter.decides_cons hos]
      rw [hleads.shares_cons] at hshares
      exact ih hinner hrest hshares
    · exact seen_beside_of_write hk h hshares

/-- Where a field beside the way of an assignment holds the map that is rewritten, the new fields of
the map are seen. -/
theorem field?_write_of_mark {m : Nat} {name : String} {old : Entries Marked} (hname : name ≠ k)
    (h : write (k :: key) u f = .ok w) (hmark : markAlong? (k :: key) f = some m)
    (hplace : f.field? name = some (.map (some m) old)) :
    ∃ new, w.rewritten = some (m, new) ∧
      (Marked.entries w.fields).field? name = some (.map (Marked.entries new)) := by
  rw [← rewritten_of_write h] at hmark
  obtain ⟨⟨m', new⟩, hrewritten, rfl⟩ := Option.map_eq_some_iff.1 hmark
  refine ⟨new, hrewritten, ?_⟩
  rw [Marked.field?_entries, field?_write hname h, hrewritten, mirrored,
    Marked.field?_mirrorFields, hplace, Option.map_some, Option.map_some, Marked.mirror,
    if_pos rfl, Marked.value]

/-- Two keys through the same map that part before it or behind it. -/
example : let f : Entries Marked := [(.text "a", .map (some 0) []), (.text "b", .map (some 0) [])]
    shares ["a", "k"] ["b", "k"] f = true ∧ shares ["a", "k"] ["a", "j"] f = false := by
  decide

end Sharing

/-! ### All layers -/

namespace Layers

variable {l l' : Layers} {source : Source}

theorem valueIn?_congr
    (h : ∀ s, follow? key (.map (l'.layer s)) = follow? key (.map (l.layer s))) (s : Source) :
    l'.valueIn? key s = l.valueIn? key s := by
  rw [valueIn?, valueIn?, h s]

/-- A setting that is looked up by itself depends on what its key leads to in each layer. -/
theorem resolve?_congr
    (h : ∀ s, follow? key (.map (l'.layer s)) = follow? key (.map (l.layer s))) :
    l'.resolve? key = l.resolve? key := by
  simp only [resolve?, valueIn?_congr h]

/-- A setting that has a value in a layer depends on that layer and those above it. -/
theorem resolve?_congr_above {t : Source} (hvalue : l.valueIn? key t ≠ none)
    (h : ∀ s, t.rank ≤ s.rank → l'.valueIn? key s = l.valueIn? key s) :
    l'.resolve? key = l.resolve? key := by
  rcases Source.exists_highest fun s => (l.valueIn? key s).isSome with hnone | ⟨s, hs, habove⟩
  · exact absurd (by simpa using hnone t) hvalue
  · have hrank : t.rank ≤ s.rank := by
      by_contra hlt
      exact hvalue (by simpa using habove t (by omega))
    obtain ⟨w, hw⟩ := Option.isSome_iff_exists.1 hs
    have hfound {m : Layers} (hm : ∀ u, s.rank ≤ u.rank → m.valueIn? key u = l.valueIn? key u) :
        m.resolve? key = some (w, s) := by
      refine Source.findSome?_falling_eq_some_iff.2 ⟨s, ?_, fun u hu => ?_⟩
      · rw [hm s (Nat.le_refl _), hw, Option.map_some]
      · have hnone : l.valueIn? key u = none := by simpa using habove u hu
        rw [hm u (by omega), hnone, Option.map_none]
    rw [hfound fun u hu => h u (by omega), hfound fun _ _ => rfl]

/-- A setting in the merged layers depends on what its key leads to in each layer, and on whether
the layer has its say on the key. -/
theorem follow?_merged_congr (hl : l.Proper) (hl' : l'.Proper)
    (h : ∀ s, follow? key (.map (l'.layer s)) = follow? key (.map (l.layer s)) ∧
      decides key (.map (l'.layer s)) = decides key (.map (l.layer s))) :
    follow? key (.map l'.merged) = follow? key (.map l.merged) := by
  have hfold : ∀ (sources : List Source) (base base' : Entries),
      follow? key (.map base') = follow? key (.map base) →
      follow? key (.map (sources.foldl (fun e s => Entries.merge e (l'.layer s)) base')) =
        follow? key (.map (sources.foldl (fun e s => Entries.merge e (l.layer s)) base)) := by
    intro sources
    induction sources with
    | nil => exact fun base base' hbase => hbase
    | cons s sources ih =>
      intro base base' hbase
      refine ih _ _ ?_
      obtain ⟨hfollow, hdecides⟩ := h s
      rw [← Value.map_laidOver_map, ← Value.map_laidOver_map, follow?_laidOver (hl' s),
        follow?_laidOver (hl s), hfollow, hdecides, hbase]
  exact hfold Source.rising [] [] rfl

section Assigned

variable (hassign : l.assign source key v = .ok l')

include hassign

/-- Through a key that parts from that of the assignment and shares no map with it each layer shows
what it did. -/
theorem seen_of_assign (hparts : Parts key other)
    (hshares : shares key other (l.held source) = false) (s : Source) :
    follow? other (.map (l'.layer s)) = follow? other (.map (l.layer s)) ∧
      decides other (.map (l'.layer s)) = decides other (.map (l.layer s)) := by
  obtain ⟨w, hw, rfl⟩ := Yaml.map_eq_ok hassign
  by_cases hs : s = source
  · subst hs
    rw [layer_hold_self]
    exact seen_of_write hw hparts hshares
  · rw [layer_hold_of_ne l w.fields hs]
    exact ⟨rfl, rfl⟩

/-- A key that no layer above has a value for has the value that it is assigned. -/
theorem resolve?_of_assign (hkey : key ≠ []) (hnull : v ≠ .null)
    (habove : ∀ t, source.rank < t.rank → l.valueIn? key t = none) :
    l'.resolve? key = some (v, source) := by
  obtain ⟨w, hw, rfl⟩ := Yaml.map_eq_ok hassign
  refine resolve?_eq_some_iff.2 ⟨?_, hnull, fun t ht => ?_⟩
  · rw [layer_hold_self, follow?_write hkey hw, Value.value_unmarked]
  · have hother : t ≠ source := by
      rintro rfl
      omega
    rw [layer_hold_of_ne l w.fields hother]
    exact valueIn?_eq_none_iff.1 (habove t ht)

/-- A key that a layer above has a value for has the value that it had. -/
theorem resolve?_of_assign_below {t : Source} (ht : source.rank < t.rank)
    (hvalue : l.valueIn? key t ≠ none) : l'.resolve? key = l.resolve? key := by
  obtain ⟨w, -, rfl⟩ := Yaml.map_eq_ok hassign
  refine resolve?_congr_above hvalue fun s hs => ?_
  have hother : s ≠ source := by
    rintro rfl
    omega
  rw [valueIn?, valueIn?, layer_hold_of_ne l w.fields hother]

end Assigned

end Layers

/-! ### Runs -/

namespace Watched

variable {reader : Yaml.Reader} {files : Files.Tree} {file : String} {vars : List Variable}
  {w w' : Watched} {calls : List Call} {source : Source} {told : List Notice}

theorem layers_of_assign {key : String} (h : w.assign source key v = .ok (w', told)) :
    w.layers.assign source (keyParts key) v = .ok w'.layers := by
  obtain ⟨l, hl, rfl, -⟩ := change_eq_ok_iff.1 h
  exact hl

/-- **An assignment changes its own key, and no other one unless maps are shared.** After any calls
on settings that were started with any reader, any file and any variables, let a value that is not
null be assigned to a key in a source. If no source above has a value for the key, it then has this
one from that source, and else the one that it had. A key that parts from the assigned one, and
shares no map with it in that source, has the value that it had, and leads to what it led to in the
merged layers, whatever maps the assignment made on its way. -/
theorem assign_lawful (hstart : start reader files file vars = .ok w)
    (hcalls : ∀ c ∈ calls, c.Proper) {key : String} (hv : v.Proper) (hnull : v ≠ .null)
    (hassign : (w.run calls).assign source key v = .ok (w', told)) :
    let l := (w.run calls).layers
    ((∀ t, source.rank < t.rank → l.valueIn? (keyParts key) t = none) →
      w'.layers.resolve? (keyParts key) = some (v, source)) ∧
    ((∃ t, source.rank < t.rank ∧ l.valueIn? (keyParts key) t ≠ none) →
      w'.layers.resolve? (keyParts key) = l.resolve? (keyParts key)) ∧
    ∀ other : String, Parts (keyParts key) (keyParts other) →
      shares (keyParts key) (keyParts other) (l.held source) = false →
        w'.layers.resolve? (keyParts other) = l.resolve? (keyParts other) ∧
          follow? (keyParts other) (.map w'.layers.merged) =
            follow? (keyParts other) (.map l.merged) := by
  intro l
  have hl : l.Proper := run_proper (start_proper hstart) hcalls
  have hdone : l.assign source (keyParts key) v = .ok w'.layers := layers_of_assign hassign
  have hl' : w'.layers.Proper := hl.assign hv hdone
  refine ⟨fun habove => ?_, fun ⟨t, ht, hvalue⟩ => ?_, fun other hparts hshares => ?_⟩
  · exact Layers.resolve?_of_assign hdone (keyParts_ne_nil key) hnull habove
  · exact Layers.resolve?_of_assign_below hdone ht hvalue
  · have hseen := Layers.seen_of_assign hdone hparts hshares
    exact ⟨Layers.resolve?_congr fun s => (hseen s).1, Layers.follow?_merged_congr hl hl' hseen⟩

/-- A value below null for its key, in a map of a file that is held at two places, beside a value of
another key in that map. -/
theorem assign_lawful_below_null :
    let files : Files.Tree :=
      ⟨"/", "/", [], [(.ofPath "f", .text "a: &x {c: 2}\nd: *x\n")], [], []⟩
    let calls : List Call := [.loadValue .runtime (.map [(.text "a", .map [(.text "b", .null)])])]
    ∃ w w' told, start Yaml.reader files "f" [] = .ok w ∧ (∀ c ∈ calls, c.Proper) ∧
      (Value.int 5).Proper ∧ Value.int 5 ≠ .null ∧
      (w.run calls).assign .user "a.b" (.int 5) = .ok (w', told) ∧
      shares (keyParts "a.b") (keyParts "a.c") ((w.run calls).layers.held .user) = false ∧
      w'.layers.resolve? (keyParts "a.b") = some (.int 5, .user) ∧
      w'.layers.resolve? (keyParts "a.c") = (w.run calls).layers.resolve? (keyParts "a.c") ∧
      follow? (keyParts "a.c") (.map w'.layers.merged) =
        follow? (keyParts "a.c") (.map (w.run calls).layers.merged) := by
  intro files calls
  let w : Watched := (start Yaml.reader files "f" []).toOption.getD ⟨Layers.initial, []⟩
  let l := (w.run calls).layers
  have hb : keyParts "a.b" = ["a", "b"] := by decide +kernel
  have hc : keyParts "a.c" = ["a", "c"] := by decide +kernel
  have hcalls : ∀ c ∈ calls, c.Proper :=
    List.forall_mem_singleton.2
      (Value.proper_singleton (Value.proper_singleton (.scalar trivial)))
  have hstart : start Yaml.reader files "f" [] = .ok w :=
    Yaml.eq_ok_getD (by decide +kernel) _
  have hv : (Value.int 5).Proper := .scalar trivial
  have hnull : Value.int 5 ≠ .null := fun h => nomatch h
  have hshares : shares (keyParts "a.b") (keyParts "a.c") (l.held .user) = false := by
    decide +kernel
  have habove : ∀ t, Source.rank .user < t.rank → l.valueIn? (keyParts "a.b") t = none := by
    intro t ht
    cases t with
    | builtIn | system | user => simp [Source.rank] at ht
    | environment | commandLine | runtime => decide +kernel
  have hparts : Parts (keyParts "a.b") (keyParts "a.c") := by
    rw [hb, hc]
    exact ⟨by decide, by decide⟩
  obtain ⟨⟨w', told⟩, hassign⟩ : ∃ made, (w.run calls).assign .user "a.b" (.int 5) = .ok made :=
    ⟨_, Yaml.eq_ok_getD (by decide +kernel) (w, [])⟩
  obtain ⟨hset, -, hapart⟩ := assign_lawful hstart hcalls hv hnull hassign
  exact ⟨w, w', told, hstart, hcalls, hv, hnull, hassign, hshares, hset habove,
    hapart "a.c" hparts hshares⟩

/-- A map of a file that is held at two places, and an assignment on whose way it lies at one of
them: it is seen at the other. -/
theorem assign_aliased :
    let files : Files.Tree :=
      ⟨"/", "/", [], [(.ofPath "f", .text "a: &x {k: 1}\nb: *x\n")], [], []⟩
    ∃ w w' told, start Yaml.reader files "f" [] = .ok w ∧
      w.assign .user "a.k" (.int 2) = .ok (w', told) ∧ Parts (keyParts "a.k") (keyParts "b.k") ∧
      w.layers.resolve? (keyParts "b.k") = some (.int 1, .user) ∧
      w'.layers.resolve? (keyParts "b.k") = some (.int 2, .user) ∧
      follow? (keyParts "b.k") (.map w.layers.merged) = some (.int 1) ∧
      follow? (keyParts "b.k") (.map w'.layers.merged) = some (.int 2) := by
  intro files
  have ha : keyParts "a.k" = ["a", "k"] := by decide +kernel
  have hb : keyParts "b.k" = ["b", "k"] := by decide +kernel
  let w : Watched := (start Yaml.reader files "f" []).toOption.getD ⟨Layers.initial, []⟩
  let made := (w.assign .user "a.k" (.int 2)).toOption.getD (w, [])
  have hparts : Parts (keyParts "a.k") (keyParts "b.k") := by
    rw [ha, hb]
    exact ⟨by decide, by decide⟩
  have hstart : start Yaml.reader files "f" [] = .ok w := Yaml.eq_ok_getD (by decide +kernel) _
  have hassign : w.assign .user "a.k" (.int 2) = .ok (made.1, made.2) := by
    rw [Prod.eta]
    exact Yaml.eq_ok_getD (by decide +kernel) _
  refine ⟨w, made.1, made.2, hstart, hassign, hparts, ?_, ?_, ?_, ?_⟩ <;> decide +kernel

end Watched

end PathSieve.Settings
