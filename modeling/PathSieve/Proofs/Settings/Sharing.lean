import PathSieve.Proofs.Settings.Precedence
import PathSieve.Yaml.Reader

namespace PathSieve

/-!
# Assignments where maps are shared

An assignment rewrites the maps on its way, and a map that is held at several places changes at all
of them. Under its own key an assignment shows the same whether or not anything is shared, and it
fails for the same reasons. Under another key it shows something only where the innermost map with a
mark on its way is met.

* `Settings.write_eq_error_iff` — an assignment fails where it fails in what is seen of the map.
* `Settings.follow?_write`, `Settings.write_proper` — what is seen under its key, and that no map
  gets a key twice.
* `Settings.markAlong?`, `Settings.rewritten_of_write` — the map that an assignment rewrites.
* `Settings.shares`, `Settings.seen_of_mirror` — keys that share a map, and what is seen through a
  key that does not meet it.
-/

/-! ### Fields that are set -/

theorem Entries.setField_proper {e : Entries} (h : (Value.map e).Proper) {v : Value}
    (hv : v.Proper) (name : String) : (Value.map (e.setField name v)).Proper := by
  cases h with
  | map hdistinct hvalues =>
    refine .map hdistinct.put fun kv hkv => ?_
    rcases Entries.mem_put hkv with heq | hmem
    · rw [heq]
      exact hv
    · exact hvalues kv hmem

/-! ### Maps that are rewritten -/

namespace Marked

/-- The values of a proper map are proper. -/
theorem proper_of_mem {f : Entries Marked} (h : (Value.map (entries f)).Proper)
    {kv : Scalar × Marked} (hkv : kv ∈ f) : kv.2.value.Proper := by
  cases h with
  | map hdistinct hvalues =>
    rw [entries_eq_map] at hvalues
    exact hvalues _ (List.mem_map_of_mem hkv)

/-- A map keeps its keys when another one is rewritten in it. -/
theorem keys_mirrorFields (mark : Nat) (new f : Entries Marked) :
    (entries (mirrorFields mark new f)).keys = (entries f).keys := by
  induction f with
  | nil => rfl
  | cons kv rest ih => exact congrArg (kv.1 :: ·) ih

variable {mark : Nat} {new : Entries Marked}

theorem proper_mirrorFields_of {f : Entries Marked} (h : (Value.map (entries f)).Proper)
    (hvalues : ∀ kv ∈ mirrorFields mark new f, kv.2.value.Proper) :
    (Value.map (entries (mirrorFields mark new f))).Proper := by
  have hiff (e : Entries) : e.Distinct ↔ e.keys.Pairwise fun k k' => k.eqv k' = false := by
    rw [Entries.keys, List.pairwise_map]
    rfl
  refine .map ?_ ?_
  · rw [hiff, keys_mirrorFields, ← hiff]
    exact h.distinct
  · rw [entries_eq_map]
    exact List.forall_mem_map.2 hvalues

mutual

/-- A proper map that is rewritten keeps a value proper. -/
theorem mirror_proper (hnew : (Value.map (entries new)).Proper) :
    ∀ u : Marked, u.value.Proper → (u.mirror mark new).value.Proper
  | .scalar _, h => h
  | .list items, h => by
    cases h with
    | list hitems =>
      rw [mirror, value, values_eq_map]
      rw [values_eq_map] at hitems
      exact .list (List.forall_mem_map.2
        (mirrorItems_proper hnew items (List.forall_mem_map.1 hitems)))
  | .map own fields, h => by
    rw [mirror]
    split
    · exact hnew
    · exact proper_mirrorFields_of h
        (mirrorFields_values_proper hnew fields fun _ hkv => proper_of_mem h hkv)

theorem mirrorItems_proper (hnew : (Value.map (entries new)).Proper) :
    ∀ items : List Marked, (∀ u ∈ items, u.value.Proper) →
      ∀ u ∈ mirrorItems mark new items, u.value.Proper
  | [], _ => fun _ hu => absurd hu List.not_mem_nil
  | u :: rest, h => by
    obtain ⟨hu, hrest⟩ := List.forall_mem_cons.1 h
    exact List.forall_mem_cons.2 ⟨mirror_proper hnew u hu, mirrorItems_proper hnew rest hrest⟩

theorem mirrorFields_values_proper (hnew : (Value.map (entries new)).Proper) :
    ∀ f : Entries Marked, (∀ kv ∈ f, kv.2.value.Proper) →
      ∀ kv ∈ mirrorFields mark new f, kv.2.value.Proper
  | [], _ => fun _ hkv => absurd hkv List.not_mem_nil
  | (k, u) :: rest, h => by
    obtain ⟨hu, hrest⟩ := List.forall_mem_cons.1 h
    exact List.forall_mem_cons.2
      ⟨mirror_proper hnew u hu, mirrorFields_values_proper hnew rest hrest⟩

end

theorem mirrorFields_proper (hnew : (Value.map (entries new)).Proper) {f : Entries Marked}
    (h : (Value.map (entries f)).Proper) :
    (Value.map (entries (mirrorFields mark new f))).Proper :=
  proper_mirrorFields_of h (mirrorFields_values_proper hnew f fun _ hkv => proper_of_mem h hkv)

end Marked

namespace Settings

variable {key : List String} {k : String} {u : Marked} {f : Entries Marked} {w inner : Written}
  {mark : Option Nat}

/-! ### Outcomes -/

/-- An assignment fails where it fails in what is seen of the map. -/
theorem write_eq_error_iff {o : Obstacle} :
    write key u f = .error o ↔ assign key u.value (Marked.entries f) = .error o := by
  have hmap {α β : Type} {x : Except Obstacle α} {g : α → β} :
      x.map g = .error o ↔ x = .error o := by
    cases x with
    | error o' => simp [Except.map]
    | ok a => simp [Except.map]
  fun_induction write key u f with
  | case1 u f => simp [assign]
  | case2 k u f => simp [assign]
  | case3 k k' ks u f hnone ih =>
    rw [assign, Marked.field?_entries, hnone, Option.map_none, hmap, hmap]
    exact ih
  | case4 k k' ks u f mark old hold ih =>
    rw [assign, Marked.field?_entries, hold, Option.map_some, Marked.value, hmap, hmap]
    exact ih
  | case5 k k' ks u f x hx hfield =>
    rw [assign, Marked.field?_entries, hfield, Option.map_some]
    cases x with
    | scalar s => simp [Marked.value]
    | list items => simp [Marked.value]
    | map mark old => exact (hx mark old rfl).elim

theorem exists_write_iff :
    (∃ w, write key u f = .ok w) ↔ ∃ e, assign key u.value (Marked.entries f) = .ok e := by
  have hok {α : Type} {x : Except Obstacle α} : (∃ a, x = .ok a) ↔ ∀ o, x ≠ .error o := by
    cases x with
    | error o => simp
    | ok a => simp
  simp only [hok, ne_eq, write_eq_error_iff]

/-! ### Below a part of a key -/

/-- A part of a key leads to a map: the one that is there, or a new one where there is nothing. -/
def Leads (f : Entries Marked) (k : String) (mark : Option Nat) (old : Entries Marked) : Prop :=
  f.field? k = none ∧ mark = none ∧ old = [] ∨ f.field? k = some (.map mark old)

/-- An assignment below a part of its key writes to the map that the part leads to. -/
theorem write_cons_eq_ok (hkey : key ≠ []) (h : write (k :: key) u f = .ok w) :
    ∃ mark old inner, Leads f k mark old ∧ write key u old = .ok inner ∧
      w = inner.below f k mark := by
  obtain ⟨k', ks, rfl⟩ := List.exists_cons_of_ne_nil hkey
  rw [write] at h
  split at h
  · rename_i hnone
    obtain ⟨inner, hinner, rfl⟩ := Yaml.map_eq_ok h
    exact ⟨none, [], inner, .inl ⟨hnone, rfl, rfl⟩, hinner, rfl⟩
  · rename_i mark old hold
    obtain ⟨inner, hinner, rfl⟩ := Yaml.map_eq_ok h
    exact ⟨mark, old, inner, .inr hold, hinner, rfl⟩
  · cases h

/-- A map in which a field was written to, and what is seen of it. -/
theorem Written.fields_below (inner : Written) (f : Entries Marked) (k : String)
    (mark : Option Nat) : (inner.below f k mark).fields =
      (mirrored (inner.below f k mark).rewritten f).setField k (.map mark inner.fields) := rfl

theorem Written.entries_below (inner : Written) (f : Entries Marked) (k : String)
    (mark : Option Nat) : Marked.entries (inner.below f k mark).fields =
      (Marked.entries (mirrored (inner.below f k mark).rewritten f)).setField k
        (.map (Marked.entries inner.fields)) := by
  rw [fields_below, Marked.entries_setField, Marked.value]

/-- An assignment that succeeds is seen by a look at the same key, whatever is shared. -/
theorem follow?_write (hne : key ≠ []) (h : write key u f = .ok w) :
    follow? key (.map (Marked.entries w.fields)) = some u.value := by
  induction key generalizing f w with
  | nil => exact absurd rfl hne
  | cons k ks ih =>
    by_cases hks : ks = []
    · subst hks
      cases h
      rw [Marked.entries_setField, follow?_cons_map, Entries.field?_setField]
      rfl
    · obtain ⟨mark, old, inner, -, hinner, rfl⟩ := write_cons_eq_ok hks h
      rw [Written.entries_below, follow?_cons_map, Entries.field?_setField]
      exact ih hks hinner

/-- What an assignment writes is proper, on its way and elsewhere. -/
structure Written.Proper (w : Written) : Prop where
  fields : (Value.map (Marked.entries w.fields)).Proper
  rewritten : ∀ r ∈ w.rewritten, (Value.map (Marked.entries r.2)).Proper

theorem mirrored_proper (hf : (Value.map (Marked.entries f)).Proper)
    {rewritten : Option (Nat × Entries Marked)}
    (h : ∀ r ∈ rewritten, (Value.map (Marked.entries r.2)).Proper) :
    (Value.map (Marked.entries (mirrored rewritten f))).Proper := by
  cases rewritten with
  | none => exact hf
  | some r => exact Marked.mirrorFields_proper (h r rfl) hf

theorem Written.Proper.below (h : inner.Proper) (hf : (Value.map (Marked.entries f)).Proper)
    (k : String) (mark : Option Nat) : (inner.below f k mark).Proper := by
  have hrewritten : ∀ r ∈ (inner.below f k mark).rewritten,
      (Value.map (Marked.entries r.2)).Proper := by
    intro r hr
    have hr : inner.rewritten.or (mark.map (·, inner.fields)) = some r := hr
    rcases Option.or_eq_some_iff.1 hr with hr | ⟨-, hr⟩
    · exact h.rewritten r hr
    · obtain ⟨m, -, rfl⟩ := Option.map_eq_some_iff.1 hr
      exact h.fields
  refine ⟨?_, hrewritten⟩
  rw [entries_below]
  exact Entries.setField_proper (mirrored_proper hf hrewritten) h.fields k

/-- An assignment of a proper value keeps a map proper. -/
theorem write_proper (hu : u.value.Proper) (hf : (Value.map (Marked.entries f)).Proper)
    (h : write key u f = .ok w) : w.Proper := by
  induction key generalizing f w with
  | nil =>
    cases h
    exact ⟨hf, fun _ hr => nomatch hr⟩
  | cons k ks ih =>
    by_cases hks : ks = []
    · subst hks
      cases h
      refine ⟨?_, fun _ hr => nomatch hr⟩
      rw [Marked.entries_setField]
      exact Entries.setField_proper hf hu k
    · obtain ⟨mark, old, inner, hleads, hinner, rfl⟩ := write_cons_eq_ok hks h
      have hold : (Value.map (Marked.entries old)).Proper := by
        rcases hleads with ⟨-, -, rfl⟩ | hfield
        · exact Value.proper_nil
        · have hvalue : (Marked.entries f).field? k = some (.map (Marked.entries old)) := by
            rw [Marked.field?_entries, hfield, Option.map_some, Marked.value]
          exact hf.field hvalue
      exact (ih hold hinner).below hf k mark

/-! ### Keys that share a map -/

/-- The mark of the innermost map with one on the way of a key. -/
def markAlong? : List String → Entries Marked → Option Nat
  | k :: k' :: ks, f =>
    match f.field? k with
    | some (.map mark old) => (markAlong? (k' :: ks) old).or mark
    | _ => none
  | _, _ => none

/-- Whether the map of a mark lies on the way of a key in a value, or is held by what the key leads
to. -/
def meets (mark : Nat) : List String → Marked → Bool
  | [], u => u.places mark ≠ 0
  | k :: ks, .map own f => own = some mark || (Entries.field? f k).any (meets mark ks)
  | _ :: _, _ => false

/-- Whether the innermost map with a mark on the way of one key is met on the way of another, behind
the place where the two part. -/
def shares : List String → List String → Entries Marked → Bool
  | k :: ks, k' :: os, f =>
    if k = k' then match f.field? k with
      | some (.map _ old) => shares ks os old
      | _ => false
    else (markAlong? (k :: ks) f).any fun mark => (f.field? k').any (meets mark os)
  | _, _, _ => false

theorem markAlong?_nil (key : List String) : markAlong? key [] = none := by
  unfold markAlong?
  split <;> rfl

/-- What an assignment rewrites is the innermost map with a mark on its way. -/
theorem rewritten_of_write (h : write key u f = .ok w) :
    w.rewritten.map Prod.fst = markAlong? key f := by
  induction key generalizing f w with
  | nil =>
    cases h
    rfl
  | cons k ks ih =>
    cases ks with
    | nil =>
      cases h
      rfl
    | cons k' ks =>
      obtain ⟨mark, old, inner, hleads, hinner, rfl⟩ :=
        write_cons_eq_ok (List.cons_ne_nil k' ks) h
      have hmark : (inner.below f k mark).rewritten.map Prod.fst =
          (markAlong? (k' :: ks) old).or mark := by
        rw [Written.below, Option.map_or, ih hinner, Option.map_map]
        exact congrArg _ Option.map_id'
      rw [hmark, markAlong?]
      rcases hleads with ⟨hnone, rfl, rfl⟩ | hfield
      · rw [hnone, Option.or_none, markAlong?_nil]
      · rw [hfield]

/-- Through a key that does not meet a map a value shows the same when the map is rewritten. -/
theorem seen_of_mirror {m : Nat} (new : Entries Marked) (h : meets m key u = false) :
    follow? key (u.mirror m new).value = follow? key u.value ∧
      decides key (u.mirror m new).value = decides key u.value := by
  induction key generalizing u with
  | nil =>
    have hplaces : u.places m = 0 := by simpa [meets] using h
    rw [Marked.mirror_of_places_eq_zero new u hplaces]
    exact ⟨rfl, rfl⟩
  | cons k ks ih =>
    cases u with
    | scalar s => exact ⟨rfl, rfl⟩
    | list items =>
      rw [Marked.mirror, Marked.value, Marked.value]
      exact ⟨rfl, rfl⟩
    | map own fields =>
      obtain ⟨hown, hfield⟩ :
          own ≠ some m ∧ (Entries.field? fields k).any (meets m ks) = false := by
        simpa [meets] using h
      rw [Marked.mirror, if_neg hown, Marked.value, Marked.value, follow?_cons_map,
        follow?_cons_map, Marked.field?_entries, Marked.field?_entries,
        Marked.field?_mirrorFields]
      simp only [decides, Marked.field?_entries, Marked.field?_mirrorFields]
      cases hold : Entries.field? fields k with
      | none => exact ⟨rfl, rfl⟩
      | some t =>
        rw [hold] at hfield
        exact ih hfield

end Settings

end PathSieve
