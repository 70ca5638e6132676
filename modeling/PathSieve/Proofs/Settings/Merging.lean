import PathSieve.Proofs.Log.Naming
import PathSieve.Proofs.Rule.Valid

namespace PathSieve

/-!
# Valid sections laid over one another

A valid section that is laid over another one leaves a valid section: maps of flags have the flags
of both, of the logging parts the level of the upper one counts, and all else is replaced.

* `Flags.exists_ofValue_map_iff` — the maps that stand for flags.
* `ValidLogging.merge`, `ValidSection.merge` — what is laid over one another stays valid.
-/

/-! ### Fields -/

namespace Entries

variable {base new e : Entries} {v : Value} {name : String}

theorem mem_of_field? (h : e.field? name = some v) : ∃ kv ∈ e, kv.2 = v := by
  induction e with
  | nil => cases h
  | cons kv e ih =>
    rw [field?_cons] at h
    split at h
    · exact ⟨kv, List.mem_cons_self .., Option.some.inj h⟩
    · obtain ⟨lw, hlw, hv⟩ := ih h
      exact ⟨lw, List.mem_cons_of_mem _ hlw, hv⟩

end Entries

/-- The fields of a proper map are proper. -/
theorem Value.Proper.field {e : Entries} (h : (Value.map e).Proper) {name : String} {v : Value}
    (hv : e.field? name = some v) : v.Proper := by
  cases h with
  | map _ hvalues =>
    obtain ⟨kv, hkv, rfl⟩ := Entries.mem_of_field? hv
    exact hvalues kv hkv

theorem Value.Proper.distinct {e : Entries} (h : (Value.map e).Proper) : e.Distinct := by
  cases h with
  | map hdistinct _ => exact hdistinct

/-- What holds of a field of both maps holds of it in the two together, if it holds of maps that
are laid over one another. -/
theorem Entries.field?_merge_of {base new : Entries} {name : String} {P : Value → Prop}
    (h : new.Distinct) (hbase : ∀ v, base.field? name = some v → P v)
    (hnew : ∀ v, new.field? name = some v → P v)
    (hmaps : ∀ b n, base.field? name = some (.map b) → new.field? name = some (.map n) →
      P (.map (merge b n))) :
    ∀ v, (merge base new).field? name = some v → P v := by
  intro v hv
  rw [field?_merge base h] at hv
  cases hfield : new.field? name with
  | none =>
    rw [hfield] at hv
    exact hbase v hv
  | some w =>
    rw [hfield] at hv
    obtain rfl := Option.some.inj hv
    have hw := hnew w hfield
    cases w with
    | scalar s => exact hw
    | list items => exact hw
    | map n =>
      cases hold : base.field? name with
      | none => exact hw
      | some o =>
        cases o with
        | scalar s => exact hw
        | list items => exact hw
        | map b => exact hmaps b n hold hfield

/-! ### Flags -/

namespace Flags

/-- An argument is the name of a flag. -/
def Names (a : Argument) : Prop := ∃ s f, a = .text s ∧ ofName? s = some f

theorem exists_addElement_iff {f : Flags} {a : Argument} :
    (∃ g, addElement f a = .ok g) ↔ Names a := by
  constructor
  · rintro ⟨g, hg⟩
    unfold addElement at hg
    split at hg
    · rename_i s
      cases hname : ofName? s with
      | none =>
        rw [hname] at hg
        cases hg
      | some f => exact ⟨s, f, rfl, hname⟩
    · cases hg
    · cases hg
  · rintro ⟨s, g, rfl, hg⟩
    exact ⟨f.union g, by rw [addElement, hg]⟩

theorem exists_foldlM_iff {f : Flags} {items : List Argument} :
    (∃ g, items.foldlM addElement f = .ok g) ↔ ∀ a ∈ items, Names a := by
  induction items generalizing f with
  | nil => exact iff_of_true ⟨f, rfl⟩ fun a ha => absurd ha List.not_mem_nil
  | cons a items ih =>
    rw [List.foldlM_cons, List.forall_mem_cons, ← exists_addElement_iff (f := f)]
    cases addElement f a with
    | error x => exact iff_of_false (fun ⟨g, h⟩ => nomatch h) fun ⟨⟨g, h⟩, _⟩ => nomatch h
    | ok g => exact ih.trans (and_iff_right ⟨g, rfl⟩).symm

/-- A map stands for flags if all of its keys are names of flags. -/
theorem exists_ofValue_map_iff {e : Entries} : (∃ f, ofValue (.map e) = .ok f) ↔
    ∀ k ∈ e.keys, Names (.value (.scalar k)) := by
  have hmap : (∃ f, ofValue (.map e) = .ok f) ↔
      ∀ a ∈ e.map fun kv => Argument.value (.scalar kv.1), Names a := exists_foldlM_iff
  rw [hmap, Entries.keys, List.forall_mem_map, List.forall_mem_map]

end Flags

/-! ### Sections -/

/-- No map is shown as the name of a level. -/
theorem Log.Level.ofName?_display_map (e : Entries) : ofName? (Value.map e).display = none := by
  have hbrace : HasSign "\x7b" := ⟨'\x7b', by decide, isSign_brace⟩
  obtain ⟨c, hc, hsign⟩ := (hbrace.append_left _).append_left _
  exact ofName?_eq_none hc hsign

theorem ValidLogging.merge {base new : Entries} (hbase : ValidLogging base)
    (hnew : ValidLogging new) (h : new.Distinct) : ValidLogging (Entries.merge base new) := by
  refine Entries.field?_merge_of h hbase hnew fun b n _ hn => ?_
  -- A level is no map, so levels are never laid over one another.
  have hname := hnew _ hn (fun h => nomatch h)
  rw [Log.Level.ofName?_display_map] at hname
  cases hname

/-- A valid section that is laid over a valid section leaves a valid one. -/
theorem ValidSection.merge {base new : Entries} (hbase : ValidSection base)
    (hnew : ValidSection new) (h : (Value.map new).Proper) :
    ValidSection (Entries.merge base new) := by
  have hdistinct := h.distinct
  constructor
  · refine Entries.field?_merge_of hdistinct hbase.flags hnew.flags fun b n hb hn => ?_
    have hold := Flags.exists_ofValue_map_iff.1 (hbase.flags _ hb)
    have hover := Flags.exists_ofValue_map_iff.1 (hnew.flags _ hn)
    refine Flags.exists_ofValue_map_iff.2 fun k hk => ?_
    exact (Entries.mem_keys_merge hk).elim (hold k) (hover k)
  · refine Entries.field?_merge_of hdistinct hbase.action hnew.action fun b n _ hn => ?_
    obtain ⟨a, ha⟩ := hnew.action _ hn
    cases ha
  · refine Entries.field?_merge_of hdistinct hbase.rules hnew.rules fun b n _ hn => ?_
    obtain ⟨rules, heq, -⟩ := hnew.rules _ hn
    cases heq
  · refine Entries.field?_merge_of hdistinct hbase.logging hnew.logging fun b n hb hn => ?_
    obtain ⟨_, heq, hold⟩ := hbase.logging _ hb
    cases heq
    obtain ⟨_, heq, hover⟩ := hnew.logging _ hn
    cases heq
    exact ⟨_, rfl, hold.merge hover (h.field hn).distinct⟩

end PathSieve
