import PathSieve.Value.Basic

namespace PathSieve

/-!
# Proper values

No map has a key twice, and a text is kept by its code points only where it has to be.

* `Entries.Distinct`, `Value.Proper` — the maps and the values that are meant.
* `Entries.field?_merge` — the value of a field in a map that is laid over another.
* `Entries.ofList_proper` — a map that is made of a list of entries is proper.
-/

/-! ### Fields -/

theorem Scalar.eqv_text_iff {k : Scalar} {name : String} :
    k.eqv (.text name) ↔ k = .text name := by
  cases k with
  | text s => simp [Scalar.eqv]
  | _ => simp [Scalar.eqv, Scalar.integer?]

theorem Scalar.text_eqv_iff {k : Scalar} {name : String} :
    (Scalar.text name).eqv k ↔ k = .text name := by
  cases k with
  | text s => simp [Scalar.eqv, eq_comm]
  | _ => simp [Scalar.eqv, Scalar.integer?]

namespace Entries

variable {α : Type} {e base new : Entries} {f : Entries α} {k : Scalar} {u : α} {name : String}

theorem field?_cons (kv : Scalar × α) (f : Entries α) (name : String) :
    field? (kv :: f) name = if kv.1 = .text name then some kv.2 else field? f name := by
  show (if kv.1.eqv (.text name) then some kv.2 else field? f name) = _
  simp only [Scalar.eqv_text_iff]

/-- The value of a field after a key was set. -/
theorem field?_put (k : Scalar) (u : α) (f : Entries α) (name : String) :
    field? (put k u f) name = if k = .text name then some u else field? f name := by
  induction f with
  | nil => exact field?_cons (k, u) [] name
  | cons kv f ih =>
    obtain ⟨k', w⟩ := kv
    rw [put]
    by_cases hkey : k'.eqv k
    · rw [if_pos hkey, field?_cons, field?_cons]
      by_cases hk : k = .text name
      · have hk' : k' = .text name := Scalar.eqv_text_iff.1 (hk ▸ hkey)
        rw [if_pos hk', if_pos hk]
      · have hk' : k' ≠ .text name := by
          rintro rfl
          exact hk (Scalar.text_eqv_iff.1 hkey)
        rw [if_neg hk', if_neg hk', if_neg hk]
    · rw [if_neg hkey, field?_cons, ih, field?_cons]
      by_cases hk : k = .text name
      · have hk' : k' ≠ .text name := by
          rintro rfl
          exact hkey (Scalar.text_eqv_iff.2 hk)
        rw [if_neg hk', if_pos hk, if_pos hk]
      · rw [if_neg hk, if_neg hk]

/-- A field that is set leaves the others as they are. -/
theorem field?_setField_of_ne {other : String} (h : other ≠ name) (u : α) (f : Entries α) :
    (f.setField name u).field? other = f.field? other := by
  rw [setField, field?_put, if_neg]
  exact fun heq => h (Scalar.text.inj heq).symm

/-- No key is there twice. -/
def Distinct (f : Entries α) : Prop := f.Pairwise fun kv lw => kv.1.eqv lw.1 = false

instance (f : Entries α) : Decidable f.Distinct :=
  inferInstanceAs (Decidable (f.Pairwise fun kv lw => kv.1.eqv lw.1 = false))

theorem Distinct.field?_tail {kv : Scalar × α} (h : Distinct (kv :: f))
    (hk : kv.1 = .text name) : field? f name = none := by
  have hhead := (List.pairwise_cons.1 h).1
  clear h
  induction f with
  | nil => rfl
  | cons lw f ih =>
    obtain ⟨hlw, hrest⟩ := List.forall_mem_cons.1 hhead
    have hne : lw.1 ≠ .text name := by
      intro heq
      rw [hk, Bool.eq_false_iff] at hlw
      exact hlw (Scalar.text_eqv_iff.2 heq)
    rw [field?_cons, if_neg hne]
    exact ih hrest

/-- What a key is set to is laid over nothing, or over what is there. -/
theorem field?_merge (base : Entries) (h : Distinct new) (name : String) :
    field? (merge base new) name = match field? new name with
      | some v => some (v.laidOver (field? base name))
      | none => field? base name := by
  unfold merge
  induction new generalizing base with
  | nil => rfl
  | cons kv new ih =>
    obtain ⟨k, v⟩ := kv
    have htail := (List.pairwise_cons.1 h).2
    rw [Value.mergeEntries, ih _ htail, field?_put, field?_cons]
    by_cases hk : k = .text name
    · rw [if_pos hk, if_pos hk, h.field?_tail hk, hk]
      rfl
    · rw [if_neg hk, if_neg hk]

theorem mem_keys_put {k' : Scalar} (h : k' ∈ keys (put k u f)) : k' = k ∨ k' ∈ keys f := by
  induction f with
  | nil => exact .inl (List.mem_singleton.1 h)
  | cons kv f ih =>
    rw [put] at h
    split at h
    · exact .inr h
    · rcases List.mem_cons.1 h with heq | h
      · exact .inr (List.mem_cons.2 (.inl heq))
      · exact (ih h).imp_right (List.mem_cons_of_mem _)

/-- The keys of maps that are laid over one another are the keys of the two. -/
theorem mem_keys_merge (h : k ∈ keys (merge base new)) : k ∈ keys base ∨ k ∈ keys new := by
  unfold merge at h
  induction new generalizing base with
  | nil => exact .inl h
  | cons kv new ih =>
    obtain ⟨k', v⟩ := kv
    rw [Value.mergeEntries] at h
    rcases ih h with h | h
    · rcases mem_keys_put h with rfl | h
      · exact .inr (List.mem_cons_self ..)
      · exact .inl h
    · exact .inr (List.mem_cons_of_mem _ h)

end Entries

/-! ### Proper values -/

/-- A text is kept by its code points only if it has surrogates. -/
def Scalar.Proper : Scalar → Prop
  | .codes ps => Text.wellFormed? ps = none
  | _ => True

/-- No map has a key twice, and texts are kept as such. -/
inductive Value.Proper : Value → Prop where
  | scalar {s : Scalar} : s.Proper → Proper (.scalar s)
  | list {items : List Value} : (∀ v ∈ items, Proper v) → Proper (.list items)
  | map {entries : Entries} : entries.Distinct → (∀ kv ∈ entries, Proper kv.2) →
      Proper (.map entries)

theorem Value.proper_nil : (Value.map []).Proper :=
  .map .nil fun _ hkv => absurd hkv List.not_mem_nil

theorem Value.proper_singleton {k : Scalar} {v : Value} (h : v.Proper) :
    (Value.map [(k, v)]).Proper := by
  refine .map (List.pairwise_singleton ..) fun kv hkv => ?_
  rw [List.mem_singleton.1 hkv]
  exact h

theorem Scalar.ofPoints_proper (ps : List Text.CodePoint) : (Scalar.ofPoints ps).Proper := by
  unfold Scalar.ofPoints
  split
  · exact trivial
  · rename_i hps
    exact hps

namespace Entries

variable {α : Type} {f : Entries α} {k : Scalar} {u : α}

theorem mem_put {kv : Scalar × α} (h : kv ∈ put k u f) : kv.2 = u ∨ kv ∈ f := by
  induction f with
  | nil => exact .inl (by rw [List.mem_singleton.1 h])
  | cons lw f ih =>
    rw [put] at h
    split at h
    · rcases List.mem_cons.1 h with rfl | h
      · exact .inl rfl
      · exact .inr (List.mem_cons_of_mem _ h)
    · rcases List.mem_cons.1 h with rfl | h
      · exact .inr (List.mem_cons_self ..)
      · exact (ih h).imp_right (List.mem_cons_of_mem _)

/-- A key that is set is not there twice. -/
theorem Distinct.put (h : Distinct f) : Distinct (put k u f) := by
  induction f with
  | nil => exact List.pairwise_singleton ..
  | cons lw f ih =>
    obtain ⟨hhead, htail⟩ := List.pairwise_cons.1 h
    rw [Entries.put]
    split
    · exact List.pairwise_cons.2 ⟨hhead, htail⟩
    · rename_i hkey
      refine List.pairwise_cons.2 ⟨fun kv hkv => ?_, ih htail⟩
      have hmem : kv.1 = k ∨ kv.1 ∈ keys f := mem_keys_put (List.mem_map_of_mem hkv)
      rcases hmem with heq | hmem
      · rw [heq]
        exact Bool.eq_false_iff.2 hkey
      · obtain ⟨kv', hkv', heq⟩ := List.mem_map.1 hmem
        rw [← heq]
        exact hhead kv' hkv'

/-- The map of a list of entries is proper if their values are. -/
theorem ofList_proper {es : List (Scalar × Value)} (h : ∀ kv ∈ es, kv.2.Proper) :
    (Value.map (ofList es)).Proper := by
  have hfold : ∀ (es : List (Scalar × Value)) (e : Entries), (∀ kv ∈ es, kv.2.Proper) →
      Distinct e → (∀ kv ∈ e, kv.2.Proper) →
      (Value.map (es.foldl (fun e kv => put kv.1 kv.2 e) e)).Proper := by
    intro es
    induction es with
    | nil => exact fun e _ hdistinct hproper => .map hdistinct hproper
    | cons kv es ih =>
      intro e hes hdistinct hproper
      obtain ⟨hkv, hrest⟩ := List.forall_mem_cons.1 hes
      refine ih _ hrest hdistinct.put fun lw hlw => ?_
      rcases mem_put hlw with heq | hlw
      · rw [heq]
        exact hkv
      · exact hproper lw hlw
  exact hfold es [] h .nil fun kv hkv => absurd hkv List.not_mem_nil

end Entries

end PathSieve
