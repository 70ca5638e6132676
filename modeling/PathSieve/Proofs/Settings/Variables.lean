import Mathlib.Data.List.Induction
import PathSieve.Proofs.Settings.Assigning

namespace PathSieve

/-!
# The tree of variables

The variables of the environment are set one after the other in one layer. A variable whose key
another one stops on its way says nothing, whichever of the two comes first, so that the tree they
make does not depend on their order.

* `Value.Leaf` — what the paths of keys in a tree end at.
* `Value.Filled`, `Value.Filled.leaf_iff` — trees without empty maps, whose leaves are found by
  their keys.
* `Settings.follow?_assign_iff` — the leaves after an assignment.
* `Settings.Shadowed`, `Settings.environmentEntries_represents` — the variables that show.
* `Settings.Watched.start_leaf_iff` — the leaves of the layer of the environment.
* `Settings.Watched.start_environment` — that layer, whatever the order of the variables.
-/

/-! ### Leaves -/

namespace Value

/-- What a path of keys in a tree ends at: something that has no entries. A map that is empty is an
end as well. -/
inductive Leaf : List Scalar → Value → Value → Prop where
  | here {v : Value} : (∀ e, v = .map e → e = []) → Leaf [] v v
  | inside {k : Scalar} {path : List Scalar} {leaf v : Value} {e : Entries} :
      (k, v) ∈ e → Leaf path leaf v → Leaf (k :: path) leaf (.map e)

/-- No map in a tree is empty, and all keys are texts. -/
inductive Filled : Value → Prop where
  | leaf {v : Value} : v.isMap = false → Filled v
  | map {e : Entries} : e ≠ [] → (∀ kv ∈ e, ∃ name, kv.1 = .text name) →
      (∀ kv ∈ e, Filled kv.2) → Filled (.map e)

end Value

namespace Entries

variable {e : Entries} {name : String} {v : Value}

/-- The entries of a map that has text keys only and no empty map in it, and may be empty. -/
def Filled (e : Entries) : Prop := ∀ kv ∈ e, (∃ name, kv.1 = .text name) ∧ kv.2.Filled

theorem Distinct.field?_eq_some_iff (h : Distinct e) :
    e.field? name = some v ↔ (.text name, v) ∈ e := by
  induction e with
  | nil => exact iff_of_false (fun h => nomatch h) List.not_mem_nil
  | cons kv e ih =>
    obtain ⟨k, w⟩ := kv
    rw [field?_cons, List.mem_cons, Prod.mk.injEq]
    by_cases hk : k = .text name
    · have htail : field? e name = none := h.field?_tail hk
      have hno : (.text name, v) ∉ e := by
        rw [← ih (List.pairwise_cons.1 h).2, htail]
        exact fun h => nomatch h
      simp [hk, hno, eq_comm]
    · simp [hk, Ne.symm hk, ih (List.pairwise_cons.1 h).2]

theorem mem_setField {kv : Scalar × Value} (h : kv ∈ e.setField name v) :
    kv = (.text name, v) ∨ kv ∈ e := by
  unfold setField at h
  induction e with
  | nil => exact .inl (List.mem_singleton.1 h)
  | cons lw e ih =>
    obtain ⟨k, w⟩ := lw
    rw [put] at h
    split at h
    · rename_i hk
      rw [Scalar.eqv_text_iff.1 hk] at h
      exact (List.mem_cons.1 h).imp_right (List.mem_cons_of_mem _)
    · rcases List.mem_cons.1 h with rfl | h
      · exact .inr (List.mem_cons_self ..)
      · exact (ih h).imp_right (List.mem_cons_of_mem _)

theorem Filled.setField (h : e.Filled) (hv : v.Filled) : (e.setField name v).Filled := by
  intro kv hkv
  rcases mem_setField hkv with rfl | hkv
  · exact ⟨⟨name, rfl⟩, hv⟩
  · exact h kv hkv

end Entries

namespace Value

open Settings (follow? follow?_cons_map)

variable {v leaf : Value} {path : List Scalar}

theorem Filled.entries {e : Entries} (h : (Value.map e).Filled) : e.Filled := by
  cases h with
  | leaf hmap => cases hmap
  | map _ htexts hfilled => exact fun kv hkv => ⟨htexts kv hkv, hfilled kv hkv⟩

theorem filled_map {e : Entries} (hne : e ≠ []) (h : e.Filled) : (Value.map e).Filled :=
  .map hne (fun kv hkv => (h kv hkv).1) fun kv hkv => (h kv hkv).2

/-- The leaves of a tree without empty maps are found by their keys, which are texts. -/
theorem Filled.leaf_iff (h : v.Filled) (hproper : v.Proper) : Leaf path leaf v ↔
    ∃ key, path = key.map .text ∧ follow? key v = some leaf ∧ leaf.isMap = false := by
  constructor
  · intro hleaf
    induction hleaf with
    | @here v hempty =>
      refine ⟨[], rfl, rfl, ?_⟩
      cases h with
      | leaf hmap => exact hmap
      | map hne _ _ => exact absurd (hempty _ rfl) hne
    | @inside k path leaf v e hmem _ ih =>
      obtain ⟨⟨name, hname⟩, hv⟩ := h.entries _ hmem
      obtain rfl : k = .text name := hname
      have hfield : e.field? name = some v := hproper.distinct.field?_eq_some_iff.2 hmem
      obtain ⟨key, rfl, hfollow, hmap⟩ := ih hv (hproper.field hfield)
      refine ⟨name :: key, rfl, ?_, hmap⟩
      rw [follow?_cons_map, hfield, Option.bind_some, hfollow]
  · rintro ⟨key, rfl, hfollow, hmap⟩
    induction key generalizing v with
    | nil =>
      cases hfollow
      refine .here fun e he => ?_
      rw [he] at hmap
      cases hmap
    | cons name key ih =>
      cases v with
      | scalar s => cases hfollow
      | list items => cases hfollow
      | map e =>
        rw [follow?_cons_map] at hfollow
        obtain ⟨w, hw, hfollow⟩ := Option.bind_eq_some_iff.1 hfollow
        have hmem := hproper.distinct.field?_eq_some_iff.1 hw
        exact .inside hmem (ih (h.entries _ hmem).2 (hproper.field hw) hfollow)

end Value

namespace Settings

/-! ### Assignments -/

section Assign

variable {key other : List String} {v w : Value} {e e' : Entries}

theorem follow?_map_nil (hkey : key ≠ []) : follow? key (.map []) = none := by
  obtain ⟨k, ks, rfl⟩ := List.exists_cons_of_ne_nil hkey
  rfl

theorem ne_nil_of_assign (hkey : key ≠ []) (h : assign key v e = .ok e') : e' ≠ [] := by
  rintro rfl
  have hset := follow?_assign hkey h
  rw [follow?_map_nil hkey] at hset
  cases hset

theorem assign_filled (h : assign key v e = .ok e') (he : e.Filled) (hv : v.Filled) :
    e'.Filled := by
  induction key generalizing e e' with
  | nil =>
    cases h
    exact he
  | cons k ks ih =>
    by_cases hks : ks = []
    · subst hks
      cases h
      exact he.setField hv
    · obtain ⟨old, inner, hopens, hinner, rfl⟩ := (assign_cons_eq_ok_iff hks).1 h
      have hold : old.Filled := by
        rcases hopens with ⟨-, rfl⟩ | hmap
        · exact fun kv hkv => absurd hkv List.not_mem_nil
        · obtain ⟨kv, hkv, hold⟩ := Entries.mem_of_field? hmap
          have hfilled := (he kv hkv).2
          rw [hold] at hfilled
          exact hfilled.entries
      exact he.setField (Value.filled_map (ne_nil_of_assign hks hinner) (ih hinner hold))

/-- After an assignment of something that is no map its key leads to that, and nothing is left
below the key. -/
theorem follow?_assign_iff (h : assign key v e = .ok e') (hkey : key ≠ []) (hv : v.isMap = false)
    (hw : w.isMap = false) : follow? other (.map e') = some w ↔
      other = key ∧ w = v ∨ ¬key <+: other ∧ follow? other (.map e) = some w := by
  have hset : follow? key (.map e') = some v := follow?_assign hkey h
  by_cases hbehind : key <+: other
  · obtain ⟨back, rfl⟩ := hbehind
    rw [follow?_append, hset, Option.bind_some]
    by_cases hback : back = []
    · simp [hback, eq_comm]
    · simp [follow?_of_isMap_eq_false hback hv, hback]
  · have hne : other ≠ key := by
      rintro rfl
      exact hbehind (List.prefix_refl _)
    by_cases hbefore : other <+: key
    · -- What the other key leads to is on the way of the assignment, and so a map.
      obtain ⟨back, rfl⟩ := hbefore
      have hstops {tree : Entries} (hlead : follow? other (.map tree) = some w) :
          Stops (other ++ back) (.map tree) :=
        ⟨other, back, w, rfl, fun hback => hne (by simp [hback]), hlead, hw⟩
      refine iff_of_false (fun hlead => ?_) ?_
      · rw [(hstops hlead).follow?_eq_none] at hset
        cases hset
      · rintro (⟨heq, -⟩ | ⟨-, hlead⟩)
        · exact hne heq
        · exact exists_assign_iff.1 ⟨e', h⟩ (hstops hlead)
    · rw [(seen_of_assign h ⟨hbehind, hbefore⟩).1]
      simp [hbehind, hne]

end Assign

/-! ### Variables that show -/

/-- No two variables have the same key. -/
def Apart (vars : List Variable) : Prop :=
  vars.Pairwise fun x y => ∀ key, variableKey? x.1 = some key → variableKey? y.1 ≠ some key

/-- There is a variable whose key stops another one on its way. -/
def Shadowed (vars : List Variable) (key : List String) : Prop :=
  ∃ x ∈ vars, ∃ front, variableKey? x.1 = some front ∧ front <+: key ∧ front ≠ key

/-- There is a variable with a key, which nothing stops, and with a text that stands for a value. -/
def Shows (vars : List Variable) (key : List String) (v : Value) : Prop :=
  (∃ x ∈ vars, variableKey? x.1 = some key ∧ readVariable x.2 = v) ∧ ¬Shadowed vars key

variable {vars : List Variable} {x : Variable} {key front : List String} {v : Value} {e : Entries}

theorem readVariable_isMap (s : String) : (readVariable s).isMap = false := by
  unfold readVariable
  repeat' split
  all_goals rfl

theorem variableKey?_ne_nil {name : String} (h : variableKey? name = some key) : key ≠ [] := by
  rintro rfl
  unfold variableKey? at h
  split at h
  · split at h
    · cases h
    · rename_i hparts
      exact hparts (Option.some.inj h)
  · cases h

theorem ne_of_prefix_of_ne {a b c : List String} (hab : a <+: b) (hbc : b <+: c) (hne : b ≠ c) :
    a ≠ c := by
  rintro rfl
  exact hne (hbc.eq_of_length (Nat.le_antisymm hbc.length_le hab.length_le))

/-- Of the variables that stop a key on its way one is not stopped itself. -/
theorem exists_unshadowed (hx : x ∈ vars) (hkey : variableKey? x.1 = some key) :
    ∃ y ∈ vars, ∃ front, variableKey? y.1 = some front ∧ front <+: key ∧ ¬Shadowed vars front := by
  induction hlength : key.length using Nat.strongRecOn generalizing x key with
  | ind n ih =>
    by_cases hshadowed : Shadowed vars key
    · obtain ⟨y, hy, front, hfront, hway, hne⟩ := hshadowed
      have hshorter : front.length < n := by
        rw [← hlength]
        exact Nat.lt_of_le_of_ne hway.length_le fun h => hne (hway.eq_of_length h)
      obtain ⟨z, hz, first, hfirst, hbefore, hfree⟩ := ih _ hshorter hy hfront rfl
      exact ⟨z, hz, first, hfirst, hbefore.trans hway, hfree⟩
    · exact ⟨x, hx, key, hkey, List.prefix_refl key, hshadowed⟩

theorem shadowed_snoc : Shadowed (vars ++ [x]) key ↔
    Shadowed vars key ∨ ∃ front, variableKey? x.1 = some front ∧ front <+: key ∧ front ≠ key := by
  simp [Shadowed, or_and_right, exists_or]

/-- A variable whose key stands for nothing changes nothing. -/
theorem shows_snoc_of_none (hx : variableKey? x.1 = none) :
    Shows (vars ++ [x]) key v ↔ Shows vars key v := by
  simp [Shows, shadowed_snoc, hx, or_and_right, exists_or]

/-- A variable that is stopped on its way changes nothing: whatever it would stop is stopped. -/
theorem shows_snoc_of_shadowed (hx : variableKey? x.1 = some front) (hfront : Shadowed vars front) :
    Shows (vars ++ [x]) key v ↔ Shows vars key v := by
  have hsame : Shadowed (vars ++ [x]) key ↔ Shadowed vars key := by
    rw [shadowed_snoc, or_iff_left_iff_imp]
    rintro ⟨front', hfront', hway, hne⟩
    obtain rfl : front = front' := Option.some.inj (hx.symm.trans hfront')
    obtain ⟨y, hy, first, hfirst, hbefore, -⟩ := hfront
    exact ⟨y, hy, first, hfirst, hbefore.trans hway, ne_of_prefix_of_ne hbefore hway hne⟩
  unfold Shows
  rw [hsame]
  constructor
  · rintro ⟨⟨y, hy, hkey, hv⟩, hfree⟩
    rcases List.mem_append.1 hy with hy | hy
    · exact ⟨⟨y, hy, hkey, hv⟩, hfree⟩
    · obtain rfl := List.mem_singleton.1 hy
      obtain rfl : front = key := Option.some.inj (hx.symm.trans hkey)
      exact absurd hfront hfree
  · rintro ⟨⟨y, hy, hkey, hv⟩, hfree⟩
    exact ⟨⟨y, List.mem_append_left _ hy, hkey, hv⟩, hfree⟩

/-- A variable that nothing stops shows, and stops what is below its key. -/
theorem shows_snoc_of_free (hapart : Apart (vars ++ [x])) (hx : variableKey? x.1 = some front)
    (hfront : ¬Shadowed vars front) : Shows (vars ++ [x]) key v ↔
      key = front ∧ v = readVariable x.2 ∨ ¬front <+: key ∧ Shows vars key v := by
  have hstopped : (∃ front', variableKey? x.1 = some front' ∧ front' <+: key ∧ front' ≠ key) ↔
      front <+: key ∧ front ≠ key := by simp [hx]
  unfold Shows
  rw [shadowed_snoc, hstopped]
  constructor
  · rintro ⟨⟨y, hy, hkey, hv⟩, hfree⟩
    rcases List.mem_append.1 hy with hy | hy
    · have hne : front ≠ key := by
        rintro rfl
        exact (List.pairwise_append.1 hapart).2.2 y hy x (List.mem_singleton.2 rfl) _ hkey hx
      exact .inr ⟨fun hway => hfree (.inr ⟨hway, hne⟩), ⟨y, hy, hkey, hv⟩,
        fun h => hfree (.inl h)⟩
    · obtain rfl := List.mem_singleton.1 hy
      exact .inl ⟨Option.some.inj (hkey.symm.trans hx), hv.symm⟩
  · rintro (⟨rfl, rfl⟩ | ⟨hway, ⟨y, hy, hkey, hv⟩, hfree⟩)
    · exact ⟨⟨x, by simp, hx, rfl⟩, by simp [hfront]⟩
    · exact ⟨⟨y, List.mem_append_left _ hy, hkey, hv⟩, by simp [hfree, hway]⟩

/-! ### The entries of variables -/

/-- The leaves of some entries are the variables that show. -/
def Represents (e : Entries) (vars : List Variable) : Prop :=
  ∀ key v, v.isMap = false → (follow? key (.map e) = some v ↔ Shows vars key v)

theorem Represents.stops_iff (h : Represents e vars) :
    Stops key (.map e) ↔ Shadowed vars key := by
  constructor
  · rintro ⟨front, back, u, rfl, hback, hu, hmap⟩
    obtain ⟨⟨x, hx, hfront, -⟩, -⟩ := (h front u hmap).1 hu
    exact ⟨x, hx, front, hfront, List.prefix_append front back, by simpa using hback⟩
  · rintro ⟨x, hx, front, hfront, hway, hne⟩
    obtain ⟨y, hy, first, hfirst, hbefore, hfree⟩ := exists_unshadowed hx hfront
    have hshows : Shows vars first (readVariable y.2) := ⟨⟨y, hy, hfirst, rfl⟩, hfree⟩
    have hmap := readVariable_isMap y.2
    obtain ⟨back, rfl⟩ := hbefore.trans hway
    have hback : back ≠ [] := by
      rintro rfl
      exact ne_of_prefix_of_ne hbefore hway hne (by simp)
    exact ⟨first, back, _, rfl, hback, (h first _ hmap).2 hshows, hmap⟩

/-- One more variable. -/
theorem Represents.addVariable (h : Represents e vars) (hapart : Apart (vars ++ [x])) :
    Represents (addVariable e x) (vars ++ [x]) := by
  intro key v hv
  unfold Settings.addVariable
  cases hx : variableKey? x.1 with
  | none =>
    rw [shows_snoc_of_none hx]
    exact h key v hv
  | some front =>
    by_cases hfront : Shadowed vars front
    · have hno : ¬∃ e', assign front (readVariable x.2) e = .ok e' := fun hex =>
        exists_assign_iff.1 hex (h.stops_iff.2 hfront)
      cases hassign : assign front (readVariable x.2) e with
      | ok e' => exact absurd ⟨e', hassign⟩ hno
      | error o =>
        rw [shows_snoc_of_shadowed hx hfront]
        simpa only [hassign] using h key v hv
    · obtain ⟨e', hassign⟩ : ∃ e', assign front (readVariable x.2) e = .ok e' :=
        exists_assign_iff.2 fun hstops => hfront (h.stops_iff.1 hstops)
      rw [shows_snoc_of_free hapart hx hfront, ← h key v hv]
      simp only [hassign]
      exact follow?_assign_iff hassign (variableKey?_ne_nil hx) (readVariable_isMap x.2) hv

theorem represents_nil : Represents [] [] := by
  intro key v hv
  refine iff_of_false (fun hfollow => ?_) fun ⟨⟨x, hx, _⟩, _⟩ => List.not_mem_nil hx
  cases key with
  | nil =>
    cases hfollow
    cases hv
  | cons k ks => cases hfollow

theorem environmentEntries_snoc (vars : List Variable) (x : Variable) :
    environmentEntries (vars ++ [x]) = addVariable (environmentEntries vars) x := by
  rw [environmentEntries, List.foldl_append]
  rfl

theorem environmentEntries_represents (h : Apart vars) :
    Represents (environmentEntries vars) vars := by
  induction vars using List.reverseRecOn with
  | nil => exact represents_nil
  | append_singleton vars x ih =>
    rw [environmentEntries_snoc]
    exact (ih (List.pairwise_append.1 h).1).addVariable h

theorem addVariable_filled (h : e.Filled) (x : Variable) : (addVariable e x).Filled := by
  unfold addVariable
  split
  · exact h
  · split
    · rename_i e' hassign
      exact assign_filled hassign h (.leaf (readVariable_isMap x.2))
    · exact h

theorem environmentEntries_filled (vars : List Variable) : (environmentEntries vars).Filled :=
  List.foldlRecOn (motive := Entries.Filled) vars addVariable
    (fun _ hkv => absurd hkv List.not_mem_nil) fun _ h x _ => addVariable_filled h x

/-! ### The layer of the environment -/

theorem Shows.isMap_eq_false (h : Shows vars key v) : v.isMap = false := by
  obtain ⟨⟨x, -, -, rfl⟩, -⟩ := h
  exact readVariable_isMap x.2

theorem shows_of_perm {order : List Variable} (h : order.Perm vars) :
    Shows order key v ↔ Shows vars key v := by simp only [Shows, Shadowed, h.mem_iff]

theorem apart_of_perm {order : List Variable} (h : order.Perm vars) (hapart : Apart vars) :
    Apart order := by
  have hsymm : ∀ {x y : Variable}, (∀ key, variableKey? x.1 = some key →
      variableKey? y.1 ≠ some key) → ∀ key, variableKey? y.1 = some key →
      variableKey? x.1 ≠ some key := fun hxy key hy hx => hxy key hx hy
  exact (h.pairwise_iff hsymm).2 hapart

namespace Watched

variable {reader : Yaml.Reader} {files : Files.Tree} {file : String} {w : Watched}

/-- Nothing but variables makes the layer of the environment, which is empty without any. -/
theorem start_layer (h : start reader files file vars = .ok w) :
    environmentEntries vars = [] ∧ w.layers.layer .environment = [] ∨
      environmentEntries vars ≠ [] ∧ w.layers.layer .environment =
        [(.text sectionName, .map (environmentEntries vars))] := by
  have hlayer {l : Layers} (hl : l.layer .environment = []) :
      environmentEntries vars = [] ∧ (l.withEnvironment vars).layer .environment = [] ∨
        environmentEntries vars ≠ [] ∧ (l.withEnvironment vars).layer .environment =
          [(.text sectionName, .map (environmentEntries vars))] := by
    unfold Layers.withEnvironment
    cases hvars : environmentEntries vars with
    | nil => exact .inl ⟨rfl, hl⟩
    | cons kv e => exact .inr ⟨List.cons_ne_nil kv e, Layers.layer_put_self ..⟩
  unfold start at h
  split at h
  · cases h
    exact hlayer rfl
  · obtain ⟨l, hl, rfl⟩ := Yaml.map_eq_ok h
    obtain ⟨e, -, rfl⟩ := Yaml.map_eq_ok hl
    exact hlayer rfl

/-- The leaves of the layer are those of the entries that the variables make, below the section of
the program. -/
theorem start_leaf_iff (h : start reader files file vars = .ok w) {path : List Scalar} {leaf : Value}
    (hpath : path ≠ []) : Value.Leaf path leaf (.map (w.layers.layer .environment)) ↔
      ∃ key, path = (sectionName :: key).map .text ∧
        follow? key (.map (environmentEntries vars)) = some leaf ∧ leaf.isMap = false := by
  have hproper := start_proper h .environment
  rcases start_layer h with ⟨hempty, hlayer⟩ | ⟨hne, hlayer⟩
  · -- Without entries there is nothing that is no map.
    rw [hlayer, hempty]
    refine iff_of_false (fun hleaf => ?_) ?_
    · cases hleaf with
      | here _ => exact hpath rfl
      | inside hmem _ => exact List.not_mem_nil hmem
    · rintro ⟨key, -, hfollow, hmap⟩
      cases key with
      | nil =>
        cases hfollow
        cases hmap
      | cons k ks =>
        rw [follow?_map_nil (List.cons_ne_nil k ks)] at hfollow
        cases hfollow
  · rw [hlayer] at hproper ⊢
    have hsection : (Value.map (environmentEntries vars)).Filled :=
      Value.filled_map hne (environmentEntries_filled vars)
    have hfilled : (Value.map [(.text sectionName, .map (environmentEntries vars))]).Filled := by
      refine Value.filled_map (List.cons_ne_nil _ _) fun kv hkv => ?_
      rw [List.mem_singleton.1 hkv]
      exact ⟨⟨sectionName, rfl⟩, hsection⟩
    rw [hfilled.leaf_iff hproper]
    constructor
    · rintro ⟨key, rfl, hfollow, hmap⟩
      cases key with
      | nil => exact absurd rfl hpath
      | cons k ks =>
        rw [follow?_cons_map, Entries.field?_cons] at hfollow
        split at hfollow
        · rename_i hk
          exact ⟨ks, by rw [Scalar.text.inj hk], hfollow, hmap⟩
        · cases hfollow
    · rintro ⟨key, rfl, hfollow, hmap⟩
      refine ⟨sectionName :: key, rfl, ?_, hmap⟩
      rw [follow?_cons_map, Entries.field?_cons, if_pos rfl]
      exact hfollow

/-- **Variables make the same tree in any order.** If no two variables have the same key, then in
whatever order they are read, no key stands twice in the layer of the environment, and its leaves
are the values of the variables that no other one stops on their way, each at its key below the
section of the program. An empty map would be a leaf, and so none is left behind. -/
theorem start_environment {order : List Variable} (hstart : start reader files file order = .ok w)
    (horder : order.Perm vars) (hapart : Apart vars) :
    let layer := Value.map (w.layers.layer .environment)
    layer.Proper ∧ ∀ path leaf, path ≠ [] → (Value.Leaf path leaf layer ↔
      ∃ key, path = (sectionName :: key).map .text ∧ Shows vars key leaf) := by
  intro layer
  have hrepresents := environmentEntries_represents (apart_of_perm horder hapart)
  have hshows (key : List String) (v : Value) :
      follow? key (.map (environmentEntries order)) = some v ∧ v.isMap = false ↔
        Shows vars key v := by
    constructor
    · rintro ⟨hfollow, hmap⟩
      exact (shows_of_perm horder).1 ((hrepresents key v hmap).1 hfollow)
    · intro hkey
      have hmap := hkey.isMap_eq_false
      exact ⟨(hrepresents key v hmap).2 ((shows_of_perm horder).2 hkey), hmap⟩
  refine ⟨start_proper hstart .environment, fun path leaf hpath => ?_⟩
  simp only [layer, start_leaf_iff hstart hpath, hshows]

/-- A variable that is read behind the one that it stops. -/
theorem start_environment_stopped :
    let below : Variable := ("PATHPATTERN_A__B", "1")
    let above : Variable := ("PATHPATTERN_A", "x,y")
    ∃ w, start Yaml.reader ⟨"/", "/", [], [], [], []⟩ "" [below, above] = .ok w ∧
      [below, above].Perm [above, below] ∧ Apart [above, below] ∧
      Value.Leaf [.text "pathpattern", .text "a"] (.list [.text "x", .text "y"])
        (.map (w.layers.layer .environment)) ∧
      ¬Value.Leaf [.text "pathpattern", .text "a", .text "b"] (.int 1)
        (.map (w.layers.layer .environment)) := by
  intro below above
  have hbelow : variableKey? below.1 = some ["a", "b"] := by decide +kernel
  have habove : variableKey? above.1 = some ["a"] := by decide +kernel
  have hread : readVariable above.2 = .list [.text "x", .text "y"] := by decide +kernel
  have hapart : Apart [above, below] := by
    refine List.pairwise_pair.2 fun key hkey => ?_
    rw [habove] at hkey
    rw [hbelow, ← hkey]
    exact fun h => nomatch h
  obtain ⟨w, hstart⟩ :
      ∃ w, start Yaml.reader ⟨"/", "/", [], [], [], []⟩ "" [below, above] = .ok w := ⟨_, rfl⟩
  have horder : [below, above].Perm [above, below] := .swap above below []
  obtain ⟨-, hleaves⟩ := start_environment hstart horder hapart
  refine ⟨w, hstart, horder, hapart, (hleaves _ _ (List.cons_ne_nil _ _)).2 ⟨["a"], rfl, ?_⟩, ?_⟩
  · refine ⟨⟨above, by simp, habove, hread⟩, ?_⟩
    rintro ⟨x, hx, front, hfront, hway, hne⟩
    rcases List.mem_cons.1 hx with rfl | hx
    · exact hne (Option.some.inj (hfront.symm.trans habove))
    · obtain rfl := List.mem_singleton.1 hx
      obtain rfl : front = ["a", "b"] := Option.some.inj (hfront.symm.trans hbelow)
      exact absurd hway (by decide)
  · rw [hleaves _ _ (List.cons_ne_nil _ _)]
    rintro ⟨key, hkey, -, hfree⟩
    obtain rfl : key = ["a", "b"] := by
      have htexts : Function.Injective Scalar.text := fun _ _ => Scalar.text.inj
      have htail : ["a", "b"].map Scalar.text = key.map .text := (List.cons.inj hkey).2
      exact (List.map_injective_iff.2 htexts htail).symm
    exact hfree ⟨above, List.mem_cons_self .., ["a"], habove, by decide, by decide⟩

end Watched

end Settings

end PathSieve
