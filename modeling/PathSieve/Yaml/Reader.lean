import PathSieve.Files.Basic
import PathSieve.Value.Proper
import PathSieve.Yaml.Document

namespace PathSieve.Yaml

/-!
# Readers

A reader makes a value of the content of a file. Programs are given one, and all they rely on is
that no map in the value has a key twice.

* `Reader` — readers of files.
* `document_proper` — what a document stands for is proper.
* `reader` — the reader of this program.
-/

/-- A reader of files: the value that it makes of a content is proper. -/
structure Reader where
  read : Files.Content → Reading Marked
  proper : ∀ {content : Files.Content} {u : Marked}, read content = .ok u → u.value.Proper

/-! ### Documents -/

section Results

variable {α β ε δ : Type}

theorem map_eq_ok {x : Except ε α} {f : α → β} {b : β} (h : x.map f = .ok b) :
    ∃ a, x = .ok a ∧ f a = b := by
  cases x with
  | error d => cases h
  | ok a =>
    cases h
    exact ⟨a, rfl, rfl⟩

theorem mapError_eq_ok {x : Except ε α} {f : ε → δ} {a : α} (h : x.mapError f = .ok a) :
    x = .ok a := by
  cases x with
  | error d => cases h
  | ok a =>
    cases h
    rfl

/-- A result that is there, by evaluation. -/
theorem eq_ok_getD {x : Except ε α} (h : x.toOption.isSome) (default : α) :
    x = .ok (x.toOption.getD default) := by
  cases x with
  | error d => cases h
  | ok a => rfl

theorem both_eq_ok {x : Valued α} {y : Valued β} {p : α × β} (h : both x y = .ok p) :
    x = .ok p.1 ∧ y = .ok p.2 := by
  cases x with
  | error d =>
    cases y with
    | error e => cases h
    | ok b => cases h
  | ok a =>
    cases y with
    | error e => cases h
    | ok b =>
      cases h
      exact ⟨rfl, rfl⟩

theorem consBoth_eq_ok {x : Valued α} {xs : Valued (List α)} {zs : List α}
    (h : consBoth x xs = .ok zs) : ∃ z rest, x = .ok z ∧ xs = .ok rest ∧ zs = z :: rest := by
  obtain ⟨p, hp, rfl⟩ := map_eq_ok h
  obtain ⟨hx, hxs⟩ := both_eq_ok hp
  exact ⟨p.1, p.2, hx, hxs, rfl⟩

theorem appendBoth_eq_ok {xs ys : Valued (List α)} {zs : List α} (h : appendBoth xs ys = .ok zs) :
    ∃ us vs, xs = .ok us ∧ ys = .ok vs ∧ zs = us ++ vs := by
  obtain ⟨p, hp, rfl⟩ := map_eq_ok h
  obtain ⟨hxs, hys⟩ := both_eq_ok hp
  exact ⟨p.1, p.2, hxs, hys, rfl⟩

end Results

theorem dated?_proper {cs : List Char} {r : Reading Scalar} (hr : dated? cs = some r) {s : Scalar}
    (h : r = .ok s) : s.Proper := by
  unfold dated? at hr
  split at hr
  · cases hr
    obtain ⟨d, -, rfl⟩ := map_eq_ok (mapError_eq_ok h)
    exact trivial
  · obtain ⟨m, -, rfl⟩ := Option.map_eq_some_iff.1 hr
    obtain ⟨moment, -, rfl⟩ := map_eq_ok (mapError_eq_ok h)
    exact trivial

theorem plainScalar_proper {text : String} {s : Scalar} (h : plainScalar text = .ok s) :
    s.Proper := by
  unfold plainScalar at h
  split at h
  · cases h
  · split at h
    · cases h
      exact trivial
    · split at h
      · cases h
        exact trivial
      · split at h
        · obtain ⟨d, -, rfl⟩ := map_eq_ok h
          exact trivial
        · split at h
          · obtain ⟨n, -, rfl⟩ := map_eq_ok h
            exact trivial
          · cases hdated : dated? text.toList with
            | none =>
              rw [hdated] at h
              cases h
              exact trivial
            | some r =>
              rw [hdated] at h
              exact dated?_proper hdated h

namespace Node

mutual

theorem valueAt_proper (depth : Nat) :
    ∀ (n : Node) {u : Marked}, n.valueAt depth = .ok u → u.value.Proper
  | .plain text, u, h => by
    rw [valueAt] at h
    obtain ⟨s, hs, rfl⟩ := map_eq_ok h
    exact .scalar (plainScalar_proper (mapError_eq_ok hs))
  | .quoted text, u, h => by
    rw [valueAt] at h
    cases h
    exact .scalar (Scalar.ofPoints_proper text)
  | .sequence items, u, h => by
    rw [valueAt] at h
    obtain ⟨us, hus, rfl⟩ := map_eq_ok h
    rw [Marked.value, Marked.values_eq_map]
    exact .list (List.forall_mem_map.2 (itemsAt_proper (depth + 1) items hus))
  | .mapping start entries, u, h => by
    rw [valueAt] at h
    split at h
    · obtain ⟨es, hes, rfl⟩ := map_eq_ok h
      obtain ⟨lent, own, hlent, hown, rfl⟩ := appendBoth_eq_ok hes
      rw [Marked.value, Marked.entries_ofList, Marked.entries_eq_map]
      refine Entries.ofList_proper (List.forall_mem_map.2 fun kv hkv => ?_)
      rcases List.mem_append.1 hkv with hkv | hkv
      · exact lentAt_proper (depth + 1) entries hlent kv hkv
      · exact ownAt_proper (depth + 1) entries hown kv hkv
    · cases h

theorem itemsAt_proper (depth : Nat) :
    ∀ (items : List Node) {us : List Marked}, itemsAt depth items = .ok us →
      ∀ u ∈ us, u.value.Proper
  | [], us, h => by
    rw [itemsAt] at h
    cases h
    exact fun v hv => absurd hv List.not_mem_nil
  | n :: rest, us, h => by
    rw [itemsAt] at h
    obtain ⟨u, more, hu, hmore, rfl⟩ := consBoth_eq_ok h
    exact List.forall_mem_cons.2 ⟨valueAt_proper depth n hu, itemsAt_proper depth rest hmore⟩

theorem ownAt_proper (depth : Nat) : ∀ (entries : List (Node × Node))
    {es : List (Scalar × Marked)}, ownAt depth entries = .ok es → ∀ kv ∈ es, kv.2.value.Proper
  | [], es, h => by
    rw [ownAt] at h
    cases h
    exact fun v hv => absurd hv List.not_mem_nil
  | (k, n) :: rest, es, h => by
    rw [ownAt] at h
    split at h
    · exact ownAt_proper depth rest h
    · obtain ⟨kv, more, hkv, hmore, rfl⟩ := consBoth_eq_ok h
      have hv := (both_eq_ok hkv).2
      exact List.forall_mem_cons.2 ⟨valueAt_proper depth n hv, ownAt_proper depth rest hmore⟩

theorem lentAt_proper (depth : Nat) : ∀ (entries : List (Node × Node))
    {es : List (Scalar × Marked)}, lentAt depth entries = .ok es → ∀ kv ∈ es, kv.2.value.Proper
  | [], es, h => by
    rw [lentAt] at h
    cases h
    exact fun v hv => absurd hv List.not_mem_nil
  | (k, n) :: rest, es, h => by
    rw [lentAt] at h
    split at h
    · obtain ⟨lent, more, hlent, hmore, rfl⟩ := appendBoth_eq_ok h
      intro kv hkv
      rcases List.mem_append.1 hkv with hkv | hkv
      · exact lentBy_proper depth n hlent kv hkv
      · exact lentAt_proper depth rest hmore kv hkv
    · exact lentAt_proper depth rest h

theorem lentBy_proper (depth : Nat) : ∀ (n : Node) {es : List (Scalar × Marked)},
    n.lentBy depth = .ok es → ∀ kv ∈ es, kv.2.value.Proper
  | .plain text, es, h => by
    rw [lentBy] at h
    cases h
    exact fun v hv => absurd hv List.not_mem_nil
  | .quoted text, es, h => by
    rw [lentBy] at h
    cases h
    exact fun v hv => absurd hv List.not_mem_nil
  | .sequence items, es, h => by
    rw [lentBy] at h
    exact lentByAll_proper depth items h
  | .mapping start entries, es, h => by
    rw [lentBy] at h
    obtain ⟨lent, own, hlent, hown, rfl⟩ := appendBoth_eq_ok h
    intro kv hkv
    rcases List.mem_append.1 hkv with hkv | hkv
    · exact lentAt_proper depth entries hlent kv hkv
    · exact ownAt_proper depth entries hown kv hkv

theorem lentByAll_proper (depth : Nat) : ∀ (items : List Node) {es : List (Scalar × Marked)},
    lentByAll depth items = .ok es → ∀ kv ∈ es, kv.2.value.Proper
  | [], es, h => by
    rw [lentByAll] at h
    cases h
    exact fun v hv => absurd hv List.not_mem_nil
  | n :: rest, es, h => by
    rw [lentByAll] at h
    obtain ⟨more, lent, hmore, hlent, rfl⟩ := appendBoth_eq_ok h
    intro kv hkv
    rcases List.mem_append.1 hkv with hkv | hkv
    · exact lentByAll_proper depth rest hmore kv hkv
    · exact lentBy_proper depth n hlent kv hkv

end

end Node

/-- What a document stands for is proper. -/
theorem document_proper {cs : List Char} {u : Marked} (h : document cs = .ok u) :
    u.value.Proper := by
  unfold document at h
  cases hn : Node.ofText cs with
  | error e =>
    rw [hn] at h
    cases h
  | ok n =>
    rw [hn] at h
    exact n.valueAt_proper 0 (mapError_eq_ok h)

/-! ### The reader of the program -/

/-- The text of a content, if it is one. -/
def textOf : Files.Content → Reading String
  | .text s => .ok s
  | .bytes _ => .error .undecodable

/-- The reader of this program, which takes a content for a document in YAML. It is narrower than
the language: tags and block scalars are malformed for it, and so is an alias inside the node of its
own anchor, which would make a map a part of itself; it has no sets and no binary data, no document
is too deep for it, and what is no text is refused for that before it is looked at. -/
def reader : Reader where
  read content := do document (Files.unixLines (← textOf content).toList)
  proper := by
    intro content u h
    cases content with
    | text s => exact document_proper h
    | bytes bs => cases h

end PathSieve.Yaml
