import PathSieve.Text.Split
import PathSieve.Value.Marked

namespace PathSieve.Settings

/-!
# Keys

A key leads through nested maps, one text for each of them.

* `keyParts` — the parts of a key that is written with points.
* `follow?` — the value that a key leads to.
* `assign` — the entries with another value at the end of a key; maps that are missing on the way
  are made, and any other value on the way is an obstacle.
* `write` — the same where maps can be held at several places, at all of which it is seen.
-/

/-- The parts of a key that is written with points. -/
def keyParts (key : String) : List String :=
  (Text.splitWhere (· = '.') key.toList).map String.ofList

/-- The value that a key leads to. -/
def follow? : List String → Value → Option Value
  | [], v => some v
  | k :: ks, .map entries => (Entries.field? entries k).bind (follow? ks)
  | _ :: _, _ => none

@[simp] theorem follow?_nil (v : Value) : follow? [] v = some v := rfl

@[simp] theorem follow?_cons_map (k : String) (ks : List String) (e : Entries) :
    follow? (k :: ks) (.map e) = (e.field? k).bind (follow? ks) := rfl

/-- What stands in the way of an assignment: a value that is no map where the last part of a key
is to be set, or where a part before the last is to be looked up. -/
inductive Obstacle where
  | atAssignment
  | atLookup
  deriving DecidableEq, Repr

/-- The obstacle at a value that is no map, where `rest` is the key from there. -/
def Obstacle.before (rest : List String) : Obstacle :=
  if rest.length ≤ 1 then .atAssignment else .atLookup

/-- The entries with a value set at the end of a key. -/
def assign : List String → Value → Entries → Except Obstacle Entries
  | [], _, e => .ok e
  | [k], v, e => .ok (e.setField k v)
  | k :: k' :: ks, v, e =>
    match e.field? k with
    | none => (assign (k' :: ks) v []).map fun inner => e.setField k (.map inner)
    | some (.map old) => (assign (k' :: ks) v old).map fun inner => e.setField k (.map inner)
    | some _ => .error (Obstacle.before (k' :: ks))

/-! ### Maps that are held at several places -/

/-- What an assignment makes of the fields of a map, and the innermost map with a mark on its way,
by its mark and its new fields. -/
structure Written where
  fields : Entries Marked
  rewritten : Option (Nat × Entries Marked)

/-- The fields of a map when a map with a mark has been rewritten, if one has. -/
def mirrored (rewritten : Option (Nat × Entries Marked)) (f : Entries Marked) : Entries Marked :=
  match rewritten with
  | none => f
  | some (mark, new) => Marked.mirrorFields mark new f

/-- What comes of an assignment in the map with the given mark that a field holds. -/
def Written.below (w : Written) (f : Entries Marked) (k : String) (mark : Option Nat) : Written :=
  let rewritten := w.rewritten.or (mark.map (·, w.fields))
  ⟨(mirrored rewritten f).setField k (.map mark w.fields), rewritten⟩

/-- The fields with a value set at the end of a key, and what was rewritten on the way. -/
def write : List String → Marked → Entries Marked → Except Obstacle Written
  | [], _, f => .ok ⟨f, none⟩
  | [k], u, f => .ok ⟨f.setField k u, none⟩
  | k :: k' :: ks, u, f =>
    match f.field? k with
    | none => (write (k' :: ks) u []).map (·.below f k none)
    | some (.map mark old) => (write (k' :: ks) u old).map (·.below f k mark)
    | some _ => .error (Obstacle.before (k' :: ks))

/-! ### Seeing an assignment -/

/-- An assignment that succeeds is seen by a look at the same key. -/
theorem follow?_assign {key : List String} {v : Value} {e e' : Entries} (hne : key ≠ [])
    (h : assign key v e = .ok e') : follow? key (.map e') = some v := by
  induction key generalizing e e' with
  | nil => exact absurd rfl hne
  | cons k ks ih =>
    cases ks with
    | nil =>
      simp only [assign, Except.ok.injEq] at h
      subst h
      simp
    | cons k' ks =>
      have step {old : Entries}
          (h' : ((assign (k' :: ks) v old).map fun inner => e.setField k (.map inner)) = .ok e') :
          follow? (k :: k' :: ks) (.map e') = some v := by
        cases ha : assign (k' :: ks) v old with
        | error o => simp [ha, Except.map] at h'
        | ok inner =>
          simp only [ha, Except.map, Except.ok.injEq] at h'
          subst h'
          simpa using ih (by simp) ha
      simp only [assign] at h
      split at h
      · exact step h
      · exact step h
      · cases h

end PathSieve.Settings
