import PathSieve.Proofs.Settings.Assigning

namespace PathSieve

/-!
# Settings that are changed in place

Layers are kept in one place and are changed there. An assignment makes the layer of its source if
there is none, and the maps that are missing on its way, each before it looks at the next part of
its key; a map that is held at several places is changed at all of them. When it meets a value that
is no map, all that it made is still there. But it never has made anything then: nothing is in the
way below a map that was made.

* `Settings.setInPlace`, `Settings.setInPlace_map` — an assignment part by part, and what it leaves
  behind.
* `Settings.Kept`, `Settings.Kept.carryOut` — layers in their place, and calls that are carried out
  there.
* `Settings.Kept.carryOut_agrees` — calls do in place what they do to settings as a whole.
* `Settings.Kept.run_accepted` — refused calls may be struck out of a run.
* `Settings.Kept.refused_unchanged` — what a call leaves behind that is refused.
-/

/-! ### Fields that are set twice -/

namespace Entries

variable {α : Type}

/-- A field that is set to the value it has. -/
theorem setField_of_field? {f : Entries α} {name : String} {u : α} (h : f.field? name = some u) :
    f.setField name u = f := by
  unfold field? at h
  unfold setField
  induction f with
  | nil => cases h
  | cons kv rest ih =>
    obtain ⟨k, w⟩ := kv
    rw [get?] at h
    rw [put]
    by_cases hk : k.eqv (.text name)
    · rw [if_pos hk] at h
      rw [if_pos hk, Option.some.inj h]
    · rw [if_neg hk] at h
      rw [if_neg hk, ih h]

/-- A field that is set twice has its last value. -/
theorem setField_setField (f : Entries α) (name : String) (u w : α) :
    (f.setField name u).setField name w = f.setField name w := by
  unfold setField
  induction f with
  | nil => simp [put]
  | cons kv rest ih =>
    obtain ⟨k, x⟩ := kv
    by_cases hk : k.eqv (.text name) <;> simp [put, hk, ih]

/-- A map that has a field for sure, which holds `new` if it is new, and the value of the field. -/
def ensure (f : Entries α) (name : String) (new : α) : Entries α × α :=
  match f.field? name with
  | some u => (f, u)
  | none => (f.setField name new, new)

end Entries

namespace Settings

/-! ### One assignment -/

/-- What a value is after an assignment in place: whether anything was written to it, the innermost
map with a mark that was, by its mark and its new fields, and what broke the assignment off. -/
structure Changed where
  now : Marked
  written : Bool
  rewritten : Option (Nat × Entries Marked)
  obstacle : Option Obstacle

/-- Sets a value in place. Every part of the key before the last is made sure of, and what it leads
to is changed in its turn; a value that is no map breaks the assignment off. -/
def setInPlace : List String → Marked → Marked → Changed
  | [], _, t => ⟨t, false, none, none⟩
  | [k], u, .map mark f =>
    let now := Entries.setField f k u
    ⟨.map mark now, true, mark.map (·, now), none⟩
  | [_], _, t => ⟨t, false, none, some .atAssignment⟩
  | k :: k' :: ks, u, .map mark f =>
    let (sure, inner) := Entries.ensure f k (.map none [])
    let below := setInPlace (k' :: ks) u inner
    let now := (mirrored below.rewritten sure).setField k below.now
    let written := (Entries.field? f k).isNone || below.written
    ⟨.map mark now, written,
      if written then below.rewritten.or (mark.map (·, now)) else none, below.obstacle⟩
  | _ :: _ :: _, _, t => ⟨t, false, none, some .atLookup⟩

section Assignment

variable {u t : Marked} {f old : Entries Marked} {mark : Option Nat}

/-- Nothing is in the way in an empty map, and nothing with a mark is there. -/
theorem exists_write_nil (key : List String) (u : Marked) :
    ∃ fields, write key u [] = .ok ⟨fields, none⟩ := by
  have hassign : ∃ e, assign key u.value (Marked.entries []) = .ok e := by
    refine exists_assign_iff.2 fun hstops => ?_
    obtain ⟨front, back, v, rfl, hback, hv, hmap⟩ := hstops
    cases front with
    | nil =>
      rw [follow?_nil, Option.some.injEq] at hv
      rw [← hv] at hmap
      cases hmap
    | cons k ks => cases hv
  obtain ⟨⟨fields, rewritten⟩, hw⟩ := exists_write_iff.2 hassign
  have hnone : rewritten = none := by
    have hmark := rewritten_of_write hw
    rw [markAlong?_nil] at hmark
    exact Option.map_eq_none_iff.1 hmark
  exact ⟨fields, hnone ▸ hw⟩

/-- A value that is no map is in the way at once. -/
theorem setInPlace_of_ne_map (h : ∀ mark f, t ≠ .map mark f) (k : String) (ks : List String)
    (u : Marked) :
    setInPlace (k :: ks) u t = ⟨t, false, none, some (Obstacle.before (k :: ks))⟩ := by
  cases t with
  | map mark f => exact absurd rfl (h mark f)
  | scalar s => cases ks <;> simp [setInPlace, Obstacle.before]
  | list items => cases ks <;> simp [setInPlace, Obstacle.before]

/-- **An assignment in place is done or not begun.** It comes to the same as one that is made all at
once, and if it is broken off, the map is what it was. -/
theorem setInPlace_map (k : String) (ks : List String) (u : Marked) (mark : Option Nat)
    (f : Entries Marked) : setInPlace (k :: ks) u (.map mark f) = match write (k :: ks) u f with
      | .ok w => ⟨.map mark w.fields, true, w.rewritten.or (mark.map (·, w.fields)), none⟩
      | .error o => ⟨.map mark f, false, none, some o⟩ := by
  induction ks generalizing k mark f with
  | nil => rfl
  | cons k' ks ih =>
    cases hfield : f.field? k with
    | none =>
      -- The map that is made is empty, so that the rest of the key cannot be stopped.
      obtain ⟨fields, hfields⟩ := exists_write_nil (k' :: ks) u
      have hensure : f.ensure k (.map none []) = (f.setField k (.map none []), .map none []) := by
        rw [Entries.ensure, hfield]
      simp [setInPlace, write, hfield, hensure, ih, hfields, Except.map, Written.below, mirrored,
        Entries.setField_setField]
    | some t =>
      have hensure : f.ensure k (.map none []) = (f, t) := by rw [Entries.ensure, hfield]
      -- A value that is not written to is put back as it was.
      have hback {o : Obstacle} (hbelow : setInPlace (k' :: ks) u t = ⟨t, false, none, some o⟩) :
          setInPlace (k :: k' :: ks) u (.map mark f) = ⟨.map mark f, false, none, some o⟩ := by
        simp [setInPlace, hfield, hensure, hbelow, mirrored, Entries.setField_of_field? hfield]
      by_cases hmap : ∃ inner old, t = .map inner old
      · obtain ⟨inner, old, rfl⟩ := hmap
        have hinner := ih k' inner old
        cases hwrite : write (k' :: ks) u old with
        | ok w =>
          rw [hwrite] at hinner
          simp [setInPlace, write, hfield, hensure, hinner, hwrite, Except.map, Written.below]
        | error o =>
          rw [hwrite] at hinner
          rw [hback hinner, write, hfield]
          simp only [hwrite, Except.map]
      · have hne : ∀ inner old, t ≠ .map inner old := fun inner old h => hmap ⟨inner, old, h⟩
        rw [hback (setInPlace_of_ne_map hne k' ks u), write, hfield]
        cases t with
        | map inner old => exact absurd rfl (hne inner old)
        | scalar s => rfl
        | list items => rfl

end Assignment

/-! ### Layers in their place -/

/-- Settings in their place. A source has a layer from the time when something is put into it, until
it is cleared. -/
structure Kept where
  layers : Source → Option (Entries Marked)
  watchers : List String

namespace Kept

open Watched (Call Refusal)

/-- What is kept, seen as settings: a source without a layer says nothing. -/
def view (k : Kept) : Watched := ⟨⟨fun s => (k.layers s).getD []⟩, k.watchers⟩

/-- Puts a layer in its place. -/
def put (k : Kept) (source : Source) (f : Entries Marked) : Kept :=
  { k with layers := fun s => if s = source then some f else k.layers s }

/-- Takes the layer of a source away, save the one that is built in. -/
def drop (k : Kept) (source : Source) : Kept :=
  { k with layers := fun s => if s = source ∧ s ≠ .builtIn then none else k.layers s }

/-- Makes sure that a source has a layer. -/
def ensure (k : Kept) (source : Source) : Kept :=
  if (k.layers source).isSome then k else k.put source []

/-- What a call leaves behind, why it was refused, if it was, and what the watchers were told. -/
structure Outcome where
  after : Kept
  refusal : Option Refusal
  told : List Notice

/-- A call that is over: the watchers are told of a change, unless it was refused. -/
def settle (after : Kept) (refusal : Option Refusal) : Outcome :=
  ⟨after, refusal, if refusal.isSome then [] else after.view.tell⟩

/-- Stores a layer, unless it was refused before. -/
def store (k : Kept) (source : Source) : Except Refusal (Entries Marked) → Outcome
  | .ok f => settle (k.put source f) none
  | .error r => settle k (some r)

/-- Sets a value. The source gets a layer first, and that is changed in place. -/
def assign (k : Kept) (source : Source) (key : String) (v : Value) : Outcome :=
  let changed := setInPlace (keyParts key) v.unmarked
    (.map none ((k.ensure source).view.layers.held source))
  match changed.now with
  | .map _ f => settle ((k.ensure source).put source f) (changed.obstacle.map .assign)
  | _ => settle (k.ensure source) (changed.obstacle.map .assign)

/-- Carries a call out in place. -/
def carryOut (k : Kept) : Call → Outcome
  | .loadValue source v =>
    k.store source (((layerOfValue v).map Value.unmarkedEntries).mapError .load)
  | .loadFile reader files source file =>
    k.store source ((layerOfFile reader files file).mapError .load)
  | .assign source key v => k.assign source key v
  | .clear (some source) => ⟨k.drop source, none, []⟩
  | .clear none => ⟨Source.rising.foldl drop k, none, []⟩
  | .watch name => ⟨{ k with watchers := k.watchers ++ [name] }, none, []⟩
  | .unwatch name => ⟨{ k with watchers := k.watchers.erase name }, none, []⟩

/-- What is kept after some calls. -/
def run (k : Kept) (calls : List Call) : Kept := calls.foldl (fun k c => (k.carryOut c).after) k

variable {k : Kept} {source : Source} {f : Entries Marked}

@[simp] theorem layers_put_self (k : Kept) (source : Source) (f : Entries Marked) :
    (k.put source f).layers source = some f := if_pos rfl

theorem layers_put_of_ne (k : Kept) {source s : Source} (f : Entries Marked) (h : s ≠ source) :
    (k.put source f).layers s = k.layers s := if_neg h

theorem ensure_of_some (h : k.layers source = some f) : k.ensure source = k :=
  if_pos (by rw [h, Option.isSome_some])

theorem ensure_of_none (h : k.layers source = none) : k.ensure source = k.put source [] :=
  if_neg (by simp [h])

/-- A layer that is put back where it is. -/
theorem put_of_layers (h : k.layers source = some f) : k.put source f = k := by
  have hlayers : (k.put source f).layers = k.layers := by
    funext s
    by_cases hs : s = source
    · rw [hs, layers_put_self, h]
    · exact layers_put_of_ne k f hs
  exact congrArg (Kept.mk · k.watchers) hlayers

/-- A layer that is put twice. -/
theorem put_put (k : Kept) (source : Source) (f f' : Entries Marked) :
    (k.put source f).put source f' = k.put source f' := by
  have hlayers : ((k.put source f).put source f').layers = (k.put source f').layers := by
    funext s
    by_cases hs : s = source
    · rw [hs, layers_put_self, layers_put_self]
    · rw [layers_put_of_ne _ f' hs, layers_put_of_ne k f' hs, layers_put_of_ne k f hs]
  exact congrArg (Kept.mk · k.watchers) hlayers

/-- What is put into the layer of a source does not depend on whether there was one. -/
theorem ensure_put (k : Kept) (source : Source) (f : Entries Marked) :
    (k.ensure source).put source f = k.put source f := by
  cases h : k.layers source with
  | some old => rw [ensure_of_some h]
  | none => rw [ensure_of_none h, put_put]

/-! ### What is kept, seen as settings -/

theorem view_eq {l : Layers} (h : ∀ s, (k.layers s).getD [] = l.held s) :
    k.view = ⟨l, k.watchers⟩ := by
  unfold view
  rw [funext h]

theorem held_view (h : k.layers source = some f) : k.view.layers.held source = f :=
  congrArg (Option.getD · []) h

theorem held_view_of_none (h : k.layers source = none) : k.view.layers.held source = [] :=
  congrArg (Option.getD · []) h

theorem view_put (k : Kept) (source : Source) (f : Entries Marked) :
    (k.put source f).view = { k.view with layers := k.view.layers.hold source f } := by
  refine view_eq fun s => ?_
  by_cases hs : s = source
  · rw [hs, layers_put_self, Layers.held_hold_self, Option.getD_some]
  · rw [layers_put_of_ne k f hs, Layers.held_hold_of_ne _ f hs]
    rfl

theorem view_drop (k : Kept) (source : Source) :
    (k.drop source).view = { k.view with layers := k.view.layers.clear source } := by
  refine view_eq fun s => ?_
  unfold Layers.clear
  by_cases hsource : source = .builtIn
  · have hkept : (k.drop source).layers s = k.layers s := if_neg fun h => h.2 (h.1.trans hsource)
    rw [if_pos hsource, hkept]
    rfl
  · rw [if_neg hsource]
    by_cases hs : s = source
    · have hgone : (k.drop source).layers s = none := if_pos ⟨hs, hs ▸ hsource⟩
      rw [hgone, hs, Layers.put, Layers.held_hold_self, Option.getD_none]
      rfl
    · have hkept : (k.drop source).layers s = k.layers s := if_neg fun h => hs h.1
      rw [hkept, Layers.put, Layers.held_hold_of_ne _ _ hs]
      rfl

theorem view_foldl_drop (sources : List Source) (k : Kept) : (sources.foldl drop k).view =
    { k.view with layers := sources.foldl Layers.clear k.view.layers } := by
  induction sources generalizing k with
  | nil => rfl
  | cons s sources ih => rw [List.foldl_cons, List.foldl_cons, ih, view_drop]

/-- A new layer says nothing. -/
theorem held_ensure (k : Kept) (source : Source) :
    (k.ensure source).view.layers.held source = k.view.layers.held source := by
  cases h : k.layers source with
  | some old => rw [ensure_of_some h]
  | none => rw [ensure_of_none h, view_put, Layers.held_hold_self, held_view_of_none h]

/-! ### Calls -/

/-- A call is carried out as it should be: what it makes of what is kept is what it makes of the
settings, and if it is refused, it has made nothing. -/
inductive Agrees (k : Kept) : Except Refusal (Watched × List Notice) → Outcome → Prop
  | done (after : Kept) (told : List Notice) : Agrees k (.ok (after.view, told)) ⟨after, none, told⟩
  | refused (r : Refusal) : Agrees k (.error r) ⟨k, some r, []⟩

theorem agrees_store {ε : Type} (k : Kept) (source : Source) (layer : Except ε (Entries Marked))
    (refuse : ε → Refusal) :
    Agrees k ((k.view.change (layer.map (k.view.layers.hold source))).mapError refuse)
      (k.store source (layer.mapError refuse)) := by
  cases layer with
  | error x => exact .refused (refuse x)
  | ok f =>
    have hchange : (k.view.change ((Except.ok f).map (k.view.layers.hold source))).mapError refuse =
        .ok ((k.put source f).view, (k.put source f).view.tell) := by
      rw [view_put]
      rfl
    rw [hchange]
    exact .done _ _

/-- An assignment that is broken off meets a layer that was there before. -/
theorem assign_eq (k : Kept) (source : Source) (key : String) (v : Value) :
    k.assign source key v = k.store source
      (((write (keyParts key) v.unmarked (k.view.layers.held source)).map
        Written.fields).mapError .assign) := by
  have hchanged : setInPlace (keyParts key) v.unmarked (.map none (k.view.layers.held source)) =
      match write (keyParts key) v.unmarked (k.view.layers.held source) with
      | .ok w => ⟨.map none w.fields, true, w.rewritten, none⟩
      | .error o => ⟨.map none (k.view.layers.held source), false, none, some o⟩ := by
    obtain ⟨part, parts, hkey⟩ := List.exists_cons_of_ne_nil (keyParts_ne_nil key)
    rw [hkey, setInPlace_map]
    simp only [Option.map_none, Option.or_none]
  rw [assign, held_ensure, hchanged]
  cases hwrite : write (keyParts key) v.unmarked (k.view.layers.held source) with
  | ok w => exact congrArg (settle · none) (ensure_put k source w.fields)
  | error o =>
    cases hlayer : k.layers source with
    | none =>
      obtain ⟨fields, hfields⟩ := exists_write_nil (keyParts key) v.unmarked
      rw [held_view_of_none hlayer, hfields] at hwrite
      cases hwrite
    | some f =>
      have hput : (k.ensure source).put source (k.view.layers.held source) = k := by
        rw [ensure_put, held_view hlayer, put_of_layers hlayer]
      exact congrArg (settle · (some (.assign o))) hput

/-- **Every call is carried out in place as it should be.** -/
theorem carryOut_agrees (k : Kept) (c : Call) : Agrees k (c.outcome k.view) (k.carryOut c) := by
  have hmap {α β γ ε : Type} {x : Except ε α} {g : α → β} {h : β → γ} :
      (x.map g).map h = x.map fun a => h (g a) := by
    cases x with
    | error e => rfl
    | ok a => rfl
  cases c with
  | loadValue source v =>
    have hagrees := agrees_store k source ((layerOfValue v).map Value.unmarkedEntries) .load
    rw [hmap] at hagrees
    exact hagrees
  | loadFile reader files source file =>
    exact agrees_store k source (layerOfFile reader files file) .load
  | assign source key v =>
    have hagrees := agrees_store k source
      ((write (keyParts key) v.unmarked (k.view.layers.held source)).map Written.fields) .assign
    rw [hmap, ← assign_eq] at hagrees
    exact hagrees
  | clear source =>
    cases source with
    | some source =>
      have hdone := Agrees.done (k := k) (k.drop source) []
      rw [view_drop] at hdone
      exact hdone
    | none =>
      have hdone := Agrees.done (k := k) (Source.rising.foldl drop k) []
      rw [view_foldl_drop] at hdone
      exact hdone
  | watch name => exact .done { k with watchers := k.watchers ++ [name] } []
  | unwatch name => exact .done { k with watchers := k.watchers.erase name } []

section Refusals

variable {c : Call} {r : Refusal} {outcome : Except Refusal (Watched × List Notice)}
  {made : Outcome}

theorem Agrees.of_error (h : Agrees k (.error r) made) : made = ⟨k, some r, []⟩ := by
  cases h
  rfl

theorem Agrees.refusal_eq_some_iff (h : Agrees k outcome made) :
    made.refusal = some r ↔ outcome = .error r := by
  cases h with
  | done after told => simp
  | refused r' => simp

theorem carryOut_of_refused (h : c.outcome k.view = .error r) : k.carryOut c = ⟨k, some r, []⟩ :=
  Agrees.of_error (h ▸ carryOut_agrees k c)

/-- A call is refused in place just when the settings refuse it. -/
theorem refusal_eq_some_iff : (k.carryOut c).refusal = some r ↔ c.outcome k.view = .error r :=
  (carryOut_agrees k c).refusal_eq_some_iff

theorem view_after (k : Kept) (c : Call) : (k.carryOut c).after.view = k.view.call c := by
  have hagrees := carryOut_agrees k c
  unfold Watched.call
  generalize c.outcome k.view = outcome, k.carryOut c = made at hagrees ⊢
  cases hagrees with
  | done after told => rfl
  | refused r => rfl

/-- An assignment is refused just when its key leads through a value that is no map. -/
theorem assign_refused_iff {key : String} {v : Value} :
    (∃ r, (k.carryOut (.assign source key v)).refusal = some r) ↔
      Stops (keyParts key) (.map (k.view.layers.layer source)) := by
  have hwrite : (∃ w, write (keyParts key) v.unmarked (k.view.layers.held source) = .ok w) ↔
      ¬Stops (keyParts key) (.map (k.view.layers.layer source)) :=
    exists_write_iff.trans exists_assign_iff
  rw [carryOut, assign_eq, ← not_iff_not, ← hwrite]
  cases write (keyParts key) v.unmarked (k.view.layers.held source) with
  | ok w => exact iff_of_true (fun ⟨_, hr⟩ => nomatch hr) ⟨w, rfl⟩
  | error o => exact iff_of_false (fun h => h ⟨.assign o, rfl⟩) fun ⟨_, hw⟩ => nomatch hw

end Refusals

/-! ### Runs -/

theorem view_run (k : Kept) (calls : List Call) : (k.run calls).view = k.view.run calls := by
  induction calls generalizing k with
  | nil => rfl
  | cons c calls ih => exact (ih _).trans (congrArg (Watched.run · calls) (view_after k c))

/-- The calls of a run that are not refused. -/
def accepted (k : Kept) : List Call → List Call
  | [] => []
  | c :: calls =>
    if (k.carryOut c).refusal.isSome then k.accepted calls
    else c :: (k.carryOut c).after.accepted calls

/-- Refused calls may be struck out of a run. -/
theorem run_accepted (k : Kept) (calls : List Call) : k.run (k.accepted calls) = k.run calls := by
  induction calls generalizing k with
  | nil => rfl
  | cons c calls ih =>
    rw [accepted]
    cases hrefusal : (k.carryOut c).refusal with
    | none => exact ih (k.carryOut c).after
    | some r =>
      have hmade : (k.carryOut c).after = k := by
        rw [carryOut_of_refused (refusal_eq_some_iff.1 hrefusal)]
      exact (ih k).trans (congrArg (run · calls) hmade.symm)

/-- **A call that is refused changes nothing.** Whatever is kept after some calls, one that is refused
leaves the layer of every source as it was, and with them what is merged, and the watchers, who are
told nothing, though it may have made a layer and some maps before it was refused. It is refused just
when the settings that were reached by these calls refuse it. -/
theorem refused_unchanged (k : Kept) (calls : List Call) {c : Call} {r : Refusal}
    (h : ((k.run calls).carryOut c).refusal = some r) :
    let before := k.run calls
    let made := before.carryOut c
    (∀ source, made.after.layers source = before.layers source) ∧
      made.after.view.layers.merged = before.view.layers.merged ∧
      made.after.watchers = before.watchers ∧
      made.told = [] ∧
      before.view = k.view.run calls ∧ c.outcome (k.view.run calls) = .error r := by
  intro before made
  have houtcome := refusal_eq_some_iff.1 h
  have hmade : made = ⟨before, some r, []⟩ := carryOut_of_refused houtcome
  rw [hmade]
  refine ⟨fun _ => rfl, rfl, rfl, rfl, view_run k calls, ?_⟩
  rw [← view_run]
  exact houtcome

/-- An assignment that makes its way through a number. -/
theorem refused_unchanged_below_number :
    let k : Kept := ⟨fun | .builtIn => some (Layers.initial.held .builtIn) | _ => none, []⟩
    let calls : List Call := [.watch "panel", .assign .runtime "a.b" (.int 5)]
    let c : Call := .assign .runtime "a.b.c.d" (.int 7)
    let made := (k.run calls).carryOut c
    made.refusal = some (.assign .atLookup) ∧
      (∀ source, made.after.layers source = (k.run calls).layers source) ∧
      made.after.watchers = ["panel"] := by
  intro k calls c made
  have hab : keyParts "a.b" = ["a", "b"] := by decide +kernel
  have habcd : keyParts "a.b.c.d" = ["a", "b", "c", "d"] := by decide +kernel
  have hrun : k.run calls = ⟨fun
      | .builtIn => some (Layers.initial.held .builtIn)
      | .runtime => some [(.text "a", .map none [(.text "b", .scalar (.int 5))])]
      | _ => none, ["panel"]⟩ := by
    simp only [calls, run, List.foldl_cons, List.foldl_nil, carryOut, assign, hab]
    refine congrArg (Kept.mk · ["panel"]) (funext fun s => ?_)
    cases s <;> rfl
  have hrefusal : made.refusal = some (.assign .atLookup) := by
    simp only [made, c, hrun, carryOut, assign, habcd]
    rfl
  obtain ⟨hlayers, -, hwatchers, -⟩ := refused_unchanged k calls hrefusal
  exact ⟨hrefusal, hlayers, hwatchers.trans (by rw [hrun])⟩

end Kept

end Settings

end PathSieve
