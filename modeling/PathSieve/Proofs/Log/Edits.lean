import Mathlib.Data.List.Nodup
import PathSieve.Log.Loggers

namespace PathSieve.Log

open Loggers (channelName)

/-!
# What is done to channels

The level of a channel is the one that was put on its name last, and an output is attached to it if
what was done last about it was to attach it.

* `Edit`, `Loggers.edit` — what can be done to the channel of a name.
* `lastOf` — what was last done to it.
* `Channel.Follows`, `Loggers.Follows.edit`, `Loggers.Follows.renew` — channels that are as they were
  made to be.
-/

/-! ### Edits -/

/-- Something that is done to a channel: its level is set, its outputs are replaced, or one output is
attached or removed. -/
inductive Edit where
  | level (level : Level)
  | outputs (outputs : List Output)
  | attach (o : Output)
  | remove (o : Output)

namespace Edit

/-- A channel after an edit. -/
def apply : Edit → Channel → Channel
  | .level v, c => { c with level := v }
  | .outputs os, c => .ofOutputs c.level os
  | .attach o, c => c.attach o
  | .remove o, c => c.detach o

/-- The level that an edit puts on a name. -/
def level? : Edit → Option Level
  | .level v => some v
  | _ => none

/-- What an edit does about an output: it attaches it or takes it away, if it does anything. -/
def attaches? (o : Output) : Edit → Option Bool
  | .level _ => none
  | .outputs os => some (o ∈ os)
  | .attach o' => if o' = o then some true else none
  | .remove o' => if o' = o then some false else none

end Edit

/-- Edits of channels by name, the earliest first. -/
abbrev Ledger := List (String × Edit)

/-- What the last of some edits says that says anything about the channel of a name. -/
def lastOf {α : Type} (edits : Ledger) (name : String) (read : Edit → Option α) : Option α :=
  edits.reverse.findSome? fun x => if channelName x.1 = channelName name then read x.2 else none

theorem lastOf_append {α : Type} (edits more : Ledger) (name : String) (read : Edit → Option α) :
    lastOf (edits ++ more) name read = (lastOf more name read).or (lastOf edits name read) := by
  rw [lastOf, List.reverse_append, List.findSome?_append]
  rfl

theorem lastOf_singleton {α : Type} (x : String × Edit) (name : String) (read : Edit → Option α) :
    lastOf [x] name read =
      if channelName x.1 = channelName name then read x.2 else none := by
  rw [lastOf, List.reverse_singleton, List.findSome?_singleton]

theorem lastOf_congr {α : Type} {name name' : String} (h : channelName name = channelName name')
    (edits : Ledger) (read : Edit → Option α) :
    lastOf edits name read = lastOf edits name' read := by
  rw [lastOf, h, lastOf]

/-! ### Channels -/

/-- A channel is as some edits have made it. -/
structure Channel.Follows (c : Channel) (edits : Ledger) (name : String) : Prop where
  level_eq : c.level = (lastOf edits name Edit.level?).getD .warning
  mem_iff : ∀ o, o ∈ c.outputs ↔ lastOf edits name (Edit.attaches? o) = some true
  nodup : c.outputs.Nodup

namespace Channel

variable {c : Channel} {edits : Ledger} {name : String} {o x : Output}

theorem nodup_attach (h : c.outputs.Nodup) (o : Output) : (c.attach o).outputs.Nodup := by
  unfold attach
  split
  · exact h
  · next hnew => exact List.concat_eq_append ▸ h.concat hnew

theorem ofOutputs_level (level : Level) (outputs : List Output) :
    (ofOutputs level outputs).level = level :=
  List.foldlRecOn (motive := fun c : Channel => c.level = level) outputs attach rfl
    fun c hc o _ => (level_attach c o).trans hc

theorem nodup_ofOutputs (level : Level) (outputs : List Output) :
    (ofOutputs level outputs).outputs.Nodup :=
  List.foldlRecOn (motive := fun c : Channel => c.outputs.Nodup) outputs attach List.nodup_nil
    fun _ hc o _ => nodup_attach hc o

theorem Follows.congr (h : c.Follows edits name) {other : String}
    (hname : channelName other = channelName name) : c.Follows edits other := by
  constructor
  · rw [lastOf_congr hname]
    exact h.level_eq
  · intro o
    rw [lastOf_congr hname]
    exact h.mem_iff o
  · exact h.nodup

/-- An edit of a channel is the last one from then on. -/
theorem Follows.apply (h : c.Follows edits name) (x : Edit) :
    (x.apply c).Follows (edits ++ [(name, x)]) name := by
  have hlast {α : Type} (read : Edit → Option α) :
      lastOf (edits ++ [(name, x)]) name read = (read x).or (lastOf edits name read) := by
    rw [lastOf_append, lastOf_singleton, if_pos rfl]
  constructor
  · rw [hlast]
    cases x with
    | level level => rfl
    | outputs outputs => exact (ofOutputs_level ..).trans h.level_eq
    | attach o => exact (level_attach ..).trans h.level_eq
    | remove o => exact h.level_eq
  · intro o
    rw [hlast]
    cases x with
    | level level => exact h.mem_iff o
    | outputs outputs =>
      show o ∈ (ofOutputs c.level outputs).outputs ↔ some (decide (o ∈ outputs)) = some true
      rw [mem_ofOutputs]
      simp
    | attach o' =>
      show o ∈ (c.attach o').outputs ↔
        (if o' = o then some true else none).or (lastOf edits name (Edit.attaches? o)) = some true
      rw [mem_attach, h.mem_iff]
      by_cases ho : o' = o
      · simp [ho]
      · simp [ho, Ne.symm ho]
    | remove o' =>
      show o ∈ c.outputs.erase o' ↔
        (if o' = o then some false else none).or (lastOf edits name (Edit.attaches? o)) = some true
      rw [h.nodup.mem_erase_iff, h.mem_iff]
      by_cases ho : o' = o
      · simp [ho]
      · simp [ho, Ne.symm ho]
  · cases x with
    | level level => exact h.nodup
    | outputs outputs => exact nodup_ofOutputs ..
    | attach o => exact nodup_attach h.nodup o
    | remove o => exact h.nodup.erase o

/-- An edit of another channel says nothing about this one. -/
theorem Follows.of_ne (h : c.Follows edits name) {x : String × Edit}
    (hne : channelName x.1 ≠ channelName name) : c.Follows (edits ++ [x]) name := by
  have hlast {α : Type} (read : Edit → Option α) :
      lastOf (edits ++ [x]) name read = lastOf edits name read := by
    rw [lastOf_append, lastOf_singleton, if_neg hne, Option.none_or]
  constructor
  · rw [hlast]
    exact h.level_eq
  · intro o
    rw [hlast]
    exact h.mem_iff o
  · exact h.nodup

end Channel

/-! ### Loggers -/

namespace Loggers

variable {l : Loggers} {edits : Ledger}

theorem channel_setChannel_of_ne {name other : String} (h : channelName other ≠ channelName name)
    (l : Loggers) (c : Channel) : (l.setChannel name c).channel other = l.channel other := by
  have hfilter : (l.channels.filter (·.1 ≠ channelName name)).lookup (channelName other) =
      l.channels.lookup (channelName other) := by
    induction l.channels with
    | nil => rfl
    | cons x channels ih =>
      by_cases hx : x.1 = channelName name
      · rw [List.filter_cons_of_neg (by simpa using hx), ih, List.lookup_cons,
          beq_false_of_ne (hx ▸ h)]
      · rw [List.filter_cons_of_pos (by simpa using hx), List.lookup_cons, List.lookup_cons, ih]
  rw [channel, setChannel, List.lookup_cons, beq_false_of_ne h, hfilter, channel]

theorem channel_congr {name other : String} (h : channelName other = channelName name)
    (l : Loggers) : l.channel other = l.channel name := by rw [channel, h, channel]

/-- The loggers after an edit of the channel of a name. -/
def edit (l : Loggers) (x : String × Edit) : Loggers := l.setChannel x.1 (x.2.apply (l.channel x.1))

@[simp] theorem channel_edit (l : Loggers) (x : String × Edit) :
    (l.edit x).channel x.1 = x.2.apply (l.channel x.1) := channel_setChannel ..

theorem channel_edit_of_ne {x : String × Edit} {other : String}
    (h : channelName other ≠ channelName x.1) (l : Loggers) :
    (l.edit x).channel other = l.channel other := channel_setChannel_of_ne h ..

/-- All channels are as some edits have made them. -/
def Follows (l : Loggers) (edits : Ledger) : Prop :=
  ∀ name, (l.channel name).Follows edits name

theorem follows_empty : empty.Follows [] := fun _ =>
  ⟨rfl, fun _ => iff_of_false List.not_mem_nil (fun h => nomatch h), List.nodup_nil⟩

theorem Follows.edit (h : l.Follows edits) (x : String × Edit) :
    (l.edit x).Follows (edits ++ [x]) := by
  intro name
  by_cases hname : channelName name = channelName x.1
  · rw [channel_congr hname, channel_edit]
    exact ((h x.1).apply x.2).congr hname
  · rw [channel_edit_of_ne hname]
    exact (h name).of_ne (Ne.symm hname)

/-- What is done to a channel that gets a level and outputs. -/
def renewal (name : String) (level : Level) (outputs : List Output) : Ledger :=
  [(name, .level level), (name, .outputs outputs)]

theorem Follows.renew (h : l.Follows edits) (name : String) (level : Level)
    (outputs : List Output) : (l.setChannel name (.ofOutputs level outputs)).Follows
      (edits ++ renewal name level outputs) := by
  have hedited := (h.edit (name, .level level)).edit (name, .outputs outputs)
  rw [List.append_assoc] at hedited
  intro other
  have hchannel : (l.setChannel name (.ofOutputs level outputs)).channel other =
      ((l.edit (name, .level level)).edit (name, .outputs outputs)).channel other := by
    by_cases hother : channelName other = channelName name
    · rw [channel_congr hother, channel_congr hother, channel_setChannel, channel_edit,
        channel_edit]
      rfl
    · rw [channel_setChannel_of_ne hother, channel_edit_of_ne hother, channel_edit_of_ne hother]
  rw [hchannel]
  exact hedited other

end Loggers

end PathSieve.Log
