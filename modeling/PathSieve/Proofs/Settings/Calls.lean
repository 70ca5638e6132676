import PathSieve.Proofs.Settings.Loading
import PathSieve.Proofs.Settings.Precedence
import PathSieve.Proofs.Settings.Sharing
import PathSieve.Settings.Watched

namespace PathSieve

/-!
# Runs of calls on settings

What is done with watched settings from their start on: values and files are loaded, values are
set, sources are cleared, and watchers come and go. Whatever is done with them, no map in any layer
ever has a key twice.

* `Settings.Watched.Call`, `Settings.Watched.call`, `Settings.Watched.run` — calls and their effect;
  one that is refused changes nothing.
* `Settings.assign_proper`, `Settings.environmentEntries_proper` — assignments and variables make
  proper entries.
* `Settings.Watched.call_proper`, `Settings.Watched.run_proper` — one call, and every run, keep the
  layers proper.
-/

namespace Settings

/-! ### Plain assignments -/

theorem assign_proper {key : List String} {v : Value} (hv : v.Proper) {e e' : Entries}
    (h : (Value.map e).Proper) (hassign : assign key v e = .ok e') : (Value.map e').Proper := by
  induction key generalizing e e' with
  | nil =>
    cases hassign
    exact h
  | cons k ks ih =>
    cases ks with
    | nil =>
      cases hassign
      exact Entries.setField_proper h hv k
    | cons k' ks =>
      -- A map on the way is the old one or a new one, and both are proper.
      have hinner {old : Entries} (hold : (Value.map old).Proper)
          (hmap : ((assign (k' :: ks) v old).map fun inner => e.setField k (.map inner)) = .ok e') :
          (Value.map e').Proper := by
        obtain ⟨inner, hdone, rfl⟩ := Yaml.map_eq_ok hmap
        exact Entries.setField_proper h (ih hold hdone) k
      simp only [assign] at hassign
      split at hassign
      · exact hinner Value.proper_nil hassign
      · rename_i old hold
        exact hinner (h.field hold) hassign
      · cases hassign

/-! ### Variables -/

theorem readVariable_proper (s : String) : (readVariable s).Proper := by
  have htexts : ∀ items : List String, (Value.list (items.map .text)).Proper := by
    intro items
    refine .list fun v hv => ?_
    obtain ⟨item, -, rfl⟩ := List.mem_map.1 hv
    exact .scalar trivial
  unfold readVariable
  split
  · exact .scalar trivial
  · split
    · exact .scalar trivial
    · split
      · exact .scalar trivial
      · split
        · exact htexts _
        · exact .scalar trivial

theorem addVariable_proper {e : Entries} (h : (Value.map e).Proper) (x : Variable) :
    (Value.map (addVariable e x)).Proper := by
  unfold addVariable
  split
  · exact h
  · split
    · rename_i e' hassign
      exact assign_proper (readVariable_proper x.2) h hassign
    · exact h

theorem environmentEntries_proper (vars : List Variable) :
    (Value.map (environmentEntries vars)).Proper :=
  List.foldlRecOn (motive := fun e => (Value.map e).Proper) vars addVariable Value.proper_nil
    fun _ h x _ => addVariable_proper h x

/-! ### Layers -/

namespace Layers

variable {l : Layers}

theorem Accepted.toProper (h : l.Accepted) : l.Proper := fun s => (h s).proper

theorem Proper.hold (h : l.Proper) {f : Entries Marked}
    (hf : (Value.map (Marked.entries f)).Proper) (source : Source) : (l.hold source f).Proper :=
  forall_layer_hold (P := fun e => (Value.map e).Proper) h source hf

theorem Proper.put (h : l.Proper) {e : Entries} (he : (Value.map e).Proper) (source : Source) :
    (l.put source e).Proper :=
  forall_layer_put (P := fun e => (Value.map e).Proper) h source he

theorem Proper.assign (h : l.Proper) {v : Value} (hv : v.Proper) {source : Source}
    {key : List String} {l' : Layers} (hassign : l.assign source key v = .ok l') : l'.Proper := by
  obtain ⟨w, hw, rfl⟩ := Yaml.map_eq_ok hassign
  rw [← Value.value_unmarked v] at hv
  exact h.hold (write_proper hv (h source) hw).fields source

theorem Proper.clear (h : l.Proper) (source : Source) : (l.clear source).Proper := by
  unfold Layers.clear
  split
  · exact h
  · exact h.put Value.proper_nil source

theorem Proper.clearAll (h : l.Proper) : l.clearAll.Proper :=
  List.foldlRecOn (motive := Layers.Proper) Source.rising Layers.clear h fun _ h s _ => h.clear s

theorem Proper.withEnvironment (h : l.Proper) (vars : List Variable) :
    (l.withEnvironment vars).Proper := by
  have hvars := environmentEntries_proper vars
  unfold Layers.withEnvironment
  split
  · exact h
  · exact h.put (Value.proper_singleton hvars) .environment

end Layers

/-! ### Calls -/

namespace Watched

/-- Something that is done with watched settings. -/
inductive Call where
  | loadValue (source : Source) (v : Value)
  | loadFile (reader : Yaml.Reader) (files : Files.Tree) (source : Source) (file : String)
  | assign (source : Source) (key : String) (v : Value)
  | clear (source : Option Source)
  | watch (name : String)
  | unwatch (name : String)

/-- Why a call is refused: a layer is not loaded, or something is in the way of an assignment. -/
inductive Refusal where
  | load (e : LoadError)
  | assign (o : Obstacle)

/-- A value that is loaded or set is proper; what a reader makes of a file always is. -/
def Call.Proper : Call → Prop
  | .loadValue _ v | .assign _ _ v => v.Proper
  | .loadFile .. | .clear _ | .watch _ | .unwatch _ => True

/-- The outcome of a call: the settings after it, and what the watchers are told. -/
def Call.outcome (w : Watched) : Call → Except Refusal (Watched × List Notice)
  | .loadValue source v => (w.loadValue source v).mapError .load
  | .loadFile reader files source file => (w.loadFile reader files source file).mapError .load
  | .assign source key v => (w.assign source key v).mapError .assign
  | .clear source => .ok (w.clear source, [])
  | .watch name => .ok (w.watch name, [])
  | .unwatch name => .ok (w.unwatch name, [])

/-- The settings after a call. -/
def call (w : Watched) (c : Call) : Watched :=
  match c.outcome w with
  | .ok (w', _) => w'
  | .error _ => w

/-- The settings after some calls. -/
def run (w : Watched) (calls : List Call) : Watched := calls.foldl call w

variable {w w' : Watched} {told : List Notice}

/-- A change that succeeds has the new layers and the old watchers, who are all told of it. -/
theorem change_eq_ok_iff {ε : Type} {layers : Except ε Layers} :
    w.change layers = .ok (w', told) ↔
      ∃ l, layers = .ok l ∧ w' = { w with layers := l } ∧ told = w'.tell := by
  cases layers with
  | error e => simp [change, Except.map]
  | ok l =>
    have hpair : w.change (.ok l : Except ε Layers) =
        .ok ({ w with layers := l }, { w with layers := l }.tell) := rfl
    simp only [hpair, Except.ok.injEq, Prod.mk.injEq, exists_eq_left']
    constructor
    · rintro ⟨rfl, rfl⟩
      exact ⟨rfl, rfl⟩
    · rintro ⟨rfl, rfl⟩
      exact ⟨rfl, rfl⟩

/-- The layers that a call leaves behind when it is not refused. -/
theorem outcome_layers_proper (h : w.layers.Proper) {c : Call} (hc : c.Proper)
    (houtcome : c.outcome w = .ok (w', told)) : w'.layers.Proper := by
  cases c with
  | loadValue source v =>
    obtain ⟨l, hl, rfl, -⟩ := change_eq_ok_iff.1 (Yaml.mapError_eq_ok houtcome)
    obtain ⟨e, he, rfl⟩ := Yaml.map_eq_ok hl
    exact h.put (layerOfValue_accepted hc he).proper source
  | loadFile reader files source file =>
    obtain ⟨l, hl, rfl, -⟩ := change_eq_ok_iff.1 (Yaml.mapError_eq_ok houtcome)
    obtain ⟨f, hf, rfl⟩ := Yaml.map_eq_ok hl
    exact h.hold (layerOfFile_accepted hf).proper source
  | assign source key v =>
    obtain ⟨l, hl, rfl, -⟩ := change_eq_ok_iff.1 (Yaml.mapError_eq_ok houtcome)
    exact h.assign hc hl
  | clear source =>
    cases houtcome
    cases source with
    | none => exact h.clearAll
    | some s => exact h.clear s
  | watch name =>
    cases houtcome
    exact h
  | unwatch name =>
    cases houtcome
    exact h

/-- A call keeps the layers proper. -/
theorem call_proper (h : w.layers.Proper) {c : Call} (hc : c.Proper) :
    (w.call c).layers.Proper := by
  unfold call
  split
  · rename_i w' told houtcome
    exact outcome_layers_proper h hc houtcome
  · exact h

theorem run_proper (h : w.layers.Proper) {calls : List Call} (hcalls : ∀ c ∈ calls, c.Proper) :
    (w.run calls).layers.Proper :=
  List.foldlRecOn (motive := fun w => w.layers.Proper) calls call h
    fun _ h c hc => call_proper h (hcalls c hc)

theorem start_proper {reader : Yaml.Reader} {files : Files.Tree} {file : String}
    {vars : List Variable} (h : start reader files file vars = .ok w) : w.layers.Proper := by
  have hinitial : Layers.initial.Proper := Layers.initial_accepted.toProper
  unfold start at h
  split at h
  · cases h
    exact hinitial.withEnvironment vars
  · obtain ⟨l, hl, rfl⟩ := Yaml.map_eq_ok h
    obtain ⟨f, hf, rfl⟩ := Yaml.map_eq_ok hl
    exact (hinitial.hold (layerOfFile_accepted hf).proper .user).withEnvironment vars

end Watched

end Settings

end PathSieve
