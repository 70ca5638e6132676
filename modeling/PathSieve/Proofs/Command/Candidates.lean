import PathSieve.Command.Run
import PathSieve.Proofs.Files.Likeness

namespace PathSieve

/-!
# Candidates of a run

A run looks for its candidates when its log is open. What it tells before goes to the file of the
log, which is there already, and so the candidates do not depend on it.

* `Log.Loggers.Sends` — where the records of loggers may go.
* `Command.Logging.Ready`, `Command.Logging.Ready.tell` — a log whose files are there.
* `Command.candidates_tell` — what is told does not change the candidates.
-/

namespace Log

/-! ### Outputs -/

namespace Loggers

variable {l : Loggers} {P : Output → Prop}

/-- All outputs of all channels are of some kind. -/
def Sends (l : Loggers) (P : Output → Prop) : Prop := ∀ c ∈ l.channels, ∀ o ∈ c.2.outputs, P o

theorem Sends.setChannel (h : l.Sends P) (name : String) {c : Channel} (hc : ∀ o ∈ c.outputs, P o) :
    (l.setChannel name c).Sends P := by
  intro x hx
  rcases List.mem_cons.1 hx with rfl | hx
  · exact hc
  · exact h x (List.mem_filter.1 hx).1

theorem Sends.configure (h : l.Sends P) (level : Level) {outputs : List Output}
    (houtputs : ∀ o ∈ outputs, P o) : (l.configure level outputs).Sends P :=
  List.foldlRecOn (motive := (Sends · P)) l.registered _ h fun _ h _ _ =>
    h.setChannel _ fun o ho => houtputs o (Channel.mem_ofOutputs.1 ho)

/-- A logger that is asked for sends nowhere new, or to a console. -/
theorem Sends.get (h : l.Sends P) (hconsole : ∀ number, P (.console number)) (name : String) :
    (l.get name).1.Sends P := by
  unfold Loggers.get
  split
  · exact h
  · refine Sends.setChannel (l := { l with names := l.names.push name }) h name fun o ho => ?_
    rw [List.mem_singleton.1 (Channel.mem_ofOutputs.1 ho)]
    exact hconsole _

theorem sends_initial (hconsole : ∀ number, P (.console number)) : initial.Sends P := by
  have hempty : empty.Sends P := fun _ hc => absurd hc List.not_mem_nil
  exact (hempty.get hconsole _).get hconsole _

theorem Sends.channel (h : l.Sends P) (name : String) : ∀ o ∈ (l.channel name).outputs, P o := by
  unfold Loggers.channel
  cases hc : l.channels.lookup (channelName name) with
  | none => exact fun _ ho => absurd ho List.not_mem_nil
  | some c =>
    obtain ⟨_, _, hchannels, -⟩ := List.lookup_eq_some_iff.1 hc
    exact h (channelName name, c) (by simp [hchannels])

/-- An entry is delivered to nothing but outputs of channels. -/
theorem Sends.tell (h : l.Sends P) (e : Entry) : ∀ d ∈ l.tell e, P d.1 := by
  intro d hd
  unfold Loggers.tell at hd
  split at hd
  · exact absurd hd List.not_mem_nil
  · unfold Loggers.log at hd
    dsimp only at hd
    split at hd
    · obtain ⟨o, ho, rfl⟩ := List.mem_map.1 hd
      exact h.channel _ o ho
    · exact absurd hd List.not_mem_nil

end Loggers

/-! ### Files of logs -/

/-- An output that is a file has one to write to. -/
def Output.IsThere (t : Files.Tree) : Output → Prop
  | .file place _ => t.Holds place
  | _ => True

theorem Output.IsThere.of_alike {t u : Files.Tree} {o : Output} (h : o.IsThere t) (hu : u.Alike t) :
    o.IsThere u := by
  cases o with
  | file place number => exact Files.Tree.Holds.of_alike h hu
  | collector number => trivial
  | console number => trivial

/-- Deliveries to files that are there change no place. -/
theorem deliverAll_alike {t : Files.Tree} {ds : List Delivery} (h : ∀ d ∈ ds, d.1.IsThere t) :
    (deliverAll t ds).Alike t := by
  induction ds generalizing t with
  | nil => exact .refl t
  | cons d ds ih =>
    have hd : (deliver t d).Alike t := by
      obtain ⟨o, r⟩ := d
      cases o with
      | file place number => exact Files.Tree.append_alike (h _ (List.mem_cons_self ..)) _
      | collector number => exact .refl t
      | console number => exact .refl t
    have hrest : ∀ x ∈ ds, x.1.IsThere (deliver t d) := fun x hx =>
      (h x (List.mem_cons_of_mem _ hx)).of_alike hd
    exact (ih hrest).trans hd

end Log

namespace Command

open Log (Output)

/-! ### Logs that are ready -/

namespace Logging

variable {g : Logging}

/-- All files that a log is written to are there. -/
def Ready (g : Logging) : Prop := g.loggers.Sends (Output.IsThere g.files)

theorem configured_ready (level : Log.Level) {outputs : List Output} {files : Files.Tree}
    (h : ∀ o ∈ outputs, o.IsThere files) : (configured level outputs files).Ready := by
  refine Log.Loggers.Sends.configure ?_ level h
  exact Log.Loggers.Sends.setChannel (l := { Log.Loggers.initial with names := _ })
    (Log.Loggers.sends_initial fun _ => trivial) _ fun _ ho => absurd ho List.not_mem_nil

/-- A log that has been started is ready. -/
theorem start_ready {l : Settings.Layers} {files : Files.Tree} (h : start l files = .ok g) :
    g.Ready := by
  simp only [start] at h
  split at h
  · cases h
  · split at h
    · unfold toFile at h
      split at h
      · split at h
        · rename_i hopen
          cases h
          refine configured_ready _ fun o ho => ?_
          rw [List.mem_singleton.1 ho]
          exact Files.Tree.holds_openLog hopen
        · cases h
      · cases h
    · cases h
      refine configured_ready _ fun o ho => ?_
      split at ho
      · rw [List.mem_singleton.1 ho]
        trivial
      · exact absurd ho List.not_mem_nil

theorem Ready.tellOne (h : g.Ready) (e : Log.Entry) :
    (g.tellOne e).Ready ∧ (g.tellOne e).files.Alike g.files := by
  have halike : (g.tellOne e).files.Alike g.files := Log.deliverAll_alike (h.tell e)
  exact ⟨fun c hc o ho => (h c hc o ho).of_alike halike, halike⟩

/-- What is told changes no place, and the log stays ready. -/
theorem Ready.tell (h : g.Ready) (es : List Log.Entry) :
    (g.tell es).1.Ready ∧ (g.tell es).1.files.Alike g.files := by
  induction es generalizing g with
  | nil => exact ⟨h, .refl _⟩
  | cons e es ih =>
    unfold Logging.tell
    split
    · exact ⟨h, .refl _⟩
    · obtain ⟨hone, halike⟩ := h.tellOne e
      obtain ⟨hready, hrest⟩ := ih hone
      exact ⟨hready, hrest.trans halike⟩

end Logging

/-! ### Candidates -/

variable {s : Surroundings}

theorem candidates_congr {t u : Files.Tree} (h : t.Alike u) (s : Surroundings) (o : Options) :
    candidates s t o = candidates s u o := by
  unfold candidates
  cases o.root with
  | none => rfl
  | some root => simp only [h.find?_eq, funext (h.walk_eq root)]

/-- The candidates are the same whatever is told before. -/
theorem candidates_tell {l : Settings.Layers} {g : Logging}
    (h : Logging.start l s.files = .ok g) (es : List Log.Entry) (o : Options) :
    candidates s (g.tell es).1.files o = candidates s g.files o :=
  candidates_congr ((Logging.start_ready h).tell es).2 s o

end Command

end PathSieve
