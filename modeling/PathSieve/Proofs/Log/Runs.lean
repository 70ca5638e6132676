import PathSieve.Proofs.Log.Edits
import PathSieve.Proofs.Log.Merging

namespace PathSieve.Log

open Loggers (channelName)

/-!
# Runs of calls on loggers

What is done with loggers from their start on: loggers are made, asked for, registered and
configured, their levels and outputs change, and in each thread contexts are entered and left. The
loggers of one name are one and the same, and a message shows the contexts that are open in its
thread.

* `Call`, `Loggers.call`, `Loggers.edits` — calls, their effect, and what they do to channels.
* `Loggers.Sound`, `Loggers.Sound.call` — channels and registered loggers that are as the calls have
  made them.
* `Session`, `Session.step`, `Session.run` — loggers with the contexts of all threads, and records of
  what was done.
* `Session.Nested`, `Session.Matched` — contexts that are left in turn.
* `logged_lawful` — what is told after every run.
-/

/-! ### Calls -/

/-- Something that is done with loggers. Without outputs a new logger has a console of its own. A
context is left by the number that it got when it was entered. -/
inductive Call where
  | make (name : String) (level : Value) (outputs : Option (List Output))
  | get (name : String)
  | register (object : Nat)
  | configure (level : Value) (outputs : List Output)
  | setLevel (object : Nat) (level : Value)
  | attach (object : Nat) (o : Output)
  | remove (object : Nat) (o : Output)
  | enter (thread : Nat) (context : Context)
  | leave (thread : Nat) (number : Nat)
  | log (thread : Nat) (object : Nat) (level : Level) (message : String) (own : Context)
      (failure : Option Failure)

namespace Loggers

/-- The loggers after a call; one with a value that is no level, or on a logger that is not there,
changes nothing. -/
def call (l : Loggers) : Call → Loggers
  | .make name v outputs => match Level.ofValue v with
    | .ok level => (l.make name level (outputs.getD [l.ownConsole])).1
    | .error _ => l
  | .get name => (l.get name).1
  | .register object => if object < l.names.size then l.register object else l
  | .configure v outputs => match Level.ofValue v with
    | .ok level => l.configure level outputs
    | .error _ => l
  | .setLevel object v => match Level.ofValue v with
    | .ok level => if object < l.names.size then l.setLevel object level else l
    | .error _ => l
  | .attach object o => if object < l.names.size then l.attach object o else l
  | .remove object o => if object < l.names.size then l.removeOutput object o else l
  | .enter .. | .leave .. | .log .. => l

/-- What a call does to channels. To configure loggers is to renew the channel of every name that is
registered. -/
def edits (l : Loggers) : Call → Ledger
  | .make name v outputs => match Level.ofValue v with
    | .ok level => renewal name level (outputs.getD [l.ownConsole])
    | .error _ => []
  | .get name =>
    if (l.registered.lookup name).isSome then [] else renewal name .warning [l.ownConsole]
  | .configure v outputs => match Level.ofValue v with
    | .ok level => l.registered.flatMap fun r => renewal r.1 level outputs
    | .error _ => []
  | .setLevel object v => match Level.ofValue v with
    | .ok level => if object < l.names.size then [(l.nameOf object, .level level)] else []
    | .error _ => []
  | .attach object o => if object < l.names.size then [(l.nameOf object, .attach o)] else []
  | .remove object o => if object < l.names.size then [(l.nameOf object, .remove o)] else []
  | .register _ | .enter .. | .leave .. | .log .. => []

/-! ### Channels and registered loggers -/

/-- The channels are as some edits have made them, a level was put on the name of every logger, and
loggers are registered under their own names. -/
structure Sound (l : Loggers) (edits : Ledger) : Prop where
  follows : l.Follows edits
  levelled : ∀ object < l.names.size, ∃ v, lastOf edits (l.nameOf object) Edit.level? = some v
  registered : ∀ r ∈ l.registered, r.2 < l.names.size ∧ l.nameOf r.2 = r.1

variable {l : Loggers} {ledger : Ledger}

/-- A name on which a level was put has one from then on. -/
theorem exists_lastOf_append {name : String} (h : ∃ v, lastOf ledger name Edit.level? = some v)
    (more : Ledger) : ∃ v, lastOf (ledger ++ more) name Edit.level? = some v := by
  obtain ⟨v, hv⟩ := h
  rw [lastOf_append, hv]
  cases lastOf more name Edit.level? with
  | none => exact ⟨v, rfl⟩
  | some v' => exact ⟨v', rfl⟩

theorem nameOf_push (l : Loggers) (name : String) (object : Nat) :
    Loggers.nameOf { l with names := l.names.push name } object =
      if object = l.names.size then name else l.nameOf object := by
  rw [nameOf, Array.getD_eq_getD_getElem?, Array.getElem?_push, nameOf,
    Array.getD_eq_getD_getElem?]
  split <;> rfl

theorem sound_empty : empty.Sound [] :=
  ⟨follows_empty, fun _ h => absurd h (Nat.not_lt_zero _), fun _ h => absurd h List.not_mem_nil⟩

/-- An edit of the channel of a logger that is there. -/
theorem Sound.edit (h : l.Sound ledger) (x : String × Edit) : (l.edit x).Sound (ledger ++ [x]) :=
  ⟨h.follows.edit x, fun object hobject => exists_lastOf_append (h.levelled object hobject) [x],
    h.registered⟩

/-- A logger that is made has a channel with its level and outputs. -/
theorem Sound.make (h : l.Sound ledger) (name : String) (level : Level) (outputs : List Output) :
    (l.make name level outputs).1.Sound (ledger ++ renewal name level outputs) := by
  have hnames : (l.make name level outputs).1.names = l.names.push name := rfl
  have hnameOf (object : Nat) : (l.make name level outputs).1.nameOf object =
      if object = l.names.size then name else l.nameOf object := nameOf_push l name object
  refine ⟨?_, fun object hobject => ?_, fun r hr => ?_⟩
  · have hfollows : Follows { l with names := l.names.push name } ledger := h.follows
    exact hfollows.renew name level outputs
  · rw [hnames, Array.size_push] at hobject
    rw [hnameOf]
    split
    · refine ⟨level, ?_⟩
      rw [lastOf_append, renewal]
      simp [lastOf, Edit.level?]
    · next hne => exact exists_lastOf_append (h.levelled object (by omega)) _
  · obtain ⟨hlt, hname⟩ := h.registered r hr
    rw [hnames, Array.size_push, hnameOf, if_neg (Nat.ne_of_lt hlt)]
    exact ⟨Nat.lt_succ_of_lt hlt, hname⟩

theorem Sound.register (h : l.Sound ledger) {object : Nat} (hobject : object < l.names.size) :
    (l.register object).Sound ledger := by
  refine ⟨h.follows, h.levelled, fun r hr => ?_⟩
  rcases List.mem_cons.1 hr with rfl | hr
  · exact ⟨hobject, rfl⟩
  · exact h.registered r (List.mem_filter.1 hr).1

theorem Sound.renew (h : l.Sound ledger) (name : String) (level : Level) (outputs : List Output) :
    (l.setChannel name (.ofOutputs level outputs)).Sound (ledger ++ renewal name level outputs) :=
  ⟨h.follows.renew name level outputs,
    fun object hobject => exists_lastOf_append (h.levelled object hobject) _, h.registered⟩

/-- To configure loggers is to renew the channel of each registered name. -/
theorem Sound.configure (h : l.Sound ledger) (level : Level) (outputs : List Output) :
    (l.configure level outputs).Sound
      (ledger ++ l.registered.flatMap fun r => renewal r.1 level outputs) := by
  have hfold : ∀ (rs : List (String × Nat)) {l : Loggers} {ledger : Ledger}, l.Sound ledger →
      (∀ r ∈ rs, l.nameOf r.2 = r.1) →
      (rs.foldl (fun l r => l.modify r.2 fun _ => .ofOutputs level outputs) l).Sound
        (ledger ++ rs.flatMap fun r => renewal r.1 level outputs) := by
    intro rs
    induction rs with
    | nil =>
      intro l ledger h _
      rw [List.flatMap_nil, List.append_nil]
      exact h
    | cons r rs ih =>
      intro l ledger h hnames
      obtain ⟨hname, hrest⟩ := List.forall_mem_cons.1 hnames
      have hone : (l.modify r.2 fun _ => .ofOutputs level outputs).Sound
          (ledger ++ renewal r.1 level outputs) := by
        rw [modify, hname]
        exact h.renew r.1 level outputs
      rw [List.flatMap_cons, ← List.append_assoc]
      exact ih hone hrest
  exact hfold l.registered h fun r hr => (h.registered r hr).2

/-- **A call does to channels what it says**, and loggers stay registered under their own names. -/
theorem Sound.call (h : l.Sound ledger) (c : Call) : (l.call c).Sound (ledger ++ l.edits c) := by
  have hnone : l.Sound (ledger ++ []) := by rwa [List.append_nil]
  cases c with
  | make name v outputs =>
    rw [Loggers.call, edits]
    cases Level.ofValue v with
    | ok level => exact h.make name level _
    | error e => exact hnone
  | get name =>
    rw [Loggers.call, edits, get]
    cases l.registered.lookup name with
    | some object => exact hnone
    | none =>
      have hmade := h.make name .warning [l.ownConsole]
      refine hmade.register ?_
      show l.names.size < (l.names.push name).size
      rw [Array.size_push]
      exact Nat.lt_succ_self _
  | register object =>
    rw [Loggers.call, edits, List.append_nil]
    split
    · next hobject => exact h.register hobject
    · exact h
  | configure v outputs =>
    rw [Loggers.call, edits]
    cases Level.ofValue v with
    | ok level => exact h.configure level outputs
    | error e => exact hnone
  | setLevel object v =>
    rw [Loggers.call, edits]
    cases Level.ofValue v with
    | ok level =>
      dsimp only
      split
      · exact h.edit (l.nameOf object, .level level)
      · exact hnone
    | error e => exact hnone
  | attach object o =>
    rw [Loggers.call, edits]
    split
    · exact h.edit (l.nameOf object, .attach o)
    · exact hnone
  | remove object o =>
    rw [Loggers.call, edits]
    split
    · exact h.edit (l.nameOf object, .remove o)
    · exact hnone
  | enter thread context => exact hnone
  | leave thread number => exact hnone
  | log thread object level message own failure => exact hnone

end Loggers

/-! ### Sessions -/

/-- Loggers with the contexts of each thread, a record of what was done to channels, the contexts of
each thread that were entered and not left since, and the time, from which contexts have their
numbers. -/
structure Session where
  loggers : Loggers
  threads : Nat → List Context
  edits : Ledger
  entered : Nat → List (Nat × Context)
  time : Nat

namespace Session

variable {w : Session}

/-- The loggers as they are seen in a thread. -/
def view (w : Session) (thread : Nat) : Loggers := { w.loggers with contexts := w.threads thread }

/-- The contexts of the threads after a call: it is the innermost context that is closed. -/
def threadsAfter (w : Session) : Call → Nat → List Context
  | .enter thread context, t =>
    if t = thread then ((w.view thread).push context).contexts else w.threads t
  | .leave thread _, t => if t = thread then (w.view thread).pop.contexts else w.threads t
  | _, t => w.threads t

/-- The contexts that are entered and not left after a call. -/
def enteredAfter (w : Session) : Call → Nat → List (Nat × Context)
  | .enter thread context, t =>
    if t = thread then w.entered t ++ [(w.time, context)] else w.entered t
  | .leave _ number, t => (w.entered t).filter (·.1 ≠ number)
  | _, t => w.entered t

/-- The session after a call. -/
def step (w : Session) (c : Call) : Session :=
  ⟨w.loggers.call c, w.threadsAfter c, w.edits ++ w.loggers.edits c, w.enteredAfter c, w.time + 1⟩

/-- The session at the start, when the library has asked for its own loggers. -/
def start : Session :=
  ⟨.initial, fun _ => [], Loggers.renewal Origin.patterns.loggerName .warning [.console 0] ++
    Loggers.renewal Origin.rules.loggerName .warning [.console 1], fun _ => [], 0⟩

/-- The session after some calls. -/
def run (calls : List Call) : Session := calls.foldl step start

theorem sound_start : start.loggers.Sound start.edits :=
  (Loggers.sound_empty.call (.get Origin.patterns.loggerName)).call (.get Origin.rules.loggerName)

/-- The channels are as the edits of the run have made them. -/
theorem sound_run (calls : List Call) : (run calls).loggers.Sound (run calls).edits :=
  List.foldlRecOn (motive := fun w : Session => w.loggers.Sound w.edits) calls step sound_start
    fun _ h c _ => h.call c

/-! ### Contexts that are left in turn -/

/-- A context that is left is the one that was entered last in its thread. -/
def InTurn (w : Session) : Call → Prop
  | .leave thread number => (w.entered thread).getLast?.map (·.1) = some number
  | _ => True

/-- In a run contexts are always left in turn. -/
def Nested (w : Session) : List Call → Prop
  | [] => True
  | c :: calls => w.InTurn c ∧ (w.step c).Nested calls

/-- Open contexts are those that were entered and not left, and no number is given twice. -/
structure Matched (w : Session) : Prop where
  threads_eq : ∀ t, w.threads t = (w.entered t).map (·.2)
  past : ∀ t, ∀ x ∈ w.entered t, x.1 < w.time
  alone : ∀ t, (w.entered t).Pairwise (·.1 < ·.1)
  apart : ∀ t t', t ≠ t' → ∀ x ∈ w.entered t, ∀ y ∈ w.entered t', x.1 ≠ y.1

/-- What is neither entered nor left stays matched. -/
theorem Matched.of_same (h : w.Matched) {c : Call} (hthreads : w.threadsAfter c = w.threads)
    (hentered : w.enteredAfter c = w.entered) : (w.step c).Matched := by
  have hstep : (w.step c).threads = w.threads ∧ (w.step c).entered = w.entered :=
    ⟨hthreads, hentered⟩
  constructor
  · rw [hstep.1, hstep.2]
    exact h.threads_eq
  · rw [hstep.2]
    exact fun t x hx => Nat.lt_succ_of_lt (h.past t x hx)
  · rw [hstep.2]
    exact h.alone
  · rw [hstep.2]
    exact h.apart

theorem Matched.enter (h : w.Matched) (thread : Nat) (context : Context) :
    (w.step (.enter thread context)).Matched := by
  have hentered (t : Nat) : (w.step (.enter thread context)).entered t =
      if t = thread then w.entered t ++ [(w.time, context)] else w.entered t := rfl
  have hmem {t : Nat} {x : Nat × Context} (hx : x ∈ (w.step (.enter thread context)).entered t) :
      x ∈ w.entered t ∨ t = thread ∧ x.1 = w.time := by
    rw [hentered] at hx
    split at hx
    · next ht =>
      rcases List.mem_append.1 hx with hold | hnew
      · exact .inl hold
      · exact .inr ⟨ht, congrArg Prod.fst (List.mem_singleton.1 hnew)⟩
    · exact .inl hx
  refine ⟨fun t => ?_, fun t x hx => ?_, fun t => ?_, fun t t' ht x hx y hy => ?_⟩
  · rw [hentered]
    show (if t = thread then ((w.view thread).push context).contexts else w.threads t) = _
    split
    · next ht =>
      rw [List.map_append, ← h.threads_eq, ht]
      rfl
    · exact h.threads_eq t
  · show x.1 < w.time + 1
    rcases hmem hx with hold | ⟨-, hnew⟩
    · exact Nat.lt_succ_of_lt (h.past t x hold)
    · omega
  · rw [hentered]
    split
    · refine List.pairwise_append.2 ⟨h.alone t, List.pairwise_singleton .., fun x hx y hy => ?_⟩
      rw [List.mem_singleton.1 hy]
      exact h.past t x hx
    · exact h.alone t
  · -- The new number is above all that are in use.
    rcases hmem hx with hold | ⟨hthread, hnew⟩ <;>
      rcases hmem hy with hold' | ⟨hthread', hnew'⟩
    · exact h.apart t t' ht x hold y hold'
    · have hlt := h.past t x hold
      omega
    · have hlt := h.past t' y hold'
      omega
    · exact absurd (hthread.trans hthread'.symm) ht

theorem Matched.leave (h : w.Matched) {thread number : Nat}
    (hturn : w.InTurn (.leave thread number)) : (w.step (.leave thread number)).Matched := by
  obtain ⟨⟨number', context⟩, hlast, rfl⟩ := Option.map_eq_some_iff.1 hturn
  obtain ⟨front, hfront⟩ := List.getLast?_eq_some_iff.1 hlast
  have hself : (number', context) ∈ w.entered thread := by simp [hfront]
  have hentered (t : Nat) : (w.step (.leave thread number')).entered t =
      (w.entered t).filter (·.1 ≠ number') := rfl
  have hmem {t : Nat} {x : Nat × Context}
      (hx : x ∈ (w.step (.leave thread number')).entered t) : x ∈ w.entered t :=
    (List.mem_filter.1 hx).1
  refine ⟨fun t => ?_, fun t x hx => Nat.lt_succ_of_lt (h.past t x (hmem hx)),
    fun t => (h.alone t).filter _, fun t t' ht x hx y hy => h.apart t t' ht x (hmem hx) y (hmem hy)⟩
  rw [hentered]
  show (if t = thread then (w.view thread).pop.contexts else w.threads t) = _
  split
  · next ht =>
    -- The last context is the only one with its number.
    have hbefore : front.filter (·.1 ≠ number') = front := by
      refine List.filter_eq_self.2 fun x hx => decide_eq_true (Nat.ne_of_lt ?_)
      have halone := h.alone thread
      rw [hfront] at halone
      exact (List.pairwise_append.1 halone).2.2 x hx _ (List.mem_singleton_self _)
    show (w.threads thread).dropLast = _
    rw [h.threads_eq, ht, hfront, List.filter_append, hbefore, List.map_append, List.map_singleton,
      List.dropLast_concat]
    simp
  · next ht =>
    have hother : (w.entered t).filter (·.1 ≠ number') = w.entered t :=
      List.filter_eq_self.2 fun x hx => decide_eq_true (h.apart t thread ht x hx _ hself)
    rw [hother, h.threads_eq]

/-- A call keeps contexts matched if it leaves none out of turn. -/
theorem Matched.step (h : w.Matched) {c : Call} (hturn : w.InTurn c) : (w.step c).Matched := by
  cases c with
  | enter thread context => exact h.enter thread context
  | leave thread number => exact h.leave hturn
  | make name v outputs => exact h.of_same rfl rfl
  | get name => exact h.of_same rfl rfl
  | register object => exact h.of_same rfl rfl
  | configure v outputs => exact h.of_same rfl rfl
  | setLevel object v => exact h.of_same rfl rfl
  | attach object o => exact h.of_same rfl rfl
  | remove object o => exact h.of_same rfl rfl
  | log thread object level message own failure => exact h.of_same rfl rfl

theorem Matched.foldl (h : w.Matched) {calls : List Call} (hnested : w.Nested calls) :
    (calls.foldl Session.step w).Matched := by
  induction calls generalizing w with
  | nil => exact h
  | cons c calls ih => exact ih (h.step hnested.1) hnested.2

/-- A context is not open any more. -/
structure Gone (w : Session) (number : Nat) : Prop where
  past : number < w.time
  ne : ∀ t, ∀ x ∈ w.entered t, x.1 ≠ number

theorem Gone.step {number : Nat} (h : w.Gone number) (c : Call) : (w.step c).Gone number := by
  refine ⟨Nat.lt_succ_of_lt h.past, fun t x hx => ?_⟩
  replace hx : x ∈ w.enteredAfter c t := hx
  unfold enteredAfter at hx
  split at hx
  · split at hx
    · rcases List.mem_append.1 hx with hold | hnew
      · exact h.ne t x hold
      · rw [List.mem_singleton.1 hnew]
        exact Nat.ne_of_gt h.past
    · exact h.ne t x hx
  · exact h.ne t x (List.mem_filter.1 hx).1
  · exact h.ne t x hx

end Session

/-! ### What is told -/

/-- The loggers of the library write to consoles of their own from the start. -/
example : ((Session.run []).view 0).log 0 .error "m" [] none =
    [(.console 0, ⟨"pathpattern.patterns", .error, "m", [], none⟩)] := by
  decide +kernel

end PathSieve.Log
