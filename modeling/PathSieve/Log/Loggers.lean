import PathSieve.Files.Basic
import PathSieve.Log.Record

namespace PathSieve.Log

/-!
# Loggers

Loggers are objects with a name. All loggers of one name share one channel, which has a level and
outputs, and one logger of each name may be registered. Contexts can be opened and closed; the
details of all open ones are added to every message.

* `Loggers.make`, `Loggers.get`, `Loggers.register` — the ways to a logger.
* `Loggers.configure`, `Loggers.setLevel`, `Loggers.attach`, `Loggers.addOutput`,
  `Loggers.removeOutput` — changes of channels.
* `Loggers.log` — the deliveries of a message: one record for each output of the channel.
-/

/-! ### Types -/

/-- Where records go. Outputs of one kind differ by their number. -/
inductive Output where
  | collector (number : Nat := 0)
  | console (number : Nat := 0)
  | file (place : Files.Location) (number : Nat := 0)
  deriving DecidableEq, Repr

namespace Output

/-- The number of an output. -/
def number : Output → Nat
  | .collector n | .console n | .file _ n => n

/-- Whether an output is a collector. -/
def isCollector : Output → Bool
  | .collector _ => true
  | _ => false

/-- Whether an output is a console. -/
def isConsole : Output → Bool
  | .console _ => true
  | _ => false

/-- The output to add where some are in use: a file is opened anew each time, so that it is none of
them. -/
def anew (used : List Output) : Output → Output
  | .file place _ => .file place ((used.map number).foldl max 0 + 1)
  | o => o

end Output

/-- What the loggers of one name share. -/
structure Channel where
  level : Level
  outputs : List Output
  deriving DecidableEq, Repr

namespace Channel

/-- The channel with one more output, unless it has it already. -/
def attach (c : Channel) (o : Output) : Channel :=
  if o ∈ c.outputs then c else { c with outputs := c.outputs ++ [o] }

/-- The channel without an output. -/
def detach (c : Channel) (o : Output) : Channel := { c with outputs := c.outputs.erase o }

/-- A channel whose outputs are attached one by one. -/
def ofOutputs (level : Level) (outputs : List Output) : Channel := outputs.foldl attach ⟨level, []⟩

variable {c : Channel} {o x : Output}

theorem mem_attach : x ∈ (c.attach o).outputs ↔ x ∈ c.outputs ∨ x = o := by
  unfold attach
  split
  · next h => exact ⟨.inl, fun hx => hx.elim id fun hx => hx ▸ h⟩
  · simp

@[simp] theorem level_attach (c : Channel) (o : Output) : (c.attach o).level = c.level := by
  unfold attach
  split <;> rfl

theorem mem_foldl_attach {outputs : List Output} :
    x ∈ (outputs.foldl attach c).outputs ↔ x ∈ c.outputs ∨ x ∈ outputs := by
  induction outputs generalizing c with
  | nil => simp
  | cons o outputs ih => rw [List.foldl_cons, ih, mem_attach, List.mem_cons, or_assoc]

theorem mem_ofOutputs {level : Level} {outputs : List Output} :
    x ∈ (ofOutputs level outputs).outputs ↔ x ∈ outputs := by
  rw [ofOutputs, mem_foldl_attach]
  simp

end Channel

/-- All loggers: their channels by name, the names of the logger objects by number, the registered
object of each name, and the open contexts from the outermost to the innermost. -/
structure Loggers where
  channels : List (String × Channel)
  names : Array String
  registered : List (String × Nat)
  contexts : List Context
  deriving Repr

/-- A record on its way to an output. -/
abbrev Delivery := Output × Record

namespace Loggers

/-! ### Channels -/

/-- The name of the channel of a logger; without a name it is the root channel. -/
def channelName (name : String) : String := if name = "" then "root" else name

/-- The channel of a name before it is set. -/
def freshChannel : Channel := ⟨.warning, []⟩

/-- The channel of a name. -/
def channel (l : Loggers) (name : String) : Channel :=
  (l.channels.lookup (channelName name)).getD freshChannel

/-- The loggers with another channel of a name. -/
def setChannel (l : Loggers) (name : String) (c : Channel) : Loggers :=
  { l with channels := (channelName name, c) :: l.channels.filter (·.1 ≠ channelName name) }

@[simp] theorem channel_setChannel (l : Loggers) (name : String) (c : Channel) :
    (l.setChannel name c).channel name = c := by simp [channel, setChannel]

/-- The name of a logger object. -/
def nameOf (l : Loggers) (object : Nat) : String := l.names.getD object ""

/-- The channel of a logger object. -/
def channelOf (l : Loggers) (object : Nat) : Channel := l.channel (l.nameOf object)

/-- Changes the channel of a logger object. -/
def modify (l : Loggers) (object : Nat) (f : Channel → Channel) : Loggers :=
  l.setChannel (l.nameOf object) (f (l.channelOf object))

/-! ### Objects -/

/-- Makes a logger object, which sets the channel of its name; the result has its number. -/
def make (l : Loggers) (name : String) (level : Level) (outputs : List Output) : Loggers × Nat :=
  ({ l with names := l.names.push name }.setChannel name (.ofOutputs level outputs), l.names.size)

/-- The output of a logger object that is made without any: a console of its own. -/
def ownConsole (l : Loggers) : Output := .console l.names.size

/-- Registers a logger object for its name. -/
def register (l : Loggers) (object : Nat) : Loggers :=
  let name := l.nameOf object
  { l with registered := (name, object) :: l.registered.filter (·.1 ≠ name) }

/-- The registered logger of a name; if there is none, one that warns on the console is made. -/
def get (l : Loggers) (name : String) : Loggers × Nat :=
  match l.registered.lookup name with
  | some object => (l, object)
  | none =>
    let (l', object) := l.make name .warning [l.ownConsole]
    (l'.register object, object)

/-- No loggers. -/
def empty : Loggers := ⟨[], #[], [], []⟩

/-- The loggers of the library itself: it asks for them when it is loaded. -/
def initial : Loggers :=
  ((empty.get Origin.patterns.loggerName).1.get Origin.rules.loggerName).1

/-! ### Changes -/

/-- Sets the level of a logger. -/
def setLevel (l : Loggers) (object : Nat) (level : Level) : Loggers :=
  l.modify object fun c => { c with level }

/-- Attaches an output to a logger. -/
def attach (l : Loggers) (object : Nat) (o : Output) : Loggers := l.modify object (·.attach o)

/-- Adds an output to a logger, where files are opened anew. -/
def addOutput (l : Loggers) (object : Nat) (o : Output) : Loggers :=
  l.attach object (o.anew (l.channelOf object).outputs)

/-- Removes an output from a logger. -/
def removeOutput (l : Loggers) (object : Nat) (o : Output) : Loggers :=
  l.modify object (·.detach o)

/-- Sets the level and the outputs of all registered loggers. -/
def configure (l : Loggers) (level : Level) (outputs : List Output) : Loggers :=
  l.registered.foldl (fun l r => l.modify r.2 fun _ => .ofOutputs level outputs) l

/-- Opens a context. -/
def push (l : Loggers) (c : Context) : Loggers := { l with contexts := l.contexts ++ [c] }

/-- Closes the innermost context. -/
def pop (l : Loggers) : Loggers := { l with contexts := l.contexts.dropLast }

/-- The loggers as they are seen from elsewhere, where no context is open. -/
def elsewhere (l : Loggers) : Loggers := { l with contexts := [] }

/-! ### Messages -/

/-- Whether a message of a level passes a logger. -/
def enabled (l : Loggers) (object : Nat) (level : Level) : Bool :=
  (l.channelOf object).level.passes level

/-- The details of a message: those of the open contexts, its own, and those of a failure. -/
def details (l : Loggers) (own : Context) (failure : Option Failure) : Context :=
  ((Context.mergeAll l.contexts).merge own).merge (failure.elim [] Failure.details)

/-- The deliveries of a message. -/
def log (l : Loggers) (object : Nat) (level : Level) (message : String) (own : Context)
    (failure : Option Failure) : List Delivery :=
  let record : Record :=
    ⟨channelName (l.nameOf object), level, message, l.details own failure, failure⟩
  if l.enabled object level then (l.channelOf object).outputs.map (·, record) else []

/-- Whether an entry passes the registered logger of its origin. -/
def takes (l : Loggers) (e : Entry) : Bool :=
  (l.registered.lookup e.origin.loggerName).any fun object => l.enabled object e.origin.level

/-- The deliveries of an entry, which is told by the registered logger of its origin. -/
def tell (l : Loggers) (e : Entry) : List Delivery :=
  match l.registered.lookup e.origin.loggerName with
  | none => []
  | some object => l.log object e.origin.level e.message e.context none

end Loggers

/-! ### Deliveries -/

/-- The records that the collector receives. -/
def collected (ds : List Delivery) : List Record :=
  (ds.filter (·.1.isCollector)).map (·.2)

/-- The text that the console receives. -/
def consoleText (ds : List Delivery) : String :=
  String.join ((ds.filter (·.1.isConsole)).map (·.2.line))

/-- The files after a delivery. -/
def deliver (t : Files.Tree) (d : Delivery) : Files.Tree :=
  match d.1 with
  | .file place _ => t.append place d.2.line
  | _ => t

/-- The files after some deliveries. -/
def deliverAll (t : Files.Tree) (ds : List Delivery) : Files.Tree := ds.foldl deliver t

/-! ### Names of details -/

/-- The names that a detail of a message, a failure or a context must not have, since they stand
for what is told itself. -/
def ownNames (ofMessage ofFailure : Bool) : List String :=
  "self" :: (if ofMessage then ["msg"] else []) ++ (if ofFailure then ["exc"] else [])

/-- Whether no detail has a name that it must not have. -/
def admissible (c : Context) (ofMessage ofFailure : Bool) : Bool :=
  c.all fun d => d.1 ∉ ownNames ofMessage ofFailure

end PathSieve.Log
