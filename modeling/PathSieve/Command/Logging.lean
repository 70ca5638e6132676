import PathSieve.Command.Outcome
import PathSieve.Log.Loggers
import PathSieve.Settings.Layers

namespace PathSieve.Command

/-!
# Logging of a run

The level and the file of the log are settings. Without a file the log is written to the console,
and only if the level is that of debugging.

* `Logging.start` — the logging that the settings ask for.
* `Logging.tell` — the log after some entries.
-/

/-- The key of a logging setting. -/
def loggingKey (name : String) : List String := [Settings.sectionName, "logging", name]

/-- Loggers, with what they have written so far to the console and to files. -/
structure Logging where
  loggers : Log.Loggers
  console : String
  files : Files.Tree

namespace Logging

/-- The logging with another level and outputs of all loggers, that of the command included. -/
def configured (level : Log.Level) (outputs : List Log.Output) (files : Files.Tree) : Logging :=
  let (l, object) := Log.Loggers.initial.make Log.Origin.command.loggerName level []
  ⟨(l.register object).configure level outputs, "", files⟩

/-- Whether the level of debugging is given by its name. -/
def isDebug (v : Value) : Bool :=
  match v with
  | .text s => Log.Level.ofName? s = some .debug
  | _ => false

/-- The logging to a file, which is made ready for it. -/
def toFile (level : Log.Level) (file : Value) (files : Files.Tree) : Except Break Logging :=
  match (Argument.value file).points? with
  | some path => match files.openLog path with
    | .ok (files, place) => .ok (configured level [.file place] files)
    | .error e => .error (.logFile e)
  | none => .error .wrongType

/-- The logging that the settings ask for. -/
def start (l : Settings.Layers) (files : Files.Tree) : Except Break Logging :=
  let levelValue := l.get (loggingKey "level") (.text "INFO")
  let file := l.get (loggingKey "file") .null
  match Log.Level.ofValue levelValue with
  | .error e => .error (.level e)
  | .ok level =>
    if file.truthy then toFile level file files
    else .ok (configured level (if isDebug levelValue then [.console] else []) files)

/-- The log after one more entry, which is told by the logger of its origin. -/
def tellOne (g : Logging) (e : Log.Entry) : Logging :=
  let ds := g.loggers.tell e
  { g with console := g.console ++ Log.consoleText ds, files := Log.deliverAll g.files ds }

/-- The log after some more entries, and whether all could be told: an entry that is to be written
and cannot be ends the telling. -/
def tell (g : Logging) : List Log.Entry → Logging × Bool
  | [] => (g, true)
  | e :: rest => if g.loggers.takes e && !e.isWritable then (g, false) else (g.tellOne e).tell rest

end Logging

end PathSieve.Command
