import PathSieve.Value.Printer

namespace PathSieve.Log

/-!
# Log entries

What is worth telling about an operation: a message with named details, which are written after
it.

* `withContext` — a message with its details.
* `Entry.text` — the text of an entry.
* `Entry.isWritable`, `Entry.fails` — whether an entry can be written, and whether telling it fails.
-/

/-- A message followed by its details, if it has any. -/
def withContext (message : String) (context : List (String × String)) : String :=
  if context.isEmpty then message
  else message ++ " | " ++ " ".intercalate (context.map fun c => c.1 ++ "=" ++ c.2)

/-- The parts of the library that tell what they do. -/
inductive Origin where
  | patterns
  | rules
  | command
  deriving DecidableEq, Repr

/-- The name under which a part of the library logs. -/
def Origin.loggerName : Origin → String
  | .patterns => "pathpattern.patterns"
  | .rules => "pathpattern.engine"
  | .command => "pathpattern.cli"

/-- Something told by a part of the library. -/
structure Entry where
  origin : Origin
  message : String
  details : List (String × Value)
  deriving Repr

namespace Entry

/-- The details of an entry as they are written. -/
def context (e : Entry) : List (String × String) := e.details.map fun d => (d.1, d.2.display)

/-- The text of an entry. -/
def text (e : Entry) : String := withContext e.message e.context

/-- Whether an entry can be written. -/
def isWritable (e : Entry) : Bool := e.details.all (·.2.isWritable)

/-- Whether an entry of a part that is heard cannot be written. -/
def fails (heard : Origin → Bool) (e : Entry) : Bool := heard e.origin && !e.isWritable

end Entry

end PathSieve.Log
