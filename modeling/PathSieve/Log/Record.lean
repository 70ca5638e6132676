import PathSieve.Log.Entry
import PathSieve.Log.Level

namespace PathSieve.Log

/-!
# Records

A record is a message with its level, its details and the name of the logger that it was given to.

* `Context.merge` — details put together; a later one replaces an earlier one of the same name in
  its place.
* `Record.line` — the line of a record in a log.
-/

/-- The level at which a part of the library tells what it does. -/
def Origin.level : Origin → Level
  | .patterns | .rules => .debug
  | .command => .info

/-- Named details in the order of their first appearance. -/
abbrev Context := List (String × String)

namespace Context

/-- Sets a detail; one that is already there keeps its place. -/
def put (c : Context) (d : String × String) : Context :=
  if c.any (·.1 = d.1) then c.map fun x => if x.1 = d.1 then d else x else c ++ [d]

/-- The details of `c` and those of `d`, of which the latter win. -/
def merge (c d : Context) : Context := d.foldl put c

/-- The details of several contexts, from the outermost to the innermost. -/
def mergeAll (cs : List Context) : Context := cs.foldl merge []

end Context

/-- Something that went wrong and is told of: its kind and its text. -/
structure Failure where
  kind : String
  text : String
  deriving DecidableEq, Repr

/-- The details that tell of a failure. -/
def Failure.details (f : Failure) : Context :=
  [("exception_type", f.kind), ("exception_message", f.text)]

/-- The line that tells of a failure. -/
def Failure.line (f : Failure) : String :=
  if f.text = "" then f.kind ++ "\n" else f.kind ++ ": " ++ f.text ++ "\n"

/-- A record. -/
structure Record where
  logger : String
  level : Level
  message : String
  context : Context
  failure : Option Failure
  deriving DecidableEq, Repr

namespace Record

/-- The text of a record: its message with its details. -/
def text (r : Record) : String := withContext r.message r.context

/-- The line of a record in a log, without its end. -/
def head (r : Record) : String := r.logger ++ " - " ++ r.level.name ++ " - " ++ r.text

/-- The line of a record in a log, with that of its failure behind it; a failure needs no line end
in front of it if the text of the record already has one. -/
def line (r : Record) : String :=
  match r.failure with
  | none => r.head ++ "\n"
  | some f => r.head ++ (if r.text.toList.getLast? = some '\n' then "" else "\n") ++ f.line

end Record

end PathSieve.Log
