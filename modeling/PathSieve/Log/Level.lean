import PathSieve.Text.Upper
import PathSieve.Value.Printer

namespace PathSieve.Log

/-!
# Levels

How much a message matters. A level is given by its name in any case or by its number.

* `Level.ofName?`, `Level.ofValue` — the level that a name, or any value, stands for.
-/

/-- A level. -/
inductive Level where
  | debug
  | info
  | warning
  | error
  | critical
  deriving DecidableEq, Repr

/-- Why a value stands for no level. -/
inductive LevelError where
  | unknownName (name : String)
  | noLevel (shown : Value)

/-- The wording of an error. -/
def LevelError.message : LevelError → String
  | .unknownName s => Text.quote s
  | .noLevel v => v.literal ++ " is not a valid LogLevel"

namespace Level

/-- The number of a level. -/
def number : Level → Nat
  | .debug => 10
  | .info => 20
  | .warning => 30
  | .error => 40
  | .critical => 50

/-- The name of a level. -/
def name : Level → String
  | .debug => "DEBUG"
  | .info => "INFO"
  | .warning => "WARNING"
  | .error => "ERROR"
  | .critical => "CRITICAL"

/-- All levels. -/
def all : List Level := [.debug, .info, .warning, .error, .critical]

@[simp] theorem mem_all (l : Level) : l ∈ all := by cases l <;> simp [all]

/-- The level of a name, which may be written in any case. -/
def ofName? (s : String) : Option Level := all.find? (·.name = Text.upper s)

/-- The level of a number. -/
def ofNumber? (s : Scalar) : Option Level := all.find? fun l => s.eqv (.int l.number)

/-- The level that a value stands for. -/
def ofValue : Value → Except LevelError Level
  | .text s => match ofName? s with
    | some l => .ok l
    | none => .error (.unknownName (Text.upper s))
  | .scalar (.codes ps) => .error (.unknownName (Text.upper (Text.shownPoints ps)))
  | .scalar s => match ofNumber? s with
    | some l => .ok l
    | none => .error (.noLevel (.scalar s))
  | v => .error (.noLevel v)

/-- Whether a message of level `l` passes where `least` is the least level. -/
def passes (least l : Level) : Bool := least.number ≤ l.number

end Level

end PathSieve.Log
