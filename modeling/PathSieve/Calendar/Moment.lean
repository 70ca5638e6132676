import PathSieve.Calendar.Date

namespace PathSieve.Calendar

/-!
# Moments

A moment is a time of a day, down to the microsecond, on a clock whose distance from universal time
may be known.

* `Moment.make` — the moment of its parts, or what is wrong with them.
* `Moment.same` — whether two moments are one: clocks with a known distance are compared by what
  they say about universal time, and with no other clock.
* `Moment.text` — the form of a moment in ISO 8601, with a space before the time.
-/

/-- A time of a day; `offset` is the number of minutes by which the clock is ahead of universal
time, if that is known. -/
structure Moment where
  date : Date
  hour : Nat
  minute : Nat
  second : Nat
  micro : Nat
  offset : Option Int
  deriving DecidableEq, Repr

namespace Moment

/-- The minutes of a day. -/
def dayMinutes : Nat := 1440

/-- Checks a distance from universal time, which must be less than a day. -/
def checkOffset : Option Int → Except Fault Unit
  | some m => if m.natAbs < dayMinutes then .ok () else .error (.offset m)
  | none => .ok ()

/-- The moment with the date and the parts of `m`, which may be out of range. -/
def make (m : Moment) : Except Fault Moment := do
  checkOffset m.offset
  let _ ← Date.make m.date.year m.date.month m.date.day
  if 23 < m.hour then throw .hour
  if 59 < m.minute then throw .minute
  if 59 < m.second then throw .second
  return m

/-- The microseconds of universal time, if the distance of the clock is known. -/
def instant? (m : Moment) : Option Int :=
  m.offset.map fun offset =>
    let minutes : Int := ((m.date.ordinal * 24 + m.hour) * 60 + m.minute : Nat) - offset
    (minutes * 60 + m.second) * 1000000 + m.micro

/-- Whether two moments are one. -/
def same (m n : Moment) : Bool :=
  match m.instant?, n.instant? with
  | none, none => m = n
  | some a, some b => a = b
  | _, _ => false

/-! ### Text -/

/-- The form of a distance from universal time. -/
def offsetText (minutes : Int) : String :=
  (if minutes < 0 then "-" else "+") ++ padded 2 (minutes.natAbs / 60) ++ ":" ++
    padded 2 (minutes.natAbs % 60)

/-- The form of a moment. -/
def text (m : Moment) : String :=
  m.date.text ++ " " ++ padded 2 m.hour ++ ":" ++ padded 2 m.minute ++ ":" ++ padded 2 m.second ++
    (if m.micro = 0 then "" else "." ++ padded 6 m.micro) ++ m.offset.elim "" offsetText

end Moment

end PathSieve.Calendar
