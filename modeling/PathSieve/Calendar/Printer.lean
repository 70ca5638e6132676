import PathSieve.Calendar.Moment

namespace PathSieve.Calendar

/-!
# Dates in messages

The literal forms of dates and moments, which name their parts, and the wording of what can be
wrong with them.

* `Date.literal`, `Moment.literal` — the literal forms.
* `Fault.message` — the wording of a fault.
-/

/-- The numbers of a date. -/
def Date.parts (d : Date) : List Nat := [d.year, d.month, d.day]

/-- The literal form of a date. -/
def Date.literal (d : Date) : String :=
  "datetime.date(" ++ ", ".intercalate (d.parts.map toString) ++ ")"

/-- The literal form of a number of minutes: whole days, rounded down, and seconds. -/
def spanLiteral (minutes : Int) : String :=
  let days := minutes.fdiv Moment.dayMinutes
  let seconds := minutes.fmod Moment.dayMinutes * 60
  let parts := (if days = 0 then [] else ["days=" ++ toString days]) ++
    (if seconds = 0 then [] else ["seconds=" ++ toString seconds])
  "datetime.timedelta(" ++ (if parts.isEmpty then "0" else ", ".intercalate parts) ++ ")"

/-- The literal form of a distance from universal time. -/
def zoneLiteral (minutes : Int) : String :=
  if minutes = 0 then "datetime.timezone.utc"
  else "datetime.timezone(" ++ spanLiteral minutes ++ ")"

/-- The literal form of a moment; seconds and microseconds that are zero are left out at its
end. -/
def Moment.literal (m : Moment) : String :=
  let fine := if m.micro ≠ 0 then [m.second, m.micro] else if m.second ≠ 0 then [m.second] else []
  let numbers := (m.date.parts ++ [m.hour, m.minute] ++ fine).map toString
  let zone := (m.offset.map fun o => "tzinfo=" ++ zoneLiteral o).toList
  "datetime.datetime(" ++ ", ".intercalate (numbers ++ zone) ++ ")"

/-- The wording of a fault. -/
def Fault.message : Fault → String
  | .year n => "year " ++ toString n ++ " is out of range"
  | .month => "month must be in 1..12"
  | .day => "day is out of range for month"
  | .hour => "hour must be in 0..23"
  | .minute => "minute must be in 0..59"
  | .second => "second must be in 0..59"
  | .offset minutes => "offset must be a timedelta strictly between -timedelta(hours=24) and " ++
      "timedelta(hours=24), not " ++ spanLiteral minutes ++ "."

end PathSieve.Calendar
