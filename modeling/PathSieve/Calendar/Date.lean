namespace PathSieve.Calendar

/-!
# Dates

A date is a day of the Gregorian calendar, which is taken to hold for all years from 1 to 9999.

* `Date.make` — the date of three numbers, or what is wrong with them.
* `Date.ordinal` — the number of a day, by which dates of different months can be compared.
* `Date.text` — the form of a date in ISO 8601.
-/

/-- A day of the calendar. -/
structure Date where
  year : Nat
  month : Nat
  day : Nat
  deriving DecidableEq, Repr

/-- Which part of a date or of a time of day is out of range. -/
inductive Fault where
  | year (n : Nat)
  | month
  | day
  | hour
  | minute
  | second
  | offset (minutes : Int)
  deriving DecidableEq, Repr

/-! ### The calendar -/

/-- Whether a year has a leap day. -/
def isLeap (year : Nat) : Bool := year % 4 = 0 && (year % 100 ≠ 0 || year % 400 = 0)

/-- The number of days of a month. -/
def daysIn (year month : Nat) : Nat :=
  if month = 2 then (if isLeap year then 29 else 28)
  else if month ∈ [4, 6, 9, 11] then 30 else 31

namespace Date

/-- The date of three numbers. -/
def make (year month day : Nat) : Except Fault Date :=
  if year = 0 ∨ 9999 < year then .error (.year year)
  else if month = 0 ∨ 12 < month then .error .month
  else if day = 0 ∨ daysIn year month < day then .error .day
  else .ok ⟨year, month, day⟩

/-- The number of a day, where that of the first day of the year 1 is one. -/
def ordinal (d : Date) : Nat :=
  let y := d.year - 1
  let before := (List.range (d.month - 1)).foldl (fun n m => n + daysIn d.year (m + 1)) 0
  365 * y + y / 4 - y / 100 + y / 400 + before + d.day

end Date

/-! ### Text -/

/-- A number with zeros in front of it, up to a width. -/
def padded (width n : Nat) : String :=
  let s := toString n
  String.ofList (List.replicate (width - s.length) '0') ++ s

/-- The form of a date. -/
def Date.text (d : Date) : String :=
  padded 4 d.year ++ "-" ++ padded 2 d.month ++ "-" ++ padded 2 d.day

end PathSieve.Calendar
