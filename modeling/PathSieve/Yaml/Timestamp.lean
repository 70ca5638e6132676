import PathSieve.Calendar.Moment
import PathSieve.Yaml.Cursor

namespace PathSieve.Yaml

/-!
# Timestamps

A plain scalar may have the form of a date, or of a date with a time of day, which may go on with
the distance of its clock from universal time.

* `date?`, `moment?` — the two forms, whose numbers may still be out of range.
-/

open Calendar (Date Moment)

/-! ### Pieces -/

/-- A number of at most `most` digits, and at least `least`, at the head of a text. -/
def number? (least most : Nat) (cs : List Char) : Option (Nat × List Char) :=
  let ds := (cs.take most).takeWhile Char.isDigit
  if ds.length < least then none
  else some (ds.foldl (fun n c => 10 * n + (c.toNat - '0'.toNat)) 0, cs.drop ds.length)

/-- The text behind a character that must come next. -/
def behind? (c : Char) : List Char → Option (List Char)
  | d :: cs => if d = c then some cs else none
  | [] => none

/-- Three numbers with hyphens between them, the latter two of at least `least` digits. -/
def dayOf? (least : Nat) (cs : List Char) : Option (Date × List Char) := do
  let (year, cs) ← number? 4 4 cs
  let (month, cs) ← number? least 2 (← behind? '-' cs)
  let (day, cs) ← number? least 2 (← behind? '-' cs)
  return (⟨year, month, day⟩, cs)

/-- What stands between a date and a time of day: a letter, or spaces and tabs. -/
def gap? : List Char → Option (List Char)
  | [] => none
  | c :: cs =>
    if c = 'T' ∨ c = 't' then some cs
    else if isSpaceOrTab c then some (cs.dropWhile isSpaceOrTab) else none

/-- The microseconds behind a point, and what follows them; digits beyond the sixth say nothing. -/
def fraction (cs : List Char) : Nat × List Char :=
  match cs with
  | '.' :: rest =>
    let ds := rest.takeWhile Char.isDigit
    let six := (ds ++ List.replicate 6 '0').take 6
    (((number? 6 6 six).map (·.1)).getD 0, rest.drop ds.length)
  | cs => (0, cs)

/-- The distance from universal time at the end of a text; where there is none, nothing may come
but its end. -/
def zone? (cs : List Char) : Option (Option Int) :=
  match cs.dropWhile isSpaceOrTab with
  | [] => if cs.isEmpty then some none else none
  | 'Z' :: rest => if rest.isEmpty then some (some 0) else none
  | sign :: rest => do
    if sign ≠ '+' ∧ sign ≠ '-' then none
    let (hours, rest) ← number? 1 2 rest
    let (minutes, rest) ← if rest.isEmpty then some (0, []) else number? 2 2 (← behind? ':' rest)
    if rest.isEmpty then
      let n : Int := (hours * 60 + minutes : Nat)
      some (some (if sign = '-' then -n else n))
    else none

/-! ### The two forms -/

/-- The date that a text has the form of. -/
def date? (cs : List Char) : Option Date :=
  match dayOf? 2 cs with
  | some (d, []) => some d
  | _ => none

/-- The moment that a text has the form of. -/
def moment? (cs : List Char) : Option Moment := do
  let (date, cs) ← dayOf? 1 cs
  let (hour, cs) ← number? 1 2 (← gap? cs)
  let (minute, cs) ← number? 2 2 (← behind? ':' cs)
  let (second, cs) ← number? 2 2 (← behind? ':' cs)
  let (micro, cs) := fraction cs
  return ⟨date, hour, minute, second, micro, ← zone? cs⟩

end PathSieve.Yaml
